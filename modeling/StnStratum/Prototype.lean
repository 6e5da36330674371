import StnStratum.Service
import Mathlib.Data.List.GetD

/-!
# The session prototype

`stn_stratum.c` is a session with Chain behind it, apart from the live server:
a miner subscribes, registers its identity, gets a job and submits. An
identity is the same 69 bytes that an ADDRESS carries, `stn0_` and 64
characters, and both ways it ends up in the same field of a SUBMIT_WORK. The
two checks of it do not agree: the prototype wants the last of the 69 bytes to
be zero, where the live server wants a character. So no identity passes both
(`not_both_accept`), and they agree on those that neither accepts.
-/

/-- **`stn_stratum_status`.** -/
inductive StratumStatus where
  | ok
  | argument
  /-- `STN_STRATUM_STRUCTURE`. -/
  | badStructure
  | profile
  | base
  | provider
  | noJob
  | stale
  | duplicate
  | rejected
  | capacity
  deriving DecidableEq

/-- `STN_STRATUM_MINER_IDENTITY_SIZE`. -/
abbrev stratumMinerIdentitySize : ℕ := 69

/-- `STN_STRATUM_DUPLICATE_CAPACITY`. -/
abbrev stratumDuplicateCapacity : ℕ := 64

/-- **`stn_stratum_session`.** -/
structure StratumSession where
  /-- Its number. -/
  sessionId : UInt64
  /-- The nonces submitted, in the front of the array. -/
  submitted : Vector UInt64 stratumDuplicateCapacity
  /-- How many there are. -/
  submittedCount : ℕ
  /-- The identity, if `identityRegistered`. -/
  minerIdentity : Buf stratumMinerIdentitySize
  /-- Whether the miner has registered. -/
  identityRegistered : Bool
  /-- Whether it has subscribed. -/
  subscribed : Bool

namespace StratumSession

/-- `stn_stratum_session_init`. -/
def init (id : UInt64) : StratumSession where
  sessionId := id
  submitted := Vector.replicate _ 0
  submittedCount := 0
  minerIdentity := Buf.zero _
  identityRegistered := false
  subscribed := false

/-- **`stn_stratum_register_identity`**, for a session and an identity that
are there. -/
def registerIdentity (s : StratumSession)
    (minerIdentity : Buf stratumMinerIdentitySize) :
    StratumStatus × StratumSession :=
  if slice minerIdentity.bytes 0 5 ≠ addressPrefix
      ∨ minerIdentity.bytes.getD (stratumMinerIdentitySize - 1) 0 ≠ 0 then
    (.badStructure, s)
  else
    (.ok, { s with
      minerIdentity := minerIdentity
      identityRegistered := true })

end StratumSession

/-! ## The two checks -/

/-- The ADDRESS that carries an identity. -/
def addressCarrying (minerIdentity : Buf stratumMinerIdentitySize) : Bytes :=
  Miner.magic ++ [Miner.version, Miner.address, 0, 0] ++ minerIdentity.bytes

section Identity

variable (minerIdentity : Buf stratumMinerIdentitySize)

/-- What the session prototype accepts. -/
theorem registerIdentity_ok_iff (s : StratumSession) :
    (s.registerIdentity minerIdentity).1 = .ok
      ↔ slice minerIdentity.bytes 0 5 = addressPrefix
        ∧ minerIdentity.bytes.getD 68 0 = 0 := by
  unfold StratumSession.registerIdentity
  split
  next h =>
    refine ⟨fun hs => (nomatch hs), fun ⟨hp, hl⟩ => ?_⟩
    exact absurd h (not_or.mpr ⟨not_not.mpr hp, not_not.mpr hl⟩)
  next h =>
    obtain ⟨hp, hl⟩ := not_or.mp h
    exact ⟨fun _ => ⟨not_not.mp hp, not_not.mp hl⟩, fun _ => rfl⟩

/-- What the live server accepts in an ADDRESS. -/
theorem addressValid_carrying_iff :
    addressValid (addressCarrying minerIdentity) = true
      ↔ slice minerIdentity.bytes 0 5 = addressPrefix
        ∧ (slice minerIdentity.bytes 5 64).all hexDigit = true := by
  have hheader : Miner.headerValid (addressCarrying minerIdentity) = true :=
    rfl
  have htype : (addressCarrying minerIdentity).getD 5 0 = Miner.address := rfl
  have hprefix : slice (addressCarrying minerIdentity) 8 5
      = slice minerIdentity.bytes 0 5 :=
    slice_append_right (Miner.magic ++ [Miner.version, Miner.address, 0, 0])
      minerIdentity.bytes 0 5
  have hdigits : slice (addressCarrying minerIdentity) 13 64
      = slice minerIdentity.bytes 5 64 :=
    slice_append_right (Miner.magic ++ [Miner.version, Miner.address, 0, 0])
      minerIdentity.bytes 5 64
  unfold addressValid
  rw [hheader, htype, hprefix, hdigits, beq_self_eq_true, Bool.and_self,
    Bool.true_and, Bool.and_eq_true, beq_iff_eq]

/-- The last of the characters is the last byte. -/
theorem last_of_all_hexDigit
    (h : (slice minerIdentity.bytes 5 64).all hexDigit = true) :
    minerIdentity.bytes.getD 68 0 ≠ 0 := by
  have hlen : minerIdentity.bytes.length = 69 := minerIdentity.size
  have hlast : minerIdentity.bytes.getD 68 0
      ∈ slice minerIdentity.bytes 5 64 := by
    rw [slice, List.getD_eq_getElem _ _ (by omega)]
    refine List.mem_iff_getElem.mpr ⟨63, ?_, ?_⟩
    · rw [List.length_take, List.length_drop, hlen]
      decide
    · rw [List.getElem_take, List.getElem_drop]
  intro h0
  have := List.all_eq_true.mp h _ hlast
  rw [h0] at this
  exact absurd this (by decide)

/-- **No identity is accepted by both.** -/
theorem not_both_accept (s : StratumSession) :
    ¬ ((s.registerIdentity minerIdentity).1 = .ok
      ∧ addressValid (addressCarrying minerIdentity) = true) := by
  rintro ⟨hs, ha⟩
  exact last_of_all_hexDigit minerIdentity
    ((addressValid_carrying_iff minerIdentity).mp ha).2
    ((registerIdentity_ok_iff minerIdentity s).mp hs).2

/-- **When the two checks agree**: exactly for an identity without the prefix,
and for one that ends neither in zero nor in 64 characters. -/
theorem identities_agree_iff (s : StratumSession) :
    ((s.registerIdentity minerIdentity).1 = .ok
        ↔ addressValid (addressCarrying minerIdentity) = true)
      ↔ slice minerIdentity.bytes 0 5 ≠ addressPrefix
        ∨ minerIdentity.bytes.getD 68 0 ≠ 0
          ∧ (slice minerIdentity.bytes 5 64).all hexDigit = false := by
  have hboth := not_both_accept minerIdentity s
  rw [registerIdentity_ok_iff, addressValid_carrying_iff] at hboth ⊢
  rw [← Bool.not_eq_true]
  tauto

end Identity

/-- The identity that a miner of the live server gives. -/
def minerIdentity : Buf stratumMinerIdentitySize :=
  ⟨addressPrefix ++ List.replicate 64 0x30, rfl⟩

/-- **An identity that only the live server accepts.** -/
theorem identities_differ :
    addressValid (addressCarrying minerIdentity) = true
      ∧ ¬ (((StratumSession.init 0).registerIdentity minerIdentity).1 = .ok
        ↔ addressValid (addressCarrying minerIdentity) = true) := by
  decide
