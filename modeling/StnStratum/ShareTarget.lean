import StnStratum.MinerProtocol

/-!
# The share target

A miner is paid for work that misses the Chain target but meets an easier
one, the share target: ten times the Chain target, and at most `2^255 - 1`.
The source computes it twice. `stn_miner_job.c` puts it into the JOB a miner
is sent, and `stn_stratum_server.c` computes it again when the miner submits.
The carry loop and the saturation are the same (`scaleTarget`); the server's
copy refuses a target of zero and a target with its top bit set first, and
the job codec's does not.

`readBE_scaleTarget` is the arithmetic of both, exact over the whole
256-bit range, and `Server.shareTargetFromChain_eq_some_iff` says where the
server's copy agrees with the job codec's: on the targets from `1` to
`2^255 - 1`, and nowhere else.
-/

/-- `MAX_TARGET`, `2^255 - 1`, as the two `memset`s write it. -/
def maxTarget : Bytes := 0x7f :: List.replicate 31 0xff

/-- **The 33-byte product** `scaled`: the carry in front, then the 32 bytes
the loop leaves. -/
def scaledTarget (chain : Bytes) : Bytes :=
  let r := mulBE Miner.shareFactor chain
  UInt8.ofNat r.1 :: r.2

/-- **The product cut off at `MAX_TARGET`**: a carry out of 256 bits or a top
bit in them saturates. -/
def scaleTarget (chain : Bytes) : Bytes :=
  let scaled := scaledTarget chain
  if scaled.getD 0 0 ≠ 0 ∨ 0x80 ≤ scaled.getD 1 0 then maxTarget
  else slice scaled 1 32

/-- **`share_target_from_chain` of `stn_miner_job.c`**, which never fails. -/
def MinerJob.shareTargetFromChain (chain : Bytes) : Bytes := scaleTarget chain

/-- **`share_target_from_chain` of `stn_stratum_server.c`**: no share target
for a Chain target with its top bit set or of zero. -/
def Server.shareTargetFromChain (chain : Bytes) : Option Bytes :=
  if 0x80 ≤ chain.getD 0 0 then none
  else if chain.foldl (· ||| ·) 0 = 0 then none
  else some (scaleTarget chain)

/-! ## The arithmetic -/

/-- The product spells ten times the target: 33 bytes hold it. -/
theorem readBE_scaledTarget (chain : Bytes) :
    readBE (scaledTarget chain) = 10 * readBE chain := by
  have hc : (mulBE 10 chain).1 < 10 := mulBE_carry_lt (by decide) chain
  show readBE (UInt8.ofNat (mulBE 10 chain).1 :: (mulBE 10 chain).2) = _
  rw [readBE_cons, length_mulBE, ← mulBE_eq 10 chain,
    UInt8.toNat_ofNat_of_lt' (by show _ < 256; omega)]

theorem length_scaledTarget (chain : Bytes) :
    (scaledTarget chain).length = chain.length + 1 := by
  rw [scaledTarget]
  rw [List.length_cons, length_mulBE]

theorem readBE_maxTarget : readBE maxTarget = 2 ^ 255 - 1 := by decide

/-- A 32-byte field has its top bit set where it spells `2^255` or more. -/
theorem top_bit_iff {b : Bytes} (hb : b.length = 32) :
    0x80 ≤ b.getD 0 0 ↔ 2 ^ 255 ≤ readBE b := by
  cases b with
  | nil => simp at hb
  | cons x b =>
    have hl : b.length = 31 := by simpa using hb
    have hlt := readBE_lt b
    rw [readBE_cons, hl] at *
    show (0x80 : UInt8).toNat ≤ x.toNat ↔ _
    rw [show (0x80 : UInt8).toNat = 128 from rfl]
    omega

/-- **The share target is `min (2^255 - 1) (10 T)`**, for every 32-byte Chain
target `T`. -/
theorem readBE_scaleTarget {chain : Bytes} (h : chain.length = 32) :
    readBE (scaleTarget chain) = min (2 ^ 255 - 1) (10 * readBE chain) := by
  have heq := readBE_scaledTarget chain
  have hlen := length_scaledTarget chain
  rw [scaleTarget]
  generalize scaledTarget chain = s at heq hlen
  rw [h] at hlen
  cases s with
  | nil => simp at hlen
  | cons x s =>
    have hs : s.length = 32 := by simpa using hlen
    have hlt := readBE_lt s
    have hx : x = 0 ↔ x.toNat = 0 := by
      rw [← UInt8.toNat_inj]
      rfl
    rw [readBE_cons, hs] at heq
    rw [hs] at hlt
    show readBE (if x ≠ 0 ∨ 0x80 ≤ s.getD 0 0 then maxTarget
      else slice s 0 32) = _
    have hsat : x ≠ 0 ∨ 0x80 ≤ s.getD 0 0
        ↔ x.toNat ≠ 0 ∨ 2 ^ 255 ≤ readBE s :=
      or_congr (not_congr hx) (top_bit_iff hs)
    by_cases hc : x ≠ 0 ∨ 0x80 ≤ s.getD 0 0
    · have := hsat.mp hc
      rw [if_pos hc, readBE_maxTarget]
      omega
    · have := mt hsat.mpr hc
      rw [if_neg hc, slice_self hs]
      omega

/-- A share target is 32 bytes. -/
theorem length_scaleTarget {chain : Bytes} (h : chain.length = 32) :
    (scaleTarget chain).length = 32 := by
  rw [scaleTarget]
  split
  · rfl
  · exact length_slice (by rw [length_scaledTarget]; omega)

/-- **The share target is never below the Chain target**, where that one is
not above `MAX_TARGET` itself. -/
theorem le_readBE_scaleTarget {chain : Bytes} (h : chain.length = 32)
    (hT : readBE chain < 2 ^ 255) :
    readBE chain ≤ readBE (scaleTarget chain) := by
  rw [readBE_scaleTarget h]
  omega

/-! ## The server's guards -/

/-- Or-ing bytes together gives zero only where all of them are. -/
theorem foldl_or_eq_zero (b : Bytes) (c : UInt8) :
    b.foldl (· ||| ·) c = 0 ↔ c = 0 ∧ readBE b = 0 := by
  induction b generalizing c with
  | nil => simp
  | cons x b ih =>
    have hor : c ||| x = 0 ↔ c = 0 ∧ x = 0 := UInt8.or_eq_zero_iff
    have hx : x = 0 ↔ x.toNat = 0 := by
      rw [← UInt8.toNat_inj]
      rfl
    have hp : 256 ^ b.length ≠ 0 :=
      (Nat.pow_pos (by decide)).ne'
    rw [List.foldl_cons, ih, hor, readBE_cons, Nat.add_eq_zero_iff,
      Nat.mul_eq_zero, or_iff_left hp, hx, and_assoc]

/-- **Where the server's copy yields a share target**: for the Chain targets
from `1` to `2^255 - 1`, and it is then the job codec's. -/
theorem Server.shareTargetFromChain_eq_some_iff {chain share : Bytes}
    (h : chain.length = 32) :
    Server.shareTargetFromChain chain = some share
      ↔ (1 ≤ readBE chain ∧ readBE chain < 2 ^ 255)
        ∧ MinerJob.shareTargetFromChain chain = share := by
  unfold Server.shareTargetFromChain MinerJob.shareTargetFromChain
  by_cases htop : 0x80 ≤ chain.getD 0 0
  · have := (top_bit_iff h).mp htop
    rw [if_pos htop]
    refine iff_of_false (Option.some_ne_none share).symm ?_
    omega
  · have hlt := mt (top_bit_iff h).mpr htop
    rw [if_neg htop]
    by_cases hor : chain.foldl (· ||| ·) 0 = 0
    · have := ((foldl_or_eq_zero chain 0).mp hor).2
      rw [if_pos hor]
      refine iff_of_false (Option.some_ne_none share).symm ?_
      omega
    · have hne : readBE chain ≠ 0 := fun hz =>
        hor ((foldl_or_eq_zero chain 0).mpr ⟨rfl, hz⟩)
      rw [if_neg hor, Option.some_inj]
      exact (and_iff_right ⟨by omega, by omega⟩).symm
