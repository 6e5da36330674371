import StnStratum.Framing

/-!
# The miner protocol STNM v1

The constants of `stn_miner_protocol.h`, and the framing they give the
stream a miner sends. Every message starts with eight bytes: the magic, the
version, the type and two reserved zero bytes. A miner sends three types,
and the type alone fixes the length: 77 bytes for ADDRESS, 48 for SUBMIT and
56 for HASH_PROGRESS (`Miner.framing`). The server sends JOB and RESULT.
-/

namespace Miner

/-- `STN_MINER_MAGIC`, the bytes of `STNM`. -/
def magic : Bytes := [0x53, 0x54, 0x4e, 0x4d]

/-- `STN_MINER_VERSION`. -/
def version : UInt8 := 1

/-- `STN_MINER_JOB`. -/
def job : UInt8 := 1
/-- `STN_MINER_SUBMIT`. -/
def submit : UInt8 := 2
/-- `STN_MINER_RESULT`. -/
def result : UInt8 := 3
/-- `STN_MINER_HASH_PROGRESS`. -/
def hashProgress : UInt8 := 4
/-- `STN_MINER_ADDRESS`. -/
def address : UInt8 := 5

/-- `STN_MINER_JOB_HEADER_SIZE`. -/
abbrev jobHeaderSize : ℕ := 116
/-- `STN_MINER_SUBMIT_SIZE`. -/
abbrev submitSize : ℕ := 48
/-- `STN_MINER_RESULT_SIZE`. -/
abbrev resultSize : ℕ := 12
/-- `STN_MINER_HASH_PROGRESS_SIZE`. -/
abbrev hashProgressSize : ℕ := 56
/-- `STN_MINER_ADDRESS_FRAME_SIZE`, also the size of a session's `rx`. -/
abbrev addressFrameSize : ℕ := 77
/-- `STN_MINER_ADDRESS_LENGTH`. -/
abbrev addressLength : ℕ := 69
/-- `STN_MINER_ADDRESS_SIZE`, the address with its terminating zero. -/
abbrev addressSize : ℕ := 70

/-- `STN_MINER_CHAIN_HEADER_SIZE`. -/
abbrev chainHeaderSize : ℕ := 168
/-- `STN_MINER_CHAIN_TARGET_OFFSET`. -/
abbrev chainTargetOffset : ℕ := 120
/-- `STN_MINER_CHAIN_NONCE_OFFSET`. -/
abbrev chainNonceOffset : ℕ := 152

/-- `STN_MINER_JOB_SHARE_TARGET_OFFSET`. -/
abbrev jobShareTargetOffset : ℕ := 40
/-- `STN_MINER_JOB_CHAIN_TARGET_OFFSET`. -/
abbrev jobChainTargetOffset : ℕ := 72
/-- `STN_MINER_JOB_BLOCK_LENGTH_OFFSET`. -/
abbrev jobBlockLengthOffset : ℕ := 104
/-- `STN_MINER_JOB_INITIAL_NONCE_OFFSET`. -/
abbrev jobInitialNonceOffset : ℕ := 108

/-- `STN_MINER_SHARE_FACTOR`. -/
abbrev shareFactor : ℕ := 10

/-- `STN_MINER_RESULT_ACCEPTED`. -/
abbrev resultAccepted : ℕ := 0
/-- `STN_MINER_RESULT_REJECTED`. -/
abbrev resultRejected : ℕ := 1
/-- `STN_MINER_RESULT_STALE`. -/
abbrev resultStale : ℕ := 2
/-- `STN_MINER_RESULT_PROVIDER`. -/
abbrev resultProvider : ℕ := 3
/-- `STN_MINER_RESULT_PROTOCOL`. -/
abbrev resultProtocol : ℕ := 4

/-! ## The framing of a miner's stream -/

/-- **The header check both receive loops make**: magic, version and zero
reserved bytes. The type is not part of it. -/
def headerValid (rx : Bytes) : Bool :=
  slice rx 0 4 == magic && rx.getD 4 0 == version
    && rx.getD 6 0 == 0 && rx.getD 7 0 == 0

/-- **The frame length a type announces**, if a miner may send the type. -/
def frameSizeOf (type : UInt8) : Option ℕ :=
  if type = address then some addressFrameSize
  else if type = submit then some submitSize
  else if type = hashProgress then some hashProgressSize
  else none

/-- The three lengths there are. -/
theorem frameSizeOf_cases {type : UInt8} {n : ℕ}
    (h : frameSizeOf type = some n) :
    type = address ∧ n = 77 ∨ type = submit ∧ n = 48
      ∨ type = hashProgress ∧ n = 56 := by
  unfold frameSizeOf at h
  split at h
  · next ht => exact .inl ⟨ht, (Option.some.inj h).symm⟩
  · split at h
    · next ht => exact .inr (.inl ⟨ht, (Option.some.inj h).symm⟩)
    · split at h
      · next ht => exact .inr (.inr ⟨ht, (Option.some.inj h).symm⟩)
      · exact absurd h.symm (Option.some_ne_none n)

/-- Every frame has room for a header with more behind it, and fits `rx`. -/
theorem frameSizeOf_bounds {type : UInt8} {n : ℕ}
    (h : frameSizeOf type = some n) : 48 ≤ n ∧ n ≤ 77 := by
  rcases frameSizeOf_cases h with ⟨_, rfl⟩ | ⟨_, rfl⟩ | ⟨_, rfl⟩ <;> decide

/-- **The framing of a miner's stream**: eight bytes of header, the length by
the type. -/
def framing : Framing where
  header := 8
  frameSize h := if headerValid h then frameSizeOf (h.getD 5 0) else none
  header_pos := by decide
  header_le h n hn := by
    split at hn
    · have := (frameSizeOf_bounds hn).1
      omega
    · exact absurd hn.symm (Option.some_ne_none n)

/-- The byte at a position in front of `n` is the byte of the first `n`. -/
theorem getD_take {b : Bytes} {i n : ℕ} (h : i < n) :
    (b.take n).getD i 0 = b.getD i 0 := by
  rw [List.getD_eq_getElem?_getD, List.getD_eq_getElem?_getD,
    List.getElem?_take_of_lt h]

/-- The check reads the first eight bytes only. -/
theorem headerValid_take (b : Bytes) {n : ℕ} (h : 8 ≤ n) :
    headerValid (b.take n) = headerValid b := by
  unfold headerValid
  rw [getD_take (by omega), getD_take (by omega), getD_take (by omega),
    slice, slice, List.drop_zero, List.drop_zero, List.take_take,
    Nat.min_eq_left (by omega)]

/-- What the framing says of a stream is what the check and the type of its
first eight bytes say. -/
theorem frameSize_take (b : Bytes) {n : ℕ} (h : 8 ≤ n) :
    framing.frameSize (b.take n)
      = if headerValid b then frameSizeOf (b.getD 5 0) else none := by
  show (if headerValid (b.take n) then frameSizeOf ((b.take n).getD 5 0)
    else none) = _
  rw [headerValid_take b h, getD_take (by omega)]

end Miner
