import StnStratum.Buffer
import StnStratum.ShareTarget

/-!
# The JOB header

`stn_miner_job_build` turns a mining template into the 116 bytes that precede
the block in a JOB. A template is 68 bytes of prefix, base, work ID and block
length, and the block behind them. The header is written field by field into
a cleared array, and `minerJobBuild_eq_some` is what comes out: eight fields
that tile it, whatever the template contains. One of them is computed and not
copied, the share target, and `job_share_target` is what is in it.
-/

/-- **`stn_miner_job_build`** on the first `n` bytes of a template buffer: the
header and the block length, or nothing where the block is too short to have
a header of its own or its length does not fit its field. -/
def minerJobBuild (t : Bytes) (n : ℕ) :
    Option (Buf Miner.jobHeaderSize × ℕ) :=
  if n < 68 then none
  else
    let block := n - 68
    if block < Miner.chainHeaderSize ∨ 2 ^ 32 - 1 < block then none
    else
      let h := Buf.zero Miner.jobHeaderSize
      let h := h.write 0 Miner.magic
      let h := h.write 4 [Miner.version]
      let h := h.write 5 [Miner.job]
      let h := h.write 8 (slice t 32 32)
      let h := h.write Miner.jobShareTargetOffset
        (MinerJob.shareTargetFromChain
          (slice t (68 + Miner.chainTargetOffset) 32))
      let h := h.write Miner.jobChainTargetOffset
        (slice t (68 + Miner.chainTargetOffset) 32)
      let h := h.write Miner.jobBlockLengthOffset (writeBE 4 block)
      let h := h.write Miner.jobInitialNonceOffset
        (slice t (68 + Miner.chainNonceOffset) 8)
      some (h, block)

namespace MinerJob

/-- The bytes of a JOB header for the first `n` bytes of a template. -/
def headerBytes (t : Bytes) (n : ℕ) : Bytes :=
  Miner.magic ++ [Miner.version] ++ [Miner.job] ++ [0, 0]
    ++ slice t 32 32
    ++ shareTargetFromChain (slice t (68 + Miner.chainTargetOffset) 32)
    ++ slice t (68 + Miner.chainTargetOffset) 32
    ++ writeBE 4 (n - 68)
    ++ slice t (68 + Miner.chainNonceOffset) 8

/-- The share target of a 32-byte field is 32 bytes. -/
theorem length_shareTarget {t : Bytes} (h : 220 ≤ t.length) :
    (shareTargetFromChain (slice t (68 + Miner.chainTargetOffset) 32)).length
      = 32 :=
  length_scaleTarget (length_slice h)

/-! ## The fields of a header -/

section Fields

variable {t : Bytes} (n : ℕ)

/-- The fields, one behind the other. -/
theorem headerBytes_eq (t : Bytes) (n : ℕ) : headerBytes t n
    = (Miner.magic ++ [Miner.version] ++ [Miner.job] ++ [0, 0])
      ++ (slice t 32 32
      ++ (shareTargetFromChain (slice t (68 + Miner.chainTargetOffset) 32)
      ++ (slice t (68 + Miner.chainTargetOffset) 32
      ++ (writeBE 4 (n - 68) ++ slice t (68 + Miner.chainNonceOffset) 8)))) := by
  simp only [headerBytes, List.append_assoc]

/-- The work ID in a header. -/
theorem workId_headerBytes (h : 64 ≤ t.length) :
    slice (headerBytes t n) 8 32 = slice t 32 32 :=
  slice_eq_of_append (headerBytes_eq t n) rfl (length_slice h)

/-- The share target in a header. -/
theorem shareTarget_headerBytes (h : 236 ≤ t.length) :
    slice (headerBytes t n) Miner.jobShareTargetOffset 32
      = shareTargetFromChain (slice t (68 + Miner.chainTargetOffset) 32) := by
  have l₁ : (slice t 32 32).length = 32 := length_slice (by omega)
  have he := headerBytes_eq t n
  rw [← List.append_assoc] at he
  refine slice_eq_of_append he ?_ (length_shareTarget (by omega))
  rw [List.length_append, l₁]
  rfl

/-- The chain target in a header is the template's. -/
theorem chainTarget_headerBytes (h : 236 ≤ t.length) :
    slice (headerBytes t n) Miner.jobChainTargetOffset 32
      = slice t (68 + Miner.chainTargetOffset) 32 := by
  have l₁ : (slice t 32 32).length = 32 := length_slice (by omega)
  have l₂ := length_shareTarget (t := t) (by omega)
  have he := headerBytes_eq t n
  rw [← List.append_assoc, ← List.append_assoc] at he
  refine slice_eq_of_append he ?_
    (length_slice (by show 68 + 120 + 32 ≤ _; omega))
  rw [List.length_append, List.length_append, l₁, l₂]
  rfl

/-- The length of the block in a header. -/
theorem blockLength_headerBytes (h : 236 ≤ t.length) :
    slice (headerBytes t n) Miner.jobBlockLengthOffset 4
      = writeBE 4 (n - 68) := by
  have l₁ : (slice t 32 32).length = 32 := length_slice (by omega)
  have l₂ := length_shareTarget (t := t) (by omega)
  have l₃ : (slice t (68 + Miner.chainTargetOffset) 32).length = 32 :=
    length_slice (by show 68 + 120 + 32 ≤ _; omega)
  have he := headerBytes_eq t n
  rw [← List.append_assoc, ← List.append_assoc, ← List.append_assoc] at he
  refine slice_eq_of_append he ?_ (length_writeBE 4 _)
  rw [List.length_append, List.length_append, List.length_append, l₁, l₂, l₃]
  rfl

end Fields

end MinerJob

/-- **When a header can be built.** -/
theorem minerJobBuild_isSome_iff (t : Bytes) (n : ℕ) :
    (minerJobBuild t n).isSome = true ↔ 236 ≤ n ∧ n - 68 ≤ 2 ^ 32 - 1 := by
  unfold minerJobBuild
  by_cases h₁ : n < 68
  · rw [if_pos h₁]
    refine iff_of_false Bool.false_ne_true ?_
    omega
  · rw [if_neg h₁]
    by_cases h₂ : n - 68 < 168 ∨ 2 ^ 32 - 1 < n - 68
    · rw [if_pos h₂]
      refine iff_of_false Bool.false_ne_true ?_
      omega
    · rw [if_neg h₂]
      refine iff_of_true rfl ?_
      omega

/-- **What a header contains**: eight fields that tile it, read off the
template. -/
theorem minerJobBuild_eq_some {t : Bytes} {n : ℕ}
    {h : Buf Miner.jobHeaderSize} {block : ℕ} (ht : n ≤ t.length)
    (hb : minerJobBuild t n = some (h, block)) :
    (236 ≤ n ∧ n - 68 ≤ 2 ^ 32 - 1) ∧ block = n - 68
      ∧ h.bytes = MinerJob.headerBytes t n := by
  have hn : 236 ≤ n ∧ n - 68 ≤ 2 ^ 32 - 1 :=
    (minerJobBuild_isSome_iff t n).mp (by rw [hb]; rfl)
  unfold minerJobBuild at hb
  rw [if_neg (by omega), if_neg (by
    show ¬ (n - 68 < 168 ∨ 2 ^ 32 - 1 < n - 68)
    omega)] at hb
  dsimp only at hb
  obtain ⟨hh, rfl⟩ := Prod.mk.inj (Option.some.inj hb)
  refine ⟨hn, rfl, ?_⟩
  have l₁ : (slice t 32 32).length = 32 := length_slice (by omega)
  have l₂ := MinerJob.length_shareTarget (t := t) (by omega)
  have l₃ : (slice t (68 + Miner.chainTargetOffset) 32).length = 32 :=
    length_slice (by show 68 + 120 + 32 ≤ _; omega)
  have l₄ : (slice t (68 + Miner.chainNonceOffset) 8).length = 8 :=
    length_slice (by show 68 + 152 + 8 ≤ _; omega)
  have l₅ := length_writeBE 4 (n - 68)
  -- the first six bytes are stored, the next two are still the cleared ones
  have b₀ : ((((Buf.zero Miner.jobHeaderSize).write 0 Miner.magic).write 4
      [Miner.version]).write 5 [Miner.job]).Begins
        (Miner.magic ++ [Miner.version] ++ [Miner.job] ++ [0, 0]) := by
    unfold Buf.Begins
    decide
  have b₁ := b₀.write (i := 8) (s := slice t 32 32) rfl
    (by rw [l₁]; decide)
  have b₂ := b₁.write (i := Miner.jobShareTargetOffset)
    (by rw [List.length_append, l₁]; rfl) (by rw [l₂]; decide)
  have b₃ := b₂.write (i := Miner.jobChainTargetOffset)
    (by rw [List.length_append, List.length_append, l₁, l₂]; rfl)
    (by rw [l₃]; decide)
  have b₄ := b₃.write (i := Miner.jobBlockLengthOffset)
    (by rw [List.length_append, List.length_append, List.length_append, l₁,
      l₂, l₃]; rfl) (by rw [l₅]; decide)
  have b₅ := b₄.write (i := Miner.jobInitialNonceOffset)
    (by rw [List.length_append, List.length_append, List.length_append,
      List.length_append, l₁, l₂, l₃, l₅]; rfl) (by rw [l₄])
  rw [← hh]
  refine b₅.bytes_eq ?_
  rw [List.length_append, List.length_append, List.length_append,
    List.length_append, List.length_append, l₁, l₂, l₃, l₄, l₅]
  rfl

/-! ## What a JOB is on the wire -/

/-- **A JOB as it is sent**: the 116 bytes of its header and a block of the
length its header gives. -/
structure IsJob (header block : Bytes) : Prop where
  /-- The header has its length. -/
  length : header.length = Miner.jobHeaderSize
  /-- Magic, version, type and the reserved bytes. -/
  head : slice header 0 8
    = Miner.magic ++ [Miner.version] ++ [Miner.job] ++ [0, 0]
  /-- The length field. -/
  block_length : readBE (slice header Miner.jobBlockLengthOffset 4)
    = block.length

/-- **A header that is built announces the block behind it.** -/
theorem isJob_of_minerJobBuild {t : Bytes} {n : ℕ}
    {h : Buf Miner.jobHeaderSize} {block : ℕ} (ht : n ≤ t.length)
    (hb : minerJobBuild t n = some (h, block)) :
    IsJob h.bytes (slice t 68 block) := by
  obtain ⟨⟨hn, hfit⟩, rfl, hbytes⟩ := minerJobBuild_eq_some ht hb
  refine ⟨h.size, ?_, ?_⟩
  · rw [hbytes, MinerJob.headerBytes_eq]
    rfl
  · have hblock : (slice t 68 (n - 68)).length = n - 68 :=
      length_slice (by omega)
    rw [hblock, hbytes, MinerJob.blockLength_headerBytes n (by omega),
      readBE_writeBE (by omega)]

/-! ## The share target in a JOB -/

namespace MinerJob

/-- **The multiplication of a target in its types**: what the loop computes
with fits them, turn by turn, and what it leaves is the product. -/
structure Scales (chain : Bytes) : Prop where
  /-- The carry into a turn fits a byte, and the value of the turn fits
  an `unsigned`. -/
  turn : ∀ front x back, chain = front ++ x :: back →
    (mulBE Miner.shareFactor back).1 < 256
      ∧ x.toNat * Miner.shareFactor + (mulBE Miner.shareFactor back).1
        < 2 ^ 32
  /-- So does the carry that is stored in front. -/
  carry : (mulBE Miner.shareFactor chain).1 < 256
  /-- There are 33 bytes. -/
  length : (scaledTarget chain).length = 33
  /-- They hold the product. -/
  product : readBE (scaledTarget chain) = 10 * readBE chain

/-- **The 33 bytes of the product are enough**, whatever the target is. -/
theorem scales {chain : Bytes} (h : chain.length = 32) : Scales chain where
  turn front x back _ := by
    have hc : (mulBE Miner.shareFactor back).1 < 10 :=
      mulBE_carry_lt (by decide) back
    have hx : x.toNat < 256 := x.toNat_lt
    have hv : x.toNat * Miner.shareFactor = x.toNat * 10 := rfl
    constructor <;> omega
  carry := by
    have hc : (mulBE Miner.shareFactor chain).1 < 10 :=
      mulBE_carry_lt (by decide) chain
    omega
  length := by rw [length_scaledTarget, h]
  product := readBE_scaledTarget chain

/-- **The share target is the field of `min (2^255 - 1) (10 T)`.** -/
theorem shareTargetFromChain_eq {chain : Bytes} (h : chain.length = 32) :
    shareTargetFromChain chain
      = writeBE 32 (min (2 ^ 255 - 1) (10 * readBE chain)) := by
  have hs := writeBE_readBE (scaleTarget chain)
  rw [length_scaleTarget h, readBE_scaleTarget h] at hs
  exact hs.symm

end MinerJob

/-- **The share target of a JOB is exact.** Whatever the 32 bytes of the chain
target are, the product of the carry loop fits its types, and the field at
offset 40 is the big-endian form of the product cut off at `2^255 - 1`. So a
greater chain target has a share target at least as great, and up to
`2^255 - 1` the share target is not below the chain target. -/
theorem job_share_target {t : Bytes} {n : ℕ} {h : Buf Miner.jobHeaderSize}
    {block : ℕ} (ht : n ≤ t.length) (hb : minerJobBuild t n = some (h, block)) :
    let chain := slice t (68 + Miner.chainTargetOffset) 32
    let share := slice h.bytes Miner.jobShareTargetOffset 32
    MinerJob.Scales chain
      ∧ share = writeBE 32 (min (2 ^ 255 - 1) (10 * readBE chain))
      ∧ (readBE chain ≤ 2 ^ 255 - 1 → readBE chain ≤ readBE share)
      ∧ ∀ (t' : Bytes) (n' : ℕ) (h' : Buf Miner.jobHeaderSize) (block' : ℕ),
        n' ≤ t'.length → minerJobBuild t' n' = some (h', block') →
        readBE chain ≤ readBE (slice t' (68 + Miner.chainTargetOffset) 32) →
        readBE share ≤ readBE (slice h'.bytes Miner.jobShareTargetOffset 32) := by
  -- the field of any header, and the number it spells
  have field : ∀ {t : Bytes} {n : ℕ} {h : Buf Miner.jobHeaderSize} {block : ℕ},
      n ≤ t.length → minerJobBuild t n = some (h, block) →
      (slice t (68 + Miner.chainTargetOffset) 32).length = 32
        ∧ slice h.bytes Miner.jobShareTargetOffset 32
          = MinerJob.shareTargetFromChain
            (slice t (68 + Miner.chainTargetOffset) 32) := by
    intro t n h block ht hb
    obtain ⟨⟨hn, _⟩, _, hbytes⟩ := minerJobBuild_eq_some ht hb
    rw [hbytes]
    exact ⟨length_slice (by show 68 + 120 + 32 ≤ _; omega),
      MinerJob.shareTarget_headerBytes n (by omega)⟩
  intro chain share
  obtain ⟨hlen, hshare⟩ := field ht hb
  have hread : readBE share = min (2 ^ 255 - 1) (10 * readBE chain) := by
    show readBE (slice h.bytes Miner.jobShareTargetOffset 32) = _
    rw [hshare]
    exact readBE_scaleTarget hlen
  refine ⟨MinerJob.scales hlen, ?_, fun hT => ?_, ?_⟩
  · exact hshare.trans (MinerJob.shareTargetFromChain_eq hlen)
  · rw [hread]
    omega
  · intro t' n' h' block' ht' hb' hle
    obtain ⟨hlen', hshare'⟩ := field ht' hb'
    rw [hread, hshare']
    refine le_of_le_of_eq ?_ (readBE_scaleTarget hlen').symm
    omega

/-- A template whose chain target is `2^253`, ten times which is cut off. -/
def saturatingTemplate : Bytes :=
  List.replicate 188 0 ++ 0x20 :: List.replicate 47 0

/-- The JOB of that template has the greatest share target there is. -/
theorem job_share_target_saturating :
    ∃ h block, minerJobBuild saturatingTemplate 236 = some (h, block)
      ∧ slice h.bytes Miner.jobShareTargetOffset 32
        = writeBE 32 (2 ^ 255 - 1) := by
  have hsome : (minerJobBuild saturatingTemplate 236).isSome = true :=
    (minerJobBuild_isSome_iff _ _).mpr (by decide)
  obtain ⟨⟨h, block⟩, hb⟩ := Option.isSome_iff_exists.mp hsome
  have hlen : 236 ≤ saturatingTemplate.length := by decide +kernel
  obtain ⟨_, hshare, _⟩ := job_share_target hlen hb
  refine ⟨h, block, hb, hshare.trans ?_⟩
  decide +kernel
