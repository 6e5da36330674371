import StnStratum.JobHistory

/-!
# A JOB and its template

`stn_miner_job_build` stores into the caller's header and block length, and
only once it knows that it will not fail. Its nine fields are where the
constants of `stn_miner_protocol.h` say, and the constants are right: every
byte of the header is one of exactly one field (`Tiles`). So a JOB on the wire
says everything about its template but the block that it builds on
(`JobCodec.template`).
-/

variable {τ : Type}

/-! ## Fields one behind the other -/

/-- **Fields that tile the bytes from `i` to `size`**, each given by its offset
and its length: each begins where the last one ends. -/
def Tiles : ℕ → List (ℕ × ℕ) → ℕ → Prop
  | i, [], size => i = size
  | i, (off, len) :: fields, size => off = i ∧ Tiles (i + len) fields size

/-- The field that a byte is in. -/
def Within (i : ℕ) (field : ℕ × ℕ) : Prop :=
  field.1 ≤ i ∧ i < field.1 + field.2

namespace Tiles

variable {i j size : ℕ} {fields : List (ℕ × ℕ)}

/-- No field begins before the first one. -/
theorem le_of_mem (h : Tiles i fields size) {field : ℕ × ℕ}
    (hm : field ∈ fields) : i ≤ field.1 := by
  induction fields generalizing i with
  | nil => cases hm
  | cons first fields ih =>
    rcases List.mem_cons.mp hm with rfl | hm
    · exact le_of_eq h.1.symm
    · exact (Nat.le_add_right _ _).trans (ih h.2 hm)

/-- **There is no gap and no overlap**: every byte is in one field. -/
theorem existsUnique (h : Tiles i fields size) (hi : i ≤ j) (hj : j < size) :
    ∃! field, field ∈ fields ∧ Within j field := by
  induction fields generalizing i with
  | nil => exact absurd (hi.trans_lt hj) (not_lt.mpr (ge_of_eq h))
  | cons first fields ih =>
    obtain ⟨off, len⟩ := first
    obtain ⟨rfl, h⟩ := h
    by_cases hlt : j < off + len
    · -- the byte is in the first field, and the others begin behind it
      refine ⟨(off, len), ⟨List.mem_cons_self, hi, hlt⟩, ?_⟩
      rintro field ⟨hm, hw⟩
      rcases List.mem_cons.mp hm with rfl | hm
      · rfl
      · exact absurd (hlt.trans_le ((h.le_of_mem hm).trans hw.1))
          (Nat.lt_irrefl j)
    · obtain ⟨field, ⟨hm, hw⟩, huniq⟩ := ih h (not_lt.mp hlt)
      refine ⟨field, ⟨List.mem_cons_of_mem _ hm, hw⟩, ?_⟩
      rintro field' ⟨hm', hw'⟩
      rcases List.mem_cons.mp hm' with rfl | hm'
      · exact absurd hw'.2 hlt
      · exact huniq field' ⟨hm', hw'⟩

/-- **The fields are all there is**: one behind the other they make the
bytes. -/
theorem flatten_slices (h : Tiles i fields size) {b : Bytes}
    (hb : b.length = size) :
    (fields.map fun f => slice b f.1 f.2).flatten = b.drop i := by
  induction fields generalizing i with
  | nil => rw [show i = b.length from h.trans hb.symm, List.drop_length]; rfl
  | cons field fields ih =>
    obtain ⟨off, len⟩ := field
    obtain ⟨rfl, h⟩ := h
    rw [List.map_cons, List.flatten_cons, ih h, slice_append_drop]

/-- **Reading what was put together**: from pieces of the right lengths, one
behind the other, every field is read back. -/
theorem slice_flatten (h : Tiles i fields size) {pieces : List Bytes}
    (hl : List.Forall₂ (fun f p => p.length = f.2) fields pieces)
    (front : Bytes) (hf : front.length = i) :
    List.Forall₂ (fun f p => slice (front ++ pieces.flatten) f.1 f.2 = p)
      fields pieces := by
  induction hl generalizing i front with
  | nil => exact .nil
  | @cons f p fields pieces hp _ ih =>
    obtain ⟨hoff, h⟩ := h
    rw [List.flatten_cons]
    refine .cons (slice_eq_of_append rfl (hf.trans hoff.symm) hp) ?_
    rw [← List.append_assoc]
    exact ih h _ (by rw [List.length_append, hf, hp])

end Tiles

/-! ## The stores -/

/-- **`stn_miner_job_build`** with its outputs: whether it succeeds, and the
caller's header and block length behind the call. -/
def minerJobBuildInto (t : Option Bytes) (n : ℕ)
    (h : Option (Buf Miner.jobHeaderSize)) (blockLength : Option ℕ) :
    Bool × Option (Buf Miner.jobHeaderSize) × Option ℕ :=
  match t, h, blockLength with
  | some t, some h, some blockLength =>
    if n < 68 then (false, some h, some blockLength)
    else
      let block := n - 68
      if block < Miner.chainHeaderSize ∨ 2 ^ 32 - 1 < block then
        (false, some h, some blockLength)
      else
        let h := h.write 0 (List.replicate Miner.jobHeaderSize 0)
        let h := h.write 0 Miner.magic
        let h := h.write 4 [Miner.version]
        let h := h.write 5 [Miner.job]
        let h := h.write 8 (slice t 32 32)
        let h := h.write Miner.jobShareTargetOffset
          (MinerJob.shareTargetFromChain
            (slice t (68 + Miner.chainTargetOffset) 32))
        let h := h.write Miner.jobChainTargetOffset
          (slice t (68 + Miner.chainTargetOffset) 32)
        let h := h.write Miner.jobBlockLengthOffset (writeBE 4 block)
        let h := h.write Miner.jobInitialNonceOffset
          (slice t (68 + Miner.chainNonceOffset) 8)
        (true, some h, some block)
  | _, h, blockLength => (false, h, blockLength)

/-- **It stores what it builds**, and nothing where it fails. -/
theorem minerJobBuildInto_eq (t : Bytes) (n : ℕ) (h : Buf Miner.jobHeaderSize)
    (blockLength : ℕ) :
    minerJobBuildInto (some t) n (some h) (some blockLength)
      = match minerJobBuild t n with
        | none => (false, some h, some blockLength)
        | some (header, block) => (true, some header, some block) := by
  have hz : h.write 0 (List.replicate Miner.jobHeaderSize 0) = Buf.zero _ :=
    Buf.ext (Buf.write_zero_of_length List.length_replicate)
  unfold minerJobBuildInto minerJobBuild
  dsimp only
  rw [hz]
  split
  · rfl
  split <;> rfl

/-! ## The header -/

namespace MinerJob

/-- **The fields of a JOB header**: magic, version, type and reserved bytes, the
work ID, the two targets, the block length and the nonce. -/
def jobFields : List (ℕ × ℕ) :=
  [(0, 4), (4, 1), (5, 1), (6, 2), (8, 32), (Miner.jobShareTargetOffset, 32),
    (Miner.jobChainTargetOffset, 32), (Miner.jobBlockLengthOffset, 4),
    (Miner.jobInitialNonceOffset, 8)]

/-- They tile the header. -/
theorem tiles_jobFields : Tiles 0 jobFields Miner.jobHeaderSize :=
  ⟨rfl, rfl, rfl, rfl, rfl, rfl, rfl, rfl, rfl, rfl⟩

/-- **What the fields of a header say about its template.** -/
structure Describes (h t : Bytes) : Prop where
  /-- The magic. -/
  magic : slice h 0 4 = Miner.magic
  /-- The version. -/
  version : slice h 4 1 = [Miner.version]
  /-- The type. -/
  type : slice h 5 1 = [Miner.job]
  /-- The reserved bytes. -/
  reserved : slice h 6 2 = [0, 0]
  /-- The job ID is the work ID. -/
  jobId : slice h 8 32 = slice t 32 32
  /-- The share target is the one of the chain target. -/
  shareTarget : slice h Miner.jobShareTargetOffset 32
    = shareTargetFromChain (slice t (68 + Miner.chainTargetOffset) 32)
  /-- The chain target. -/
  chainTarget : slice h Miner.jobChainTargetOffset 32
    = slice t (68 + Miner.chainTargetOffset) 32
  /-- The block length. -/
  blockLength : readBE (slice h Miner.jobBlockLengthOffset 4) = t.length - 68
  /-- The nonce to begin with. -/
  initialNonce : slice h Miner.jobInitialNonceOffset 8
    = slice t (68 + Miner.chainNonceOffset) 8

/-- **A header that is built describes its template.** -/
theorem describes_headerBytes {t : Bytes} (h : 236 ≤ t.length)
    (hfit : t.length - 68 ≤ 2 ^ 32 - 1) :
    Describes (headerBytes t t.length) t := by
  have l₁ : (slice t 32 32).length = 32 := length_slice (by omega)
  have l₂ := length_shareTarget (t := t) (by omega)
  have l₃ : (slice t (68 + Miner.chainTargetOffset) 32).length = 32 :=
    length_slice (by show 68 + 120 + 32 ≤ _; omega)
  have l₄ : (slice t (68 + Miner.chainNonceOffset) 8).length = 8 :=
    length_slice (by show 68 + 152 + 8 ≤ _; omega)
  have l₅ := length_writeBE 4 (t.length - 68)
  have hlengths : List.Forall₂ (fun f p => p.length = f.2) jobFields
      [Miner.magic, [Miner.version], [Miner.job], [0, 0], slice t 32 32,
        shareTargetFromChain (slice t (68 + Miner.chainTargetOffset) 32),
        slice t (68 + Miner.chainTargetOffset) 32, writeBE 4 (t.length - 68),
        slice t (68 + Miner.chainNonceOffset) 8] :=
    .cons rfl (.cons rfl (.cons rfl (.cons rfl (.cons l₁ (.cons l₂ (.cons l₃
      (.cons l₅ (.cons l₄ .nil))))))))
  have hfields := tiles_jobFields.slice_flatten hlengths [] rfl
  have hbytes : headerBytes t t.length = [] ++ List.flatten [Miner.magic,
      [Miner.version], [Miner.job], [0, 0], slice t 32 32,
      shareTargetFromChain (slice t (68 + Miner.chainTargetOffset) 32),
      slice t (68 + Miner.chainTargetOffset) 32, writeBE 4 (t.length - 68),
      slice t (68 + Miner.chainNonceOffset) 8] := by
    rw [headerBytes]
    simp only [List.flatten_cons, List.flatten_nil, List.append_assoc,
      List.nil_append, List.append_nil]
  rw [← hbytes] at hfields
  simp only [jobFields, List.forall₂_cons, List.forall₂_nil_left_iff, and_true]
    at hfields
  obtain ⟨h₁, h₂, h₃, h₄, h₅, h₆, h₇, h₈, h₉⟩ := hfields
  exact ⟨h₁, h₂, h₃, h₄, h₅, h₆, h₇, by rw [h₈, readBE_writeBE (by omega)], h₉⟩

end MinerJob

/-! ## The JOB on the wire -/

/-- **What `client_send_job` sends**: the header and the block are on the trace,
and what is written to the connection is both of them, or a part with which
the session ends. -/
structure SendsJob (c : ConnId) (w w' : World τ) (header block : Bytes) :
    Prop where
  /-- The JOB is on the trace. -/
  trace : ∃ es, w'.trace = w.trace ++ .job c header block :: es
  /-- It is written in full if the session stays. -/
  stays : w'.client? c ≠ none →
    (w'.peers c).written = (w.peers c).written ++ (header ++ block)
  /-- Nothing else is written. -/
  written : ∃ q, q <+: header ++ block
    ∧ (w'.peers c).written = (w.peers c).written ++ q

/-- The trace of a session that may be removed. -/
theorem exists_trace_clientRemove (w : World τ) (c : ConnId)
    (reason : Removal) :
    ∃ es, (w.clientRemove c reason).trace = w.trace ++ es := by
  unfold World.clientRemove
  split
  · exact ⟨_, rfl⟩
  · exact ⟨[], (List.append_nil _).symm⟩

/-- **A JOB that can be built is sent**, with as many bytes of the template
behind the header as it says. -/
theorem sendsJob_clientSendJob (P : Platform) {w : World τ} {c : ConnId}
    {s : ClientSession} (hs : w.client? c = some s)
    (hwork : w.server.work.haveWork = true)
    {h : Buf Miner.jobHeaderSize} {block : ℕ}
    (hb : minerJobBuild w.server.work.template.bytes
      w.server.work.templateLength = some (h, block)) :
    SendsJob c w (w.clientSendJob P c) h.bytes
      (slice w.server.work.template.bytes 68 block) := by
  have htrace : ∃ es, (w.clientSendJob P c).trace = w.trace
      ++ .job c h.bytes (slice w.server.work.template.bytes 68 block)
        :: es := by
    unfold World.clientSendJob
    rw [if_neg (by rw [hwork]; exact Bool.noConfusion), hb]
    dsimp only
    generalize slice w.server.work.template.bytes 68 block = b
    split
    · obtain ⟨es, he⟩ := exists_trace_clientRemove ((w.emit (.job c h.bytes
        b)).send P c h.bytes) c .jobSendFailed
      exact ⟨es, he.trans (List.append_assoc _ _ _)⟩
    split
    · obtain ⟨es, he⟩ := exists_trace_clientRemove (((w.emit (.job c h.bytes
        b)).send P c h.bytes).send P c b) c .jobSendFailed
      exact ⟨es, he.trans (List.append_assoc _ _ _)⟩
    · exact ⟨[], rfl⟩
  obtain ⟨es, hes, ha⟩ := answers_clientSendJob (P := P) hs
  obtain ⟨fs, hfs⟩ := htrace
  obtain rfl := List.append_cancel_left (ha.trace.symm.trans hfs)
  have hframes : sentFrames c (.job c h.bytes
      (slice w.server.work.template.bytes 68 block) :: fs)
        = [h.bytes ++ slice w.server.work.template.bytes 68 block] := by
    obtain hnil | ⟨_, _, _, _, hend, he⟩ := hes
    · cases hnil
    obtain rfl := (List.cons.inj he).2
    have hnone : sentFrames c fs = [] := by
      obtain rfl | ⟨_, _, rfl⟩ := hend <;> rfl
    have hcons : sentFrames c (.job c h.bytes
        (slice w.server.work.template.bytes 68 block) :: fs)
          = (h.bytes ++ slice w.server.work.template.bytes 68 block)
            :: sentFrames c fs :=
      List.filterMap_cons_some (if_pos rfl)
    rw [hcons, hnone]
  have hd := ha.delivers
  refine ⟨⟨fs, hfs⟩, fun hc => ?_, ?_⟩
  · rw [hd.stays hc, hframes, List.flatten_singleton]
  · by_cases hc : (w.clientSendJob P c).client? c = none
    · obtain ⟨q, hq, hcut⟩ := hd.ends hc
      rw [hframes] at hcut
      exact ⟨q, by simpa using hcut.prefix_flatten, hq⟩
    · refine ⟨_, List.prefix_refl _, ?_⟩
      rw [hd.stays hc, hframes, List.flatten_singleton]

/-! ## There and back -/

/-- A template from the work ID on: the ID, the length of its block, and the
block. -/
theorem drop_eq {t : Bytes} (h : 236 ≤ t.length)
    (hlen : readBE (slice t 64 4) = t.length - 68) :
    t.drop 32 = slice t 32 32 ++ (writeBE 4 (t.length - 68) ++ t.drop 68) := by
  have h4 : (slice t 64 4).length = 4 := length_slice (by omega)
  have hw := writeBE_readBE (slice t 64 4)
  rw [h4, hlen] at hw
  rw [hw, slice_append_drop t 64 4, slice_append_drop t 32 32]

/-- **What a JOB leaves out of its template** is the block it builds on: two
templates that say their lengths and are sent as the same JOB are the same
from the work ID on. -/
theorem drop_eq_of_describes {t t' h h' : Bytes} (hd : MinerJob.Describes h t)
    (hd' : MinerJob.Describes h' t') (hl : h.length = h'.length)
    (ht : 236 ≤ t.length) (ht' : 236 ≤ t'.length)
    (hlen : readBE (slice t 64 4) = t.length - 68)
    (hlen' : readBE (slice t' 64 4) = t'.length - 68)
    (he : h ++ t.drop 68 = h' ++ t'.drop 68) : t.drop 32 = t'.drop 32 := by
  obtain ⟨rfl, hblock⟩ := List.append_inj he hl
  rw [drop_eq ht hlen, drop_eq ht' hlen', hblock, ← hd.blockLength,
    ← hd'.blockLength, ← hd.jobId, ← hd'.jobId]

/-- The header for a template is built from the work that it is. -/
theorem ActiveWork.Stores.minerJobBuild_eq {work : ActiveWork} {t : Bytes}
    (hst : work.Stores t) {header : Buf Miner.jobHeaderSize} {block : ℕ}
    (hb : minerJobBuild t t.length = some (header, block)) :
    minerJobBuild work.template.bytes work.templateLength
      = some (header, block) := by
  obtain ⟨hn, rfl, hbytes⟩ := minerJobBuild_eq_some le_rfl hb
  have hfits := work.fits
  obtain ⟨⟨header', block'⟩, hb'⟩ := Option.isSome_iff_exists.mp
    ((minerJobBuild_isSome_iff work.template.bytes work.templateLength).mpr
      (hst.length.symm ▸ hn))
  obtain ⟨_, rfl, hbytes'⟩ := minerJobBuild_eq_some
    (by rw [work.template.size]; exact hfits) hb'
  obtain rfl : header' = header :=
    Buf.ext (hbytes'.trans (hst.headerBytes.trans hbytes.symm))
  rw [hb', hst.length]

/-- **What a header that has been built is to its template**, to the session it
is sent to, and to the headers of others. -/
structure JobCodec (τ : Type) (t : Bytes) (header : Buf Miner.jobHeaderSize) :
    Prop where
  /-- The fields are read back. -/
  describes : MinerJob.Describes header.bytes t
  /-- They are all there is in the header. -/
  whole : (MinerJob.jobFields.map fun f => slice header.bytes f.1 f.2).flatten
    = header.bytes
  /-- So many bytes follow. -/
  block : (t.drop 68).length = t.length - 68
  /-- The header and those bytes are sent where the template is the work. -/
  sends : ∀ (P : Platform) (w : World τ) (c : ConnId) (s : ClientSession),
    w.client? c = some s → w.server.work.haveWork = true →
    w.server.work.Stores t →
    SendsJob c w (w.clientSendJob P c) header.bytes (t.drop 68)
  /-- Nothing but the block it builds on is lost. -/
  template : ∀ (t' : Bytes) (h' header' : Buf Miner.jobHeaderSize)
    (blockLength' : ℕ),
    minerJobBuildInto (some t') t'.length (some h') (some blockLength')
      = (true, some header', some (t'.length - 68)) →
    readBE (slice t 64 4) = t.length - 68 →
    readBE (slice t' 64 4) = t'.length - 68 →
    header.bytes ++ t.drop 68 = header'.bytes ++ t'.drop 68 →
    t.drop 32 = t'.drop 32

/-- **The JOB header is a codec.** It is built exactly for the templates that
have a block with a header of its own and a length that fits its field, and
nothing is stored for the others. Every byte of it is one of exactly one
field, the fields are what the template says, and the block length is the
number of bytes that are sent behind it. -/
theorem job_codec (τ : Type) (t : Bytes) (h : Buf Miner.jobHeaderSize)
    (blockLength : ℕ) :
    let r := minerJobBuildInto (some t) t.length (some h) (some blockLength)
    (r.1 = true ↔ 236 ≤ t.length ∧ t.length - 68 ≤ 2 ^ 32 - 1)
      ∧ (r.1 = false → r.2 = (some h, some blockLength))
      ∧ (∀ i < Miner.jobHeaderSize,
        ∃! field, field ∈ MinerJob.jobFields ∧ Within i field)
      ∧ (r.1 = true → ∃ header, r.2 = (some header, some (t.length - 68))
        ∧ JobCodec τ t header) := by
  intro r
  have hr := minerJobBuildInto_eq t t.length h blockLength
  -- what is built, for this template or another one
  have built : ∀ {t : Bytes} {header : Buf Miner.jobHeaderSize} {block : ℕ},
      minerJobBuild t t.length = some (header, block) →
      block = t.length - 68 ∧ 236 ≤ t.length
        ∧ MinerJob.Describes header.bytes t := fun hb => by
    obtain ⟨⟨h236, hfit⟩, hblock, hbytes⟩ := minerJobBuild_eq_some le_rfl hb
    rw [hbytes]
    exact ⟨hblock, h236, MinerJob.describes_headerBytes h236 hfit⟩
  have hiff := minerJobBuild_isSome_iff t t.length
  cases hb : minerJobBuild t t.length with
  | none =>
    rw [hb] at hr hiff
    have hr' : r = (false, some h, some blockLength) := hr
    rw [hr']
    exact ⟨hiff, fun _ => rfl, fun i hi =>
      MinerJob.tiles_jobFields.existsUnique (Nat.zero_le i) hi, nofun⟩
  | some b =>
    obtain ⟨header, block⟩ := b
    rw [hb] at hr hiff
    obtain ⟨rfl, h236, hd⟩ := built hb
    have hr' : r = (true, some header, some (t.length - 68)) := hr
    rw [hr']
    refine ⟨hiff, nofun, fun i hi =>
      MinerJob.tiles_jobFields.existsUnique (Nat.zero_le i) hi,
      fun _ => ⟨header, rfl, hd, ?_, List.length_drop, ?_, ?_⟩⟩
    · exact MinerJob.tiles_jobFields.flatten_slices header.size
    · intro P w c s hs hwork hst
      have hsend := sendsJob_clientSendJob P hs hwork
        (hst.minerJobBuild_eq hb)
      rwa [hst.slice_eq _ _ (by omega), slice,
        List.take_of_length_le (le_of_eq List.length_drop)] at hsend
    · intro t' h' header' blockLength' ht' hlen hlen' he
      rw [minerJobBuildInto_eq] at ht'
      cases hb' : minerJobBuild t' t'.length with
      | none => rw [hb'] at ht'; cases ht'
      | some b' =>
        obtain ⟨header₁, block'⟩ := b'
        obtain ⟨_, h236', hd'⟩ := built hb'
        rw [hb'] at ht'
        obtain rfl : header₁ = header' := by simpa using congrArg (·.2.1) ht'
        exact drop_eq_of_describes hd hd' (header.size.trans header₁.size.symm)
          h236 h236' hlen hlen' he
