import StnStratum.JobHistory
import StnStratum.PrototypeJob

/-!
# The session prototype over RPC

`stn_chain_rpc_adapter.c` is the Chain of the session prototype: its three
functions are calls of the STNC client. The tip and a template come from
MINING_TEMPLATE, and a submission is a SUBMIT_WORK. A template is taken apart
into the fields of a job, at offsets that this file defines for itself, and a
submission puts the fields together again, with the identity and the nonce in
them.

What an adapter has called is kept in order (`ChainRpcAdapter.calls`). The
result is a round trip: what a refresh makes of a reply is what a submission
makes the reply of again (`template_round_trip`), and it is the payload that
the live server puts together by itself.
-/

variable {τ : Type}

/-- **A call of the client**: its method and its payload, and what was
exchanged with Chain, if anything was. -/
structure AdapterCall where
  /-- The method. -/
  method : ℕ
  /-- The payload. -/
  payload : Bytes
  /-- The request, and the frame the exchange came back with. -/
  exchanged : Option (Bytes × Option Bytes)

/-- **`stn_chain_rpc_adapter`**, with the client it points at. -/
structure ChainRpcAdapter (τ : Type) where
  /-- The transport of the client. -/
  transport : τ
  /-- The client. -/
  client : RpcClient
  /-- The heap. -/
  heap : Heap
  /-- The calls it has made, in order. -/
  calls : List AdapterCall

namespace ChainRpcAdapter

/-- `STN_CHAIN_BLOCK_HEADER_SIZE`. -/
abbrev blockHeaderSize : ℕ := 168
/-- `STN_CHAIN_BLOCK_HEIGHT_OFFSET`. -/
abbrev blockHeightOffset : ℕ := 72
/-- `STN_CHAIN_BLOCK_TARGET_OFFSET`. -/
abbrev blockTargetOffset : ℕ := 120
/-- `STN_CHAIN_BLOCK_NONCE_OFFSET`. -/
abbrev blockNonceOffset : ℕ := 152

/-- **`map_rpc`.** -/
def mapRpc : RpcCode → StratumStatus
  | .ok => .ok
  | .rejected => .rejected
  | .stale => .stale
  | .capacity => .capacity
  | _ => .provider

/-- The adapter behind a call. -/
def called {capacity : ℕ} (a : ChainRpcAdapter τ) (method : ℕ)
    (payload : Bytes) (r : Rpc.Call τ capacity) : ChainRpcAdapter τ where
  transport := r.transport
  client := r.client
  heap := r.heap
  calls := a.calls ++ [⟨method, payload, r.exchanged⟩]

variable (T : ChainTransport τ)

/-- The MINING_TEMPLATE that two of the functions begin with, into an array
nobody initialised. -/
def poll (a : ChainRpcAdapter τ) : Rpc.Call τ Rpc.maxPayload :=
  Rpc.callMiningTemplate T a.transport a.client a.heap (a.heap.uninit _)

/-- What is in that array afterwards. -/
def polled (a : ChainRpcAdapter τ) : Bytes :=
  ((a.poll T).payload.getD (a.heap.uninit _)).bytes

/-- **`rpc_tip`.** -/
def rpcTip (a : ChainRpcAdapter τ) (tip : Buf 32) :
    StratumStatus × Buf 32 × ChainRpcAdapter τ :=
  let r := a.poll T
  let payload := a.polled T
  let a := a.called Rpc.miningTemplate [] r
  if r.code ≠ .ok then (mapRpc r.code, tip, a)
  else if r.written < 68 + blockHeaderSize
      ∨ readBE (slice payload 64 4) ≠ (r.written - 68) % 2 ^ 32 then
    (.badStructure, tip, a)
  else (.ok, tip.write 0 (slice payload 0 32), a)

/-- **`rpc_template`.** -/
def rpcTemplate (a : ChainRpcAdapter τ) (out : TemplateOut) :
    StratumStatus × TemplateOut × ChainRpcAdapter τ :=
  let out := { out with written := 0 }
  let r := a.poll T
  let payload := a.polled T
  let a := a.called Rpc.miningTemplate [] r
  if r.code ≠ .ok then (mapRpc r.code, out, a)
  else if r.written < 68 + blockHeaderSize then (.badStructure, out, a)
  else
    let blockLength := readBE (slice payload 64 4)
    if blockLength ≠ r.written - 68 then (.badStructure, out, a)
    else if blockLength < blockHeaderSize then (.badStructure, out, a)
    else if stratumBlockCapacity < blockLength then (.capacity, out, a)
    else
      (.ok, {
        baseTip := out.baseTip.write 0 (slice payload 0 32)
        jobId := out.jobId.write 0 (slice payload 32 32)
        block := out.block.write 0 (slice payload 68 blockLength)
        target := out.target.write 0
          (slice payload (68 + blockTargetOffset) 32)
        height := UInt64.ofNat
          (readBE (slice payload (68 + blockHeightOffset) 8))
        written := blockLength }, a)

/-- The stores that make the payload of a SUBMIT_WORK in an array nobody
initialised. -/
def submitPayload (payload : Buf Rpc.maxPayload) (baseTip jobId : Buf 32)
    (block : Buf stratumBlockCapacity) (blockLength : ℕ)
    (minerIdentity : Buf stratumMinerIdentitySize) (nonce : UInt64) :
    Buf Rpc.maxPayload :=
  let payload := payload.write 0 baseTip.bytes
  let payload := payload.write 32 jobId.bytes
  let payload := payload.write 64 (writeBE 4 blockLength)
  let payload := payload.write 68 minerIdentity.bytes
  let payload := payload.write (68 + stratumMinerIdentitySize)
    (slice block.bytes 0 blockLength)
  payload.storeBE (68 + stratumMinerIdentitySize + blockNonceOffset) 8
    nonce.toNat

/-- **`rpc_submit`.** -/
def rpcSubmit (a : ChainRpcAdapter τ) (baseTip jobId : Buf 32)
    (block : Buf stratumBlockCapacity) (blockLength : ℕ)
    (minerIdentity : Buf stratumMinerIdentitySize) (nonce : UInt64) :
    StratumStatus × ChainRpcAdapter τ :=
  if blockLength < blockHeaderSize
      ∨ Rpc.maxPayload - 68 - stratumMinerIdentitySize < blockLength then
    (.argument, a)
  else
    let payload := slice (submitPayload (a.heap.uninit _) baseTip jobId block
      blockLength minerIdentity nonce).bytes 0
      (68 + stratumMinerIdentitySize + blockLength)
    let r := Rpc.callSubmitWork T a.transport a.client a.heap payload
      (a.heap.uninit 80)
    let a := a.called Rpc.submitWork payload r
    if r.code ≠ .ok then (mapRpc r.code, a)
    else if r.written ≠ 80 then (.badStructure, a)
    else (.ok, a)

/-- **`stn_chain_rpc_adapter_bind`**: a Chain for the session prototype. -/
def bind : StratumChain (ChainRpcAdapter τ) where
  tip := some (rpcTip T)
  templateGet := some (rpcTemplate T)
  submit := some (rpcSubmit T)

end ChainRpcAdapter

/-! ## A reply taken apart -/

/-- **A job is the decoding of a reply.** -/
structure StratumJob.Decodes (job : StratumJob) (t : Bytes) : Prop where
  /-- There is a job. -/
  active : job.active = true
  /-- The base. -/
  baseTip : job.baseTip.bytes = slice t 0 32
  /-- The work ID. -/
  id : job.id.bytes = slice t 32 32
  /-- The length of the block. -/
  blockLength : job.blockLength = t.length - 68
  /-- The block, with zeros behind it. -/
  block : job.block.bytes
    = t.drop 68 ++ List.replicate (stratumBlockCapacity - (t.length - 68)) 0
  /-- The target, from the header of the block. -/
  target : job.target.bytes = slice (t.drop 68) 120 32
  /-- The height, from the header of the block. -/
  height : job.height.toNat = readBE (slice (t.drop 68) 72 8)

namespace ChainRpcAdapter

variable {T : ChainTransport τ}

/-- A call that fails does not map to success. -/
theorem mapRpc_ne_ok {code : RpcCode} (h : code ≠ .ok) : mapRpc code ≠ .ok := by
  cases code with
  | ok => exact absurd rfl h
  | _ => decide

/-- **A reply that is taken**: it can be mined, and the array begins with
it. -/
theorem poll_ok {a : ChainRpcAdapter τ} (h : (a.poll T).code = .ok) :
    ∃ frame, Rpc.IsAnswer Rpc.miningTemplate a.client.requestId.toNat frame
      ∧ Rpc.IsTemplate (Rpc.payloadOf frame)
      ∧ (a.poll T).exchanged = some (Rpc.requestFrame Rpc.miningTemplate
          a.client.requestId.toNat [], some frame)
      ∧ (a.poll T).written = (Rpc.payloadOf frame).length
      ∧ (Rpc.payloadOf frame) <+: a.polled T := by
  obtain ⟨frame, ha, ht, hx, hw, hp⟩ := Rpc.callMiningTemplate_ok h
  have hfits : (Rpc.payloadOf frame).length ≤ Rpc.maxPayload :=
    hw ▸ (a.poll T).fits
  refine ⟨frame, ha, ht, hx, hw, ?_⟩
  have hb := (Buf.begins_nil (a.heap.uninit Rpc.maxPayload)).write (i := 0)
    (s := Rpc.payloadOf frame) rfl (by omega)
  have hpolled : a.polled T = ((a.heap.uninit Rpc.maxPayload).write 0
      (Rpc.payloadOf frame)).bytes := by
    unfold polled poll
    rw [hp]
    rfl
  rw [hpolled]
  exact hb

/-- **A template that is handed out** is a reply taken apart. -/
structure Decoded (out : TemplateOut) (t : Bytes) : Prop where
  /-- The reply can be mined. -/
  isTemplate : Rpc.IsTemplate t
  /-- The base. -/
  baseTip : out.baseTip.bytes = slice t 0 32
  /-- The work ID. -/
  jobId : out.jobId.bytes = slice t 32 32
  /-- The target. -/
  target : out.target.bytes = slice (t.drop 68) 120 32
  /-- The height. -/
  height : out.height.toNat = readBE (slice (t.drop 68) 72 8)
  /-- The block. -/
  block : out.block.Begins (t.drop 68)
  /-- Its length. -/
  written : out.written = t.length - 68
  /-- There was room for it. -/
  room : t.length - 68 ≤ stratumBlockCapacity

/-- A store that fills an array is all there is in it. -/
theorem write_slice {b : Buf 32} {t : Bytes} {off : ℕ}
    (h : off + 32 ≤ t.length) :
    (b.write 0 (slice t off 32)).bytes = slice t off 32 :=
  Buf.write_zero_of_length (length_slice h)

/-- **`rpc_template` calls MINING_TEMPLATE once**, and if it succeeds it hands
out what came back. -/
theorem rpcTemplate_spec (a : ChainRpcAdapter τ) (out : TemplateOut) :
    (rpcTemplate T a out).2.2 = a.called Rpc.miningTemplate [] (a.poll T)
      ∧ ((rpcTemplate T a out).1 = .ok → ∃ frame,
        Rpc.IsAnswer Rpc.miningTemplate a.client.requestId.toNat frame
          ∧ (a.poll T).exchanged = some (Rpc.requestFrame Rpc.miningTemplate
            a.client.requestId.toNat [], some frame)
          ∧ Decoded (rpcTemplate T a out).2.1 (Rpc.payloadOf frame)) := by
  unfold rpcTemplate
  dsimp only
  by_cases hcode : (a.poll T).code ≠ .ok
  · rw [if_pos hcode]
    exact ⟨rfl, fun h => absurd h (mapRpc_ne_ok hcode)⟩
  rw [if_neg hcode]
  obtain ⟨frame, ha, ht, hx, hw, hb⟩ := poll_ok (not_not.mp hcode)
  generalize hframe : Rpc.payloadOf frame = t at ht hw hb
  obtain ⟨u, hu⟩ := hb
  have hslice : ∀ off n, off + n ≤ t.length →
      slice (a.polled T) off n = slice t off n := fun off n hle => by
    rw [← hu, slice_append_left hle]
  have hlen := ht.length
  have hsize : blockHeaderSize = 168 := rfl
  have hblock : readBE (slice (a.polled T) 64 4) = t.length - 68 := by
    rw [hslice _ _ (by omega)]
    exact ht.blockLength
  rw [hw, hblock, if_neg (by omega), if_neg (not_not.mpr rfl),
    if_neg (by omega)]
  by_cases hroom : stratumBlockCapacity < t.length - 68
  · rw [if_pos hroom]
    exact ⟨rfl, fun h => by cases h⟩
  rw [if_neg hroom]
  refine ⟨rfl, fun _ => ⟨frame, ha, hx, ?_⟩⟩
  rw [hframe]
  have hdrop : ∀ off n, slice (t.drop 68) off n = slice t (68 + off) n :=
    fun off n => by rw [slice, slice, List.drop_drop]
  have hwhole : slice t 68 (t.length - 68) = t.drop 68 :=
    List.take_of_length_le (le_of_eq List.length_drop)
  have hheight : readBE (slice t (68 + blockHeightOffset) 8) < 2 ^ 64 := by
    have := readBE_lt (slice t (68 + blockHeightOffset) 8)
    rw [length_slice (by show 68 + 72 + 8 ≤ _; omega)] at this
    exact this
  have htarget : 68 + blockTargetOffset + 32 ≤ t.length := by
    show 68 + 120 + 32 ≤ _
    omega
  have hoffset : 68 + blockHeightOffset + 8 ≤ t.length := by
    show 68 + 72 + 8 ≤ _
    omega
  rw [hslice 0 32 (by omega), hslice 32 32 (by omega), hslice _ 32 htarget,
    hslice _ 8 hoffset, hslice 68 _ (by omega), hwhole]
  exact {
    isTemplate := ht
    baseTip := write_slice (by omega)
    jobId := write_slice (by omega)
    target := by rw [hdrop]; exact write_slice htarget
    height := by rw [hdrop]; exact UInt64.toNat_ofNat_of_lt' hheight
    block := (Buf.begins_nil out.block).write rfl (by
      rw [List.length_drop]
      omega)
    written := rfl
    room := by omega }

/-- **A refresh calls MINING_TEMPLATE once**: it fails and leaves the job as it
is, or the job is the decoding of the reply. -/
theorem refresh_spec (a : ChainRpcAdapter τ) (job : StratumJob)
    (out : TemplateOut) :
    (job.refresh (some (bind T)) a out).2.2
        = a.called Rpc.miningTemplate [] (a.poll T)
      ∧ ((job.refresh (some (bind T)) a out).1 ≠ .ok
          ∧ (job.refresh (some (bind T)) a out).2.1 = job
        ∨ (job.refresh (some (bind T)) a out).1 = .ok ∧ ∃ frame,
          Rpc.IsAnswer Rpc.miningTemplate a.client.requestId.toNat frame
            ∧ (a.poll T).exchanged = some (Rpc.requestFrame
              Rpc.miningTemplate a.client.requestId.toNat [], some frame)
            ∧ Rpc.IsTemplate (Rpc.payloadOf frame)
            ∧ (Rpc.payloadOf frame).length - 68 ≤ stratumBlockCapacity
            ∧ (job.refresh (some (bind T)) a out).2.1.Decodes
              (Rpc.payloadOf frame)) := by
  obtain ⟨hcalled, hok⟩ :=
    rpcTemplate_spec (T := T) a { out with written := 0, height := 0 }
  unfold StratumJob.refresh bind
  dsimp only [Option.bind_some]
  generalize rpcTemplate T a { out with written := 0, height := 0 } = r
    at hcalled hok
  obtain ⟨status, out', a'⟩ := r
  dsimp only at hcalled hok ⊢
  by_cases hstatus : status ≠ .ok
  · rw [if_pos hstatus]
    refine ⟨hcalled, .inl ⟨?_, rfl⟩⟩
    split <;> rintro ⟨⟩
  rw [if_neg hstatus]
  obtain ⟨frame, ha, hx, hd⟩ := hok (not_not.mp hstatus)
  have hlen := hd.isTemplate.length
  have hwritten := hd.written
  have hroom := hd.room
  unfold StratumJob.set
  rw [if_neg (by omega), if_neg (by omega)]
  refine ⟨hcalled, .inr ⟨rfl, frame, ha, hx, hd.isTemplate, hroom, ?_⟩⟩
  have hblock : out'.block.bytes.take out'.written
      = (Rpc.payloadOf frame).drop 68 := by
    have hs : slice out'.block.bytes 0 out'.written
        = slice ((Rpc.payloadOf frame).drop 68) 0 out'.written :=
      hd.block.slice_eq (by
        rw [List.length_drop]
        omega)
    rw [slice, slice, List.drop_zero, List.drop_zero,
      List.take_of_length_le (l := (Rpc.payloadOf frame).drop 68) (by
        rw [List.length_drop]
        omega)] at hs
    exact hs
  exact {
    active := rfl
    baseTip := hd.baseTip
    id := hd.jobId
    blockLength := hwritten
    block := by
      show ((Buf.zero stratumBlockCapacity).write 0
        (out'.block.bytes.take out'.written)).bytes = _
      rw [hblock, Buf.write_bytes (by rw [List.length_drop]; omega),
        List.take_zero, List.nil_append, Nat.zero_add, List.length_drop]
      exact congrArg _ (List.drop_replicate ..)
    target := hd.target
    height := hd.height }

/-! ## The payload of a submission -/

/-- A block with another nonce is as long as it was. -/
theorem length_withNonce {block : Bytes} (h : 168 ≤ block.length) (nonce : ℕ) :
    (withNonce block nonce).length = block.length := by
  show (block.take 152 ++ writeBE 8 nonce ++ block.drop 160).length = _
  rw [List.length_append, List.length_append, List.length_take, length_writeBE,
    List.length_drop]
  omega

/-- **The payload of a submission**: the prefix, the identity and the block
with the nonce, whatever the array held. -/
theorem submitPayload_bytes (payload : Buf Rpc.maxPayload)
    (baseTip jobId : Buf 32) (block : Buf stratumBlockCapacity)
    {blockLength : ℕ} (minerIdentity : Buf stratumMinerIdentitySize)
    (nonce : UInt64) (hmin : blockHeaderSize ≤ blockLength)
    (hmax : blockLength ≤ stratumBlockCapacity) :
    slice (submitPayload payload baseTip jobId block blockLength minerIdentity
        nonce).bytes 0 (68 + stratumMinerIdentitySize + blockLength)
      = baseTip.bytes ++ jobId.bytes ++ writeBE 4 blockLength
        ++ minerIdentity.bytes
        ++ withNonce (slice block.bytes 0 blockLength) nonce.toNat := by
  have l₁ : baseTip.bytes.length = 32 := baseTip.size
  have l₂ : jobId.bytes.length = 32 := jobId.size
  have l₃ := length_writeBE 4 blockLength
  have l₄ : minerIdentity.bytes.length = 69 := minerIdentity.size
  have l₅ : (slice block.bytes 0 blockLength).length = blockLength :=
    length_slice (by rw [block.size]; omega)
  have hcap : stratumBlockCapacity = 1048576 := rfl
  have hbound : Rpc.maxPayload = 1052017 := rfl
  have hmin' : 168 ≤ blockLength := hmin
  unfold submitPayload
  dsimp only
  have b₁ := (payload.begins_nil).write (i := 0) (s := baseTip.bytes) rfl
    (by rw [l₁]; decide)
  have b₂ := b₁.write (i := 32) (s := jobId.bytes)
    (by rw [List.nil_append, l₁]) (by rw [l₂]; decide)
  have b₃ := b₂.write (i := 64) (s := writeBE 4 blockLength)
    (by rw [List.nil_append, List.length_append, l₁, l₂])
    (by rw [l₃]; decide)
  have b₄ := b₃.write (i := 68) (s := minerIdentity.bytes)
    (by rw [List.nil_append, List.length_append, List.length_append, l₁, l₂,
      l₃]) (by rw [l₄]; decide)
  have hfront : (baseTip.bytes ++ jobId.bytes ++ writeBE 4 blockLength
      ++ minerIdentity.bytes).length = 137 := by
    rw [List.length_append, List.length_append, List.length_append, l₁, l₂, l₃,
      l₄]
  rw [List.nil_append] at b₄
  have b₅ := b₄.write (i := 68 + stratumMinerIdentitySize)
    (s := slice block.bytes 0 blockLength) hfront (by
      rw [l₅]
      show 68 + 69 + blockLength ≤ Rpc.maxPayload
      omega)
  generalize baseTip.bytes ++ jobId.bytes ++ writeBE 4 blockLength
    ++ minerIdentity.bytes = front at hfront b₅ ⊢
  generalize slice block.bytes 0 blockLength = blk at l₅ b₅ ⊢
  -- the nonce is stored over that of the block
  have b₆ := b₅.overwrite (i := 68 + stratumMinerIdentitySize + blockNonceOffset)
    (s := writeBE 8 nonce.toNat) (by
      rw [length_writeBE, List.length_append, hfront, l₅]
      show 68 + 69 + 152 + 8 ≤ 137 + blockLength
      omega)
  rw [Buf.storeBE_eq_write (by
    show 68 + 69 + 152 + 8 ≤ Rpc.maxPayload
    decide)]
  have htake := @List.take_length_add_append _ front blk 152
  have hdrop := @List.drop_length_add_append _ front blk 160
  rw [hfront] at htake hdrop
  rw [length_writeBE,
    show 68 + stratumMinerIdentitySize + blockNonceOffset = 137 + 152 from rfl,
    show 137 + 152 + 8 = 137 + 160 from rfl, htake, hdrop,
    show front ++ blk.take 152 ++ writeBE 8 nonce.toNat ++ blk.drop 160
      = front ++ withNonce blk nonce.toNat by
      rw [withNonce, List.append_assoc front, List.append_assoc front]] at b₆
  have hlen : (front ++ withNonce blk nonce.toNat).length = 137 + blockLength := by
    rw [List.length_append, hfront, length_withNonce (by omega), l₅]
  exact (b₆.slice_eq (by rw [hlen]; exact le_of_eq (Nat.zero_add _))).trans
    (slice_self hlen)

/-- What a submission of a template is: its prefix, the identity and its block
with the nonce. -/
def submissionOf (t : Bytes) (minerIdentity : Buf stratumMinerIdentitySize)
    (nonce : UInt64) : Bytes :=
  slice t 0 68 ++ minerIdentity.bytes ++ withNonce (t.drop 68) nonce.toNat

/-- The fields of a job are put together to the template again. -/
theorem submitPayload_decodes {job : StratumJob} {t : Bytes}
    (ht : Rpc.IsTemplate t) (hroom : t.length - 68 ≤ stratumBlockCapacity)
    (hd : job.Decodes t) (payload : Buf Rpc.maxPayload)
    (minerIdentity : Buf stratumMinerIdentitySize) (nonce : UInt64) :
    slice (submitPayload payload job.baseTip job.id job.block job.blockLength
        minerIdentity nonce).bytes 0
        (68 + stratumMinerIdentitySize + job.blockLength)
      = submissionOf t minerIdentity nonce := by
  have hlen := ht.length
  have hblock := hd.blockLength
  have hprefix : job.baseTip.bytes ++ job.id.bytes ++ writeBE 4 job.blockLength
      = slice t 0 68 := by
    have hw := writeBE_readBE (slice t 64 4)
    rw [length_slice (by omega), ht.blockLength] at hw
    rw [hd.baseTip, hd.id, hblock, hw, slice_append_slice t 0 32 32,
      slice_append_slice t 0 64 4]
  have hfield : slice job.block.bytes 0 job.blockLength = t.drop 68 := by
    rw [hd.block, slice_append_self (by rw [List.length_drop, hblock])]
  rw [submitPayload_bytes payload _ _ _ _ _ (by
      show 168 ≤ _
      omega) (by omega), hprefix, hfield]
  rfl

/-- **A submission of a job calls SUBMIT_WORK once**, with the template, the
identity and the nonce. -/
theorem rpcSubmit_spec {job : StratumJob} {t : Bytes}
    (ht : Rpc.IsTemplate t) (hroom : t.length - 68 ≤ stratumBlockCapacity)
    (hd : job.Decodes t) (a : ChainRpcAdapter τ)
    (minerIdentity : Buf stratumMinerIdentitySize) (nonce : UInt64) :
    (rpcSubmit T a job.baseTip job.id job.block job.blockLength minerIdentity
        nonce).2
      = a.called Rpc.submitWork (submissionOf t minerIdentity nonce)
        (Rpc.callSubmitWork T a.transport a.client a.heap
          (submissionOf t minerIdentity nonce) (a.heap.uninit 80)) := by
  have hlen := ht.length
  have hblock := hd.blockLength
  have hcap : stratumBlockCapacity = 1048576 := rfl
  have hguard : ¬ (job.blockLength < blockHeaderSize
      ∨ Rpc.maxPayload - 68 - stratumMinerIdentitySize < job.blockLength) := by
    show ¬ (job.blockLength < 168 ∨ 1052017 - 68 - 69 < job.blockLength)
    omega
  unfold rpcSubmit
  rw [if_neg hguard, submitPayload_decodes ht hroom hd]
  dsimp only
  split
  · rfl
  · split <;> rfl

/-- The payload without the identity. -/
def withoutIdentity (payload : Bytes) : Bytes :=
  payload.take 68 ++ payload.drop (68 + stratumMinerIdentitySize)

/-- The payload with the original bytes where the nonce is in its block. -/
def restored (t payload : Bytes) : Bytes :=
  payload.take (68 + blockNonceOffset) ++ slice t (68 + blockNonceOffset) 8
    ++ payload.drop (68 + blockNonceOffset + 8)

/-- **A submission is the template again**, the identity and the nonce
aside. -/
theorem restored_submissionOf {t : Bytes} (h : 236 ≤ t.length)
    (minerIdentity : Buf stratumMinerIdentitySize) (nonce : UInt64) :
    restored t (withoutIdentity (submissionOf t minerIdentity nonce)) = t := by
  have hfront : (slice t 0 68).length = 68 := length_slice (by omega)
  have hboth : (slice t 0 68 ++ minerIdentity.bytes).length
      = 68 + stratumMinerIdentitySize := by
    rw [List.length_append, hfront, minerIdentity.size]
  have hwithout : withoutIdentity (submissionOf t minerIdentity nonce)
      = slice t 0 68 ++ withNonce (t.drop 68) nonce.toNat := by
    unfold withoutIdentity submissionOf
    rw [List.drop_left' hboth, List.append_assoc, List.take_left' hfront]
  -- the nonce is the only thing in it that is not the template's
  have hsplit : slice t 0 68 ++ withNonce (t.drop 68) nonce.toNat
      = slice t 0 220 ++ writeBE 8 nonce.toNat ++ t.drop 228 := by
    rw [← slice_append_slice t 0 68 152]
    show slice t 0 68 ++ (slice t 68 152 ++ writeBE 8 nonce.toNat
      ++ (t.drop 68).drop 160) = _
    rw [List.drop_drop, ← List.append_assoc, ← List.append_assoc]
  have hhead : (slice t 0 220).length = 220 := length_slice (by omega)
  have hnonce : (slice t 0 220 ++ writeBE 8 nonce.toNat).length = 228 := by
    rw [List.length_append, hhead, length_writeBE]
  rw [hwithout, hsplit]
  show ((_ : Bytes).take 220 ++ slice t 220 8 ++ (_ : Bytes).drop 228 : Bytes) = t
  rw [List.drop_left' hnonce, List.append_assoc (slice t 0 220),
    List.take_left' hhead, slice_append_slice t 0 220 8, slice, List.drop_zero,
    List.take_append_drop]

/-- **A submission that goes back to the template it comes from.** -/
structure RoundTrip (t : Bytes) (minerIdentity : Buf stratumMinerIdentitySize)
    (nonce : UInt64) (call : AdapterCall) : Prop where
  /-- It is a SUBMIT_WORK. -/
  method : call.method = Rpc.submitWork
  /-- A request that goes to Chain carries its payload. -/
  sent : ∀ request reply, call.exchanged = some (request, reply) →
    Rpc.payloadOf request = call.payload
  /-- Without the identity and with the nonce of the template, it is the
  template. -/
  reply : restored t (withoutIdentity call.payload) = t
  /-- A live server that has stored the template puts together the same, for a
  miner with this identity and a proof with this nonce. -/
  live : ∀ (work : ActiveWork) (client : ClientSession)
    (memory : Buf (work.templateLength + Miner.addressLength)),
    work.Stores t → client.identity = minerIdentity.bytes →
      (workPayload memory work client nonce.toNat).bytes = call.payload

/-- A SUBMIT_WORK that is exchanged carries its payload. -/
theorem payloadOf_callSubmitWork {transport : τ} {client : RpcClient}
    {heap : Heap} {payload : Bytes} {capacity : ℕ} {response : Buf capacity}
    {request : Bytes} {reply : Option Bytes}
    (h : (Rpc.callSubmitWork T transport client heap payload
      response).exchanged = some (request, reply)) :
    Rpc.payloadOf request = payload := by
  unfold Rpc.callSubmitWork at h
  split at h
  · cases h
  · obtain hnone | ⟨reply', hsome, _⟩ := Rpc.call_exchanged T transport client
      heap Rpc.submitWork payload (some response)
    · rw [hnone] at h
      cases h
    · obtain ⟨rfl, _⟩ := Prod.mk.inj (Option.some.inj (hsome.symm.trans h))
      exact Rpc.payloadOf_requestFrame _ _ _

/-- **Every submission of a job that is decoded goes back to the reply.** -/
theorem roundTrip {job : StratumJob} {t : Bytes} (ht : Rpc.IsTemplate t)
    (hroom : t.length - 68 ≤ stratumBlockCapacity) (hd : job.Decodes t)
    (a : ChainRpcAdapter τ) (minerIdentity : Buf stratumMinerIdentitySize)
    (nonce : UInt64) :
    ∃ call, (rpcSubmit T a job.baseTip job.id job.block job.blockLength
        minerIdentity nonce).2.calls = a.calls ++ [call]
      ∧ (rpcSubmit T a job.baseTip job.id job.block job.blockLength
          minerIdentity nonce).2
        = a.called Rpc.submitWork call.payload (Rpc.callSubmitWork T a.transport
          a.client a.heap call.payload (a.heap.uninit 80))
      ∧ RoundTrip t minerIdentity nonce call := by
  rw [rpcSubmit_spec ht hroom hd]
  refine ⟨_, rfl, rfl, rfl, fun request reply h => payloadOf_callSubmitWork h,
    restored_submissionOf ht.length minerIdentity nonce, ?_⟩
  intro work client memory hstores hidentity
  have hlen : 236 ≤ work.templateLength := hstores.length ▸ hstores.block
  rw [workPayload_bytes memory client nonce.toNat hlen, hidentity,
    hstores.wholeBlock, hstores.slice_eq 0 68 (by have := hstores.block; omega)]
  rfl

end ChainRpcAdapter

open ChainRpcAdapter

/-- **From a template to a submission and back.** Over the adapter, a refresh
calls MINING_TEMPLATE once, and the adapter is as that call leaves it: it fails
and leaves the job as it is, or Chain has answered and the job is the decoding
of that reply. Whatever the identity and the nonce are then, a submission of the
job calls SUBMIT_WORK once with a payload that is the reply again, the identity
and the nonce aside, and that is the payload of the live server for the same
template. -/
theorem template_round_trip (T : ChainTransport τ) (a : ChainRpcAdapter τ)
    (job : StratumJob) (out : TemplateOut) :
    let r := job.refresh (some (ChainRpcAdapter.bind T)) a out
    ∃ call, r.2.2.calls = a.calls ++ [call]
      ∧ call.method = Rpc.miningTemplate
      ∧ r.2.2 = a.called Rpc.miningTemplate [] (a.poll T)
      ∧ (r.1 ≠ .ok ∧ r.2.1 = job
        ∨ r.1 = .ok ∧ ∃ id frame,
          call.exchanged = some (Rpc.requestFrame Rpc.miningTemplate id [],
              some frame)
            ∧ Rpc.IsAnswer Rpc.miningTemplate id frame
            ∧ r.2.1.Decodes (Rpc.payloadOf frame)
            ∧ ∀ (a' : ChainRpcAdapter τ) minerIdentity nonce, ∃ submit,
              (rpcSubmit T a' r.2.1.baseTip r.2.1.id r.2.1.block
                  r.2.1.blockLength minerIdentity nonce).2.calls
                = a'.calls ++ [submit]
              ∧ (rpcSubmit T a' r.2.1.baseTip r.2.1.id r.2.1.block
                  r.2.1.blockLength minerIdentity nonce).2
                = a'.called Rpc.submitWork submit.payload
                  (Rpc.callSubmitWork T a'.transport a'.client a'.heap
                    submit.payload (a'.heap.uninit 80))
              ∧ RoundTrip (Rpc.payloadOf frame) minerIdentity nonce
                submit) := by
  intro r
  obtain ⟨hcalled, hcases⟩ := refresh_spec (T := T) a job out
  refine ⟨_, congrArg ChainRpcAdapter.calls hcalled, rfl, hcalled, ?_⟩
  obtain hfails | ⟨hok, frame, ha, hx, ht, hroom, hd⟩ := hcases
  · exact .inl hfails
  · exact .inr ⟨hok, _, frame, hx, ha, hd, fun a' minerIdentity nonce =>
      roundTrip ht hroom hd a' minerIdentity nonce⟩

/-- An adapter to a Chain that has a template and accepts a block. -/
def answeredTwice : ChainRpcAdapter (List Bytes) where
  transport := [Rpc.mineableTemplate easyTarget 0, List.replicate 80 0]
  client := ⟨0⟩
  heap := ⟨[], fun _ => 0⟩
  calls := []

/-- A refresh over it. -/
def refreshed : StratumStatus × StratumJob × ChainRpcAdapter (List Bytes) :=
  StratumJob.refresh
    ⟨Buf.zero _, Buf.zero _, Buf.zero _, Buf.zero _, 0, 0, false⟩
    (some (ChainRpcAdapter.bind Rpc.replay)) answeredTwice
    ⟨Buf.zero _, Buf.zero _, Buf.zero _, 0, Buf.zero _, 0⟩

set_option maxRecDepth 100000 in
/-- **The refresh succeeds**, and so does a submission behind it, of which the
payload is the template again. -/
theorem template_round_trip_answeredTwice :
    let minerIdentity : Buf stratumMinerIdentitySize :=
      (Buf.zero _).write 0 addressPrefix
    let r := rpcSubmit Rpc.replay refreshed.2.2 refreshed.2.1.baseTip
      refreshed.2.1.id refreshed.2.1.block refreshed.2.1.blockLength
      minerIdentity 7
    refreshed.1 = .ok ∧ r.1 = .ok ∧ r.2.calls.length = 2
      ∧ refreshed.2.1.Decodes (Rpc.mineableTemplate easyTarget 0)
      ∧ ∃ submit ∈ r.2.calls, submit.exchanged.isSome = true
        ∧ RoundTrip (Rpc.mineableTemplate easyTarget 0) minerIdentity 7
          submit := by
  intro minerIdentity r
  obtain ⟨hok, haccepted, hsent, hreply⟩ : refreshed.1 = .ok ∧ r.1 = .ok
      ∧ r.2.calls.map (fun call => call.exchanged.isSome) = [true, true]
      ∧ refreshed.2.2.calls.map (fun call =>
          call.exchanged.map fun x => x.2.map Rpc.payloadOf)
        = [some (some (Rpc.mineableTemplate easyTarget 0))] := by
    decide +kernel
  have hr : r = rpcSubmit Rpc.replay refreshed.2.2 refreshed.2.1.baseTip
    refreshed.2.1.id refreshed.2.1.block refreshed.2.1.blockLength
    minerIdentity 7 := rfl
  clear_value r minerIdentity
  have h := template_round_trip Rpc.replay answeredTwice
    ⟨Buf.zero _, Buf.zero _, Buf.zero _, Buf.zero _, 0, 0, false⟩
    ⟨Buf.zero _, Buf.zero _, Buf.zero _, 0, Buf.zero _, 0⟩
  dsimp only at h
  generalize hr₀ : StratumJob.refresh _ _ _ _ = r₀ at h
  obtain rfl : refreshed = r₀ := hr₀
  obtain ⟨call, hcalls, _, _, hcases⟩ := h
  obtain ⟨_, id, frame, hx, _, hdecodes, hsubmit⟩ :=
    hcases.resolve_left fun hfails => hfails.1 hok
  have hframe : Rpc.payloadOf frame = Rpc.mineableTemplate easyTarget 0 := by
    rw [hcalls] at hreply
    have hone : call.exchanged.map (fun x => x.2.map Rpc.payloadOf)
        = some (some (Rpc.mineableTemplate easyTarget 0)) :=
      (List.cons.inj hreply).1
    rw [hx] at hone
    exact Option.some.inj (Option.some.inj hone)
  rw [hframe] at hdecodes hsubmit
  obtain ⟨submit, hcalls', _, hround⟩ := hsubmit refreshed.2.2 minerIdentity 7
  have hmem : submit ∈ r.2.calls := by
    rw [hr, hcalls']
    exact List.mem_append_right _ List.mem_cons_self
  have hlen := congrArg List.length hsent
  rw [List.length_map] at hlen
  refine ⟨hok, haccepted, hlen, hdecodes, submit, hmem, ?_, hround⟩
  have hall := List.mem_map_of_mem
    (f := fun call : AdapterCall => call.exchanged.isSome) hmem
  rw [hsent] at hall
  simpa using hall
