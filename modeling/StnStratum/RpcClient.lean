import StnStratum.Buffer

/-!
# The STNC client

`stn_rpc_client.c` turns a payload into a request frame, hands it to whatever
carries frames to Chain, and decides what to make of the frame that comes
back. What carries the frames is a `ChainTransport`: it may lose a request,
answer late, answer another request or answer nonsense, so everything proved
of the client is proved of every transport.

`call` is the one function all four requests go through. It reports, besides
what the C function returns, the request it handed over and the frame it got
back (`Call.exchanged`), which is how the server's theorems speak of what
Chain was told and what Chain said.
-/

namespace Rpc

/-- `STN_RPC_CLIENT_VERSION`. -/
abbrev version : ℕ := 2
/-- `STN_RPC_CLIENT_HEADER_SIZE`. -/
abbrev headerSize : ℕ := 24
/-- `STN_RPC_CLIENT_MINER_IDENTITY_SIZE`. -/
abbrev minerIdentitySize : ℕ := 69
/-- `STN_RPC_CLIENT_BLOCK_HEADER_SIZE`. -/
abbrev blockHeaderSize : ℕ := 168
/-- `STN_RPC_CLIENT_SHARE_PREFIX_SIZE`. -/
abbrev sharePrefixSize : ℕ := 109
/-- `STN_RPC_CLIENT_SHARE_SIZE`. -/
abbrev shareSize : ℕ := sharePrefixSize + blockHeaderSize
/-- `STN_RPC_CLIENT_MINING_PREFIX_SIZE`. -/
abbrev miningPrefixSize : ℕ := 68
/-- `STN_RPC_CLIENT_MAX_PAYLOAD`. -/
abbrev maxPayload : ℕ := 1052017

/-- `STN_RPC_CLIENT_INFO`. -/
abbrev info : ℕ := 0x0001
/-- `STN_RPC_CLIENT_MINING_TEMPLATE`. -/
abbrev miningTemplate : ℕ := 0x2002
/-- `STN_RPC_CLIENT_SUBMIT_WORK`. -/
abbrev submitWork : ℕ := 0x2003
/-- `STN_RPC_CLIENT_SUBMIT_SHARE`. -/
abbrev submitShare : ℕ := 0x2004

/-- The bytes of `STNC`. -/
def magic : Bytes := [0x53, 0x54, 0x4e, 0x43]

/-- The bytes of `STNB`, which a block starts with. -/
def blockMagic : Bytes := [0x53, 0x54, 0x4e, 0x42]

end Rpc

/-- **`stn_rpc_client_code`.** -/
inductive RpcCode where
  | ok
  | invalid
  | versionError
  | method
  | forbidden
  | unavailable
  | notFound
  | rejected
  | provider
  | capacity
  | stale
  | transport
  deriving DecidableEq

/-- What an exchange leaves: whether it went through, the response buffer, and
the length it reports. -/
structure Reply (m : ℕ) where
  /-- What the exchange function returned. -/
  ok : Bool
  /-- The response buffer afterwards. -/
  response : Buf m
  /-- The reported length of the frame. -/
  frameLength : ℕ

/-- The frame an exchange came back with, if it did. -/
def Reply.frame {m : ℕ} (r : Reply m) : Option Bytes :=
  if r.ok then some (r.response.bytes.take r.frameLength) else none

/-- **What carries frames to Chain.** A state of type `τ`, which `init` binds
to a host and a port, `close` lets go of, and `exchange` sends a request from
and receives a response into. -/
structure ChainTransport (τ : Type) where
  /-- `stn_rpc_linux_init` or its sibling. -/
  init : τ → Bytes → UInt16 → τ
  /-- `stn_rpc_linux_close` or its sibling. -/
  close : τ → τ
  /-- The function behind `stn_rpc_client_exchange_fn`. -/
  exchange : {m : ℕ} → τ → Bytes → Buf m → τ × Reply m

/-- **`stn_rpc_client`**, the transport apart. -/
structure RpcClient where
  /-- `next_request_id`. -/
  nextRequestId : UInt64
  deriving DecidableEq

namespace RpcClient

/-- `stn_rpc_client_init`. -/
def init : RpcClient := ⟨1⟩

/-- The request ID a call uses: the next one, and where that has wrapped to
zero the one behind it. -/
def requestId (client : RpcClient) : UInt64 :=
  if client.nextRequestId = 0 then client.nextRequestId + 1
  else client.nextRequestId

/-- The client once a request ID is taken. -/
def advance (client : RpcClient) : RpcClient :=
  ⟨client.requestId + 1⟩

/-- No call uses the request ID zero. -/
theorem requestId_ne_zero (client : RpcClient) : client.requestId ≠ 0 := by
  unfold requestId
  by_cases h : client.nextRequestId = 0
  · rw [if_pos h, h]
    decide
  · rw [if_neg h]
    exact h

end RpcClient

namespace Rpc

/-- **`map_code`**, on the result code of a response. -/
def mapCode (code : ℕ) : RpcCode :=
  match code with
  | 0 => .ok
  | 1 => .invalid
  | 2 => .versionError
  | 3 => .method
  | 4 => .forbidden
  | 5 => .unavailable
  | 6 => .notFound
  | 7 => .rejected
  | 8 => .provider
  | 9 => .capacity
  | 10 => .stale
  | _ => .invalid

/-! ## The request -/

/-- The stores that make a request in the memory allocated for it. -/
def buildRequest {n : ℕ} (request : Buf n) (method id : ℕ) (payload : Bytes) :
    Buf n :=
  let request := request.write 0 magic
  let request := request.storeBE 4 2 version
  let request := request.storeBE 6 2 1
  let request := request.storeBE 8 2 method
  let request := request.storeBE 10 2 0
  let request := request.storeBE 12 8 id
  let request := request.storeBE 20 4 payload.length
  if payload.length ≠ 0 then request.write 24 payload else request

/-- The header of a request. -/
def requestHeader (method id length : ℕ) : Bytes :=
  magic ++ writeBE 2 version ++ writeBE 2 1 ++ writeBE 2 method
    ++ writeBE 2 0 ++ writeBE 8 id ++ writeBE 4 length

/-- **A request frame**: the header and the payload behind it. -/
def requestFrame (method id : ℕ) (payload : Bytes) : Bytes :=
  requestHeader method id payload.length ++ payload

@[simp] theorem length_requestHeader (method id length : ℕ) :
    (requestHeader method id length).length = 24 := by
  unfold requestHeader
  simp only [List.length_append, length_writeBE]
  rfl

@[simp] theorem length_requestFrame (method id : ℕ) (payload : Bytes) :
    (requestFrame method id payload).length = 24 + payload.length := by
  rw [requestFrame, List.length_append, length_requestHeader]

/-- **The stores make the frame**, whatever the memory held. -/
theorem buildRequest_bytes {payload : Bytes}
    (request : Buf (24 + payload.length)) (method id : ℕ) :
    (buildRequest request method id payload).bytes
      = requestFrame method id payload := by
  unfold buildRequest
  dsimp only
  have le : ∀ {i k : ℕ}, i + k ≤ 24 → i + k ≤ 24 + payload.length :=
    fun h => by omega
  rw [Buf.storeBE_eq_write (le (by decide)),
    Buf.storeBE_eq_write (le (by decide)),
    Buf.storeBE_eq_write (le (by decide)),
    Buf.storeBE_eq_write (le (by decide)),
    Buf.storeBE_eq_write (le (by decide)),
    Buf.storeBE_eq_write (le (by decide))]
  have b₀ := (request.begins_nil).write (i := 0) (s := magic) rfl
    (le (by decide))
  have b₁ := b₀.write (i := 4) (s := writeBE 2 version) rfl
    (by rw [length_writeBE]; exact le (by decide))
  have b₂ := b₁.write (i := 6) (s := writeBE 2 1)
    (by simp only [List.length_append, length_writeBE]; rfl)
    (by rw [length_writeBE]; exact le (by decide))
  have b₃ := b₂.write (i := 8) (s := writeBE 2 method)
    (by simp only [List.length_append, length_writeBE]; rfl)
    (by rw [length_writeBE]; exact le (by decide))
  have b₄ := b₃.write (i := 10) (s := writeBE 2 0)
    (by simp only [List.length_append, length_writeBE]; rfl)
    (by rw [length_writeBE]; exact le (by decide))
  have b₅ := b₄.write (i := 12) (s := writeBE 8 id)
    (by simp only [List.length_append, length_writeBE]; rfl)
    (by rw [length_writeBE]; exact le (by decide))
  have b₆ := b₅.write (i := 20) (s := writeBE 4 payload.length)
    (by simp only [List.length_append, length_writeBE]; rfl)
    (by rw [length_writeBE]; exact le (by decide))
  have hlen := length_requestFrame method id payload
  by_cases h : payload.length ≠ 0
  · rw [if_pos h]
    have b₇ := b₆.write (i := 24) (s := payload)
      (length_requestHeader method id payload.length) le_rfl
    exact b₇.bytes_eq hlen
  · rw [if_neg h]
    obtain rfl : payload = [] :=
      List.eq_nil_of_length_eq_zero (not_not.mp h)
    rw [requestFrame, List.append_nil]
    exact b₆.bytes_eq (length_requestHeader method id 0)

/-- The method a frame names. -/
def methodOf (frame : Bytes) : ℕ := readBE (slice frame 8 2)

/-- The request ID a frame names. -/
def requestIdOf (frame : Bytes) : ℕ := readBE (slice frame 12 8)

/-- The payload of a frame. -/
def payloadOf (frame : Bytes) : Bytes := frame.drop 24

section Fields

variable (method id : ℕ) (payload : Bytes)

theorem slice_requestFrame {off len : ℕ} (h : off + len ≤ 24) :
    slice (requestFrame method id payload) off len
      = slice (requestHeader method id payload.length) off len := by
  rw [requestFrame, slice_append_left (by rw [length_requestHeader]; exact h)]

/-- A request names its method. -/
theorem methodOf_requestFrame (h : method < 65536) :
    methodOf (requestFrame method id payload) = method := by
  rw [methodOf, slice_requestFrame method id payload (by decide)]
  exact readBE_writeBE (n := 2) h

/-- A request names its ID. -/
theorem requestIdOf_requestFrame (h : id < 2 ^ 64) :
    requestIdOf (requestFrame method id payload) = id := by
  rw [requestIdOf, slice_requestFrame method id payload (by decide)]
  exact readBE_writeBE (n := 8) h

/-- A request carries its payload. -/
theorem payloadOf_requestFrame :
    payloadOf (requestFrame method id payload) = payload := by
  rw [payloadOf, requestFrame,
    List.drop_left' (length_requestHeader method id payload.length)]

end Fields

/-! ## The response -/

/-- **The payload rule of a method**: whether a response payload of `n` bytes
is refused for its length or, for a template, for what it begins with. -/
def refusesPayload (method : ℕ) (response : Bytes) (n : ℕ) : Bool :=
  (method == info && n != 184)
    || (method == submitWork && n != 80)
    || (method == submitShare && n != 32)
    || (method == miningTemplate
      && (decide (n < miningPrefixSize + blockHeaderSize)
        || readBE (slice response (24 + 64) 4) != n - miningPrefixSize
        || slice response (24 + miningPrefixSize) 4 != blockMagic
        || readBE (slice response (24 + miningPrefixSize + 4) 2) != 3))

/-- **What `call` makes of a response**, in the order of its checks: `ok`
where the payload is to be handed out, the code to return where it is not.
`hasBuffer` is whether there is a buffer to hand it out in. -/
def checkResponse (method id capacity : ℕ) (hasBuffer : Bool)
    (response : Bytes) (frameLength : ℕ) : RpcCode :=
  if frameLength < 24 ∨ 24 + capacity < frameLength
      ∨ slice response 0 4 ≠ magic
      ∨ readBE (slice response 4 2) ≠ version
      ∨ readBE (slice response 6 2) ≠ 2
      ∨ readBE (slice response 8 2) ≠ method
      ∨ readBE (slice response 12 8) ≠ id then .invalid
  else
    let responseLength := readBE (slice response 20 4)
    if responseLength ≠ frameLength - 24 then .invalid
    else
      let responseCode := readBE (slice response 10 2)
      if responseCode ≠ 0 then
        if responseLength ≠ 0 then .invalid else mapCode responseCode
      else if capacity < responseLength
          ∨ (responseLength ≠ 0 ∧ hasBuffer = false) then .capacity
      else if refusesPayload method response responseLength then .invalid
      else .ok

/-- **A well-formed answer to a request**: an STNC v2 response that names the
request's method and ID, says success, and is as long as it says. -/
structure IsAnswer (method id : ℕ) (frame : Bytes) : Prop where
  /-- There is a header. -/
  header : 24 ≤ frame.length
  /-- It starts with the magic. -/
  magic : slice frame 0 4 = Rpc.magic
  /-- It has the version. -/
  version : readBE (slice frame 4 2) = Rpc.version
  /-- It is a response. -/
  kind : readBE (slice frame 6 2) = 2
  /-- It names the method. -/
  method_eq : methodOf frame = method
  /-- Its result code is success. -/
  code : readBE (slice frame 10 2) = 0
  /-- It names the request. -/
  id_eq : requestIdOf frame = id
  /-- Its length field is the length of its payload. -/
  length : readBE (slice frame 20 4) = (payloadOf frame).length
  /-- The method's payload rule does not refuse it. -/
  payload : refusesPayload method frame (payloadOf frame).length = false

/-- A field of the payload of a frame. -/
theorem slice_payloadOf (frame : Bytes) (off len : ℕ) :
    slice (payloadOf frame) off len = slice frame (24 + off) len := by
  rw [slice, slice, payloadOf, List.drop_drop]

/-- **A template that can be mined**: a header at least behind the prefix, the
block length the prefix gives, and a block of version 3. -/
structure IsTemplate (t : Bytes) : Prop where
  /-- There is a block header. -/
  length : 236 ≤ t.length
  /-- The prefix gives the length of the block. -/
  blockLength : readBE (slice t 64 4) = t.length - 68
  /-- The block has the magic. -/
  magic : slice t 68 4 = blockMagic
  /-- The block has version 3. -/
  version : readBE (slice t 72 2) = 3

/-- **A template is refused unless it can be mined.** -/
theorem refusesPayload_template_iff (frame : Bytes) :
    refusesPayload miningTemplate frame (payloadOf frame).length = false
      ↔ IsTemplate (payloadOf frame) := by
  have h : refusesPayload miningTemplate frame (payloadOf frame).length
      = (decide ((payloadOf frame).length < 236)
        || readBE (slice (payloadOf frame) 64 4)
          != (payloadOf frame).length - 68
        || slice (payloadOf frame) 68 4 != blockMagic
        || readBE (slice (payloadOf frame) 72 2) != 3) := by
    rw [slice_payloadOf, slice_payloadOf, slice_payloadOf]
    rfl
  rw [h]
  simp only [Bool.or_eq_false_iff, decide_eq_false_iff_not, not_lt,
    bne_eq_false_iff_eq]
  exact ⟨fun ⟨⟨⟨h₁, h₂⟩, h₃⟩, h₄⟩ => ⟨h₁, h₂, h₃, h₄⟩,
    fun ⟨h₁, h₂, h₃, h₄⟩ => ⟨⟨⟨h₁, h₂⟩, h₃⟩, h₄⟩⟩

/-- **The lengths of the answers to submissions.** -/
theorem IsAnswer.length_payload {method id : ℕ} {frame : Bytes}
    (h : IsAnswer method id frame) :
    (method = submitWork → (payloadOf frame).length = 80)
      ∧ (method = submitShare → (payloadOf frame).length = 32) := by
  have hp := h.payload
  constructor
  · rintro rfl
    simpa [refusesPayload] using hp
  · rintro rfl
    simpa [refusesPayload] using hp

/-- The header fields of a frame are those of the buffer it stands in. -/
theorem slice_take {b : Bytes} {off len n : ℕ} (h : off + len ≤ n) :
    slice (b.take n) off len = slice b off len := by
  rw [slice, slice, List.drop_take, List.take_take, Nat.min_eq_left (by omega)]

/-- The payload rule of a frame is that of the buffer it stands in: only the
template's reads the payload, and only once it is known to be long enough. -/
theorem refusesPayload_take (method : ℕ) (b : Bytes) (n : ℕ) :
    refusesPayload method (b.take (24 + n)) n = refusesPayload method b n := by
  unfold refusesPayload miningPrefixSize blockHeaderSize
  by_cases h : n < 68 + 168
  · simp only [decide_eq_true h, Bool.true_or]
  · rw [slice_take (by omega), slice_take (by omega), slice_take (by omega)]

/-- **A response is taken for an answer only if it is one.** -/
theorem isAnswer_of_checkResponse {method id capacity : ℕ}
    {hasBuffer : Bool} {response : Bytes} {frameLength : ℕ}
    (hcap : response.length = 24 + capacity)
    (h : checkResponse method id capacity hasBuffer response frameLength
      = .ok) :
    IsAnswer method id (response.take frameLength)
      ∧ (response.take frameLength).length = frameLength
      ∧ readBE (slice response 20 4) = frameLength - 24
      ∧ (frameLength - 24 ≠ 0 → hasBuffer = true) := by
  unfold checkResponse at h
  split at h
  · exact absurd h (by decide)
  next h₁ =>
  dsimp only at h
  split at h
  · exact absurd h (by decide)
  next h₂ =>
  split at h
  · split at h
    · exact absurd h (by decide)
    next h₃ _ =>
    -- no code other than zero is mapped to success
    refine absurd h ?_
    unfold mapCode
    split <;> first | exact absurd ‹_› h₃ | decide
  next h₃ =>
  split at h
  · exact absurd h (by decide)
  next h₄ =>
  split at h
  · exact absurd h (by decide)
  next h₅ =>
  simp only [not_or, not_not, not_lt, not_and] at h₁ h₂ h₃ h₄
  obtain ⟨h24, hle, hm, hv, hk, hme, hid⟩ := h₁
  have hlen : (response.take frameLength).length = frameLength := by
    rw [List.length_take, hcap]
    omega
  have hpay : (payloadOf (response.take frameLength)).length
      = frameLength - 24 := by
    rw [payloadOf, List.length_drop, hlen]
  refine ⟨⟨by omega, ?_, ?_, ?_, ?_, ?_, ?_, ?_, ?_⟩, hlen, h₂, ?_⟩
  · rw [slice_take (by omega), hm]
  · rw [slice_take (by omega), hv]
  · rw [slice_take (by omega), hk]
  · rw [methodOf, slice_take (by omega), hme]
  · rw [slice_take (by omega), h₃]
  · rw [requestIdOf, slice_take (by omega), hid]
  · rw [slice_take (by omega), hpay, h₂]
  · rw [hpay, ← h₂]
    rw [show frameLength = 24 + readBE (slice response 20 4) by omega,
      refusesPayload_take]
    exact Bool.eq_false_iff.mpr h₅
  · intro hne
    have := h₄.2 (h₂ ▸ hne)
    exact Bool.eq_true_of_not_eq_false this

/-- **An answer is taken for one**, where it fits and there is a buffer. -/
theorem checkResponse_eq_ok {method id capacity : ℕ} {response : Bytes}
    {frameLength : ℕ} (hcap : response.length = 24 + capacity)
    (hle : frameLength ≤ 24 + capacity)
    (h : IsAnswer method id (response.take frameLength)) :
    checkResponse method id capacity true response frameLength = .ok := by
  have hlen : (response.take frameLength).length = frameLength := by
    rw [List.length_take, hcap]
    omega
  have h24 : 24 ≤ frameLength := hlen ▸ h.header
  have hpay : (payloadOf (response.take frameLength)).length
      = frameLength - 24 := by
    rw [payloadOf, List.length_drop, hlen]
  have hm := h.magic
  have hv := h.version
  have hk := h.kind
  have hme := h.method_eq
  have hc := h.code
  have hid := h.id_eq
  have hl := h.length
  have hp := h.payload
  rw [slice_take (by omega)] at hm hv hk hc hl
  rw [methodOf, slice_take (by omega)] at hme
  rw [requestIdOf, slice_take (by omega)] at hid
  rw [hpay] at hl hp
  unfold checkResponse
  rw [if_neg (by
    simp only [not_or, not_not, not_lt]
    exact ⟨h24, hle, hm, hv, hk, hme, hid⟩)]
  dsimp only
  rw [if_neg (not_not.mpr hl), if_neg (not_not.mpr hc), hl,
    if_neg (by
      rintro (h | ⟨_, h⟩)
      · omega
      · exact Bool.noConfusion h), if_neg]
  have ht := refusesPayload_take method response (frameLength - 24)
  rw [Nat.add_sub_cancel' h24, hp] at ht
  rw [← ht]
  exact Bool.false_ne_true

/-- The payload of a response that is taken fits the buffer. -/
theorem responseLength_le {method id capacity : ℕ} {hasBuffer : Bool}
    {response : Bytes} {frameLength : ℕ}
    (h : checkResponse method id capacity hasBuffer response frameLength
      = .ok) : readBE (slice response 20 4) ≤ capacity := by
  unfold checkResponse at h
  split at h
  · cases h
  next h₁ =>
  dsimp only at h
  split at h
  · cases h
  next h₂ =>
  simp only [not_or, not_lt] at h₁
  omega

/-! ## The call -/

/-- **What a call comes to.** -/
structure Call (τ : Type) (capacity : ℕ) where
  /-- The code it returns. -/
  code : RpcCode
  /-- The transport afterwards. -/
  transport : τ
  /-- The client afterwards. -/
  client : RpcClient
  /-- The heap afterwards. -/
  heap : Heap
  /-- The caller's response buffer afterwards. -/
  payload : Option (Buf capacity)
  /-- `*written`. -/
  written : ℕ
  /-- The request handed to the transport, if one was, and the frame the
  exchange came back with. -/
  exchanged : Option (Bytes × Option Bytes)
  /-- What was written fits the caller's buffer. -/
  fits : written ≤ capacity

/-- A call that ends before anything is handed to the transport. -/
def Call.unsent {τ : Type} {capacity : ℕ} (code : RpcCode) (transport : τ)
    (client : RpcClient) (heap : Heap)
    (responsePayload : Option (Buf capacity)) : Call τ capacity :=
  ⟨code, transport, client, heap, responsePayload, 0, none, Nat.zero_le _⟩

section Calls

variable {τ : Type} (T : ChainTransport τ)

/-- The part of `call` behind the exchange. -/
def concluded (client : RpcClient) (heap : Heap) (method : ℕ)
    (request : Bytes) {capacity : ℕ} (responsePayload : Option (Buf capacity))
    (e : τ × Reply (24 + capacity)) : Call τ capacity :=
  let exchanged := some (request, e.2.frame)
  if e.2.ok = false then
    ⟨.transport, e.1, client.advance, heap, responsePayload, 0, exchanged,
      Nat.zero_le _⟩
  else
    let code := checkResponse method client.requestId.toNat capacity
      responsePayload.isSome e.2.response.bytes e.2.frameLength
    if h : code = .ok then
      let responseLength := readBE (slice e.2.response.bytes 20 4)
      ⟨.ok, e.1, client.advance, heap,
        responsePayload.map
          (·.write 0 (slice e.2.response.bytes 24 responseLength)),
        responseLength, exchanged, responseLength_le h⟩
    else
      ⟨code, e.1, client.advance, heap, responsePayload, 0, exchanged,
        Nat.zero_le _⟩

/-- The part of `call` behind the two allocations. -/
def exchangeWith (transport : τ) (client : RpcClient) (heap : Heap)
    (method : ℕ) (payload : Bytes) {capacity : ℕ}
    (responsePayload : Option (Buf capacity))
    (request : Buf (24 + payload.length)) (response : Buf (24 + capacity)) :
    Call τ capacity :=
  let request := buildRequest request method client.requestId.toNat payload
  concluded client heap method request.bytes responsePayload
    (T.exchange transport request.bytes response)

/-- **`call`**: the argument checks, the memory for the request and the
response, the exchange, and the check of what came back. The payload goes to
the caller's buffer only at the very end. -/
def call (transport : τ) (client : RpcClient) (heap : Heap) (method : ℕ)
    (payload : Bytes) {capacity : ℕ} (responsePayload : Option (Buf capacity)) :
    Call τ capacity :=
  if maxPayload < payload.length ∨ maxPayload < capacity then
    .unsent .invalid transport client heap responsePayload
  else
    let request := heap.malloc (24 + payload.length)
    let response := request.2.malloc (24 + capacity)
    match request.1, response.1 with
    | some b, some r =>
      exchangeWith T transport client response.2 method payload responsePayload
        b r
    | _, _ => .unsent .capacity transport client response.2 responsePayload

/-- **`stn_rpc_client_mining_template`**: to the caller, a Chain without room
for a template is a Chain without a template. -/
def callMiningTemplate (transport : τ) (client : RpcClient) (heap : Heap)
    {capacity : ℕ} (payload : Buf capacity) : Call τ capacity :=
  let r := call T transport client heap miningTemplate [] (some payload)
  { r with code := if r.code = .capacity then .unavailable else r.code }

/-- **`stn_rpc_client_submit_work`.** -/
def callSubmitWork (transport : τ) (client : RpcClient) (heap : Heap)
    (payload : Bytes) {capacity : ℕ} (responsePayload : Buf capacity) :
    Call τ capacity :=
  if payload.length < 68 + minerIdentitySize then
    .unsent .invalid transport client heap (some responsePayload)
  else
    call T transport client heap submitWork payload (some responsePayload)

/-- **`stn_rpc_client_submit_share`.** -/
def callSubmitShare (transport : τ) (client : RpcClient) (heap : Heap)
    (payload : Bytes) (shareId : Buf 32) : Call τ 32 :=
  if payload.length ≠ shareSize then
    .unsent .invalid transport client heap (some shareId)
  else
    let r := call T transport client heap submitShare payload (some shareId)
    if r.code = .ok ∧ r.written ≠ 32 then { r with code := .invalid } else r

/-! ### What a call can do -/

variable {T} {transport : τ} {client : RpcClient} {heap : Heap} {method : ℕ}
  {payload : Bytes} {capacity : ℕ} {responsePayload : Option (Buf capacity)}

variable (T transport client method responsePayload) in
/-- **A call within the bounds and with memory makes one exchange**, with the
request frame of its method and its payload. -/
theorem call_of_generous (hp : payload.length ≤ maxPayload)
    (hc : capacity ≤ maxPayload) (hg : heap.Generous) :
    ∃ b r heap', call T transport client heap method payload responsePayload
      = exchangeWith T transport client heap' method payload responsePayload
          b r := by
  obtain ⟨⟨b, hb⟩, hg'⟩ := hg.malloc (24 + payload.length)
  obtain ⟨⟨r, hr⟩, _⟩ := hg'.malloc (24 + capacity)
  refine ⟨b, r, ((heap.malloc (24 + payload.length)).2.malloc
    (24 + capacity)).2, ?_⟩
  unfold call
  rw [if_neg (by omega)]
  dsimp only
  rw [hb, hr]

/-- **The two ways of a call**: it ends before anything is handed over and
leaves the transport, the client and the buffer alone, or it makes its one
exchange. -/
theorem call_cases (T : ChainTransport τ) (transport : τ)
    (client : RpcClient) (heap : Heap) (method : ℕ) (payload : Bytes)
    (responsePayload : Option (Buf capacity)) :
    (∃ code heap', (code = .invalid ∨ code = .capacity)
        ∧ call T transport client heap method payload responsePayload
          = .unsent code transport client heap' responsePayload)
      ∨ ∃ b r heap', payload.length ≤ maxPayload
        ∧ call T transport client heap method payload responsePayload
          = exchangeWith T transport client heap' method payload
              responsePayload b r := by
  unfold call
  by_cases h : maxPayload < payload.length ∨ maxPayload < capacity
  · rw [if_pos h]
    exact .inl ⟨_, _, .inl rfl, rfl⟩
  · rw [if_neg h]
    dsimp only
    cases (heap.malloc (24 + payload.length)).1 with
    | none => exact .inl ⟨_, _, .inr rfl, rfl⟩
    | some b =>
      cases ((heap.malloc (24 + payload.length)).2.malloc
          (24 + capacity)).1 with
      | none => exact .inl ⟨_, _, .inr rfl, rfl⟩
      | some r => exact .inr ⟨b, r, _, by omega, rfl⟩

section Exchange

variable {request : Buf (24 + payload.length)} {response : Buf (24 + capacity)}

variable (T transport client heap method payload responsePayload request
  response) in
/-- The request of an exchange is the request frame. -/
theorem exchangeWith_exchanged :
    ∃ reply, (exchangeWith T transport client heap method payload
        responsePayload request response).exchanged
      = some (requestFrame method client.requestId.toNat payload, reply) := by
  unfold exchangeWith
  dsimp only
  rw [buildRequest_bytes]
  unfold concluded
  dsimp only
  split
  · exact ⟨_, rfl⟩
  · split <;> exact ⟨_, rfl⟩

/-- **An exchange that is not taken for an answer** leaves the buffer alone, and
reports that nothing was written. -/
theorem exchangeWith_refused
    (h : (exchangeWith T transport client heap method payload
      responsePayload request response).code ≠ .ok) :
    (exchangeWith T transport client heap method payload
        responsePayload request response).payload = responsePayload
      ∧ (exchangeWith T transport client heap method payload
        responsePayload request response).written = 0 := by
  unfold exchangeWith concluded at h ⊢
  dsimp only at h ⊢
  split
  · exact ⟨rfl, rfl⟩
  next h₁ =>
  rw [if_neg h₁] at h
  split
  next h₂ => exact absurd rfl (by rw [dif_pos h₂] at h; exact h)
  · exact ⟨rfl, rfl⟩

/-- **An exchange that is taken for an answer came back with one**: to this
very request, and its payload, neither more nor less, is in the buffer. -/
theorem exchangeWith_ok
    (h : (exchangeWith T transport client heap method payload
      responsePayload request response).code = .ok) :
    ∃ frame, IsAnswer method client.requestId.toNat frame
      ∧ (exchangeWith T transport client heap method payload
          responsePayload request response).exchanged
        = some (requestFrame method client.requestId.toNat payload,
            some frame)
      ∧ (exchangeWith T transport client heap method payload
          responsePayload request response).written
        = (payloadOf frame).length
      ∧ (payloadOf frame).length ≤ capacity
      ∧ (exchangeWith T transport client heap method payload
          responsePayload request response).payload
        = responsePayload.map (·.write 0 (payloadOf frame)) := by
  unfold exchangeWith at h ⊢
  dsimp only at h ⊢
  rw [buildRequest_bytes] at h ⊢
  generalize T.exchange transport
    (requestFrame method client.requestId.toNat payload) response = e at h ⊢
  unfold concluded at h ⊢
  dsimp only at h ⊢
  by_cases h₁ : e.2.ok = false
  · rw [if_pos h₁] at h
    cases h
  rw [if_neg h₁] at h ⊢
  by_cases h₂ : checkResponse method client.requestId.toNat capacity
      responsePayload.isSome e.2.response.bytes e.2.frameLength = .ok
  · rw [dif_pos h₂]
    obtain ⟨ha, hlen, hl, _⟩ := isAnswer_of_checkResponse e.2.response.size h₂
    have hle : e.2.frameLength ≤ 24 + capacity := by
      have := List.length_take_le' e.2.frameLength e.2.response.bytes
      rw [hlen, e.2.response.size] at this
      exact this
    have hp : payloadOf (e.2.response.bytes.take e.2.frameLength)
        = slice e.2.response.bytes 24 (e.2.frameLength - 24) := by
      rw [payloadOf, slice, List.drop_take]
    have hpl : (payloadOf (e.2.response.bytes.take e.2.frameLength)).length
        = e.2.frameLength - 24 := by
      rw [payloadOf, List.length_drop, hlen]
    refine ⟨_, ha, ?_, ?_, ?_, ?_⟩
    · rw [Reply.frame, if_pos (Bool.eq_true_of_not_eq_false h₁)]
    · exact hl.trans hpl.symm
    · omega
    · show responsePayload.map (·.write 0 (slice e.2.response.bytes 24
          (readBE (slice e.2.response.bytes 20 4)))) = _
      rw [hl, hp]
  · rw [dif_neg h₂] at h
    exact absurd h h₂

/-- **An answer that comes back and fits is taken for one.** -/
theorem exchangeWith_of_answer {buffer : Buf capacity}
    {e : τ × Reply (24 + capacity)}
    (he : T.exchange transport
      (requestFrame method client.requestId.toNat payload) response = e)
    (hok : e.2.ok = true) (hle : e.2.frameLength ≤ 24 + capacity)
    (ha : IsAnswer method client.requestId.toNat
      (e.2.response.bytes.take e.2.frameLength)) :
    (exchangeWith T transport client heap method payload (some buffer)
        request response).code = .ok
      ∧ (exchangeWith T transport client heap method payload (some buffer)
          request response).exchanged
        = some (requestFrame method client.requestId.toNat payload,
            some (e.2.response.bytes.take e.2.frameLength)) := by
  unfold exchangeWith
  dsimp only
  rw [buildRequest_bytes, he]
  unfold concluded
  dsimp only
  have hcheck : checkResponse method client.requestId.toNat capacity
      (some buffer).isSome e.2.response.bytes e.2.frameLength = .ok :=
    checkResponse_eq_ok e.2.response.size hle ha
  rw [if_neg (by rw [hok]; exact Bool.noConfusion), dif_pos hcheck]
  exact ⟨rfl, by rw [Reply.frame, if_pos hok]⟩

end Exchange

/-- **A call that succeeds was answered.** -/
theorem call_ok
    (h : (call T transport client heap method payload responsePayload).code
      = .ok) :
    ∃ frame, IsAnswer method client.requestId.toNat frame
      ∧ (call T transport client heap method payload
          responsePayload).exchanged
        = some (requestFrame method client.requestId.toNat payload,
            some frame)
      ∧ (call T transport client heap method payload
          responsePayload).written = (payloadOf frame).length
      ∧ (payloadOf frame).length ≤ capacity
      ∧ (call T transport client heap method payload
          responsePayload).payload
        = responsePayload.map (·.write 0 (payloadOf frame)) := by
  obtain ⟨code, heap', hcode, he⟩ | ⟨b, r, heap', _, he⟩ :=
    call_cases T transport client heap method payload responsePayload
  · rw [he, Call.unsent] at h
    rcases hcode with rfl | rfl <;> cases h
  · rw [he] at h ⊢
    exact exchangeWith_ok h

/-- **A call that fails leaves the caller's buffer alone.** -/
theorem call_payload
    (h : (call T transport client heap method payload responsePayload).code
      ≠ .ok) :
    (call T transport client heap method payload responsePayload).payload
      = responsePayload := by
  obtain ⟨code, heap', hcode, he⟩ | ⟨b, r, heap', _, he⟩ :=
    call_cases T transport client heap method payload responsePayload
  · rw [he]
    rfl
  · rw [he] at h ⊢
    exact (exchangeWith_refused h).1

variable (T transport client heap method payload responsePayload) in
/-- **A call makes at most one exchange**, with the request frame of its
method and a payload within the bound. -/
theorem call_exchanged :
    (call T transport client heap method payload responsePayload).exchanged
        = none
      ∨ ∃ reply, (call T transport client heap method payload
            responsePayload).exchanged
          = some (requestFrame method client.requestId.toNat payload, reply)
        ∧ payload.length ≤ maxPayload := by
  obtain ⟨code, heap', hcode, he⟩ | ⟨b, r, heap', hle, he⟩ :=
    call_cases T transport client heap method payload responsePayload
  · rw [he]
    exact .inl rfl
  · rw [he]
    obtain ⟨reply, hr⟩ := exchangeWith_exchanged T transport client heap'
      method payload responsePayload b r
    exact .inr ⟨reply, hr, hle⟩

/-- **A template that is taken has been answered**, and is in the buffer. -/
theorem callMiningTemplate_ok {buffer : Buf capacity}
    (h : (callMiningTemplate T transport client heap buffer).code = .ok) :
    ∃ frame, IsAnswer miningTemplate client.requestId.toNat frame
      ∧ IsTemplate (payloadOf frame)
      ∧ (callMiningTemplate T transport client heap buffer).exchanged
        = some (requestFrame miningTemplate client.requestId.toNat [],
            some frame)
      ∧ (callMiningTemplate T transport client heap buffer).written
        = (payloadOf frame).length
      ∧ (callMiningTemplate T transport client heap buffer).payload
        = some (buffer.write 0 (payloadOf frame)) := by
  have hok : (call T transport client heap miningTemplate []
      (some buffer)).code = .ok := by
    unfold callMiningTemplate at h
    dsimp only at h
    split at h
    · cases h
    · exact h
  obtain ⟨frame, ha, hx, hw, _, hp⟩ := call_ok hok
  exact ⟨frame, ha, (refusesPayload_template_iff frame).mp ha.payload, hx, hw,
    hp⟩

/-- **A poll that fails leaves the buffer alone.** -/
theorem callMiningTemplate_payload {buffer : Buf capacity}
    (h : (callMiningTemplate T transport client heap buffer).code ≠ .ok) :
    (callMiningTemplate T transport client heap buffer).payload
      = some buffer := by
  refine call_payload fun hok => h ?_
  unfold callMiningTemplate
  dsimp only
  rw [hok]
  rfl

end Calls

end Rpc
