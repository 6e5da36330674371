import StnStratum.Rehearsal

/-!
# What the client takes for an answer

`call` checks a frame that comes back from Chain field by field, some fields
before the length that vouches for the next ones. `Valid` says all at once
what a frame has to be for the call to succeed, and `reply_validation` that
nothing else makes it succeed: whatever the exchange does to the response
buffer and whatever length it reports. A call that does not succeed reports
that nothing was written, and nothing was.

The other half is the request. `StncRequest` is what the 24 bytes in front of
a payload can say, and the frame a call hands over says one thing only.
-/

variable {τ : Type}

namespace Rpc

/-! ## Frames that are valid -/

/-- **The payload rules** of the four methods, for a payload of `n` bytes. -/
structure PayloadRule (method : ℕ) (payload : Bytes) (n : ℕ) : Prop where
  /-- The length of the answer to INFO. -/
  info : method = Rpc.info → n = 184
  /-- The length of the answer to SUBMIT_WORK. -/
  submitWork : method = Rpc.submitWork → n = 80
  /-- The length of the answer to SUBMIT_SHARE. -/
  submitShare : method = Rpc.submitShare → n = 32
  /-- A template has a block header, the length of its block, and a block of
  version 3. -/
  miningTemplate : method = Rpc.miningTemplate → 236 ≤ n
    ∧ readBE (slice payload 64 4) = n - 68
    ∧ slice payload 68 4 = blockMagic ∧ readBE (slice payload 72 2) = 3

/-- **A reply that is an answer of `n` bytes** to a request: what the response
buffer holds and the length that is reported, for a caller with room for
`capacity` bytes and with a buffer or without. -/
structure Valid (method id capacity : ℕ) (hasBuffer : Bool) (response : Bytes)
    (frameLength n : ℕ) : Prop where
  /-- The frame is a header and the payload. -/
  frame : frameLength = 24 + n
  /-- The payload fits. -/
  fits : n ≤ capacity
  /-- The magic. -/
  magic : slice response 0 4 = Rpc.magic
  /-- The version. -/
  version : readBE (slice response 4 2) = 2
  /-- A response. -/
  kind : readBE (slice response 6 2) = 2
  /-- To the method. -/
  method_eq : methodOf response = method
  /-- To the request. -/
  id_eq : requestIdOf response = id
  /-- That says success. -/
  code : readBE (slice response 10 2) = 0
  /-- And how long its payload is. -/
  length : readBE (slice response 20 4) = n
  /-- A payload needs a buffer. -/
  buffer : n ≠ 0 → hasBuffer = true
  /-- The method allows the payload. -/
  rule : PayloadRule method (slice response 24 n) n

section Rules

variable {method : ℕ} {response : Bytes} {n : ℕ}

/-- **The check of a payload is its rule.** -/
theorem refusesPayload_eq_false_iff :
    refusesPayload method response n = false
      ↔ PayloadRule method (slice response 24 n) n := by
  have hfield : 236 ≤ n → ∀ {off len : ℕ}, off + len ≤ 236 →
      slice (slice response 24 n) off len = slice response (24 + off) len :=
    fun hn _ _ h => slice_slice (by omega)
  unfold refusesPayload
  simp only [Bool.or_eq_false_iff, Bool.and_eq_false_imp, beq_iff_eq,
    bne_eq_false_iff_eq, decide_eq_false_iff_not, not_lt]
  constructor
  · rintro ⟨⟨⟨hinfo, hwork⟩, hshare⟩, htemplate⟩
    refine ⟨hinfo, hwork, hshare, fun hm => ?_⟩
    obtain ⟨⟨⟨hlen, hblock⟩, hmagic⟩, hversion⟩ := htemplate hm
    rw [hfield hlen (by decide), hfield hlen (by decide),
      hfield hlen (by decide)]
    exact ⟨hlen, hblock, hmagic, hversion⟩
  · rintro ⟨hinfo, hwork, hshare, htemplate⟩
    refine ⟨⟨⟨hinfo, hwork⟩, hshare⟩, fun hm => ?_⟩
    obtain ⟨hlen, hblock, hmagic, hversion⟩ := htemplate hm
    rw [hfield hlen (by decide)] at hblock hmagic hversion
    exact ⟨⟨⟨hlen, hblock⟩, hmagic⟩, hversion⟩

end Rules

section Checks

variable {method id capacity : ℕ} {hasBuffer : Bool} {response : Bytes}
  {frameLength : ℕ}

/-- **A response is taken exactly where it is valid**, and then as long as its
length field says. -/
theorem checkResponse_eq_ok_iff :
    checkResponse method id capacity hasBuffer response frameLength = .ok
      ↔ Valid method id capacity hasBuffer response frameLength
        (readBE (slice response 20 4)) := by
  unfold checkResponse
  dsimp only
  constructor
  · intro h
    split at h
    · cases h
    next hheader =>
    split at h
    · cases h
    next hlength =>
    split at h
    · split at h
      · cases h
      next hcode _ =>
      -- no code other than zero is mapped to success
      refine absurd h ?_
      unfold mapCode
      split <;> first | exact absurd ‹_› hcode | decide
    next hcode =>
    split at h
    · cases h
    next hroom =>
    split at h
    · cases h
    next hrule =>
    simp only [not_or, not_not, not_lt, not_and] at hheader hlength hcode hroom
    obtain ⟨h24, hle, hm, hv, hk, hme, hid⟩ := hheader
    exact ⟨by omega, hroom.1, hm, hv, hk, hme, hid, hcode, rfl,
      fun hne => Bool.eq_true_of_not_eq_false (hroom.2 hne),
      refusesPayload_eq_false_iff.mp (Bool.eq_false_iff.mpr hrule)⟩
  · intro h
    have hframe := h.frame
    have hfits := h.fits
    rw [if_neg, if_neg, if_neg, if_neg, if_neg]
    · rw [refusesPayload_eq_false_iff.mpr h.rule]
      exact Bool.false_ne_true
    · rintro (hlt | ⟨hne, hb⟩)
      · omega
      · exact Bool.false_ne_true (hb.symm.trans (h.buffer hne))
    · exact not_not.mpr h.code
    · omega
    · simp only [not_or, not_not, not_lt]
      exact ⟨by omega, by omega, h.magic, h.version, h.kind, h.method_eq,
        h.id_eq⟩

/-- A valid reply has the length that its length field gives. -/
theorem Valid.checkResponse {n : ℕ}
    (h : Valid method id capacity hasBuffer response frameLength n) :
    checkResponse method id capacity hasBuffer response frameLength = .ok :=
  checkResponse_eq_ok_iff.mpr (by rw [h.length]; exact h)

end Checks

/-! ## Requests that can be read -/

/-- **What a request frame says.** -/
structure StncRequest where
  /-- The version. -/
  version : ℕ
  /-- The kind: a request or a response. -/
  kind : ℕ
  /-- The method. -/
  method : ℕ
  /-- The result code. -/
  result : ℕ
  /-- The request ID. -/
  id : ℕ
  /-- The payload. -/
  payload : Bytes

namespace StncRequest

/-- The fields fit their places. -/
structure InRange (q : StncRequest) : Prop where
  version : q.version < 2 ^ 16
  kind : q.kind < 2 ^ 16
  method : q.method < 2 ^ 16
  result : q.result < 2 ^ 16
  id : q.id < 2 ^ 64
  payload : q.payload.length < 2 ^ 32

/-- **The frame that says it.** -/
def encode (q : StncRequest) : Bytes :=
  magic ++ writeBE 2 q.version ++ writeBE 2 q.kind ++ writeBE 2 q.method
    ++ writeBE 2 q.result ++ writeBE 8 q.id ++ writeBE 4 q.payload.length
    ++ q.payload

/-- A number is read back from where it was written. -/
theorem writeBE_inj {n v w : ℕ} (hv : v < 256 ^ n) (hw : w < 256 ^ n)
    (h : writeBE n v = writeBE n w) : v = w := by
  rw [← readBE_writeBE hv, h, readBE_writeBE hw]

/-- **A frame says one thing only.** -/
theorem encode_inj {q r : StncRequest} (hq : q.InRange) (hr : r.InRange)
    (h : q.encode = r.encode) : q = r := by
  obtain ⟨v, k, m, c, i, p⟩ := q
  obtain ⟨v', k', m', c', i', p'⟩ := r
  unfold encode at h
  dsimp only at h
  simp only [List.append_assoc, List.append_cancel_left_eq] at h
  obtain ⟨h₁, h⟩ := List.append_inj h (by simp only [length_writeBE])
  obtain ⟨h₂, h⟩ := List.append_inj h (by simp only [length_writeBE])
  obtain ⟨h₃, h⟩ := List.append_inj h (by simp only [length_writeBE])
  obtain ⟨h₄, h⟩ := List.append_inj h (by simp only [length_writeBE])
  obtain ⟨h₅, h⟩ := List.append_inj h (by simp only [length_writeBE])
  obtain ⟨_, rfl⟩ := List.append_inj h (by simp only [length_writeBE])
  obtain rfl := writeBE_inj hq.version hr.version h₁
  obtain rfl := writeBE_inj hq.kind hr.kind h₂
  obtain rfl := writeBE_inj hq.method hr.method h₃
  obtain rfl := writeBE_inj hq.result hr.result h₄
  obtain rfl := writeBE_inj hq.id hr.id h₅
  rfl

end StncRequest

/-- **The request of a call.** -/
def requestOf (method : ℕ) (client : RpcClient) (payload : Bytes) :
    StncRequest :=
  ⟨version, 1, method, 0, client.requestId.toNat, payload⟩

theorem encode_requestOf (method : ℕ) (client : RpcClient) (payload : Bytes) :
    (requestOf method client payload).encode
      = requestFrame method client.requestId.toNat payload :=
  rfl

/-! ## The call -/

section Call

variable {T : ChainTransport τ} {transport : τ} {client : RpcClient}
  {heap : Heap} {method : ℕ} {payload : Bytes} {capacity : ℕ}
  {responsePayload : Option (Buf capacity)}
  {request : Buf (24 + payload.length)} {response : Buf (24 + capacity)}

/-- **An exchange by what came back**: it was taken, or the code is another
and nothing was written. -/
theorem exchangeWith_iff (n : ℕ) {e : τ × Reply (24 + capacity)}
    (he : T.exchange transport
      (requestFrame method client.requestId.toNat payload) response = e) :
    ((exchangeWith T transport client heap method payload responsePayload
          request response).code = .ok
        ∧ (exchangeWith T transport client heap method payload
          responsePayload request response).written = n)
      ↔ e.2.ok = true ∧ Valid method client.requestId.toNat capacity
          responsePayload.isSome e.2.response.bytes e.2.frameLength n := by
  unfold exchangeWith
  dsimp only
  rw [buildRequest_bytes, he]
  unfold concluded
  dsimp only
  by_cases hok : e.2.ok = false
  · rw [if_pos hok, hok]
    exact ⟨fun h => (nomatch h.1), fun h => (nomatch h.1)⟩
  rw [if_neg hok]
  by_cases hcheck : checkResponse method client.requestId.toNat capacity
      responsePayload.isSome e.2.response.bytes e.2.frameLength = .ok
  · rw [dif_pos hcheck]
    have hv := checkResponse_eq_ok_iff.mp hcheck
    constructor
    · rintro ⟨_, rfl⟩
      exact ⟨Bool.eq_true_of_not_eq_false hok, hv⟩
    · rintro ⟨_, hn⟩
      exact ⟨rfl, hn.length⟩
  · rw [dif_neg hcheck]
    exact ⟨fun h => absurd h.1 hcheck,
      fun h => absurd h.2.checkResponse hcheck⟩

/-- The bytes of a payload that was written to a buffer with room for it. -/
theorem bytes_write_zero {b : Buf capacity} {p : Bytes}
    (h : p.length ≤ capacity) :
    (b.write 0 p).bytes = p ++ b.bytes.drop p.length := by
  rw [Buf.write_bytes (by rw [Nat.zero_add]; exact h), Nat.zero_add]
  rfl

/-- What an exchange that is taken leaves in the caller's buffer. -/
theorem exchangeWith_taken {e : τ × Reply (24 + capacity)}
    (he : T.exchange transport
      (requestFrame method client.requestId.toNat payload) response = e)
    (h : (exchangeWith T transport client heap method payload
      responsePayload request response).code = .ok) :
    (exchangeWith T transport client heap method payload responsePayload
        request response).payload
      = responsePayload.map (·.write 0 (slice e.2.response.bytes 24
        (exchangeWith T transport client heap method payload responsePayload
          request response).written)) := by
  unfold exchangeWith at h ⊢
  dsimp only at h ⊢
  rw [buildRequest_bytes, he] at h ⊢
  unfold concluded at h ⊢
  dsimp only at h ⊢
  split at h
  · cases h
  next hok =>
  rw [if_neg hok]
  split at h
  next hcheck => rw [dif_pos hcheck]
  next hcheck => exact absurd h hcheck

end Call

/-- **Reply validation is exact.** A call of one of the four methods within
the bounds and with memory hands over the one frame that says what it asks
for. It succeeds with `n` bytes exactly where the exchange succeeds with a
frame that is an answer of `n` bytes, and these are then what the caller's
buffer begins with. Else it reports that nothing was written, and the buffer
is as it was. -/
theorem reply_validation (T : ChainTransport τ) (transport : τ)
    (client : RpcClient) (heap : Heap) (method : ℕ) (payload : Bytes)
    {capacity : ℕ} (responsePayload : Option (Buf capacity))
    (hm : method ∈ [info, miningTemplate, submitWork, submitShare])
    (hp : payload.length ≤ maxPayload) (hc : capacity ≤ maxPayload)
    (hg : heap.Generous) :
    ∃ (request : Bytes) (memory : Buf (24 + capacity)),
      (∃ reply, (call T transport client heap method payload
          responsePayload).exchanged = some (request, reply))
      ∧ (∀ q : StncRequest, q.InRange →
          (q.encode = request ↔ q = requestOf method client payload))
      ∧ (∀ n, ((call T transport client heap method payload
              responsePayload).code = .ok
            ∧ (call T transport client heap method payload
              responsePayload).written = n)
          ↔ (T.exchange transport request memory).2.ok = true
            ∧ Valid method client.requestId.toNat capacity
              responsePayload.isSome
              (T.exchange transport request memory).2.response.bytes
              (T.exchange transport request memory).2.frameLength n)
      ∧ ((call T transport client heap method payload
            responsePayload).code = .ok →
          ∀ b, responsePayload = some b →
            ∃ b', (call T transport client heap method payload
                responsePayload).payload = some b'
              ∧ b'.bytes = slice
                  (T.exchange transport request memory).2.response.bytes 24
                  (call T transport client heap method payload
                    responsePayload).written
                ++ b.bytes.drop (call T transport client heap method payload
                    responsePayload).written)
      ∧ ((call T transport client heap method payload
            responsePayload).code ≠ .ok →
          (call T transport client heap method payload
              responsePayload).written = 0
            ∧ (call T transport client heap method payload
              responsePayload).payload = responsePayload) := by
  obtain ⟨b, r, heap', hcall⟩ := call_of_generous T transport client method
    responsePayload hp hc hg
  rw [hcall]
  have hrange : (requestOf method client payload).InRange := by
    refine ⟨(by decide : 2 < 2 ^ 16), (by decide : 1 < 2 ^ 16), ?_,
      (by decide : 0 < 2 ^ 16), client.requestId.toNat_lt,
      lt_of_le_of_lt hp (by decide)⟩
    show method < 2 ^ 16
    simp only [List.mem_cons, List.not_mem_nil, or_false] at hm
    rcases hm with rfl | rfl | rfl | rfl <;> decide
  refine ⟨requestFrame method client.requestId.toNat payload, r,
    exchangeWith_exchanged T transport client heap' method payload
      responsePayload b r, fun q hq => ?_, fun n => exchangeWith_iff n rfl,
    fun hok buffer hb => ?_, fun hne => (exchangeWith_refused hne).symm⟩
  · rw [← encode_requestOf]
    exact ⟨StncRequest.encode_inj hq hrange, fun h => congrArg _ h⟩
  · subst hb
    have hv := ((exchangeWith_iff _ rfl).mp ⟨hok, rfl⟩).2
    rw [exchangeWith_taken rfl hok]
    refine ⟨_, rfl, ?_⟩
    have hlen : (slice (T.exchange transport (requestFrame method
        client.requestId.toNat payload) r).2.response.bytes 24
        (exchangeWith T transport client heap' method payload (some buffer)
          b r).written).length
        = (exchangeWith T transport client heap' method payload (some buffer)
          b r).written := by
      refine length_slice ?_
      rw [Buf.size]
      exact Nat.add_le_add_left hv.fits 24
    rw [bytes_write_zero (by rw [hlen]; exact hv.fits), hlen]

set_option maxRecDepth 100000 in
/-- An INFO that is answered: the call succeeds with 184 bytes, and the frame
that came back is an answer of as many. -/
theorem reply_validation_info :
    (call replay [List.replicate 184 0] .init ⟨[], fun _ => 0⟩ info []
        (some (Buf.zero 184))).code = .ok
      ∧ ∃ (request : Bytes) (memory : Buf (24 + 184)),
        Valid info 1 184 true (replay.exchange [List.replicate 184 0] request
            memory).2.response.bytes
          (replay.exchange [List.replicate 184 0] request
            memory).2.frameLength 184 := by
  have hok : (call replay [List.replicate 184 0] .init ⟨[], fun _ => 0⟩ info
      [] (some (Buf.zero 184))).code = .ok := by decide +kernel
  have hwritten : (call replay [List.replicate 184 0] .init
      ⟨[], fun _ => 0⟩ info [] (some (Buf.zero 184))).written = 184 := by
    decide +kernel
  obtain ⟨request, memory, _, _, hvalid, _⟩ := reply_validation replay
    [List.replicate 184 0] .init ⟨[], fun _ => 0⟩ info []
    (some (Buf.zero 184)) (by decide) (by decide) (by decide)
    List.not_mem_nil
  exact ⟨hok, request, memory, ((hvalid 184).mp ⟨hok, hwritten⟩).2⟩

end Rpc
