import StnStratum.Rehearsal
import Mathlib.Data.List.Nodup
import Mathlib.Data.List.Pairwise

/-!
# Histories of requests

One client makes one call after the other, of four kinds, and all of them draw
their request IDs from one counter, which skips zero when it wraps. What
carries the frames may deliver Chain's replies late, twice, in another order
or to another call. It cannot make the client take one for what it is not: the
IDs of a history are different from each other as long as there are fewer
than 2^64 - 1 calls, and a reply is only looked into once it names the ID and
the method of the call that waits for it (`reply_is_own`).
-/

variable {τ : Type}

namespace RpcClient

/-! ## The counter -/

/-- **The request ID `k` calls on.** There are 2^64 - 1 of them. -/
def idAfter (client : RpcClient) (k : ℕ) : ℕ :=
  (client.requestId.toNat - 1 + k) % (2 ^ 64 - 1) + 1

theorem idAfter_zero (client : RpcClient) :
    client.idAfter 0 = client.requestId.toNat := by
  have hne : client.requestId.toNat ≠ 0 := fun h =>
    client.requestId_ne_zero (UInt64.toNat_inj.mp h)
  have hlt := client.requestId.toNat_lt
  unfold idAfter
  omega

/-- The request ID of the next call. -/
theorem requestId_advance (client : RpcClient) :
    client.advance.requestId.toNat = client.idAfter 1 := by
  have hne : client.requestId.toNat ≠ 0 := fun h =>
    client.requestId_ne_zero (UInt64.toNat_inj.mp h)
  have hlt := client.requestId.toNat_lt
  have hnext : (client.requestId + 1).toNat
      = (client.requestId.toNat + 1) % 2 ^ 64 := UInt64.toNat_add ..
  unfold idAfter
  show (if client.requestId + 1 = 0 then client.requestId + 1 + 1
    else client.requestId + 1).toNat = _
  by_cases h : client.requestId + 1 = 0
  · -- the counter has wrapped, and zero is skipped
    rw [h] at hnext
    rw [if_pos h, h]
    have h0 : (0 : UInt64).toNat = 0 := rfl
    rw [h0] at hnext
    show 1 = _
    omega
  · rw [if_neg h, hnext]
    have h0 : (client.requestId + 1).toNat ≠ 0 := fun h' =>
      h (UInt64.toNat_inj.mp h')
    omega

theorem idAfter_advance (client : RpcClient) (k : ℕ) :
    client.advance.idAfter k = client.idAfter (k + 1) := by
  have h := client.requestId_advance
  unfold idAfter at h ⊢
  omega

/-- No call uses zero. -/
theorem idAfter_ne_zero (client : RpcClient) (k : ℕ) :
    client.idAfter k ≠ 0 :=
  Nat.succ_ne_zero _

/-- **The first request ID does not come back** before all the others had
their turn. -/
theorem idAfter_ne (client : RpcClient) {k : ℕ} (h : k + 1 < 2 ^ 64 - 1) :
    client.idAfter (k + 1) ≠ client.idAfter 0 := by
  unfold idAfter
  omega

end RpcClient

namespace Rpc

/-! ## The four calls -/

/-- **`stn_rpc_client_info`.** -/
def callInfo (T : ChainTransport τ) (transport : τ) (client : RpcClient)
    (heap : Heap) {capacity : ℕ} (payload : Option (Buf capacity)) :
    Call τ capacity :=
  call T transport client heap info [] payload

/-- **A call of one of the four**, with its arguments. -/
inductive Ask where
  /-- `stn_rpc_client_info`. -/
  | info {capacity : ℕ} (payload : Option (Buf capacity))
  /-- `stn_rpc_client_mining_template`. -/
  | miningTemplate {capacity : ℕ} (payload : Buf capacity)
  /-- `stn_rpc_client_submit_work`. -/
  | submitWork (payload : Bytes) {capacity : ℕ} (responsePayload : Buf capacity)
  /-- `stn_rpc_client_submit_share`. -/
  | submitShare (payload : Bytes) (shareId : Buf 32)

namespace Ask

/-- The method it asks for. -/
def method : Ask → ℕ
  | info _ => Rpc.info
  | miningTemplate _ => Rpc.miningTemplate
  | submitWork _ _ => Rpc.submitWork
  | submitShare _ _ => Rpc.submitShare

/-- The payload of its request. -/
def payload : Ask → Bytes
  | info _ => []
  | miningTemplate _ => []
  | submitWork p _ => p
  | submitShare p _ => p

/-- The room for the payload of the reply. -/
def capacity : Ask → ℕ
  | @info capacity _ => capacity
  | @miningTemplate capacity _ => capacity
  | @submitWork _ capacity _ => capacity
  | submitShare _ _ => 32

/-- **The call.** -/
def perform (T : ChainTransport τ) (transport : τ) (client : RpcClient)
    (heap : Heap) : (a : Ask) → Call τ a.capacity
  | info p => callInfo T transport client heap p
  | miningTemplate p => callMiningTemplate T transport client heap p
  | submitWork p b => callSubmitWork T transport client heap p b
  | submitShare p b => callSubmitShare T transport client heap p b

/-- There is no memory for the request, or none for the reply. -/
def Starves (a : Ask) (heap : Heap) : Prop :=
  (heap.malloc (24 + a.payload.length)).1 = none
    ∨ ((heap.malloc (24 + a.payload.length)).2.malloc
        (24 + a.capacity)).1 = none

end Ask

/-! ## One call -/

/-- **A frame that replies to a request**: it names its method and its ID. -/
structure RepliesTo (method id : ℕ) (frame : Bytes) : Prop where
  /-- Its method. -/
  method_eq : methodOf frame = method
  /-- Its ID. -/
  id_eq : requestIdOf frame = id

/-- **A response is only looked into where it replies to the request.** -/
theorem repliesTo_of_checkResponse {method id capacity : ℕ}
    {hasBuffer : Bool} {response : Bytes} {frameLength : ℕ}
    (h : checkResponse method id capacity hasBuffer response frameLength
      ≠ .invalid) :
    RepliesTo method id (response.take frameLength) := by
  unfold checkResponse at h
  split at h
  · exact absurd rfl h
  next hheader =>
  simp only [not_or, not_not, not_lt] at hheader
  obtain ⟨h24, _, _, _, _, hme, hid⟩ := hheader
  exact ⟨by rw [methodOf, slice_take (by omega), hme],
    by rw [requestIdOf, slice_take (by omega), hid]⟩

/-- **What a call comes to**, as far as the request ID is concerned: nothing
is handed over and the ID is not used, or the request is handed over with it,
and a code that a reply decides on comes from a reply to it. -/
inductive Outcome (client : RpcClient) (a : Ask) (heap : Heap)
    {capacity : ℕ} (r : Call τ capacity) : Prop where
  /-- Nothing is handed over. -/
  | unsent (hc : r.client = client) (hx : r.exchanged = none)
    (hcode : r.code = .invalid ∨ a.Starves heap)
  /-- The request is. -/
  | sent (hc : r.client = client.advance) (reply : Option Bytes)
    (hx : r.exchanged = some (requestFrame a.method
      client.requestId.toNat a.payload, reply))
    (hcode : r.code ≠ .invalid → r.code ≠ .transport →
      ∃ frame, reply = some frame
        ∧ RepliesTo a.method client.requestId.toNat frame)

section Perform

variable {T : ChainTransport τ} {transport : τ} {client : RpcClient}
  {heap : Heap}

/-- A result that differs in its code only where the code is another that
says no less. -/
theorem Outcome.of_code {a : Ask} {capacity : ℕ} {r r' : Call τ capacity}
    (h : Outcome client a heap r) (hc : r'.client = r.client)
    (hx : r'.exchanged = r.exchanged)
    (hinvalid : r.code = .invalid → r'.code = .invalid)
    (htransport : r.code = .transport → r'.code = .transport) :
    Outcome client a heap r' := by
  cases h with
  | unsent hc' hx' hcode =>
    exact .unsent (hc.trans hc') (hx.trans hx') (hcode.imp_left hinvalid)
  | sent hc' reply hx' hcode =>
    exact .sent (hc.trans hc') reply (hx.trans hx') fun h₁ h₂ =>
      hcode (fun h => h₁ (hinvalid h)) (fun h => h₂ (htransport h))

/-- **The outcome of `call`.** -/
theorem outcome_call (a : Ask) (responsePayload : Option (Buf a.capacity)) :
    Outcome client a heap (call T transport client heap a.method a.payload
      responsePayload) := by
  unfold call
  split
  · exact .unsent rfl rfl (.inl rfl)
  dsimp only
  split
  next b r hb hr =>
    unfold exchangeWith concluded
    dsimp only
    rw [buildRequest_bytes]
    split
    · exact .sent rfl _ rfl fun _ h => absurd rfl h
    next hok =>
    have hframe : ∀ code, code = checkResponse a.method
        client.requestId.toNat a.capacity responsePayload.isSome
        (T.exchange transport (requestFrame a.method
          client.requestId.toNat a.payload) r).2.response.bytes
        (T.exchange transport (requestFrame a.method
          client.requestId.toNat a.payload) r).2.frameLength →
        code ≠ .invalid → code ≠ .transport →
        ∃ frame, (T.exchange transport (requestFrame a.method
            client.requestId.toNat a.payload) r).2.frame = some frame
          ∧ RepliesTo a.method client.requestId.toNat frame := by
      rintro code rfl hne _
      refine ⟨_, ?_, repliesTo_of_checkResponse hne⟩
      rw [Reply.frame, if_pos (Bool.eq_true_of_not_eq_false hok)]
    split
    next hcheck => exact .sent rfl _ rfl (hframe _ hcheck.symm)
    next hcheck => exact .sent rfl _ rfl (hframe _ rfl)
  next hnone =>
    refine .unsent rfl rfl (.inr ?_)
    unfold Ask.Starves
    cases hb : (heap.malloc (24 + a.payload.length)).1 with
    | none => exact .inl rfl
    | some b =>
      cases hr : ((heap.malloc (24 + a.payload.length)).2.malloc
          (24 + a.capacity)).1 with
      | none => exact .inr rfl
      | some r => exact absurd hr (hnone b r hb)

/-- **The outcome of a call of any of the four.** -/
theorem outcome_perform (T : ChainTransport τ) (transport : τ)
    (client : RpcClient) (heap : Heap) (a : Ask) :
    Outcome client a heap (a.perform T transport client heap) := by
  cases a with
  | info p => exact outcome_call (.info p) p
  | miningTemplate p =>
    have hcode : ∀ {code : RpcCode}, code ≠ .capacity →
        (call T transport client heap Rpc.miningTemplate [] (some p)).code
          = code →
        (callMiningTemplate T transport client heap p).code = code := by
      intro code hne h
      unfold callMiningTemplate
      dsimp only
      rw [h, if_neg hne]
    exact (outcome_call (.miningTemplate p) (some p)).of_code rfl rfl
      (hcode nofun) (hcode nofun)
  | submitWork p b =>
    unfold Ask.perform callSubmitWork
    dsimp only
    split
    · exact .unsent rfl rfl (.inl rfl)
    · exact outcome_call (.submitWork p b) (some b)
  | submitShare p b =>
    unfold Ask.perform callSubmitShare
    dsimp only
    split
    · exact .unsent rfl rfl (.inl rfl)
    split
    next h =>
      refine (outcome_call (.submitShare p b) (some b)).of_code rfl rfl
        (fun _ => rfl) fun ht => ?_
      cases h.1.symm.trans ht
    · exact outcome_call (.submitShare p b) (some b)

end Perform

/-! ## Histories -/

/-- **What is recorded of a call.** -/
structure Record where
  /-- The call. -/
  ask : Ask
  /-- The heap it found. -/
  heap : Heap
  /-- The code it returned. -/
  code : RpcCode
  /-- The request handed over and the frame that came back. -/
  exchanged : Option (Bytes × Option Bytes)

/-- The request ID that was used. -/
def Record.id? (r : Record) : Option ℕ :=
  r.exchanged.map fun e => requestIdOf e.1

/-- **A history of calls** on one client. -/
def history (T : ChainTransport τ) :
    τ → RpcClient → Heap → List Ask → List Record
  | _, _, _, [] => []
  | transport, client, heap, a :: asks =>
    let r := a.perform T transport client heap
    ⟨a, heap, r.code, r.exchanged⟩
      :: history T r.transport r.client r.heap asks

section History

variable {T : ChainTransport τ} {transport : τ} {client : RpcClient}
  {heap : Heap} {asks : List Ask}

/-- A request names its ID. -/
theorem id?_eq {a : Ask} {code : RpcCode} {reply : Option Bytes} :
    Record.id? ⟨a, heap, code, some (requestFrame a.method
        client.requestId.toNat a.payload, reply)⟩
      = some (client.idAfter 0) := by
  rw [client.idAfter_zero]
  exact congrArg some
    (requestIdOf_requestFrame _ _ _ client.requestId.toNat_lt)

/-- **The IDs of a history are the next ones of its client.** -/
theorem id_of_mem_history {r : Record} {id : ℕ}
    (hr : r ∈ history T transport client heap asks) (hid : r.id? = some id) :
    ∃ k < asks.length, id = client.idAfter k := by
  induction asks generalizing transport client heap with
  | nil => exact absurd hr List.not_mem_nil
  | cons a asks ih =>
    unfold history at hr
    cases outcome_perform T transport client heap a with
    | unsent hc hx _ =>
      rcases List.mem_cons.mp hr with rfl | hr
      · rw [Record.id?, hx] at hid
        cases hid
      · obtain ⟨k, hk, rfl⟩ := ih hr
        exact ⟨k, Nat.lt_succ_of_lt hk, by rw [hc]⟩
    | sent hc reply hx _ =>
      rcases List.mem_cons.mp hr with rfl | hr
      · rw [hx, id?_eq] at hid
        exact ⟨0, Nat.succ_pos _, (Option.some.inj hid).symm⟩
      · obtain ⟨k, hk, rfl⟩ := ih hr
        exact ⟨k + 1, Nat.succ_lt_succ hk, by
          rw [hc, RpcClient.idAfter_advance]⟩

/-- **They are different**, of fewer than 2^64 - 1 calls. -/
theorem pairwise_history (T : ChainTransport τ) (transport : τ)
    (client : RpcClient) (heap : Heap) (h : asks.length < 2 ^ 64 - 1) :
    (history T transport client heap asks).Pairwise fun r r' =>
      ∀ id, r.id? = some id → r'.id? ≠ some id := by
  induction asks generalizing transport client heap with
  | nil => exact .nil
  | cons a asks ih =>
    unfold history
    have hlt : asks.length + 1 < 2 ^ 64 - 1 := h
    refine .cons (fun r' hr' id hid hid' => ?_) (ih _ _ _ (by omega))
    cases outcome_perform T transport client heap a with
    | unsent _ hx _ =>
      rw [Record.id?, hx] at hid
      cases hid
    | sent hc reply hx _ =>
      rw [hx, id?_eq] at hid
      obtain ⟨k, hk, rfl⟩ := id_of_mem_history hr' hid'
      rw [hc, RpcClient.idAfter_advance] at hid
      exact client.idAfter_ne (by omega) (Option.some.inj hid).symm

/-- **One record of a history**, by what a call comes to. -/
theorem outcome_of_mem_history {r : Record}
    (hr : r ∈ history T transport client heap asks) :
    r.exchanged = none ∧ (r.code = .invalid ∨ r.ask.Starves r.heap)
      ∨ ∃ id payload reply, id < 2 ^ 64
        ∧ r.exchanged = some (requestFrame r.ask.method id payload, reply)
        ∧ (r.code ≠ .invalid → r.code ≠ .transport →
          ∃ frame, reply = some frame
            ∧ RepliesTo r.ask.method id frame) := by
  induction asks generalizing transport client heap with
  | nil => exact absurd hr List.not_mem_nil
  | cons a asks ih =>
    unfold history at hr
    rcases List.mem_cons.mp hr with rfl | hr
    · cases outcome_perform T transport client heap a with
      | unsent _ hx hcode => exact .inl ⟨hx, hcode⟩
      | sent _ reply hx hcode =>
        exact .inr ⟨_, _, reply, client.requestId.toNat_lt, hx, hcode⟩
    · exact ih hr

end History

/-- **What may come back in a history**: replies Chain made to calls of it,
each naming the method and the ID of the request it replies to. `replies i f`
says that `f` is one to the `i`th call. -/
structure Delivered (records : List Record) (replies : ℕ → Bytes → Prop) :
    Prop where
  /-- A reply is to a request of the history. -/
  made : ∀ i f, replies i f → ∃ r request reply,
    records[i]? = some r ∧ r.exchanged = some (request, reply)
      ∧ RepliesTo (methodOf request) (requestIdOf request) f
  /-- Whatever comes back is a reply to one or another. -/
  delivered : ∀ (r : Record) (request f : Bytes), r ∈ records →
    r.exchanged = some (request, some f) → ∃ j, replies j f

/-- **A reply is the call's own.** In a history of fewer than 2^64 - 1 calls,
from any value of the counter and whatever carries the frames, as long as what
comes back are replies of Chain to calls of the history: the request IDs are
not zero and different from each other, and a call that returns a code other
than INVALID and TRANSPORT has used a reply to itself, of its own method, and
to no other call. Only without memory has it used none. -/
theorem reply_is_own (T : ChainTransport τ) (transport : τ)
    (client : RpcClient) (heap : Heap) (asks : List Ask)
    (hlen : asks.length < 2 ^ 64 - 1) {replies : ℕ → Bytes → Prop}
    (hd : Delivered (history T transport client heap asks) replies) :
    (∀ r ∈ history T transport client heap asks, r.id? ≠ some 0)
      ∧ ((history T transport client heap asks).filterMap Record.id?).Nodup
      ∧ ∀ i r, (history T transport client heap asks)[i]? = some r →
        r.code ≠ .invalid → r.code ≠ .transport →
        (r.exchanged = none ∧ r.ask.Starves r.heap)
          ∨ ∃ request frame, r.exchanged = some (request, some frame)
            ∧ methodOf frame = r.ask.method
            ∧ replies i frame ∧ ∀ j, replies j frame → j = i := by
  have hpair := pairwise_history T transport client heap hlen
  refine ⟨fun r hr h0 => ?_, ?_, fun i r hi hinvalid htransport => ?_⟩
  · obtain ⟨k, _, h⟩ := id_of_mem_history hr h0
    exact client.idAfter_ne_zero k h.symm
  · rw [List.Nodup, List.pairwise_filterMap]
    refine hpair.imp fun h id hid id' hid' he => ?_
    exact h id hid (he ▸ hid')
  · have hmem := List.mem_of_getElem? hi
    rcases outcome_of_mem_history hmem with
      ⟨hx, hcode⟩ | ⟨id, payload, reply, hid, hx, hcode⟩
    · exact .inl ⟨hx, hcode.resolve_left hinvalid⟩
    obtain ⟨frame, rfl, hf⟩ := hcode hinvalid htransport
    refine .inr ⟨_, frame, hx, hf.method_eq, ?_⟩
    have hown : r.id? = some (requestIdOf frame) := by
      rw [Record.id?, hx, hf.id_eq]
      exact congrArg some (requestIdOf_requestFrame _ _ _ hid)
    -- two calls with one ID are one call
    have hsame : ∀ j, replies j frame → j = i := by
      intro j hj
      obtain ⟨r', request', reply', hj', hx', hf'⟩ := hd.made j frame hj
      have hother : r'.id? = some (requestIdOf frame) := by
        rw [Record.id?, hx', hf'.id_eq]
        rfl
      obtain ⟨hi₁, rfl⟩ := List.getElem?_eq_some_iff.mp hi
      obtain ⟨hj₁, rfl⟩ := List.getElem?_eq_some_iff.mp hj'
      rcases lt_trichotomy j i with hlt | rfl | hlt
      · exact absurd hown (List.pairwise_iff_getElem.mp hpair j i hj₁ hi₁ hlt
          _ hother)
      · rfl
      · exact absurd hother (List.pairwise_iff_getElem.mp hpair i j hi₁ hj₁
          hlt _ hown)
    obtain ⟨j, hj⟩ := hd.delivered r _ frame hmem hx
    exact ⟨hsame j hj ▸ hj, hsame⟩

/-- Two calls of INFO, of which Chain answers the first. -/
def twoInfos : List Ask :=
  [.info (some (Buf.zero 184)), .info (some (Buf.zero 184))]

/-- What Chain replies to the first. -/
def firstInfo : Bytes := answerFrame info 1 (List.replicate 184 0)

set_option maxRecDepth 100000 in
/-- The IDs of the two calls are different, and the reply to the first is its
own. -/
theorem reply_is_own_twoInfos :
    ((history replay [List.replicate 184 0] .init ⟨[], fun _ => 0⟩
        twoInfos).filterMap Record.id?).Nodup
      ∧ ∀ r, (history replay [List.replicate 184 0] .init ⟨[], fun _ => 0⟩
          twoInfos)[0]? = some r → r.code = .ok →
        ∃ request frame, r.exchanged = some (request, some frame)
          ∧ frame = firstInfo := by
  have hx : (history replay [List.replicate 184 0] .init ⟨[], fun _ => 0⟩
      twoInfos).map Record.exchanged
      = [some (requestFrame info 1 [], some firstInfo),
        some (requestFrame info 2 [], none)] := by decide +kernel
  have h : Delivered (history replay [List.replicate 184 0] .init
      ⟨[], fun _ => 0⟩ twoInfos) (fun i f => i = 0 ∧ f = firstInfo) → _ :=
    reply_is_own replay [List.replicate 184 0] .init ⟨[], fun _ => 0⟩ twoInfos
      (by decide)
  generalize history replay [List.replicate 184 0] .init ⟨[], fun _ => 0⟩
    twoInfos = records at h hx ⊢
  have hd : Delivered records fun i f => i = 0 ∧ f = firstInfo := by
    constructor
    · rintro i f ⟨rfl, rfl⟩
      have h0 := congrArg (·[0]?) hx
      rw [List.getElem?_map] at h0
      obtain ⟨r, hr, he⟩ := Option.map_eq_some_iff.mp h0
      exact ⟨r, _, _, hr, he, by decide +kernel, by decide +kernel⟩
    · intro r request f hr he
      have hm := List.mem_map_of_mem (f := Record.exchanged) hr
      rw [hx, he] at hm
      rcases List.mem_cons.mp hm with hm | hm
      · have hf := congrArg Prod.snd (Option.some.inj hm)
        exact ⟨0, rfl, Option.some.inj hf⟩
      · have hf := congrArg Prod.snd
          (Option.some.inj (List.mem_singleton.mp hm))
        cases hf
  obtain ⟨_, hnodup, hown⟩ := h hd
  refine ⟨hnodup, fun r hr hok => ?_⟩
  rcases hown 0 r hr (by rw [hok]; decide) (by rw [hok]; decide) with
    ⟨hn, _⟩ | ⟨request, frame, he, _, ⟨_, hf⟩, _⟩
  · have h0 := congrArg (·[0]?) hx
    rw [List.getElem?_map, hr] at h0
    cases hn.symm.trans (Option.some.inj h0)
  · exact ⟨request, frame, he, hf⟩

end Rpc
