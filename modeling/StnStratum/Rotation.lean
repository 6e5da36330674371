import StnStratum.ChainTraffic
import StnStratum.PollOutcome
import StnStratum.RoundRobin

/-!
# From one Chain to the next

The configuration names the Chain servers, and the endpoint uses one of them
at a time. What makes it turn to the next is a call: a poll or a block that is
lost, or a block to which Chain answers that it is unavailable
(`Rpc.FailsOver`). Nothing else does, a lost share included, and nothing but
this touches the index, the transport's address and the client together
(`Rotates`). So the endpoint goes round (`RoundRobin`), and the address of the
Linux transport is that of the entry at the index at all times.
-/

variable {τ : Type}

/-! ## Calls that fail over -/

namespace Rpc

instance (method id : ℕ) (frame : Bytes) :
    Decidable (IsRefusal method id frame) :=
  decidable_of_iff (frame.length = 24 ∧ slice frame 0 4 = Rpc.magic
    ∧ readBE (slice frame 4 2) = Rpc.version ∧ readBE (slice frame 6 2) = 2
    ∧ methodOf frame = method ∧ requestIdOf frame = id
    ∧ readBE (slice frame 20 4) = 0 ∧ codeOf frame ≠ 0)
    ⟨fun ⟨h₁, h₂, h₃, h₄, h₅, h₆, h₇, h₈⟩ => ⟨h₁, h₂, h₃, h₄, h₅, h₆, h₇, h₈⟩,
      fun ⟨h₁, h₂, h₃, h₄, h₅, h₆, h₇, h₈⟩ => ⟨h₁, h₂, h₃, h₄, h₅, h₆, h₇, h₈⟩⟩

/-- **A call that fails over**, by its request and the frame it came back with:
a poll or a block that is lost, or a block that is refused as UNAVAILABLE. -/
def FailsOver (x : Bytes × Option Bytes) : Prop :=
  (x.2 = none ∧ (methodOf x.1 = miningTemplate ∨ methodOf x.1 = submitWork))
    ∨ methodOf x.1 = submitWork
      ∧ ∃ frame ∈ x.2, IsRefusal submitWork (requestIdOf x.1) frame
        ∧ codeOf frame = 5

instance : DecidablePred FailsOver := fun x => by
  unfold FailsOver
  infer_instance

section Calls

variable {T : ChainTransport τ} {transport : τ} {client : RpcClient}
  {heap : Heap} {method capacity : ℕ} {payload : Bytes}
  {buffer : Buf capacity}

theorem mapCode_eq_unavailable_iff {code : ℕ} :
    mapCode code = .unavailable ↔ code = 5 := by
  unfold mapCode
  split <;> simp_all

/-- **A call ends in UNAVAILABLE exactly where Chain says so.** -/
theorem call_unavailable_iff (hpos : 0 < capacity) :
    (call T transport client heap method payload (some buffer)).code
        = .unavailable
      ↔ ∃ request frame, (call T transport client heap method payload
          (some buffer)).exchanged = some (request, some frame)
        ∧ IsRefusal method client.requestId.toNat frame
        ∧ codeOf frame = 5 := by
  have hok : RpcCode.unavailable ≠ .ok := by decide
  have hinvalid : RpcCode.unavailable ≠ .invalid := by decide
  constructor
  · intro h
    cases hx : (call T transport client heap method payload
        (some buffer)).exchanged with
    | none =>
      obtain ⟨code, heap', hcode, he⟩ | ⟨b, r, heap', _, he⟩ :=
        call_cases T transport client heap method payload (some buffer)
      · rw [he] at h
        rcases hcode with rfl | rfl <;> cases h
      · rw [he] at hx
        unfold exchangeWith concluded at hx
        dsimp only at hx
        split at hx
        · cases hx
        · split at hx <;> cases hx
    | some x =>
      obtain ⟨request, _ | frame⟩ := x
      · rw [call_transport_iff.mpr ⟨request, hx⟩] at h
        cases h
      · obtain ⟨response, frameLength, hcap, rfl, hcode⟩ :=
          call_code_of_frame hx
        obtain ⟨hr, hc⟩ := (checkResponse_eq_iff hcap hpos hok hinvalid).mp
          (hcode.symm.trans h)
        exact ⟨request, _, rfl, hr, mapCode_eq_unavailable_iff.mp hc⟩
  · rintro ⟨request, frame, hx, hr, hc⟩
    obtain ⟨response, frameLength, hcap, rfl, hcode⟩ := call_code_of_frame hx
    exact hcode.trans ((checkResponse_eq_iff hcap hpos hok hinvalid).mpr
      ⟨hr, mapCode_eq_unavailable_iff.mpr hc⟩)

/-- The request of an exchange names the client's next ID. -/
theorem requestIdOf_exchanged {request : Bytes} {reply : Option Bytes}
    (h : (call T transport client heap method payload
      (some buffer)).exchanged = some (request, reply)) :
    requestIdOf request = client.requestId.toNat := by
  rcases call_exchanged T transport client heap method payload
    (some buffer) with he | ⟨_, he, _⟩
  · cases h.symm.trans he
  · obtain ⟨rfl, _⟩ := Prod.mk.inj (Option.some.inj (h.symm.trans he))
    exact requestIdOf_requestFrame _ _ _ client.requestId.toNat_lt

/-- **A poll fails over** where it is lost. -/
theorem callMiningTemplate_failsOver_iff :
    (callMiningTemplate T transport client heap buffer).code = .transport
      ↔ ∃ x, (callMiningTemplate T transport client heap buffer).exchanged
          = some x ∧ FailsOver x := by
  rw [callMiningTemplate_transport_iff]
  constructor
  · rintro ⟨request, hx⟩
    have hm := methodOf_exchanged (T := T) (by decide) hx
    exact ⟨_, hx, .inl ⟨rfl, .inl hm⟩⟩
  · rintro ⟨⟨request, reply⟩, hx, ⟨hnone, _⟩ | ⟨hw, _⟩⟩
    · exact ⟨request, by rw [hx, show reply = none from hnone]⟩
    · have hm := methodOf_exchanged (T := T) (by decide) hx
      exact absurd (hm.symm.trans hw) (by decide)

/-- **A block fails over** where it is lost, and where it is refused as
UNAVAILABLE. -/
theorem callSubmitWork_failsOver_iff (hpos : 0 < capacity) :
    (callSubmitWork T transport client heap payload buffer).code = .transport
        ∨ (callSubmitWork T transport client heap payload buffer).code
          = .unavailable
      ↔ ∃ x, (callSubmitWork T transport client heap payload
          buffer).exchanged = some x ∧ FailsOver x := by
  unfold callSubmitWork
  split
  · refine iff_of_false ?_ fun ⟨_, hx, _⟩ => nomatch hx
    rintro (h | h) <;> cases h
  rw [call_transport_iff, call_unavailable_iff hpos]
  constructor
  · rintro (⟨request, hx⟩ | ⟨request, frame, hx, hr, hc⟩)
    · exact ⟨_, hx, .inl ⟨rfl, .inr (methodOf_exchanged (by decide) hx)⟩⟩
    · refine ⟨_, hx, .inr ⟨methodOf_exchanged (by decide) hx, frame, rfl, ?_,
        hc⟩⟩
      rwa [requestIdOf_exchanged hx]
  · rintro ⟨⟨request, reply⟩, hx, ⟨hnone, _⟩ | ⟨_, frame, hf, hr, hc⟩⟩
    · exact .inl ⟨request, by rw [hx, show reply = none from hnone]⟩
    · rw [requestIdOf_exchanged hx] at hr
      exact .inr ⟨request, frame, by rw [hx, show reply = some frame from hf],
        hr, hc⟩

/-- **A share never does.** -/
theorem callSubmitShare_not_failsOver {shareId : Buf 32}
    {x : Bytes × Option Bytes}
    (hx : (callSubmitShare T transport client heap payload shareId).exchanged
      = some x) : ¬ FailsOver x := by
  obtain ⟨request, reply⟩ := x
  have hm : methodOf request = submitShare := by
    unfold callSubmitShare at hx
    split at hx
    · cases hx
    dsimp only at hx
    split at hx <;> exact methodOf_exchanged (T := T) (by decide) hx
  rintro (⟨_, hw | hw⟩ | ⟨hw, _⟩) <;>
    exact absurd (hm.symm.trans hw) (by decide)

end Calls

end Rpc

/-! ## What an action does to the endpoint -/

/-- **A transport that is used at most**: it has carried an exchange, or
nothing was done to it. It was not closed, and not bound to anything. -/
inductive Used (T : ChainTransport τ) (t : τ) : τ → Prop where
  /-- Nothing was done. -/
  | idle : Used T t t
  /-- It has carried an exchange. -/
  | exchange {m : ℕ} (request : Bytes) (response : Buf m) :
    Used T t (T.exchange t request response).1

/-- **What an action does to the endpoint**: it stays with its Chain, and no
call fails over, or its one call fails over and it turns to the next. -/
inductive Rotates (T : ChainTransport τ) (w w' : World τ) : Prop where
  /-- The endpoint stays. -/
  | stays {xs : List (Bytes × Option Bytes)}
    (servers : w'.server.chainServers = w.server.chainServers)
    (active : w'.server.activeChainServer = w.server.activeChainServer)
    (used : Used T w.server.chainTransport w'.server.chainTransport)
    (calls : exchangesOf w'.trace = exchangesOf w.trace ++ xs)
    (hx : ∀ x ∈ xs, ¬ Rpc.FailsOver x)
  /-- The endpoint turns to the next Chain. -/
  | next {x : Bytes × Option Bytes}
    (servers : w'.server.chainServers = w.server.chainServers)
    (calls : exchangesOf w'.trace = exchangesOf w.trace ++ [x])
    (hx : Rpc.FailsOver x)
    (offline : w.server.chainServers ≠ [] → Offline T w.server w'.server)

section Actions

variable {T : ChainTransport τ} {c : ConnId} {w w' w'' : World τ}

/-- The configuration is kept. -/
theorem Rotates.servers (h : Rotates T w w') :
    w'.server.chainServers = w.server.chainServers := by
  cases h with
  | stays servers => exact servers
  | next servers => exact servers

/-- A call uses the transport. -/
theorem Rpc.Call.Uses.used {t : τ} {capacity : ℕ} {r : Rpc.Call τ capacity}
    (h : r.Uses T t) : Used T t r.transport := by
  obtain ⟨ht, _⟩ | ⟨request, m, response, ht, _⟩ := h
  · rw [ht]
    exact .idle
  · rw [ht]
    exact .exchange request response

/-- The sessions have no part in the endpoint. -/
theorem Quiet.endpoint (h : Quiet w w') :
    w'.server.chainServers = w.server.chainServers
      ∧ w'.server.activeChainServer = w.server.activeChainServer
      ∧ w'.server.chainTransport = w.server.chainTransport := by
  rw [h.server]
  exact ⟨rfl, rfl, rfl⟩

/-- Where only they change the endpoint stays. -/
theorem Quiet.rotates (h : Quiet w w') : Rotates T w w' := by
  obtain ⟨hservers, hactive, htransport⟩ := h.endpoint
  refine .stays hservers hactive ?_
    (h.silent.trans (List.append_nil _).symm)
    fun x hx => absurd hx List.not_mem_nil
  rw [htransport]
  exact .idle

/-- What the sessions did before makes no difference. -/
theorem Quiet.trans_rotates (hq : Quiet w w') (h : Rotates T w' w'') :
    Rotates T w w'' := by
  obtain ⟨hservers, hactive, htransport⟩ := hq.endpoint
  cases h with
  | stays servers active used calls hx =>
    exact .stays (servers.trans hservers) (active.trans hactive)
      (htransport ▸ used) (by rw [calls, hq.silent]) hx
  | next servers calls hx offline =>
    exact .next (servers.trans hservers) (by rw [calls, hq.silent]) hx
      fun hs => hq.offline.mp (offline (hservers.symm ▸ hs))

/-- The end of a turn makes none. -/
theorem Rotates.finishTurn (h : Rotates T w w') :
    Rotates T w (w'.finishTurn c).1 := by
  have hq : Quiet w' (w'.finishTurn c).1 := own_finishTurn.toQuiet
  obtain ⟨hservers, hactive, htransport⟩ := hq.endpoint
  cases h with
  | stays servers active used calls hx =>
    exact .stays (hservers.trans servers) (hactive.trans active)
      (htransport.symm ▸ used) (hq.silent.trans calls) hx
  | next servers calls hx offline =>
    exact .next (hservers.trans servers) (hq.silent.trans calls) hx
      fun hs => offline_finishTurn_iff.mpr (offline hs)

/-- **A call that does not fail over**, and what is done about it to the
sessions and the work. -/
theorem stays_called {capacity : ℕ} {r : Rpc.Call τ capacity}
    {f : StratumServer τ → StratumServer τ} (hq : Quiet (w.called r) w')
    (hu : Used T w.server.chainTransport r.transport)
    (hx : ¬ ∃ x, r.exchanged = some x ∧ Rpc.FailsOver x)
    (hf : ∀ s, (f s).chainServers = s.chainServers
      ∧ (f s).activeChainServer = s.activeChainServer
      ∧ (f s).chainTransport = s.chainTransport) :
    Rotates T w (w'.setServer f) := by
  obtain ⟨hservers, hactive, htransport⟩ := hf w'.server
  obtain ⟨hservers', hactive', htransport'⟩ := hq.endpoint
  refine .stays (hservers.trans hservers') (hactive.trans hactive') ?_
    (hq.silent.trans (exchanges_called w r)) fun x hm hfails =>
      hx ⟨x, Option.mem_toList.mp hm, hfails⟩
  rw [show (w'.setServer f).server.chainTransport = r.transport from
    htransport.trans htransport']
  exact hu

/-- **A share** is no affair of the endpoint. -/
theorem rotates_submitShare {s : ClientSession} {nonce : ℕ} :
    Rotates T w (w.submitShare .linux T c s nonce) := by
  unfold World.submitShare
  dsimp only
  generalize hcall : Rpc.callSubmitShare T w.server.chainTransport
    w.server.chainRpc _ _ _ = r
  have hq : Quiet (w.called r) ((w.called r).clientSendResult .linux c r.code)
    := (own_clientSendResult _).toQuiet
  have hu : Used T w.server.chainTransport r.transport := by
    rw [← hcall]
    exact uses_callSubmitShare.used
  have hx : ¬ ∃ x, r.exchanged = some x ∧ Rpc.FailsOver x := by
    rintro ⟨x, he, hf⟩
    rw [← hcall] at he
    exact Rpc.callSubmitShare_not_failsOver he hf
  split
  · exact stays_called hq hu hx fun _ => ⟨rfl, rfl, rfl⟩
  · exact stays_called (f := id) hq hu hx fun _ => ⟨rfl, rfl, rfl⟩

/-- **A block** may fail over. -/
theorem rotates_submitWork {s : ClientSession} {nonce : ℕ}
    (hr : w.server.InRange) :
    Rotates T w (w.submitWork .linux T c s nonce) := by
  unfold World.submitWork
  dsimp only
  split
  next =>
    have hq : Quiet w { w with heap := (w.heap.malloc
      (w.server.work.templateLength + Miner.addressLength)).2 } := ⟨rfl, rfl⟩
    exact (hq.trans (own_clientSendResult _).toQuiet).rotates
  next =>
  generalize hcall : Rpc.callSubmitWork T w.server.chainTransport
    w.server.chainRpc _ _ _ = r
  have hq : Quiet (w.called r) ((w.called r).clientSendResult .linux c r.code)
    := (own_clientSendResult _).toQuiet
  have hiff : r.code = .transport ∨ r.code = .unavailable
      ↔ ∃ x, r.exchanged = some x ∧ Rpc.FailsOver x := by
    rw [← hcall]
    exact Rpc.callSubmitWork_failsOver_iff (by decide)
  by_cases hcode : r.code = .transport ∨ r.code = .unavailable
  · obtain ⟨x, hx, hfails⟩ := hiff.mp hcode
    generalize (w.called r).clientSendResult .linux c r.code = w₂ at hq
    obtain ⟨hservers, hactive, _⟩ := World.settleWork_endpoint .linux r.code
      w₂.server
    obtain ⟨hservers', hactive', _⟩ := hq.endpoint
    have he : World.afterWork .linux T r.code w₂.server
        = (World.settleWork .linux r.code w₂.server).chainTransportNext T :=
      if_pos hcode
    refine .next ?_ ?_ hfails fun hs => ?_
    · show (World.afterWork .linux T r.code w₂.server).chainServers = _
      rw [he, StratumServer.chainServers_next, hservers, hservers']
      rfl
    · refine hq.silent.trans ?_
      rw [exchanges_called, hx]
      rfl
    · show Offline T _ (World.afterWork .linux T r.code w₂.server)
      rw [he]
      exact StratumServer.offline_next _ hs hr (hservers.trans hservers')
        (hactive.trans hactive')
  · have he : World.afterWork .linux T r.code
        = World.settleWork .linux r.code := funext fun _ => if_neg hcode
    rw [he]
    refine stays_called hq ?_ (fun h => hcode (hiff.mpr h))
      (World.settleWork_endpoint .linux r.code)
    rw [← hcall]
    exact uses_callSubmitWork.used

theorem rotates_processSubmission (hr : w.server.InRange) :
    Rotates T w (w.processSubmission .linux T c) := by
  unfold World.processSubmission
  split
  · exact Quiet.refl.rotates
  split
  · exact (own_clientRemove _).toQuiet.rotates
  · exact (own_clientSendResult _).toQuiet.rotates
  · exact rotates_submitShare
  · exact rotates_submitWork hr

/-- **A poll** may fail over. -/
theorem rotates_refreshWork (hr : w.server.InRange) :
    Rotates T w (w.refreshWork .linux T) := by
  have hcalls : exchangesOf (w.refreshWork .linux T).trace
      = exchangesOf w.trace ++ (w.poll T).exchanged.toList :=
    (exchanges_afterPoll ..).trans (exchanges_called w (w.poll T))
  have hiff : (w.poll T).code = .transport
      ↔ ∃ x, (w.poll T).exchanged = some x ∧ Rpc.FailsOver x :=
    Rpc.callMiningTemplate_failsOver_iff
  by_cases hcode : (w.poll T).code = .transport
  · obtain ⟨x, hx, hfails⟩ := hiff.mp hcode
    rw [hx] at hcalls
    refine .next ?_ hcalls hfails (World.lost_refreshWork hr hcode).offline
    unfold World.refreshWork
    dsimp only
    rw [hcode]
    exact StratumServer.chainServers_next T _
  · obtain ⟨hservers, hactive, htransport⟩ :=
      World.active_refreshWork .linux hcode
    refine .stays hservers hactive ?_ hcalls fun x hm hfails =>
      hcode (hiff.mpr ⟨x, Option.mem_toList.mp hm, hfails⟩)
    rw [htransport]
    exact (uses_call ..).used

theorem rotates_serviceTurn (h : Ready c w) (hr : w.server.InRange) :
    Rotates T w (w.serviceTurn .linux T c).1 := by
  cases hc : w.client? c with
  | none =>
    rw [serviceTurn_of_none .linux T hc]
    exact Quiet.refl.rotates
  | some s =>
    rcases h.own_turn T hc with ho | ⟨w₁, s₁, ho, _, _, _, _, he⟩
    · exact ho.toQuiet.rotates
    · rw [he]
      exact ho.toQuiet.trans_rotates
        (rotates_processSubmission (ho.inRange hr)).finishTurn

/-- Accepting is about sessions. -/
theorem quiet_acceptFrom (mode : ServiceMode) (outcomes : List AcceptOutcome)
    (w : World τ) : Quiet w (World.acceptFrom mode outcomes w) := by
  refine ⟨?_, silent_acceptFrom mode outcomes w⟩
  induction outcomes generalizing w with
  | nil => rfl
  | cons o rest ih =>
    cases o with
    | session => exact (ih _).trans rfl
    | nobody => rfl
    | failed => rfl

/-- **What an action does to the endpoint**, short of closing. -/
theorem rotates_act {a : ServerAction} (h : (turns .linux T).Reachable w)
    (ha : a ≠ .close) : Rotates T w ((turns .linux T).act w a) := by
  have hr := inRange_of_turns h
  have hidle : ∀ {s : StratumServer τ},
      s.chainServers = w.server.chainServers →
      s.activeChainServer = w.server.activeChainServer →
      s.chainTransport = w.server.chainTransport →
      Rotates T w { w with server := s } := by
    intro s hservers hactive htransport
    refine .stays hservers hactive ?_ (List.append_nil _).symm
      fun x hx => absurd hx List.not_mem_nil
    rw [htransport]
    exact .idle
  cases a with
  | service c => exact rotates_serviceTurn (ready_of_turns h c) hr
  | accept mode => exact (quiet_acceptFrom mode _ w).rotates
  | refresh => exact rotates_refreshWork hr
  | sendPending => exact (quiet_sendPendingJobs .linux w).rotates
  | tick => exact hidle rfl rfl rfl
  | stop => exact hidle rfl rfl rfl
  | close => exact absurd rfl ha

end Actions

/-! ## The address of the transport -/

/-- An exchange keeps the address. -/
theorem RpcLinux.exchange_address {m : ℕ} (t : RpcLinux) (request : Bytes)
    (response : Buf m) : (t.exchange request response).1.host = t.host
      ∧ (t.exchange request response).1.port = t.port := by
  rcases t.exchange_spec request response with
    he | ⟨o, ho, _, he⟩ | ⟨o₁, o₂, h₁, _, h₂, _, he⟩ <;> rw [he]
  · exact ⟨rfl, rfl⟩
  · exact ⟨ho.frame.1, ho.frame.2.1⟩
  · exact ⟨h₂.frame.1.trans h₁.frame.1, h₂.frame.2.1.trans h₁.frame.2.1⟩

/-- So does whatever a transport is used for. -/
theorem Used.address {t u : RpcLinux} (h : Used RpcLinux.transport t u) :
    u.host = t.host ∧ u.port = t.port := by
  cases h with
  | idle => exact ⟨rfl, rfl⟩
  | exchange request response => exact t.exchange_address request response

/-- **The endpoint is the active one**: the index is one of the configuration,
and the transport has the address of the entry there. -/
structure AtActive (s : StratumServer RpcLinux) : Prop where
  /-- The index is in range. -/
  inRange : s.activeChainServer < s.chainServers.length
  /-- The address is that of the entry. -/
  address : ∃ entry, s.activeChain = some entry
    ∧ s.chainTransport.host = some entry.host
    ∧ s.chainTransport.port = entry.port

/-- A Chain that has just been turned to is the active one, and no connection
to it is open. -/
theorem Offline.atActive {s s' : StratumServer RpcLinux}
    (h : Offline RpcLinux.transport s s')
    (hs : s'.chainServers = s.chainServers) :
    AtActive s' ∧ s'.chainTransport.socket = none := by
  obtain ⟨entry, transport, he, ht, _⟩ := h.bound
  rw [ht]
  refine ⟨⟨?_, entry, ?_, ?_, ?_⟩, rfl⟩
  · rw [hs]
    exact (List.getElem?_eq_some_iff.mp he).1
  · rw [StratumServer.activeChain, hs, he]
  · rw [ht]
    rfl
  · rw [ht]
    rfl

/-- **It stays the active one**, or another is turned to. -/
theorem Rotates.atActive {w w' : World RpcLinux}
    (h : Rotates RpcLinux.transport w w') (hs : w.server.chainServers ≠ [])
    (ha : AtActive w.server) : AtActive w'.server := by
  cases h with
  | stays servers active used _ _ =>
    obtain ⟨entry, he, hhost, hport⟩ := ha.address
    refine ⟨by rw [servers, active]; exact ha.inRange, entry, ?_,
      used.address.1.trans hhost, used.address.2.trans hport⟩
    rw [StratumServer.activeChain, servers, active]
    exact he
  | next servers _ _ offline => exact ((offline hs).atActive servers).1

/-- **The transport is bound to the active entry in every state that can
be**, until the server is closed. -/
theorem atActive_of_turns {w : World RpcLinux}
    (h : (turns .linux RpcLinux.transport).Reachable w)
    (hs : w.server.chainServers ≠ []) : AtActive w.server := by
  refine h.invariant (P := fun w => w.server.chainServers ≠ [] →
    AtActive w.server) (fun w hw _ => ?_) (fun w a hw ih hne => ?_) hs
  · obtain ⟨entry, chain, transport, hserver⟩ := Startup.server hw
    rw [hserver]
    exact ⟨Nat.succ_pos _, entry, rfl, rfl, rfl⟩
  · by_cases ha : a = .close
    · subst ha
      exact absurd rfl hne
    · have hrot := rotates_act (T := RpcLinux.transport) hw ha
      rw [hrot.servers] at hne
      exact hrot.atActive hne (ih hne)

/-! ## Round and round -/

/-- **The calls on a trace that have failed over.** -/
def failovers (trace : List Event) : ℕ :=
  (exchangesOf trace).countP fun x => Rpc.FailsOver x

/-- **A call has failed over** on the way from one state to another. -/
def FailedOver (w w' : World τ) : Prop :=
  failovers w.trace < failovers w'.trace

instance : DecidableRel (FailedOver (τ := τ)) := fun _ _ => Nat.decLt _ _

/-- **The servers that a run selects**: the active one behind every action in
which a call has failed over. -/
def World.selections (T : ChainTransport τ) (w : World τ)
    (as : List ServerAction) : List ℕ :=
  RoundRobin.visits (turns .linux T) (fun w => w.server.activeChainServer)
    FailedOver w as

section Run

variable {T : ChainTransport τ} {w w' : World τ} {a : ServerAction}
  {as : List ServerAction}

/-- **A call that fails over is counted**, and it is the one that turns to the
next Chain. -/
theorem Rotates.counted (h : Rotates T w w') :
    ¬ FailedOver w w' ∧ failovers w'.trace = failovers w.trace
        ∧ w'.server.activeChainServer = w.server.activeChainServer
      ∨ FailedOver w w' ∧ failovers w'.trace = failovers w.trace + 1
        ∧ (w.server.chainServers ≠ [] → Offline T w.server w'.server) := by
  cases h with
  | @stays xs _ active _ calls hx =>
    have hnone : xs.countP (fun x => Rpc.FailsOver x) = 0 :=
      List.countP_eq_zero.mpr fun x hm => by
        rw [decide_eq_true_iff]
        exact hx x hm
    have hcount : failovers w'.trace = failovers w.trace := by
      rw [failovers, calls, List.countP_append, hnone]
      rfl
    exact .inl ⟨fun hlt => absurd hcount hlt.ne', hcount, active⟩
  | @next x _ calls hx offline =>
    have hcount : failovers w'.trace = failovers w.trace + 1 := by
      rw [failovers, calls, List.countP_append, List.countP_singleton,
        decide_eq_true hx]
      rfl
    refine .inr ⟨?_, hcount, offline⟩
    rw [FailedOver, hcount]
    exact Nat.lt_succ_self _

/-- **The endpoint goes round** for as long as the server is not closed. -/
theorem goesRound_turns {servers : List ChainConfigEntry} (hs : servers ≠ []) :
    RoundRobin.GoesRound (turns .linux T)
      (fun w => w.server.activeChainServer) FailedOver
      (fun w => (turns .linux T).Reachable w
        ∧ w.server.chainServers = servers)
      (· ≠ .close) (fun w => failovers w.trace) servers.length where
  good w a hw ha :=
    ⟨hw.1.act a, (rotates_act (T := T) hw.1 ha).servers.trans hw.2⟩
  step w a hw ha := by
    obtain ⟨hreach, rfl⟩ := hw
    rcases (rotates_act (T := T) hreach ha).counted with
      ⟨hnot, _, hactive⟩ | ⟨hfailed, _, hoffline⟩
    · rw [if_neg hnot]
      exact hactive
    · rw [if_pos hfailed]
      exact (hoffline hs).advanced
  count w a hw ha := by
    rcases (rotates_act (T := T) hw.1 ha).counted with
      ⟨hnot, hcount, _⟩ | ⟨hfailed, hcount, _⟩
    · rw [if_neg hnot]
      exact hcount
    · rw [if_pos hfailed]
      exact hcount

/-- Closing calls nobody. -/
theorem not_failedOver_close (w : World τ) :
    ¬ FailedOver w (w.serverClose T) := by
  unfold FailedOver failovers
  rw [silent_serverClose]
  exact lt_irrefl _

end Run

/-- **Failing over goes round the configuration.** In every state that can be
before the server is closed, the index is one of the configuration, and the
transport has the host and the port of the entry there. An action in which a
call fails over gives up the work and the jobs and selects the next entry, with
a transport without an open connection. However long a run is, if `k` calls
fail over in it the index is `k` further on, around the configuration, and the
entries that were selected are the `k` behind the first index in their order.
Any as many of them in a row as there are entries are all of them, each of
them once. -/
theorem failover_rotation {w : World RpcLinux}
    (h : (turns .linux RpcLinux.transport).Reachable w)
    (hs : w.server.chainServers ≠ []) :
    AtActive w.server
      ∧ (∀ a, FailedOver w ((turns .linux RpcLinux.transport).act w a) →
        Offline RpcLinux.transport w.server
            ((turns .linux RpcLinux.transport).act w a).server
          ∧ ((turns .linux RpcLinux.transport).act w
            a).server.chainTransport.socket = none)
      ∧ ∀ as w', .close ∉ as →
        (turns .linux RpcLinux.transport).run w as = w' →
        AtActive w'.server
          ∧ w'.server.chainServers = w.server.chainServers
          ∧ ∃ k, failovers w'.trace = failovers w.trace + k
            ∧ w'.server.activeChainServer
              = (w.server.activeChainServer + k)
                % w.server.chainServers.length
            ∧ w.selections RpcLinux.transport as
              = (List.range' (w.server.activeChainServer + 1) k).map
                (· % w.server.chainServers.length)
            ∧ ∀ l, l <:+: w.selections RpcLinux.transport as →
              l.length = w.server.chainServers.length →
              l.Perm (List.range w.server.chainServers.length) := by
  refine ⟨atActive_of_turns h hs, fun a hf => ?_, ?_⟩
  · have ha : a ≠ .close := fun he => by
      subst he
      exact not_failedOver_close w hf
    have hrot := rotates_act (T := RpcLinux.transport) h ha
    obtain ⟨hnot, _⟩ | ⟨_, _, hoffline⟩ := hrot.counted
    · exact absurd hf hnot
    · exact ⟨hoffline hs, ((hoffline hs).atActive hrot.servers).2⟩
  · rintro as w' has rfl
    have R := goesRound_turns (T := RpcLinux.transport) hs
    have hallowed : ∀ a ∈ as, a ≠ .close := fun a ha he => has (he ▸ ha)
    obtain ⟨hreach, hservers⟩ := R.run_good ⟨h, rfl⟩ hallowed
    obtain ⟨hvisits, hplace⟩ := R.run_visits ⟨h, rfl⟩
      ((inRange_of_turns h).resolve_left hs) hallowed
    refine ⟨atActive_of_turns hreach (hservers ▸ hs), hservers, _,
      R.run_count ⟨h, rfl⟩ hallowed, hplace, hvisits, fun l hl hlen => ?_⟩
    unfold World.selections at hl
    rw [hvisits] at hl
    exact RoundRobin.perm_of_infix hl hlen

/-- **A server with two Chains**, neither of which can be reached. -/
def twoChains : World RpcLinux :=
  { boot RpcLinux.transport ⟨none, 0, none, [], 0, []⟩ (fun _ => [])
      fun _ => [] with
    server := StratumServer.chainTransportSelect RpcLinux.transport
      { chainServers := [⟨[0x61], 1⟩, ⟨[0x62], 2⟩]
        activeChainServer := 0
        chainTransport := ⟨none, 0, none, [], 0, []⟩
        chainRpc := ⟨0⟩
        work := ⟨Buf.zero _, Buf.zero _, Buf.zero _, 0, false, Nat.zero_le _⟩
        clients := []
        clientCount := 0
        running := true
        chainAvailable := false
        loopCount := 0 } 0 }

set_option maxRecDepth 100000 in
/-- It turns from one to the other with every poll. -/
theorem failover_rotation_twoChains :
    let w := (turns .linux RpcLinux.transport).run twoChains
      [.refresh, .refresh, .refresh]
    failovers w.trace = 3 ∧ w.server.activeChainServer = 1
      ∧ twoChains.selections RpcLinux.transport
          [.refresh, .refresh, .refresh] = [1, 0, 1]
      ∧ AtActive w.server := by
  intro w
  have hw : (turns .linux RpcLinux.transport).Reachable twoChains :=
    .start ⟨⟨_, _, _, rfl⟩, rfl, fun _ => ⟨rfl, rfl, rfl⟩, rfl⟩
  have hthree : failovers w.trace = 3 := by decide +kernel
  have hnone : failovers twoChains.trace = 0 := rfl
  obtain ⟨hactive, _, k, hk, hindex, hselected, _⟩ :=
    (failover_rotation hw (List.cons_ne_nil _ _)).2.2 _ w (by decide) rfl
  obtain rfl : k = 3 := by omega
  exact ⟨hthree, hindex, hselected, hactive⟩
