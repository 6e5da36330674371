import StnStratum.Isolation
import StnStratum.Turns

/-!
# Going offline

The server calls Chain in three places: it polls for a template, it submits a
block, and it submits a share. A call is lost when the transport cannot carry
it. Behind a lost poll and a lost block the server goes offline: it drops the
work and every job, stops saying that Chain is there, and turns to the next
Chain server with a fresh transport. Behind a lost share it only drops the
work, and goes on saying that Chain is there.

An action of the server makes at most one call, so that it is enough to look
at the exchange without a reply on the trace (`Rpc.call_transport_iff`).
-/

variable {τ : Type}

/-! ## A call that is lost -/

namespace Rpc

section Lost

variable {T : ChainTransport τ} {transport : τ} {client : RpcClient}
  {heap : Heap} {method : ℕ} {payload : Bytes} {capacity : ℕ}
  {responsePayload : Option (Buf capacity)}

/-- No response says that it could not be carried. -/
theorem checkResponse_ne_transport (method id capacity : ℕ) (hasBuffer : Bool)
    (response : Bytes) (frameLength : ℕ) :
    checkResponse method id capacity hasBuffer response frameLength
      ≠ .transport := by
  have hmap : ∀ code, mapCode code ≠ .transport := by
    intro code
    unfold mapCode
    split <;> decide
  unfold checkResponse
  dsimp only
  split_ifs <;> first | exact hmap _ | exact nofun

/-- **A call ends in TRANSPORT exactly where the exchange has no reply.** -/
theorem call_transport_iff :
    (call T transport client heap method payload responsePayload).code
        = .transport
      ↔ ∃ request, (call T transport client heap method payload
          responsePayload).exchanged = some (request, none) := by
  obtain ⟨code, heap', hcode, he⟩ | ⟨b, r, heap', _, he⟩ :=
    call_cases T transport client heap method payload responsePayload
  · rw [he]
    refine iff_of_false ?_ (by rintro ⟨_, ⟨⟩⟩)
    rcases hcode with rfl | rfl <;> rintro ⟨⟩
  · rw [he]
    unfold exchangeWith concluded
    dsimp only
    generalize T.exchange transport _ r = e
    unfold Reply.frame
    by_cases hok : e.2.ok = false
    · rw [if_pos hok, hok]
      exact iff_of_true rfl ⟨_, rfl⟩
    · rw [if_neg hok, if_pos (Bool.eq_true_of_not_eq_false hok)]
      have hne := checkResponse_ne_transport method client.requestId.toNat
        capacity responsePayload.isSome e.2.response.bytes e.2.frameLength
      split
      · exact iff_of_false (by rintro ⟨⟩) (by rintro ⟨_, ⟨⟩⟩)
      · exact iff_of_false hne (by rintro ⟨_, ⟨⟩⟩)

/-- So does a poll. -/
theorem callMiningTemplate_transport_iff {buffer : Buf capacity} :
    (callMiningTemplate T transport client heap buffer).code = .transport
      ↔ ∃ request, (callMiningTemplate T transport client heap
          buffer).exchanged = some (request, none) := by
  refine Iff.trans ?_ call_transport_iff
  unfold callMiningTemplate
  dsimp only
  split
  next h => exact iff_of_false nofun (by rw [h]; exact nofun)
  · exact Iff.rfl

/-- So does the submission of a block. -/
theorem callSubmitWork_transport_iff {buffer : Buf capacity} :
    (callSubmitWork T transport client heap payload buffer).code = .transport
      ↔ ∃ request, (callSubmitWork T transport client heap payload
          buffer).exchanged = some (request, none) := by
  unfold callSubmitWork
  split
  · exact iff_of_false nofun fun ⟨_, h⟩ => nomatch h
  · exact call_transport_iff

/-- So does the submission of a share. -/
theorem callSubmitShare_transport_iff {buffer : Buf 32} :
    (callSubmitShare T transport client heap payload buffer).code = .transport
      ↔ ∃ request, (callSubmitShare T transport client heap payload
          buffer).exchanged = some (request, none) := by
  unfold callSubmitShare
  split
  · exact iff_of_false (by rintro ⟨⟩) (by rintro ⟨_, ⟨⟩⟩)
  dsimp only
  split
  next h =>
    refine Iff.trans (iff_of_false (by rintro ⟨⟩) ?_) call_transport_iff
    rw [h.1]
    rintro ⟨⟩
  · exact call_transport_iff

/-- The request of an exchange names the method of the call. -/
theorem methodOf_exchanged {request : Bytes} {reply : Option Bytes}
    (hm : method < 65536) (h : (call T transport client heap method payload
      responsePayload).exchanged = some (request, reply)) :
    methodOf request = method := by
  rcases call_exchanged T transport client heap method payload
    responsePayload with he | ⟨_, he, _⟩
  · cases h.symm.trans he
  · obtain ⟨rfl, _⟩ := Prod.mk.inj (Option.some.inj (h.symm.trans he))
    exact methodOf_requestFrame _ _ _ hm

/-- **A poll that is lost.** -/
theorem callMiningTemplate_lost {buffer : Buf capacity} {request : Bytes}
    (h : (callMiningTemplate T transport client heap buffer).exchanged
      = some (request, none)) :
    (callMiningTemplate T transport client heap buffer).code = .transport
      ∧ methodOf request = miningTemplate :=
  ⟨callMiningTemplate_transport_iff.mpr ⟨request, h⟩,
    methodOf_exchanged (by decide) h⟩

/-- **A block that is lost.** -/
theorem callSubmitWork_lost {buffer : Buf capacity} {request : Bytes}
    (h : (callSubmitWork T transport client heap payload buffer).exchanged
      = some (request, none)) :
    (callSubmitWork T transport client heap payload buffer).code = .transport
      ∧ methodOf request = submitWork := by
  refine ⟨callSubmitWork_transport_iff.mpr ⟨request, h⟩, ?_⟩
  unfold callSubmitWork at h
  split at h
  · cases h
  · exact methodOf_exchanged (by decide) h

/-- **A share that is lost.** -/
theorem callSubmitShare_lost {buffer : Buf 32} {request : Bytes}
    (h : (callSubmitShare T transport client heap payload buffer).exchanged
      = some (request, none)) :
    (callSubmitShare T transport client heap payload buffer).code = .transport
      ∧ methodOf request = submitShare := by
  refine ⟨callSubmitShare_transport_iff.mpr ⟨request, h⟩, ?_⟩
  unfold callSubmitShare at h
  split at h
  · cases h
  dsimp only at h
  split at h
  · exact methodOf_exchanged (T := T) (by decide) h
  · exact methodOf_exchanged (by decide) h

end Lost

end Rpc

/-! ## Offline -/

/-- **The endpoint has gone offline**: no work and no jobs are left, Chain is
not said to be there, and the next server of the configuration has been
turned to, with a transport and a client that begin anew. -/
structure Offline (T : ChainTransport τ) (s s' : StratumServer τ) : Prop where
  /-- `have_work` is zero. -/
  haveWork : s'.work.haveWork = false
  /-- So is every `has_job`. -/
  noJobs : ∀ client ∈ s'.clients, client.hasJob = false
  /-- So is `chain_available`. -/
  unavailable : s'.chainAvailable = false
  /-- `active_chain_server` has advanced. -/
  advanced : s'.activeChainServer
    = (s.activeChainServer + 1) % s.chainServers.length
  /-- The transport is bound to that server. -/
  bound : ∃ entry transport,
    s.chainServers[s'.activeChainServer]? = some entry
      ∧ s'.chainTransport = T.init (T.close transport) entry.host entry.port
      ∧ s'.chainRpc = RpcClient.init

namespace StratumServer

/-- **The active server is one of the configuration**, as long as there is
one. -/
def InRange (s : StratumServer τ) : Prop :=
  s.chainServers = [] ∨ s.activeChainServer < s.chainServers.length

variable {T : ChainTransport τ} {s s' : StratumServer τ}

/-- Turning to the next server goes offline. -/
theorem offline_next (s' : StratumServer τ) (hs : s.chainServers ≠ [])
    (hr : s.InRange)
    (h : s'.chainServers = s.chainServers)
    (h' : s'.activeChainServer = s.activeChainServer) :
    Offline T s (s'.chainTransportNext T) := by
  have hlt : s.activeChainServer < s.chainServers.length :=
    hr.resolve_left hs
  have hmod : (if s.chainServers.length ≤ s.activeChainServer + 1 then 0
      else s.activeChainServer + 1)
        = (s.activeChainServer + 1) % s.chainServers.length := by
    split
    next hle =>
      rw [show s.activeChainServer + 1 = s.chainServers.length by omega,
        Nat.mod_self]
    next hle => exact (Nat.mod_eq_of_lt (not_le.mp hle)).symm
  obtain ⟨entry, he, hn⟩ := s'.chainTransportNext_eq T (h ▸ hs)
  rw [h, h', hmod] at he hn
  rw [hn]
  refine ⟨rfl, fun client hc => ?_, rfl, rfl, entry, _, he, rfl, rfl⟩
  obtain ⟨_, _, rfl⟩ := List.mem_map.mp hc
  rfl

/-- The next server is one of the configuration. -/
theorem inRange_next (T : ChainTransport τ) (s : StratumServer τ) :
    (s.chainTransportNext T).InRange := by
  by_cases hs : s.chainServers = []
  · refine .inl ?_
    unfold chainTransportNext
    rw [if_pos (by rw [hs]; rfl)]
    exact hs
  · obtain ⟨entry, he, hn⟩ := s.chainTransportNext_eq T hs
    rw [hn]
    exact .inr (List.getElem?_eq_some_iff.mp he).1

/-- So it is whatever becomes of the work behind a block. -/
theorem InRange.afterWork (hr : s.InRange) (P : Platform) (code : RpcCode) :
    (World.afterWork P T code s).InRange := by
  have h : (World.settleWork P code s).InRange := by
    obtain ⟨hservers, hactive, _⟩ := World.settleWork_endpoint P code s
    rw [InRange, hservers, hactive]
    exact hr
  unfold World.afterWork
  dsimp only
  split
  · exact inRange_next T _
  · exact h

end StratumServer

section Actions

variable {T : ChainTransport τ} {c : ConnId} {w w' : World τ}
  {s : ClientSession} {a : ServerAction}

/-- The sessions have no part in it. -/
theorem Quiet.inRange (h : Quiet w w') (hr : w.server.InRange) :
    w'.server.InRange := by
  rw [h.server]
  exact hr

theorem inRange_processSubmission (P : Platform) (hr : w.server.InRange) :
    (w.processSubmission P T c).server.InRange := by
  unfold World.processSubmission
  split
  · exact hr
  split
  · exact (own_clientRemove _).inRange hr
  · exact (own_clientSendResult _).inRange hr
  · unfold World.submitShare
    dsimp only
    generalize Rpc.callSubmitShare T _ _ _ _ _ = r
    have hsent : ((w.called r).clientSendResult P c r.code).server.InRange :=
      (own_clientSendResult _).inRange hr
    generalize (w.called r).clientSendResult P c r.code = w₁ at hsent
    split <;> exact hsent
  · unfold World.submitWork
    dsimp only
    split
    · exact (own_clientSendResult (w := { w with heap := _ }) _).inRange hr
    next =>
    generalize Rpc.callSubmitWork T _ _ _ _ _ = r
    have hcalled : (w.called r).server.InRange := hr
    exact ((own_clientSendResult _).inRange hcalled).afterWork P _

theorem inRange_refreshWork (P : Platform) (hr : w.server.InRange) :
    (w.refreshWork P T).server.InRange := by
  have hp : (w.polled (w.poll T)).server.InRange := hr
  unfold World.refreshWork
  dsimp only
  generalize w.polled (w.poll T) = w₁ at hp
  unfold World.afterPoll
  split
  · split
    · exact hp
    split
    · exact hp
    dsimp only
    split
    · exact (quiet_sendPendingJobs P _).inRange hp
    · exact hp
  · exact hp
  · exact StratumServer.inRange_next T
      { w₁.server.clearWork with chainAvailable := false }
  · exact hp

theorem inRange_serviceTurn (h : Ready c w) (hr : w.server.InRange) :
    (w.serviceTurn .linux T c).1.server.InRange := by
  cases hs : w.client? c with
  | none =>
    rw [serviceTurn_of_none .linux T hs]
    exact hr
  | some s =>
    rcases h.own_turn T hs with ho | ⟨w₁, s₁, ho, _, _, _, _, he⟩
    · exact ho.inRange hr
    · rw [he]
      exact own_finishTurn.inRange
        (inRange_processSubmission .linux (ho.inRange hr))

theorem inRange_acceptFrom (mode : ServiceMode) (outcomes : List AcceptOutcome)
    (hr : w.server.InRange) :
    (World.acceptFrom mode outcomes w).server.InRange := by
  induction outcomes generalizing w with
  | nil => exact hr
  | cons o rest ih =>
    cases o with
    | session => exact ih hr
    | nobody => exact hr
    | failed => exact hr

/-- **The active server is one of the configuration in every state that can
be.** -/
theorem inRange_of_turns (h : (turns .linux T).Reachable w) :
    w.server.InRange := by
  refine h.invariant (P := fun w => w.server.InRange) (fun w hw => ?_)
    fun w a hw hr => ?_
  · obtain ⟨entry, chain, transport, hs⟩ := Startup.server hw
    rw [hs]
    exact .inr (Nat.succ_pos _)
  cases a with
  | service c => exact inRange_serviceTurn (ready_of_turns hw c) hr
  | accept mode => exact inRange_acceptFrom mode _ hr
  | refresh => exact inRange_refreshWork .linux hr
  | sendPending => exact (quiet_sendPendingJobs .linux w).inRange hr
  | tick => exact hr
  | stop => exact hr
  | close => exact .inl rfl

/-! ## Actions in which a call is lost -/

/-- **A call is lost**: among the exchanges that are new on the trace, that of
its request has no reply. -/
def LosesCall (w w' : World τ) (request : Bytes) : Prop :=
  ∃ xs, exchangesOf w'.trace = exchangesOf w.trace ++ xs
    ∧ (request, none) ∈ xs

/-- It is one of the calls that were made. -/
theorem LosesCall.mem {request : Bytes} {xs : List (Bytes × Option Bytes)}
    (h : LosesCall w w' request)
    (hx : exchangesOf w'.trace = exchangesOf w.trace ++ xs) :
    (request, none) ∈ xs := by
  obtain ⟨ys, hy, hm⟩ := h
  rwa [List.append_cancel_left (hx.symm.trans hy)]

/-- Where no call is made none is lost. -/
theorem silent_not_losesCall {request : Bytes}
    (h : exchangesOf w'.trace = exchangesOf w.trace) :
    ¬ LosesCall w w' request := fun hl =>
  List.not_mem_nil (hl.mem (h.trans (List.append_nil _).symm))

theorem Quiet.not_losesCall {request : Bytes} (h : Quiet w w') :
    ¬ LosesCall w w' request :=
  silent_not_losesCall h.silent

/-- Which call is lost does not depend on what is quiet around it. -/
theorem LosesCall.congr {w₁ w₁' : World τ} {request : Bytes}
    (h : LosesCall w w' request)
    (hw : exchangesOf w.trace = exchangesOf w₁.trace)
    (hw' : exchangesOf w'.trace = exchangesOf w₁'.trace) :
    LosesCall w₁ w₁' request := by
  obtain ⟨xs, hx, hm⟩ := h
  exact ⟨xs, by rw [← hw', hx, hw], hm⟩

/-- Accepting calls nobody. -/
theorem silent_acceptFrom (mode : ServiceMode) (outcomes : List AcceptOutcome)
    (w : World τ) : exchangesOf (World.acceptFrom mode outcomes w).trace
      = exchangesOf w.trace := by
  induction outcomes generalizing w with
  | nil => rfl
  | cons o rest ih =>
    cases o with
    | session =>
      refine (ih _).trans ?_
      show (w.trace ++ [_]).filterMap _ = _
      rw [List.filterMap_append]
      exact List.append_nil _
    | nobody => rfl
    | failed => rfl

/-- Neither does closing. -/
theorem silent_serverClose (w : World τ) :
    exchangesOf (w.serverClose T).trace = exchangesOf w.trace := by
  show exchangesOf w.removeAll.trace = _
  unfold World.removeAll
  generalize w.sockets = cs
  induction cs generalizing w with
  | nil => rfl
  | cons c cs ih => exact (ih _).trans (own_clientRemove (c := c) _).silent

/-- The call that is made. -/
theorem exchanges_called {capacity : ℕ} (w : World τ)
    (r : Rpc.Call τ capacity) : exchangesOf (w.called r).trace
      = exchangesOf w.trace ++ r.exchanged.toList := by
  show (w.trace ++ _).filterMap _ = _
  rw [List.filterMap_append]
  cases r.exchanged <;> rfl

/-- What `refresh_work` does behind its call makes no other. -/
theorem exchanges_afterPoll (P : Platform) (w : World τ) (code : RpcCode)
    (written : ℕ) (h : written ≤ Rpc.maxPayload) :
    exchangesOf (w.afterPoll P T code written h).trace
      = exchangesOf w.trace := by
  unfold World.afterPoll
  split
  · split
    · rfl
    split
    · rfl
    dsimp only
    split
    · exact (quiet_sendPendingJobs P _).silent
    · rfl
  all_goals rfl

/-- **A poll that is lost goes offline.** -/
theorem offline_refreshWork {request : Bytes}
    (hs : w.server.chainServers ≠ []) (hr : w.server.InRange)
    (h : LosesCall w (w.refreshWork .linux T) request) :
    Rpc.methodOf request = Rpc.miningTemplate
      ∧ Offline T w.server (w.refreshWork .linux T).server := by
  have hx : (w.poll T).exchanged = some (request, none) := by
    refine Option.mem_toList.mp (h.mem ?_)
    exact (exchanges_afterPoll ..).trans (exchanges_called w (w.poll T))
  obtain ⟨hcode, hm⟩ := Rpc.callMiningTemplate_lost hx
  refine ⟨hm, ?_⟩
  unfold World.refreshWork
  dsimp only
  rw [show (w.poll T).code = .transport from hcode]
  exact StratumServer.offline_next { (w.polled (w.poll T)).server.clearWork
    with chainAvailable := false } hs hr rfl rfl

/-- **A block that is lost goes offline.** -/
theorem offline_submitWork {request : Bytes} {nonce : ℕ}
    (hs : w.server.chainServers ≠ []) (hr : w.server.InRange)
    (h : LosesCall w (w.submitWork .linux T c s nonce) request) :
    Rpc.methodOf request = Rpc.submitWork
      ∧ Offline T w.server (w.submitWork .linux T c s nonce).server := by
  unfold World.submitWork at h ⊢
  dsimp only at h ⊢
  split at h
  next =>
    have hq : Quiet w { w with heap := (w.heap.malloc
      (w.server.work.templateLength + Miner.addressLength)).2 } := ⟨rfl, rfl⟩
    exact absurd h (hq.trans (own_clientSendResult _).toQuiet).not_losesCall
  next =>
  generalize hcall : Rpc.callSubmitWork T w.server.chainTransport
    w.server.chainRpc _ _ _ = r at h ⊢
  have hq : Quiet (w.called r) ((w.called r).clientSendResult .linux c r.code)
    := (own_clientSendResult _).toQuiet
  have hx : r.exchanged = some (request, none) :=
    Option.mem_toList.mp (h.mem (hq.silent.trans (exchanges_called w r)))
  obtain ⟨hcode, hm⟩ : r.code = .transport
      ∧ Rpc.methodOf request = Rpc.submitWork := by
    subst hcall
    exact Rpc.callSubmitWork_lost hx
  refine ⟨hm, ?_⟩
  rw [hcode] at hq ⊢
  generalize (w.called r).clientSendResult .linux c .transport = w₂ at hq ⊢
  exact StratumServer.offline_next w₂.server.clearWork hs hr
    (show w₂.server.chainServers = _ by rw [hq.server]; rfl)
    (show w₂.server.activeChainServer = _ by rw [hq.server]; rfl)

/-- **A share that is lost does not**: it leaves `chain_available` as it
was. -/
theorem not_offline_submitShare {request : Bytes} {nonce : ℕ}
    (ha : w.server.chainAvailable = true)
    (h : LosesCall w (w.submitShare .linux T c s nonce) request) :
    Rpc.methodOf request = Rpc.submitShare
      ∧ ¬ Offline T w.server (w.submitShare .linux T c s nonce).server := by
  unfold World.submitShare at h ⊢
  dsimp only at h ⊢
  generalize hcall : Rpc.callSubmitShare T w.server.chainTransport
    w.server.chainRpc _ _ _ = r at h ⊢
  have hq : Quiet (w.called r) ((w.called r).clientSendResult .linux c r.code)
    := (own_clientSendResult _).toQuiet
  generalize (w.called r).clientSendResult .linux c r.code = w₂ at hq h ⊢
  have hx : r.exchanged = some (request, none) := by
    refine Option.mem_toList.mp (h.mem (Eq.trans ?_ (exchanges_called w r)))
    split <;> exact hq.silent
  have hstays : w₂.server.chainAvailable = true :=
    (congrArg StratumServer.chainAvailable hq.server).trans ha
  constructor
  · subst hcall
    exact (Rpc.callSubmitShare_lost hx).2
  · intro ho
    have hgone := ho.unavailable
    split at hgone <;> exact Bool.noConfusion (hgone.symm.trans hstays)

/-- **A submission that loses its call.** The work that is submitted is
available. -/
theorem offline_processSubmission_iff {request : Bytes}
    (hc : w.client? c = some s) (hs : w.server.chainServers ≠ [])
    (hr : w.server.InRange) (hw : WorkCoherent w.server)
    (h : LosesCall w (w.processSubmission .linux T c) request) :
    Offline T w.server (w.processSubmission .linux T c).server
      ↔ Rpc.methodOf request ≠ Rpc.submitShare := by
  unfold World.processSubmission at h ⊢
  rw [hc] at h ⊢
  dsimp only at h ⊢
  cases hv : submissionVerdict w.server.work s with
  | unregistered =>
    rw [hv] at h
    exact absurd h (own_clientRemove _).not_losesCall
  | refused code =>
    rw [hv] at h
    exact absurd h (own_clientSendResult code).not_losesCall
  | share nonce =>
    rw [hv] at h
    have hwork := (submissionVerdict_eq_share_iff.mp hv).1.haveWork
    obtain ⟨hm, hn⟩ := not_offline_submitShare (hw.installed hwork).1 h
    exact iff_of_false hn (not_not.mpr hm)
  | work nonce =>
    rw [hv] at h
    obtain ⟨hm, ho⟩ := offline_submitWork hs hr h
    exact iff_of_true ho (by rw [hm]; decide)

/-- The sessions before make no difference. -/
theorem Quiet.offline {s : StratumServer τ} (h : Quiet w w') :
    Offline T w'.server s ↔ Offline T w.server s := by
  rw [h.server]
  exact ⟨fun h => ⟨h.haveWork, h.noJobs, h.unavailable, h.advanced, h.bound⟩,
    fun h => ⟨h.haveWork, h.noJobs, h.unavailable, h.advanced, h.bound⟩⟩

/-- The end of a turn makes no difference. -/
theorem offline_finishTurn_iff {s : StratumServer τ} :
    Offline T s (w.finishTurn c).1.server ↔ Offline T s w.server := by
  unfold World.finishTurn
  split
  · refine ⟨fun h => ⟨h.haveWork, fun client hm => ?_, h.unavailable,
      h.advanced, h.bound⟩, fun h => ⟨h.haveWork, fun client hm => ?_,
      h.unavailable, h.advanced, h.bound⟩⟩
    · have := h.noJobs _ (List.mem_map_of_mem hm)
      split at this <;> exact this
    · obtain ⟨client', hm', rfl⟩ := List.mem_map.mp hm
      split <;> exact h.noJobs client' hm'
  · exact Iff.rfl

/-- **When a lost call takes the endpoint offline.** Whatever the server has
done so far, and whatever it does next: if a call is lost on the way, it is
offline afterwards exactly if the call was not that of a share. -/
theorem offline_iff (T : ChainTransport τ) {w : World τ}
    (h : (turns .linux T).Reachable w) (hs : w.server.chainServers ≠ [])
    (a : ServerAction) {request : Bytes}
    (hl : LosesCall w ((turns .linux T).act w a) request) :
    Offline T w.server ((turns .linux T).act w a).server
      ↔ Rpc.methodOf request ≠ Rpc.submitShare := by
  have hr := inRange_of_turns h
  cases a with
  | refresh =>
    obtain ⟨hm, ho⟩ := offline_refreshWork hs hr hl
    exact iff_of_true ho (by rw [hm]; decide)
  | sendPending =>
    exact absurd hl (quiet_sendPendingJobs .linux w).not_losesCall
  | service c =>
    change LosesCall w (w.serviceTurn .linux T c).1 request at hl
    show Offline T w.server (w.serviceTurn .linux T c).1.server ↔ _
    cases hc : w.client? c with
    | none =>
      rw [serviceTurn_of_none .linux T hc] at hl
      exact absurd hl Quiet.refl.not_losesCall
    | some s =>
    rcases (ready_of_turns h c).own_turn T hc with
      ho | ⟨w₁, s₁, ho, hc₁, _, _, _, he⟩
    · exact absurd hl ho.not_losesCall
    · rw [he] at hl ⊢
      rw [offline_finishTurn_iff, ← ho.offline]
      refine offline_processSubmission_iff hc₁ ?_ (ho.inRange hr)
        (ho.coherent (workCoherent_of_turns h))
        (hl.congr ho.silent.symm own_finishTurn.silent)
      rw [ho.server]
      exact hs
  | accept mode => exact absurd hl (silent_not_losesCall (silent_acceptFrom ..))
  | tick => exact absurd hl (silent_not_losesCall rfl)
  | stop => exact absurd hl (silent_not_losesCall rfl)
  | close => exact absurd hl (silent_not_losesCall (silent_serverClose w))

end Actions

/-- **A server whose Chain answers once**, with a template that the nonce zero
solves. -/
def blackout : World (List Bytes) :=
  boot Rpc.replay [Rpc.mineableTemplate easyTarget 0]
    (fun c => if c = 0 then
      unread addressFrame (.wouldBlock :: unread submitFrame []) else [])
    fun _ => [.session]

/-- The miner has its JOB, and Chain is gone. -/
def blackoutJob : World (List Bytes) :=
  (turns .linux Rpc.replay).run blackout
    [.accept .pool, .service 0, .refresh, .sendPending, .service 0]

set_option maxRecDepth 100000 in
/-- **Whichever call is lost next**, a poll or the miner's SUBMIT of a block, the
JOB is taken away and the work with it. -/
theorem offline_iff_blackout :
    blackoutJob.server.work.haveWork = true
      ∧ blackoutJob.server.clients.map ClientSession.hasJob = [true]
      ∧ Offline Rpc.replay blackoutJob.server
        ((turns .linux Rpc.replay).act blackoutJob .refresh).server
      ∧ Offline Rpc.replay blackoutJob.server
        ((turns .linux Rpc.replay).act blackoutJob (.service 0)).server := by
  have hreach : (turns .linux Rpc.replay).Reachable blackoutJob :=
    (Machine.Reachable.start (startup_boot ..)).run _
  have hservers : blackoutJob.server.chainServers ≠ [] := by decide +kernel
  have hlost : ∀ a method, method ≠ Rpc.submitShare →
      (exchangesOf ((turns .linux Rpc.replay).act blackoutJob a).trace
        = exchangesOf blackoutJob.trace ++ (exchangesOf
          ((turns .linux Rpc.replay).act blackoutJob a).trace).drop 1
      ∧ ((exchangesOf ((turns .linux Rpc.replay).act blackoutJob
        a).trace).drop 1).map (fun x => (Rpc.methodOf x.1, x.2))
          = [(method, none)]) →
      Offline Rpc.replay blackoutJob.server
        ((turns .linux Rpc.replay).act blackoutJob a).server := by
    rintro a method hmethod ⟨hnew, hnone⟩
    obtain ⟨⟨request, reply⟩, hx, hp⟩ := List.map_eq_singleton_iff.mp hnone
    obtain ⟨rfl, rfl⟩ := Prod.mk.inj hp
    refine (offline_iff Rpc.replay hreach hservers a
      ⟨_, hnew, ?_⟩).mpr hmethod
    rw [hx]
    exact List.mem_cons_self
  refine ⟨by decide +kernel, by decide +kernel, ?_, ?_⟩
  · exact hlost .refresh Rpc.miningTemplate (by decide) (by decide +kernel)
  · exact hlost (.service 0) Rpc.submitWork (by decide) (by decide +kernel)

/-! ## An outage that a share notices -/

/-- **A server whose Chain answers once**, with a template that the nonce zero
makes a share of and not a block. -/
def outage : World (List Bytes) :=
  boot Rpc.replay
    [Rpc.mineableTemplate (0x0d :: List.replicate 31 0xff) 0]
    (fun c => if c = 0 then
      unread addressFrame (.wouldBlock :: unread submitFrame []) else [])
    fun _ => [.session]

/-- The miner's SUBMIT, behind the template that is installed. -/
def outageAct (n : ℕ) : World (List Bytes) :=
  (turns .linux Rpc.replay).run outage
    ([.accept .pool, .service 0, .refresh, .service 0, .service 0].take n)

set_option maxRecDepth 100000 in
/-- **A share that is lost does not take the endpoint offline**: Chain is still
said to be there, and it is the same Chain. -/
theorem not_offline_outage :
    (turns .linux Rpc.replay).Reachable (outageAct 4)
      ∧ (outageAct 4).server.chainServers ≠ []
      ∧ outageAct 5 = (turns .linux Rpc.replay).act (outageAct 4) (.service 0)
      ∧ (∃ request, LosesCall (outageAct 4) (outageAct 5) request)
      ∧ (outageAct 5).server.chainAvailable = true
      ∧ ¬ Offline Rpc.replay (outageAct 4).server (outageAct 5).server := by
  have hact : outageAct 5
      = (turns .linux Rpc.replay).act (outageAct 4) (.service 0) :=
    (turns .linux Rpc.replay).run_take_succ outage rfl
  -- the SUBMIT of the last turn is the second call, and nobody answers it
  obtain ⟨hservers, hnew, hnone, hthere⟩ :
      (outageAct 4).server.chainServers ≠ []
      ∧ exchangesOf (outageAct 5).trace = exchangesOf (outageAct 4).trace
        ++ (exchangesOf (outageAct 5).trace).drop 1
      ∧ ((exchangesOf (outageAct 5).trace).drop 1).map Prod.snd = [none]
      ∧ (outageAct 5).server.chainAvailable = true := by decide +kernel
  obtain ⟨⟨request, _⟩, hx, rfl⟩ := List.map_eq_singleton_iff.mp hnone
  have hreach : (turns .linux Rpc.replay).Reachable (outageAct 4) :=
    (Machine.Reachable.start (startup_boot ..)).run _
  have hl : LosesCall (outageAct 4) (outageAct 5) request := by
    refine ⟨_, hnew, ?_⟩
    rw [hx]
    exact List.mem_cons_self
  exact ⟨hreach, hservers, hact, ⟨request, hl⟩, hthere,
    fun ho => Bool.noConfusion (ho.unavailable.symm.trans hthere)⟩
