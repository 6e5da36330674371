import StnStratum.Acceptance
import StnStratum.RpcLinux

/-!
# The traffic with Chain

The server and the transport each tell their own story: the server's trace has
the exchanges it asked for, the transport's log has the attempts it made.
`Talks` is the relation that keeps the two together. Whatever a function of
the server does, the transport has since carried exactly the exchanges that
the function has added to the trace, in their order, and nothing else has been
done to it than to close it and to bind it to a host anew.

On the Linux transport the two stories are then one (`mutation_never_resent`),
and what is known of every attempt is known of every request of the server.
-/

variable {τ : Type}

/-! ## What a transport has carried -/

/-- **A transport since it was `t`**, and the exchanges it has carried. -/
inductive Carried (T : ChainTransport τ) (t : τ) :
    List (Bytes × Option Bytes) → τ → Prop where
  /-- Nothing was done. -/
  | nothing : Carried T t [] t
  /-- It was bound to a host. -/
  | init {xs : List (Bytes × Option Bytes)} {u : τ} (h : Carried T t xs u)
    (host : Bytes) (port : UInt16) : Carried T t xs (T.init u host port)
  /-- It was closed. -/
  | close {xs : List (Bytes × Option Bytes)} {u : τ} (h : Carried T t xs u) :
    Carried T t xs (T.close u)
  /-- It has carried another exchange. -/
  | exchange {xs : List (Bytes × Option Bytes)} {u : τ} (h : Carried T t xs u)
    {m : ℕ} (request : Bytes) (response : Buf m) :
    Carried T t (xs ++ [(request, (T.exchange u request response).2.frame)])
      (T.exchange u request response).1

section Carried

variable {T : ChainTransport τ} {t u v : τ} {xs ys : List (Bytes × Option Bytes)}

theorem Carried.trans (h : Carried T t xs u) (h' : Carried T u ys v) :
    Carried T t (xs ++ ys) v := by
  induction h' with
  | nothing => rwa [List.append_nil]
  | init _ host port ih => exact ih.init host port
  | close _ ih => exact ih.close
  | exchange _ request response ih =>
    rw [← List.append_assoc]
    exact ih.exchange request response

/-- **What a call does to the transport**: nothing, or one exchange, which it
reports. -/
def Rpc.Call.Uses (T : ChainTransport τ) (t : τ) {capacity : ℕ}
    (r : Rpc.Call τ capacity) : Prop :=
  (r.transport = t ∧ r.exchanged = none)
    ∨ ∃ (request : Bytes) (m : ℕ) (response : Buf m),
      r.transport = (T.exchange t request response).1
        ∧ r.exchanged
          = some (request, (T.exchange t request response).2.frame)

theorem uses_call (T : ChainTransport τ) (t : τ) (client : RpcClient)
    (heap : Heap) (method : ℕ) (payload : Bytes) {capacity : ℕ}
    (buffer : Option (Buf capacity)) :
    (Rpc.call T t client heap method payload buffer).Uses T t := by
  obtain ⟨code, heap', _, he⟩ | ⟨b, r, heap', _, he⟩ :=
    Rpc.call_cases T t client heap method payload buffer
  · rw [he]
    exact .inl ⟨rfl, rfl⟩
  · rw [he]
    unfold Rpc.exchangeWith Rpc.concluded
    dsimp only
    split
    · exact .inr ⟨_, _, r, rfl, rfl⟩
    · split <;> exact .inr ⟨_, _, r, rfl, rfl⟩

theorem uses_callSubmitWork {client : RpcClient} {heap : Heap}
    {payload : Bytes} {capacity : ℕ} {buffer : Buf capacity} :
    (Rpc.callSubmitWork T t client heap payload buffer).Uses T t := by
  unfold Rpc.callSubmitWork
  split
  · exact .inl ⟨rfl, rfl⟩
  · exact uses_call ..

theorem uses_callSubmitShare {client : RpcClient} {heap : Heap}
    {payload : Bytes} {shareId : Buf 32} :
    (Rpc.callSubmitShare T t client heap payload shareId).Uses T t := by
  unfold Rpc.callSubmitShare
  split
  · exact .inl ⟨rfl, rfl⟩
  · dsimp only
    split <;> exact uses_call ..

/-- **A call carries its exchange**, if it makes one. -/
theorem Rpc.Call.Uses.carried {capacity : ℕ} {r : Rpc.Call τ capacity}
    (h : r.Uses T t) : Carried T t r.exchanged.toList r.transport := by
  obtain ⟨ht, hx⟩ | ⟨request, m, response, ht, hx⟩ := h
  · rw [ht, hx]
    exact .nothing
  · rw [ht, hx]
    exact (Carried.nothing (T := T) (t := t)).exchange request response

end Carried

/-! ## What the server does to the transport -/

/-- **What a function of the server does to the transport**: it carries the
exchanges that the function adds to the trace. -/
def Talks (T : ChainTransport τ) (w w' : World τ) : Prop :=
  ∃ es, w'.trace = w.trace ++ es
    ∧ Carried T w.server.chainTransport (exchangesOf es)
      w'.server.chainTransport

section Talks

variable {T : ChainTransport τ} {w w' w'' : World τ} {c : ConnId}

theorem Talks.refl : Talks T w w := ⟨[], (List.append_nil _).symm, .nothing⟩

theorem Talks.trans (h : Talks T w w') (h' : Talks T w' w'') :
    Talks T w w'' := by
  obtain ⟨es, ht, hc⟩ := h
  obtain ⟨fs, ht', hc'⟩ := h'
  refine ⟨es ++ fs, by rw [ht', ht, List.append_assoc], ?_⟩
  rw [exchangesOf, List.filterMap_append]
  exact hc.trans hc'

/-- A function that leaves the transport alone and makes no exchange. -/
theorem Talks.of_silent {es : List Event} (ht : w'.trace = w.trace ++ es)
    (hx : exchangesOf es = [])
    (hs : w'.server.chainTransport = w.server.chainTransport) :
    Talks T w w' := by
  refine ⟨es, ht, ?_⟩
  rw [hx, hs]
  exact .nothing

/-- A change of the server that closes or binds the transport at most. -/
theorem talks_setServer {f : StratumServer τ → StratumServer τ}
    (h : Carried T w.server.chainTransport [] (f w.server).chainTransport) :
    Talks T w (w.setServer f) :=
  ⟨[], (List.append_nil _).symm, h⟩

theorem talks_clientRemove (reason : Removal) :
    Talks T w (w.clientRemove c reason) := by
  cases hs : w.client? c with
  | none =>
    rw [World.clientRemove_of_none w c reason hs]
    exact .refl
  | some s =>
    rw [World.clientRemove_of_some w c reason hs]
    exact .of_silent rfl rfl rfl

theorem talks_clientSendResult (P : Platform) (code : RpcCode) :
    Talks T w (w.clientSendResult P c code) := by
  have h : ∀ p : Bytes,
      Talks T w ((w.emit (.result c (submitResultCode code))).send P c p) :=
    fun _ => .of_silent rfl rfl rfl
  unfold World.clientSendResult
  dsimp only
  split
  · exact (h _).trans (talks_clientRemove _)
  · exact h _

theorem talks_clientSendJob (P : Platform) :
    Talks T w (w.clientSendJob P c) := by
  unfold World.clientSendJob
  split
  · exact .refl
  split
  · exact .refl
  next header blockLength _ =>
  dsimp only
  generalize slice w.server.work.template.bytes 68 blockLength = block
  have h : ∀ p : Bytes,
      Talks T w ((w.emit (.job c header.bytes block)).send P c p) :=
    fun _ => .of_silent rfl rfl rfl
  have h' : ∀ p q : Bytes, Talks T w
      (((w.emit (.job c header.bytes block)).send P c p).send P c q) :=
    fun _ _ => .of_silent rfl rfl rfl
  split
  · exact (h _).trans (talks_clientRemove _)
  split
  · exact (h' _ _).trans (talks_clientRemove _)
  · exact (h' _ _).trans (.of_silent (List.append_nil _).symm rfl rfl)

/-- A call and what follows it. -/
theorem talks_called {capacity : ℕ} {r : Rpc.Call τ capacity}
    (h : Carried T w.server.chainTransport r.exchanged.toList r.transport) :
    Talks T w (w.called r) := by
  refine ⟨_, rfl, ?_⟩
  cases hx : r.exchanged with
  | none =>
    rw [hx] at h
    exact h
  | some e =>
    rw [hx] at h
    exact h

/-- The endpoint behind the active one is reached by closing and binding. -/
theorem carried_next (s : StratumServer τ) :
    Carried T s.chainTransport [] (s.chainTransportNext T).chainTransport := by
  unfold StratumServer.chainTransportNext StratumServer.chainTransportSelect
  split
  · exact .nothing
  dsimp only
  split
  · exact .nothing
  · exact (Carried.nothing.close).init _ _

theorem carried_afterWork (P : Platform) (code : RpcCode)
    (s : StratumServer τ) : Carried T s.chainTransport []
      (World.afterWork P T code s).chainTransport := by
  obtain ⟨_, _, hs⟩ := World.settleWork_endpoint P code s
  unfold World.afterWork
  dsimp only
  rw [← hs]
  split
  · exact carried_next _
  · exact .nothing

theorem talks_processSubmission (P : Platform) :
    Talks T w (w.processSubmission P T c) := by
  unfold World.processSubmission
  split
  · exact .refl
  split
  · exact talks_clientRemove _
  · exact talks_clientSendResult P _
  · unfold World.submitShare
    dsimp only
    split
    · exact ((talks_called uses_callSubmitShare.carried).trans
        (talks_clientSendResult P _)).trans (talks_setServer .nothing)
    · exact (talks_called uses_callSubmitShare.carried).trans
        (talks_clientSendResult P _)
  · unfold World.submitWork
    dsimp only
    split
    · exact (Talks.of_silent (List.append_nil _).symm rfl rfl).trans
        (talks_clientSendResult P _)
    · exact ((talks_called uses_callSubmitWork.carried).trans
        (talks_clientSendResult P _)).trans
        (talks_setServer (carried_afterWork P _ _))

theorem talks_processAddress (P : Platform) :
    Talks T w (w.processAddress P c) := by
  unfold World.processAddress
  split
  · exact .refl
  split
  · exact talks_clientRemove _
  split
  · exact talks_clientRemove _
  have h : Talks T w (w.setClient c World.registered) :=
    .of_silent (List.append_nil _).symm rfl rfl
  dsimp only
  split
  · exact h.trans (talks_clientSendJob P)
  · exact h

theorem talks_processHashProgress : Talks T w (w.processHashProgress c) := by
  have h : ∀ f, Talks T w (w.setClient c f) :=
    fun _ => .of_silent (List.append_nil _).symm rfl rfl
  unfold World.processHashProgress
  split
  · exact .refl
  dsimp only
  split
  · exact talks_clientRemove _
  split_ifs
  · exact .refl
  · exact h _
  · exact h _
  · exact h _

theorem talks_dispatch (P : Platform) (client : ClientSession) :
    Talks T w (w.dispatch P T c client) := by
  have h : Talks T w (w.emit (.frame c client.pending)) :=
    .of_silent rfl rfl rfl
  unfold World.dispatch
  dsimp only
  split
  · exact h.trans (talks_processAddress P)
  split
  · exact h.trans (talks_processSubmission P)
  · exact h.trans talks_processHashProgress

theorem talks_receive (r : RecvResult) : Talks T w (w.receive c r) :=
  .of_silent (List.append_nil _).symm rfl rfl

theorem talks_stopped (status : RecvStatus) :
    Talks T w (w.stopped c status) := by
  unfold World.stopped
  split
  · exact talks_clientRemove _
  · exact talks_clientRemove _
  · exact .refl

theorem talks_finishTurn : Talks T w (w.finishTurn c).1 := by
  unfold World.finishTurn
  split
  · exact .of_silent (List.append_nil _).symm rfl rfl
  · exact .refl

/-- A turn of `service_client` talks to Chain by exchanges only. -/
theorem talks_serviceTurn (P : Platform) :
    Talks T w (w.serviceTurn P T c).1 := by
  unfold World.serviceTurn
  cases P with
  | linux =>
    dsimp only
    unfold World.serviceTurnLinux
    split
    · exact .refl
    next client _ =>
    dsimp only
    have h := talks_receive (T := T) (w := w) (c := c)
      (w.receiving .linux c client 8)
    split
    · exact h.trans (talks_stopped _)
    split
    · exact h.trans (talks_clientRemove _)
    split
    · exact h.trans (talks_clientRemove _)
    split
    · exact (h.trans (talks_receive _)).trans (talks_stopped _)
    · exact (h.trans (talks_receive _)).trans
        ((talks_dispatch .linux _).trans talks_finishTurn)
  | windows =>
    dsimp only
    unfold World.serviceTurnWindows
    split
    · exact .refl
    dsimp only
    split
    · exact talks_clientRemove _
    split
    · exact (talks_receive _).trans (talks_stopped _)
    · exact (talks_receive _).trans
        ((talks_dispatch .windows _).trans talks_finishTurn)

theorem talks_serviceLoop (P : Platform) (fuel : ℕ) (w : World τ) :
    Talks T w (World.serviceLoop P T fuel w c) := by
  induction fuel generalizing w with
  | zero => exact .refl
  | succ fuel ih =>
    unfold World.serviceLoop
    split
    · exact (talks_serviceTurn P).trans (ih _)
    · exact talks_serviceTurn P

theorem talks_sendPendingJobs (P : Platform) (w : World τ) :
    Talks T w (w.sendPendingJobs P) := by
  unfold World.sendPendingJobs
  generalize w.sockets = cs
  induction cs generalizing w with
  | nil => exact .refl
  | cons c cs ih =>
    suffices h : Talks T w (w.sendPendingJob P c) from h.trans (ih _)
    unfold World.sendPendingJob
    split
    · exact .refl
    split
    · exact talks_clientSendJob P
    · exact .refl

/-- What `refresh_work` does behind its call is at most to go on to the next
Chain. -/
theorem talks_afterPoll (P : Platform) (w : World τ) (code : RpcCode)
    (written : ℕ) (h : written ≤ Rpc.maxPayload) :
    Talks T w (w.afterPoll P T code written h) := by
  unfold World.afterPoll
  split
  · dsimp only
    split
    · exact talks_setServer .nothing
    split
    · exact talks_setServer .nothing
    split
    · exact ((talks_setServer .nothing).trans
        (talks_setServer .nothing)).trans (talks_sendPendingJobs P _)
    · exact (talks_setServer .nothing).trans (talks_setServer .nothing)
  · exact talks_setServer .nothing
  · exact talks_setServer (carried_next
      { w.server.clearWork with chainAvailable := false })
  · exact talks_setServer .nothing

theorem talks_refreshWork (P : Platform) (w : World τ) :
    Talks T w (w.refreshWork P T) := by
  have hp : Talks T w (w.polled (w.poll T)) :=
    (talks_called (uses_call T _ w.server.chainRpc w.heap Rpc.miningTemplate
      [] (some w.server.work.template)).carried).trans
      (talks_setServer .nothing)
  exact hp.trans (talks_afterPoll P _ _ _ _)

theorem talks_acceptFrom (mode : ServiceMode) (outcomes : List AcceptOutcome)
    (w : World τ) : Talks T w (World.acceptFrom mode outcomes w) := by
  induction outcomes generalizing w with
  | nil => exact .of_silent (List.append_nil _).symm rfl rfl
  | cons o rest ih =>
    cases o with
    | session =>
      have h : Talks T w (w.acceptSession mode) := .of_silent rfl rfl rfl
      exact h.trans (ih _)
    | nobody => exact .of_silent (List.append_nil _).symm rfl rfl
    | failed => exact .of_silent (List.append_nil _).symm rfl rfl

theorem talks_serverClose (w : World τ) : Talks T w (w.serverClose T) := by
  have h : ∀ (cs : List ConnId) (w : World τ), Talks T w
      (cs.foldl (fun w c => w.clientRemove c .serverClosing) w) := by
    intro cs
    induction cs with
    | nil => exact fun _ => .refl
    | cons c cs ih => exact fun w => (talks_clientRemove _).trans (ih _)
  exact (h _ w).trans (talks_setServer Carried.nothing.close)

/-- **Every run of the server talks to Chain by exchanges only**, and they are
those on its trace. -/
theorem talks_run {P : Platform} (w : World τ) (as : List ServerAction) :
    Talks T w ((stratum P T).run w as) := by
  induction as generalizing w with
  | nil => exact .refl
  | cons a as ih =>
    suffices h : Talks T w ((stratum P T).act w a) from h.trans (ih _)
    cases a with
    | accept mode => exact talks_acceptFrom mode _ w
    | service c => exact talks_serviceLoop P _ w
    | refresh => exact talks_refreshWork P w
    | sendPending => exact talks_sendPendingJobs P w
    | tick => exact talks_setServer .nothing
    | stop => exact talks_setServer .nothing
    | close => exact talks_serverClose w

end Talks

/-! ## The Linux transport's log -/

namespace RpcLinux

/-- The exchanges the log tells of, in order. -/
def exchanges (t : RpcLinux) : List (Bytes × Option Bytes) :=
  t.log.reverse.map fun e => (e.request, e.reply)

/-- **A log as it should be**: in order, and every entry proper. -/
structure Sound (t : RpcLinux) : Prop where
  /-- The connections are used in order. -/
  inOrder : t.InOrder
  /-- Each exchange is made as it should be. -/
  proper : ∀ e ∈ t.log, e.IsProper

/-- **What the transport carries is what it logs**, and the log stays as it
should be. -/
theorem Sound.carried {t u : RpcLinux} {xs : List (Bytes × Option Bytes)}
    (h : t.Sound) (hc : Carried transport t xs u) :
    u.Sound ∧ u.exchanges = t.exchanges ++ xs := by
  induction hc with
  | nothing => exact ⟨h, (List.append_nil _).symm⟩
  | init _ host port ih =>
    exact ⟨⟨ih.1.inOrder.init host port, ih.1.proper⟩, ih.2⟩
  | close _ ih => exact ⟨⟨ih.1.inOrder.dropSocket, ih.1.proper⟩, ih.2⟩
  | @exchange xs u _ m request response ih =>
    obtain ⟨e, hlog, rfl, _, hp, hr⟩ := exchange_logged u request response
    refine ⟨⟨ih.1.inOrder.exchange e.request response, ?_⟩, ?_⟩
    · show ∀ e' ∈ (u.exchange e.request response).1.log, e'.IsProper
      rw [hlog]
      intro e' he'
      rcases List.mem_cons.mp he' with rfl | he'
      · exact hp
      · exact ih.1.proper e' he'
    · show (u.exchange e.request response).1.exchanges = _
      rw [exchanges, hlog, List.reverse_cons, List.map_append,
        List.map_singleton, hr, ← List.append_assoc, ← ih.2]
      rfl

end RpcLinux

/-! ## Mutations -/

/-- What ends a session is no exchange. -/
theorem Ending.ne_exchange {c : ConnId} {es : List Event} (h : Ending c es)
    {request : Bytes} {reply : Option Bytes} :
    .exchange request reply ∉ es := by
  rcases h with rfl | ⟨reason, n, rfl⟩
  · exact List.not_mem_nil
  · intro hm
    cases List.mem_singleton.mp hm

/-- **A frame is followed by an exchange only at once**, and only a SUBMIT. -/
theorem Reaction.exchanged {c : ConnId} {frame request : Bytes}
    {reply : Option Bytes} {b a : List Event}
    (h : Reaction c frame (b ++ .exchange request reply :: a)) :
    b = [] ∧ frame.getD 5 0 = Miner.submit := by
  generalize hes : b ++ .exchange request reply :: a = es at h
  have hmem : .exchange request reply ∈ es := by
    rw [← hes]
    exact List.mem_append_right _ List.mem_cons_self
  cases h with
  | ended reason n =>
    exact absurd hmem (Ending.ne_exchange (.inr ⟨reason, n, rfl⟩))
  | silent => exact absurd hmem List.not_mem_nil
  | job _ hj hf =>
    exact absurd ((List.mem_cons.mp hmem).resolve_left nofun) hf.ne_exchange
  | refused _ hc hf =>
    exact absurd ((List.mem_cons.mp hmem).resolve_left nofun) hf.ne_exchange
  | asked hsub hb hf =>
    cases b with
    | nil => exact ⟨rfl, hsub⟩
    | cons x b =>
      obtain ⟨_, htail⟩ := List.cons.inj hes
      have hm : .exchange request reply ∈ b ++ .exchange request reply :: a :=
        List.mem_append_right _ List.mem_cons_self
      rw [show b ++ .exchange request reply :: a = _ from htail] at hm
      exact absurd ((List.mem_cons.mp hm).resolve_left nofun) hf.ne_exchange

/-- The only exchange on the server's own initiative asks for a template. -/
theorem Initiative.exchanged {es : List Event} (h : Initiative es)
    {request : Bytes} {reply : Option Bytes}
    (hm : .exchange request reply ∈ es) :
    Rpc.methodOf request = Rpc.miningTemplate := by
  cases h with
  | polled =>
    obtain ⟨rfl, _⟩ := Event.exchange.inj (List.mem_singleton.mp hm)
    exact Rpc.methodOf_requestFrame _ _ _ (by decide)
  | job c hj hf =>
    exact absurd ((List.mem_cons.mp hm).resolve_left nofun) hf.ne_exchange
  | ended => cases List.mem_singleton.mp hm

/-- **Any other request stands right behind the SUBMIT** it was made for. -/
theorem Told.exchanged {before after : List Event} {request : Bytes}
    {reply : Option Bytes}
    (h : Told (before ++ .exchange request reply :: after))
    (hm : Rpc.methodOf request ≠ Rpc.miningTemplate) :
    ∃ earlier c frame, before = earlier ++ [.frame c frame]
      ∧ frame.getD 5 0 = Miner.submit := by
  obtain ⟨earlier, b, a, rfl, hep⟩ := h.episode
  generalize hes : b ++ .exchange request reply :: a = es at hep
  have hmem : .exchange request reply ∈ es := by
    rw [← hes]
    exact List.mem_append_right _ List.mem_cons_self
  cases hep with
  | accepted => cases List.mem_singleton.mp hmem
  | initiative hi => exact absurd (hi.exchanged hmem) hm
  | @handed c frame es hr =>
    cases b with
    | nil => cases (List.cons.inj hes).1
    | cons x b =>
      obtain ⟨rfl, htail⟩ := List.cons.inj hes
      rw [← htail] at hr
      obtain ⟨rfl, hsub⟩ := hr.exchanged
      exact ⟨earlier, c, frame, rfl, hsub⟩

/-- **A mutation is never sent again.** In every run of the Linux server, on
every network: `process_submission` makes one request to Chain at most, and on
the trace a request other than for a template stands right behind the SUBMIT
it was made for. The requests on the trace are those on the transport's log,
in order. Each was made by attempts of which each writes a prefix of the
request on one connection, by one attempt at most unless it only asks and by
two at most in any case, and what came back was read on the connection of the
last, a header and as many bytes as it announces, within the capacity. A
failed attempt leaves no connection open, and no later attempt is made on the
connection of a failed one. -/
theorem mutation_never_resent {w₀ : World RpcLinux}
    (h : Startup RpcLinux.transport w₀)
    (hlog : w₀.server.chainTransport.log = []) (as : List ServerAction) :
    (∀ (w : World RpcLinux) (c : ConnId),
        ∃ es, (w.processSubmission .linux RpcLinux.transport c).trace
            = w.trace ++ es
          ∧ (exchangesOf es).length ≤ 1)
      ∧ (∀ (before after : List Event) (request : Bytes)
          (reply : Option Bytes),
        ((stratum .linux RpcLinux.transport).run w₀ as).trace
          = before ++ .exchange request reply :: after →
        Rpc.methodOf request ≠ Rpc.miningTemplate →
        ∃ earlier c frame, before = earlier ++ [.frame c frame]
          ∧ frame.getD 5 0 = Miner.submit)
      ∧ exchangesOf ((stratum .linux RpcLinux.transport).run w₀ as).trace
        = ((stratum .linux RpcLinux.transport).run w₀
            as).server.chainTransport.exchanges
      ∧ ((stratum .linux RpcLinux.transport).run w₀
          as).server.chainTransport.Sound
      ∧ ∀ (t : RpcLinux) (request : Bytes) (m : ℕ) (response : Buf m),
        24 ≤ m → (t.exchangeOnce request response).attempt.ok = false →
        (t.exchangeOnce request response).transport.socket = none := by
  obtain ⟨entry, chain, t, hserver⟩ := h.server
  have ht : w₀.server.chainTransport.Sound := by
    refine ⟨RpcLinux.inOrder_of_log hlog ?_, ?_⟩
    · rw [hserver]
      rfl
    · rw [hlog]
      exact fun e he => absurd he List.not_mem_nil
  obtain ⟨es, htrace, hc⟩ := talks_run (P := .linux) w₀ as
  rw [h.trace, List.nil_append] at htrace
  obtain ⟨hsound, hx⟩ := ht.carried hc
  refine ⟨fun w c => ?_, fun before after request reply he hm => ?_, ?_,
    hsound, fun t request m response hle hok => ?_⟩
  · cases hs : w.client? c with
    | none =>
      refine ⟨[], ?_, Nat.zero_le _⟩
      rw [World.processSubmission, hs, List.append_nil]
    | some client =>
      obtain ⟨es, ht, hone, _⟩ :=
        requests_of_submission .linux RpcLinux.transport hs
      exact ⟨es, ht, hone⟩
  · have htold := told_of_run (P := .linux) (T := RpcLinux.transport)
      (w := (stratum .linux RpcLinux.transport).run w₀ as) ⟨w₀, as, h, rfl⟩
    rw [he] at htold
    exact htold.exchanged hm
  · rw [hx, htrace]
    unfold RpcLinux.exchanges
    rw [hlog]
    rfl
  · exact Option.map_eq_none_iff.mp
      ((RpcLinux.exchangeOnce_isAttempt t request response hle).failed hok).1

/-- **A server on a network that loses things**: the first attempt to connect
is refused, the second is accepted and the template answered on it, and then
Chain closes the connection. -/
def lossy : World RpcLinux :=
  boot RpcLinux.transport
    { host := none
      port := 0
      socket := none
      tries := [⟨some [.refused], true⟩,
        ⟨some [.noSocket, .connected [] (unread (Rpc.answerFrame
          Rpc.miningTemplate 1 (Rpc.mineableTemplate easyTarget 0))
          [.closed])], true⟩]
      opened := 0
      log := [] }
    (fun c => if c = 0 then
      unread addressFrame (.wouldBlock :: unread submitFrame []) else [])
    fun _ => [.session]

set_option maxRecDepth 100000 in
/-- The template is asked for twice there, the block is sent once, and every
entry of the log is proper. -/
theorem mutation_never_resent_lossy :
    ((stratum .linux RpcLinux.transport).run lossy
          performance).server.chainTransport.log.map
        (fun e => (Rpc.methodOf e.request, e.attempts.map Attempt.ok))
        = [(Rpc.submitWork, [false]), (Rpc.miningTemplate, [false, true])]
      ∧ ((stratum .linux RpcLinux.transport).run lossy
        performance).server.chainTransport.Sound := by
  have hw : Startup RpcLinux.transport lossy := startup_boot ..
  have hlog : lossy.server.chainTransport.log = [] := rfl
  exact ⟨by decide +kernel,
    (mutation_never_resent hw hlog performance).2.2.2.1⟩
