import StnStratum.Rotation
import StnStratum.TelemetryService
import StnStratum.Turns
import StnStratum.Descriptors

/-!
# What the program opens and closes

Six kinds of variables of the program hold descriptors: the log, the
configuration while it is read, the listeners, the transport to Chain, and the
sessions and telemetry clients there are. Here is what becomes of the last
three of them, call by call, in every function that accepts, connects, drops
or removes.

For the transport that is done along `connect_socket` and `exchange_once`
(`RpcLinux.exchangeCalls`), and the transport is made to note its calls
(`wired`), so that what the server does to it is known from outside. For the
sessions and the clients it can be read off what has been accepted and what
has been removed. Every action of the server leads from the descriptors it has
before to those it has afterwards (`Handled`), and so does every tick of the
telemetry worker (`leads_tickCalls`).
-/

open Descriptors (Leads)

/-- **The variables that hold a descriptor.** -/
inductive Holder where
  /-- `log_file`. -/
  | logFile
  /-- `file` in `read_file`. -/
  | configFile
  /-- `socket` of `pool_listener` or `solo_listener`. -/
  | listener (mode : ServiceMode)
  /-- `listen_socket` of the telemetry service. -/
  | telemetryListener
  /-- `socket_fd` of `chain_transport`. -/
  | chain
  /-- `socket` of a session. -/
  | session (c : ConnId)
  /-- `socket` of a telemetry client. -/
  | telemetryClient (n : ℕ)
  deriving DecidableEq

/-- **The parts of the program** that see to them. -/
inductive ProgramPart where
  /-- `stn_stratum_server_run` and `stn_stratum_server_close`. -/
  | main
  /-- The transport to Chain. -/
  | chain
  /-- The sessions. -/
  | sessions
  /-- The telemetry worker. -/
  | telemetry
  deriving DecidableEq

/-- Who sees to which of them. -/
def Holder.part : Holder → ProgramPart
  | .logFile => .main
  | .configFile => .main
  | .listener _ => .main
  | .telemetryListener => .main
  | .chain => .chain
  | .session _ => .sessions
  | .telemetryClient _ => .telemetry

/-! ## The transport -/

namespace RpcLinux

/-- The calls of the loop of `connect_socket`. -/
def addressCalls : List AddressTry → List (DescriptorCall Holder)
  | [] => []
  | .noSocket :: rest => addressCalls rest
  | .refused :: rest => .opens .chain :: .closes .chain :: addressCalls rest
  | .connected _ _ :: _ => [.opens .chain]

/-- **The calls of `connect_socket`**: a connection whose timeouts cannot be
set is closed again. -/
def connectCalls (t : RpcLinux) : List (DescriptorCall Holder) :=
  match t.socket, t.tries with
  | some _, _ => []
  | none, [] => []
  | none, next :: _ =>
    match next.addresses with
    | none => []
    | some addresses =>
      addressCalls addresses ++
        if (firstConnected addresses).isSome = true ∧ next.timeouts = false then
          [.closes .chain]
        else []

/-- **The calls of `exchange_once`**, which drops the connection it has when it
fails. -/
def exchangeOnceCalls {m : ℕ} (t : RpcLinux) (request : Bytes)
    (response : Buf m) : List (DescriptorCall Holder) :=
  t.connectCalls ++
    if t.connectSocket.socket.isSome = true
        ∧ (t.exchangeOnce request response).transport.socket = none then
      [.closes .chain]
    else []

/-- **The calls of `stn_rpc_linux_exchange`.** -/
def exchangeCalls {m : ℕ} (t : RpcLinux) (request : Bytes) (response : Buf m) :
    List (DescriptorCall Holder) :=
  if t.host = none ∨ m < 24 then []
  else
    let first := t.exchangeOnce request response
    t.exchangeOnceCalls request response ++
      if first.reply.ok = true ∨ mayRetry request = false then []
      else first.transport.exchangeOnceCalls request first.reply.response

/-- What the transport holds. -/
def Dialled (t : RpcLinux) (o : Holder) : Prop :=
  o = .chain ∧ t.socket.isSome = true

theorem leads_addressCalls (addresses : List AddressTry) :
    Leads (fun _ => False) (addressCalls addresses)
      fun o => o = .chain ∧ (firstConnected addresses).isSome = true := by
  induction addresses with
  | nil => exact fun o => ⟨False.elim, fun h => absurd h.2 Bool.false_ne_true⟩
  | cons a rest ih =>
    cases a with
    | noSocket => exact ih
    | refused =>
      refine ⟨not_false, ih.congr (fun o => ?_) fun _ => Iff.rfl⟩
      exact ⟨fun h => h.2.elim h.1 id, False.elim⟩
    | connected sends recvs =>
      exact .opens not_false fun o =>
        ⟨fun h => .inl h.1, fun h => ⟨h.elim id False.elim, rfl⟩⟩

/-- A transport without a connection holds nothing. -/
theorem not_dialled {t : RpcLinux} (h : t.socket = none) (o : Holder) :
    ¬ t.Dialled o := fun ho => by
  have hsome := ho.2
  rw [h] at hsome
  exact Bool.false_ne_true hsome

/-- **`connect_socket` keeps account** of the connection. -/
theorem leads_connectCalls (t : RpcLinux) :
    Leads t.Dialled t.connectCalls t.connectSocket.Dialled := by
  obtain ⟨host, port, socket, tries, opened, log⟩ := t
  cases socket with
  | some s => exact .refl _
  | none =>
    cases tries with
    | nil => exact .refl _
    | cons next rest =>
      obtain ⟨addresses, timeouts⟩ := next
      cases addresses with
      | none => exact .refl _
      | some addresses =>
        have hleads := leads_addressCalls addresses
        have hnone : ∀ o, Dialled ⟨host, port, none,
            ⟨some addresses, timeouts⟩ :: rest, opened, log⟩ o ↔ False :=
          fun o => iff_false_intro (not_dialled rfl o)
        unfold connectCalls connectSocket
        dsimp only [Option.bind_some]
        cases hfirst : firstConnected addresses with
        | none =>
          rw [hfirst] at hleads
          rw [if_neg fun h => absurd h.1 Bool.false_ne_true, List.append_nil]
          exact hleads.congr hnone fun _ => Iff.rfl
        | some c =>
          rw [hfirst] at hleads
          cases timeouts with
          | true =>
            rw [if_neg fun h => absurd h.2.symm Bool.false_ne_true,
              List.append_nil]
            exact hleads.congr hnone fun _ => Iff.rfl
          | false =>
            rw [if_pos ⟨rfl, rfl⟩]
            refine (hleads.trans (.closes fun o => ?_)).congr hnone
              fun o => iff_false_intro (not_dialled rfl o)
            exact ⟨False.elim, fun h => h.1 h.2.1⟩

/-- An attempt without a connection leaves none. -/
theorem exchangeOnce_of_none {m : ℕ} {t : RpcLinux} (request : Bytes)
    (response : Buf m) (h : t.connectSocket.socket = none) :
    (t.exchangeOnce request response).transport = t.connectSocket := by
  unfold exchangeOnce
  dsimp only
  rw [h]

/-- **So does `exchange_once`.** -/
theorem leads_exchangeOnceCalls {m : ℕ} (t : RpcLinux) (request : Bytes)
    (response : Buf m) :
    Leads t.Dialled (t.exchangeOnceCalls request response)
      (t.exchangeOnce request response).transport.Dialled := by
  unfold exchangeOnceCalls
  refine (leads_connectCalls t).trans ?_
  cases hconnect : t.connectSocket.socket with
  | none =>
    rw [if_neg fun h => absurd h.1 Bool.false_ne_true,
      exchangeOnce_of_none request response hconnect]
    exact .refl _
  | some s =>
    cases hafter : (t.exchangeOnce request response).transport.socket with
    | none =>
      rw [if_pos ⟨rfl, rfl⟩]
      refine .closes fun o => ?_
      refine (iff_false_intro (not_dialled hafter o)).trans ?_
      exact ⟨False.elim, fun h => h.1 h.2.1⟩
    | some s' =>
      rw [if_neg fun h => nomatch h.2]
      refine (Leads.refl _).congr (fun _ => Iff.rfl) fun o => ?_
      unfold Dialled
      rw [hconnect, hafter]
      rfl

/-- **And `stn_rpc_linux_exchange`.** -/
theorem leads_exchangeCalls {m : ℕ} (t : RpcLinux) (request : Bytes)
    (response : Buf m) :
    Leads t.Dialled (t.exchangeCalls request response)
      (t.exchange request response).1.Dialled := by
  unfold exchangeCalls exchange
  split
  · exact .refl _
  · dsimp only
    have hfirst := leads_exchangeOnceCalls t request response
    by_cases hok : (t.exchangeOnce request response).reply.ok = true
    · rw [if_pos (.inl hok), if_pos hok, List.append_nil]
      exact hfirst
    · rw [if_neg hok]
      by_cases hretry : mayRetry request = false
      · rw [if_pos (.inr hretry), if_pos hretry, List.append_nil]
        exact hfirst
      · rw [if_neg (not_or.mpr ⟨hok, hretry⟩), if_neg hretry]
        exact hfirst.trans (leads_exchangeOnceCalls _ request _)

/-- They are about the connection to Chain. -/
theorem owner_addressCalls (addresses : List AddressTry) :
    ∀ c ∈ addressCalls addresses, c.owner = .chain := by
  induction addresses with
  | nil => exact nofun
  | cons a rest ih =>
    cases a with
    | noSocket => exact ih
    | refused =>
      intro c hc
      rcases List.mem_cons.mp hc with rfl | hc
      · rfl
      rcases List.mem_cons.mp hc with rfl | hc
      · rfl
      · exact ih c hc
    | connected sends recvs =>
      exact fun c hc => List.mem_singleton.mp hc ▸ rfl

/-- A call that may follow others is, too. -/
theorem owner_append_ite {cs : List (DescriptorCall Holder)} {p : Prop}
    [Decidable p] (h : ∀ c ∈ cs, c.owner = .chain) :
    ∀ c ∈ cs ++ (if p then [.closes .chain] else []), c.owner = .chain := by
  intro c hc
  rcases List.mem_append.mp hc with hc | hc
  · exact h c hc
  · split at hc
    · rw [List.mem_singleton.mp hc]
      rfl
    · exact absurd hc List.not_mem_nil

theorem owner_exchangeOnceCalls {m : ℕ} (t : RpcLinux) (request : Bytes)
    (response : Buf m) :
    ∀ c ∈ t.exchangeOnceCalls request response, c.owner = .chain := by
  refine owner_append_ite ?_
  unfold connectCalls
  split
  next => exact fun c hc => absurd hc List.not_mem_nil
  next => exact fun c hc => absurd hc List.not_mem_nil
  next =>
    split
    · exact fun c hc => absurd hc List.not_mem_nil
    · exact owner_append_ite (owner_addressCalls _)

theorem owner_exchangeCalls {m : ℕ} (t : RpcLinux) (request : Bytes)
    (response : Buf m) :
    ∀ c ∈ t.exchangeCalls request response, c.owner = .chain := by
  unfold exchangeCalls
  split
  · exact fun c hc => absurd hc List.not_mem_nil
  · intro c hc
    rcases List.mem_append.mp hc with hc | hc
    · exact owner_exchangeOnceCalls t request response c hc
    · split at hc
      · exact absurd hc List.not_mem_nil
      · exact owner_exchangeOnceCalls _ request _ c hc

end RpcLinux

/-! ## What becomes of a transport -/

/-- **A rule for what becomes of a transport**: a relation that everything that
is done to it keeps to. It is only initialised behind being closed, as in
`chain_transport_select`. -/
structure TransportRule {τ : Type} (T : ChainTransport τ) where
  /-- The relation. -/
  rel : τ → τ → Prop
  /-- Nothing is done. -/
  refl : ∀ t, rel t t
  /-- One thing is done behind another. -/
  trans : ∀ {t u v}, rel t u → rel u v → rel t v
  /-- An exchange. -/
  exchange : ∀ {m : ℕ} (t : τ) (request : Bytes) (response : Buf m),
    rel t (T.exchange t request response).1
  /-- Closing. -/
  close : ∀ t, rel t (T.close t)
  /-- Closing, and initialising behind it. -/
  rebind : ∀ t host port, rel t (T.init (T.close t) host port)

namespace TransportRule

variable {τ : Type} {T : ChainTransport τ} (R : TransportRule T)

/-- What a call does with it. -/
theorem of_uses {t : τ} {capacity : ℕ} {r : Rpc.Call τ capacity}
    (h : r.Uses T t) : R.rel t r.transport := by
  obtain ⟨ht, _⟩ | ⟨request, m, response, ht, _⟩ := h
  · rw [ht]
    exact R.refl t
  · rw [ht]
    exact R.exchange t request response

/-- **`chain_transport_select`.** -/
theorem select (s : StratumServer τ) (index : ℕ) :
    R.rel s.chainTransport (s.chainTransportSelect T index).chainTransport := by
  unfold StratumServer.chainTransportSelect
  split
  · exact R.refl _
  · exact R.rebind _ _ _

/-- The next Chain. -/
theorem next (s : StratumServer τ) :
    R.rel s.chainTransport (s.chainTransportNext T).chainTransport := by
  unfold StratumServer.chainTransportNext
  split
  · exact R.refl _
  · exact R.select _ _

/-- What becomes of it behind a block that has been submitted. -/
theorem afterWork (P : Platform) (code : RpcCode) (s : StratumServer τ) :
    R.rel s.chainTransport (World.afterWork P T code s).chainTransport := by
  obtain ⟨_, _, hs⟩ := World.settleWork_endpoint P code s
  unfold World.afterWork
  dsimp only
  rw [← hs]
  split
  · exact R.next _
  · exact R.refl _

end TransportRule

/-- **The Linux transport with a note of its calls.** -/
structure WiredRpc where
  /-- The transport. -/
  rpc : RpcLinux
  /-- The calls it has made. -/
  calls : List (DescriptorCall Holder)

/-- **The transport that notes its calls.** `drop_socket` closes what is there,
and `stn_rpc_linux_init` closes nothing. -/
def wired : ChainTransport WiredRpc where
  init t host port := { t with rpc := t.rpc.init host port }
  close t := ⟨t.rpc.dropSocket, t.calls ++ [.closes .chain]⟩
  exchange t request response :=
    let r := t.rpc.exchange request response
    (⟨r.1, t.calls ++ t.rpc.exchangeCalls request response⟩, r.2)

/-- **What becomes of the transport**: its calls are about its connection, and
keep account of it. -/
def Dials (t u : WiredRpc) : Prop :=
  ∃ cs, u.calls = t.calls ++ cs ∧ (∀ c ∈ cs, c.owner = .chain)
    ∧ Leads t.rpc.Dialled cs u.rpc.Dialled

namespace Dials

variable {t u v : WiredRpc}

theorem refl (t : WiredRpc) : Dials t t :=
  ⟨[], (List.append_nil _).symm, fun _ hc => absurd hc List.not_mem_nil,
    .refl _⟩

theorem trans (h : Dials t u) (h' : Dials u v) : Dials t v := by
  obtain ⟨cs, hcs, hown, hleads⟩ := h
  obtain ⟨ds, hds, hown', hleads'⟩ := h'
  refine ⟨cs ++ ds, by rw [hds, hcs, List.append_assoc], fun c hc => ?_,
    hleads.trans hleads'⟩
  exact (List.mem_append.mp hc).elim (hown c) (hown' c)

/-- An exchange. -/
theorem exchange {m : ℕ} (t : WiredRpc) (request : Bytes) (response : Buf m) :
    Dials t (wired.exchange t request response).1 :=
  ⟨_, rfl, t.rpc.owner_exchangeCalls request response,
    t.rpc.leads_exchangeCalls request response⟩

/-- Closing. -/
theorem close (t : WiredRpc) : Dials t (wired.close t) := by
  refine ⟨[.closes .chain], rfl, fun c hc => ?_, .closes fun o => ?_⟩
  · rw [List.mem_singleton.mp hc]
    rfl
  · exact (iff_false_intro (RpcLinux.not_dialled rfl o)).trans
      ⟨False.elim, fun h => h.1 h.2.1⟩

/-- **`stn_rpc_linux_init` behind `stn_rpc_linux_close`.** Alone it would lose
the connection there is. -/
theorem rebind (t : WiredRpc) (host : Bytes) (port : UInt16) :
    Dials t (wired.init (wired.close t) host port) := by
  refine ⟨[.closes .chain], rfl, fun c hc => ?_, .closes fun o => ?_⟩
  · rw [List.mem_singleton.mp hc]
    rfl
  · exact (iff_false_intro (RpcLinux.not_dialled rfl o)).trans
      ⟨False.elim, fun h => h.1 h.2.1⟩

end Dials

/-- **They are a rule for the transport.** -/
def dialling : TransportRule wired :=
  ⟨Dials, Dials.refl, Dials.trans, Dials.exchange, Dials.close, Dials.rebind⟩

/-! ## The sessions -/

/-- The call behind an event: `accept` where a session begins, and `close` in
`stn_session_acceptor_release` where one ends. -/
def sessionCall? : Event → Option (DescriptorCall Holder)
  | .accepted c => some (.opens (.session c))
  | .removed c _ _ => some (.closes (.session c))
  | _ => none

/-- **The calls on the sessions** behind some events. -/
def sessionCalls (es : List Event) : List (DescriptorCall Holder) :=
  es.filterMap sessionCall?

/-- What the sessions hold. -/
def World.Seated {τ : Type} (w : World τ) (o : Holder) : Prop :=
  ∃ c ∈ w.sockets, o = .session c

/-- They are about sessions. -/
theorem part_sessionCalls (es : List Event) :
    ∀ c ∈ sessionCalls es, c.owner.part = .sessions := by
  intro c hc
  obtain ⟨e, _, he⟩ := List.mem_filterMap.mp hc
  cases e <;> simp only [sessionCall?, reduceCtorEq, Option.some.injEq] at he
  all_goals rw [← he]; rfl

/-- Another Chain, and what comes behind a block that has been submitted, do
not end the loop. -/
theorem StratumServer.running_chainTransportSelect {τ : Type}
    (T : ChainTransport τ) (s : StratumServer τ) (index : ℕ) :
    (s.chainTransportSelect T index).running = s.running := by
  unfold chainTransportSelect
  split <;> rfl

theorem StratumServer.running_chainTransportNext {τ : Type}
    (T : ChainTransport τ) (s : StratumServer τ) :
    (s.chainTransportNext T).running = s.running := by
  unfold chainTransportNext
  split
  · rfl
  · exact running_chainTransportSelect T _ _

theorem StratumServer.running_afterWork {τ : Type} (P : Platform)
    (T : ChainTransport τ) (code : RpcCode) (s : StratumServer τ) :
    (World.afterWork P T code s).running = s.running := by
  have hsettle : (World.settleWork P code s).running = s.running := by
    unfold World.settleWork
    cases P <;> dsimp only <;> split <;> rfl
  unfold World.afterWork
  dsimp only
  split
  · exact (running_chainTransportNext T _).trans hsettle
  · exact hsettle

/-- **What a function of the server does with descriptors**: it keeps account
of the sessions, and of the connection to Chain by the rule. It does not end
the loop either. -/
structure Handled {τ : Type} {T : ChainTransport τ} (R : TransportRule T)
    (w w' : World τ) : Prop where
  /-- The sessions. -/
  sessions : ∃ es, w'.trace = w.trace ++ es
    ∧ Leads w.Seated (sessionCalls es) w'.Seated
  /-- The connection to Chain. -/
  dials : R.rel w.server.chainTransport w'.server.chainTransport
  /-- `running`. -/
  running : w'.server.running = w.server.running

namespace Handled

variable {τ : Type} {T : ChainTransport τ} {R : TransportRule T}
  {w w' w'' : World τ} {c : ConnId} {P : Platform}

theorem refl (w : World τ) : Handled R w w :=
  ⟨⟨[], (List.append_nil _).symm, .refl _⟩, R.refl _, rfl⟩

theorem trans (h : Handled R w w') (h' : Handled R w' w'') : Handled R w w'' := by
  obtain ⟨⟨es, hes, hleads⟩, hd, hr⟩ := h
  obtain ⟨⟨fs, hfs, hleads'⟩, hd', hr'⟩ := h'
  refine ⟨⟨es ++ fs, by rw [hfs, hes, List.append_assoc], ?_⟩, R.trans hd hd',
    hr'.trans hr⟩
  unfold sessionCalls
  rw [List.filterMap_append]
  exact hleads.trans hleads'

/-- A function that accepts nobody and removes nobody. -/
theorem of_seated {es : List Event} (htrace : w'.trace = w.trace ++ es)
    (hes : sessionCalls es = []) (hsockets : w'.sockets = w.sockets)
    (hd : R.rel w.server.chainTransport w'.server.chainTransport)
    (hr : w'.server.running = w.server.running) : Handled R w w' := by
  refine ⟨⟨es, htrace, ?_⟩, hd, hr⟩
  rw [hes]
  unfold World.Seated
  rw [hsockets]
  exact .refl _

/-- One that leaves the transport alone as well. -/
theorem of_quiet {es : List Event} (htrace : w'.trace = w.trace ++ es)
    (hes : sessionCalls es = []) (hsockets : w'.sockets = w.sockets)
    (ht : w'.server.chainTransport = w.server.chainTransport)
    (hr : w'.server.running = w.server.running) : Handled R w w' :=
  of_seated htrace hes hsockets (ht ▸ R.refl _) hr

/-- A change of the server. -/
theorem setServer {f : StratumServer τ → StratumServer τ}
    (hf : StratumServer.SameSessions w.server (f w.server))
    (hd : R.rel w.server.chainTransport (f w.server).chainTransport)
    (hr : (f w.server).running = w.server.running) :
    Handled R w (w.setServer f) := by
  refine of_seated (List.append_nil _).symm rfl ?_ hd hr
  have hsockets := congrArg (List.map ClientSession.socket) hf
  rw [List.map_map, List.map_map] at hsockets
  exact hsockets

/-- **`client_remove`.** -/
theorem clientRemove (reason : Removal) :
    Handled R w (w.clientRemove c reason) := by
  cases hs : w.client? c with
  | none =>
    rw [World.clientRemove_of_none w c reason hs]
    exact .refl w
  | some s =>
    have hsockets := World.sockets_clientRemove w c reason
    rw [World.clientRemove_of_some w c reason hs] at hsockets ⊢
    refine ⟨⟨_, rfl, .closes fun o => ?_⟩, R.refl _, rfl⟩
    unfold World.Seated
    rw [hsockets]
    constructor
    · rintro ⟨d, hd, rfl⟩
      obtain ⟨hd, hne⟩ := List.mem_filter.mp hd
      exact ⟨fun h => bne_iff_ne.mp hne (Holder.session.inj h), d, hd, rfl⟩
    · rintro ⟨hne, d, hd, rfl⟩
      exact ⟨d, List.mem_filter.mpr ⟨hd, bne_iff_ne.mpr fun h => hne
        (congrArg Holder.session h)⟩, rfl⟩

/-- A store into a session. -/
theorem setClient {f : ClientSession → ClientSession}
    (hf : ∀ s, (f s).socket = s.socket) : Handled R w (w.setClient c f) :=
  of_quiet (List.append_nil _).symm rfl (World.sockets_setClient hf) rfl rfl

/-- Something written to a session. -/
theorem emit_send (e : Event) (he : sessionCall? e = none) (p : Bytes) :
    Handled R w ((w.emit e).send P c p) :=
  of_quiet rfl (by rw [sessionCalls, List.filterMap_cons, he]; rfl) rfl rfl rfl

/-- A call to Chain. -/
theorem called {capacity : ℕ} {r : Rpc.Call τ capacity}
    (h : r.Uses T w.server.chainTransport) : Handled R w (w.called r) := by
  refine of_seated rfl ?_ rfl (R.of_uses h) rfl
  cases r.exchanged <;> rfl

/-- An allocation. -/
theorem withHeap (heap : Heap) : Handled R w { w with heap := heap } :=
  of_quiet (List.append_nil _).symm rfl rfl rfl rfl

/-- **`client_send_result`.** -/
theorem clientSendResult (code : RpcCode) :
    Handled R w (w.clientSendResult P c code) := by
  unfold World.clientSendResult
  dsimp only
  split
  · exact (emit_send _ rfl _).trans (clientRemove _)
  · exact emit_send _ rfl _

/-- **`client_send_job`.** -/
theorem clientSendJob : Handled R w (w.clientSendJob P c) := by
  unfold World.clientSendJob
  split
  · exact .refl w
  split
  · exact .refl w
  dsimp only
  split
  · exact (emit_send _ rfl _).trans (clientRemove _)
  have hsend : ∀ (w : World τ) (p : Bytes), Handled R w (w.send P c p) :=
    fun _ _ => of_quiet (List.append_nil _).symm rfl rfl rfl rfl
  split
  · exact ((emit_send _ rfl _).trans (hsend _ _)).trans (clientRemove _)
  · exact ((emit_send _ rfl _).trans (hsend _ _)).trans
      (setClient fun _ => rfl)

/-- **`process_submission`.** -/
theorem processSubmission : Handled R w (w.processSubmission P T c) := by
  unfold World.processSubmission
  split
  · exact .refl w
  split
  · exact clientRemove _
  · exact clientSendResult _
  · unfold World.submitShare
    dsimp only
    split
    · exact ((called uses_callSubmitShare).trans (clientSendResult _)).trans
        (setServer (StratumServer.clearWork_same _) (R.refl _) rfl)
    · exact (called uses_callSubmitShare).trans (clientSendResult _)
  · unfold World.submitWork
    dsimp only
    split
    · exact (withHeap _).trans (clientSendResult _)
    · exact ((called uses_callSubmitWork).trans (clientSendResult _)).trans
        (setServer (StratumServer.afterWork_same P T _ _)
          (R.afterWork P _ _) (StratumServer.running_afterWork P T _ _))

/-- **`process_address`.** -/
theorem processAddress : Handled R w (w.processAddress P c) := by
  unfold World.processAddress
  split
  · exact .refl w
  split
  · exact clientRemove _
  split
  · exact clientRemove _
  have h : Handled R w (w.setClient c World.registered) :=
    setClient fun _ => rfl
  dsimp only
  split
  · exact h.trans clientSendJob
  · exact h

/-- **`process_hash_progress`.** -/
theorem processHashProgress : Handled R w (w.processHashProgress c) := by
  unfold World.processHashProgress
  split
  · exact .refl w
  dsimp only
  split
  · exact clientRemove _
  split_ifs
  · exact .refl w
  · exact setClient fun _ => rfl
  · exact setClient fun _ => rfl
  · exact setClient fun _ => rfl

/-- A frame is handed over. -/
theorem dispatch (client : ClientSession) :
    Handled R w (w.dispatch P T c client) := by
  have h : Handled R w (w.emit (.frame c client.pending)) :=
    of_quiet rfl rfl rfl rfl rfl
  unfold World.dispatch
  dsimp only
  split
  · exact h.trans processAddress
  split
  · exact h.trans processSubmission
  · exact h.trans processHashProgress

theorem receive (r : RecvResult) : Handled R w (w.receive c r) :=
  (setClient (f := fun s => s.store r.got) fun _ => rfl).trans
    (of_quiet (List.append_nil _).symm rfl rfl rfl rfl)

theorem stopped (status : RecvStatus) : Handled R w (w.stopped c status) := by
  unfold World.stopped
  split
  · exact clientRemove _
  · exact clientRemove _
  · exact .refl w

theorem finishTurn : Handled R w (w.finishTurn c).1 := by
  unfold World.finishTurn
  split
  · exact setClient fun _ => rfl
  · exact .refl w

/-- **A turn of `service_client`.** -/
theorem serviceTurn : Handled R w (w.serviceTurn P T c).1 := by
  unfold World.serviceTurn
  cases P with
  | linux =>
    dsimp only
    unfold World.serviceTurnLinux
    split
    · exact .refl w
    next client _ =>
    dsimp only
    have h := receive (R := R) (w := w) (c := c)
      (w.receiving .linux c client 8)
    split
    · exact h.trans (stopped _)
    split
    · exact h.trans (clientRemove _)
    split
    · exact h.trans (clientRemove _)
    split
    · exact (h.trans (receive _)).trans (stopped _)
    · exact (h.trans (receive _)).trans ((dispatch _).trans finishTurn)
  | windows =>
    dsimp only
    unfold World.serviceTurnWindows
    split
    · exact .refl w
    dsimp only
    split
    · exact clientRemove _
    split
    · exact (receive _).trans (stopped _)
    · exact (receive _).trans ((dispatch _).trans finishTurn)

/-- **`service_client`.** -/
theorem serviceClient : Handled R w (w.serviceClient P T c) := by
  unfold World.serviceClient
  generalize w.serviceFuel c = fuel
  induction fuel generalizing w with
  | zero => exact .refl w
  | succ fuel ih =>
    unfold World.serviceLoop
    split
    · exact serviceTurn.trans ih
    · exact serviceTurn

/-- **`send_pending_jobs`.** -/
theorem sendPendingJobs : Handled R w (w.sendPendingJobs P) := by
  unfold World.sendPendingJobs
  generalize w.sockets = cs
  induction cs generalizing w with
  | nil => exact .refl w
  | cons c cs ih =>
    suffices h : Handled R w (w.sendPendingJob P c) from h.trans ih
    unfold World.sendPendingJob
    split
    · exact .refl w
    split
    · exact clientSendJob
    · exact .refl w

/-- What `refresh_work` does behind its call. -/
theorem afterPoll (code : RpcCode) (written : ℕ)
    (h : written ≤ Rpc.maxPayload) :
    Handled R w (w.afterPoll P T code written h) := by
  have hclear : ∀ b, Handled R w (w.setServer fun s =>
      { s.clearWork with chainAvailable := b }) := fun b =>
    setServer (StratumServer.clearWork_same _) (R.refl _) rfl
  have hset : ∀ (w : World τ) {f}, (f w.server).clients
      = w.server.clients → (f w.server).chainTransport
      = w.server.chainTransport → (f w.server).running = w.server.running →
      Handled R w (w.setServer f) :=
    fun _ _ hc ht hr => of_quiet (List.append_nil _).symm rfl
      (congrArg (List.map ClientSession.socket) hc) ht hr
  unfold World.afterPoll
  split
  · dsimp only
    split
    · exact hclear false
    split
    · exact hclear false
    split
    · refine Handled.trans ?_ sendPendingJobs
      exact hset (f := fun s => { s with
        chainAvailable := true
        work := World.installed s.work written h }) w rfl rfl rfl
    · exact hset (f := fun s => { s with
        chainAvailable := true
        work := { s.work with
          templateLength := written
          fits := h } }) w rfl rfl rfl
  · exact hset (f := fun s => { s with chainAvailable := true }) w rfl rfl rfl
  · refine setServer ?_ (R.next
      { w.server.clearWork with chainAvailable := false })
      (StratumServer.running_chainTransportNext T _)
    exact (StratumServer.clearWork_same _).trans
      (StratumServer.chainTransportNext_same T
        { w.server.clearWork with chainAvailable := false })
  · exact hclear true

/-- **`refresh_work`.** -/
theorem refreshWork : Handled R w (w.refreshWork P T) := by
  have hp : Handled R w (w.polled (w.poll T)) :=
    (called (uses_call T _ w.server.chainRpc w.heap Rpc.miningTemplate
      [] (some w.server.work.template))).trans
      (of_quiet (List.append_nil _).symm rfl rfl rfl rfl)
  exact hp.trans (afterPoll _ _ _)

/-- **`accept_from_listener`.** -/
theorem acceptFrom (mode : ServiceMode) (outcomes : List AcceptOutcome)
    (ho : Orderly w) : Handled R w (World.acceptFrom mode outcomes w) := by
  induction outcomes generalizing w with
  | nil => exact of_quiet (List.append_nil _).symm rfl rfl rfl rfl
  | cons o rest ih =>
    cases o with
    | session =>
      have h : Handled R w (w.acceptSession mode) := by
        refine ⟨⟨[.accepted w.nextConn], rfl, .opens ?_ fun o => ?_⟩,
          R.refl _, rfl⟩
        · rintro ⟨d, hd, he⟩
          exact Nat.lt_irrefl _ (Holder.session.inj he ▸ ho.lt d hd)
        · constructor
          · rintro ⟨d, hd, rfl⟩
            rcases List.mem_cons.mp hd with rfl | hd
            · exact .inl rfl
            · exact .inr ⟨d, hd, rfl⟩
          · rintro (rfl | ⟨d, hd, rfl⟩)
            · exact ⟨_, List.mem_cons_self, rfl⟩
            · exact ⟨d, List.mem_cons_of_mem _ hd, rfl⟩
      exact h.trans (ih (ho.acceptSession mode))
    | nobody => exact of_quiet (List.append_nil _).symm rfl rfl rfl rfl
    | failed => exact of_quiet (List.append_nil _).symm rfl rfl rfl rfl

/-- **`chain_transport_select`.** -/
theorem select (s : StratumServer τ → StratumServer τ)
    (hs : StratumServer.SameSessions w.server (s w.server))
    (ht : (s w.server).chainTransport = w.server.chainTransport)
    (hr : (s w.server).running = w.server.running) (index : ℕ) :
    Handled R w (w.setServer fun v =>
      (s v).chainTransportSelect T index) := by
  refine setServer
    (hs.trans (StratumServer.chainTransportSelect_same T _ _)) ?_
    ((StratumServer.running_chainTransportSelect T _ _).trans hr)
  exact ht ▸ R.select (s w.server) index

/-- The end of all sessions. -/
theorem removeAll : Handled R w w.removeAll := by
  unfold World.removeAll
  generalize w.sockets = cs
  induction cs generalizing w with
  | nil => exact .refl w
  | cons c cs ih => exact (clientRemove _).trans ih

/-- **`stn_stratum_server_close`.** -/
theorem serverClose : Handled R w (w.serverClose T) :=
  removeAll.trans (setServer (StratumServer.clearWork_same
    { w.removeAll.server with chainTransport := _ }) (R.close _) rfl)

end Handled

namespace TransportRule

variable {τ : Type} {T : ChainTransport τ} (R : TransportRule T)
  {P : Platform}

/-- An action of the server keeps to the rule. -/
theorem act (w : World τ) (a : ServerAction) :
    R.rel w.server.chainTransport
      ((stratum P T).act w a).server.chainTransport := by
  cases a with
  | accept mode =>
    exact (quiet_acceptFrom mode _ w).endpoint.2.2 ▸ R.refl _
  | service c => exact Handled.serviceClient.dials
  | refresh => exact Handled.refreshWork.dials
  | sendPending => exact Handled.sendPendingJobs.dials
  | tick => exact R.refl _
  | stop => exact R.refl _
  | close => exact Handled.serverClose.dials

/-- **So does every run.** -/
theorem run (w : World τ) (as : List ServerAction) :
    R.rel w.server.chainTransport
      ((stratum P T).run w as).server.chainTransport := by
  induction as generalizing w with
  | nil => exact R.refl _
  | cons a as ih => exact R.trans (R.act w a) (ih _)

end TransportRule

/-! ## The telemetry clients -/

namespace Telemetry

/-- **The calls of `accept_clients`**: a socket without a client is closed
again. The clients are numbered from `n` on. -/
def acceptCalls : ℕ → List AcceptAttempt → List (DescriptorCall Holder)
  | _, [] => []
  | _, .nobody :: _ => []
  | n, .blocking :: rest =>
    .opens (.telemetryClient n) :: .closes (.telemetryClient n)
      :: acceptCalls n rest
  | n, .noMemory :: rest =>
    .opens (.telemetryClient n) :: .closes (.telemetryClient n)
      :: acceptCalls n rest
  | n, .client _ _ :: rest =>
    .opens (.telemetryClient n) :: acceptCalls (n + 1) rest

/-- The calls of `client_remove`, of one client after the other. -/
def removeCalls (l : List (ℕ × Connection)) : List (DescriptorCall Holder) :=
  l.map fun e => .closes (.telemetryClient e.1)

namespace Service

/-- **The calls of `network_tick`**: those that come, and those that have been
removed behind it. -/
def tickCalls (s : Service) (t : NetworkTick) : List (DescriptorCall Holder) :=
  acceptCalls s.nextConn t.attempts
    ++ removeCalls ((s.networkTick t).removed.drop s.removed.length)

/-- The calls at the end of `stn_telemetry_service_close`. -/
def closeCalls (s : Service) : List (DescriptorCall Holder) :=
  removeCalls (s.close.removed.drop s.removed.length)

/-- What the clients hold. -/
def Seated (s : Service) (o : Holder) : Prop :=
  ∃ n ∈ s.clients.map Prod.fst, o = .telemetryClient n

end Service

/-- They are about telemetry clients. -/
theorem part_acceptCalls (n : ℕ) (attempts : List AcceptAttempt) :
    ∀ c ∈ acceptCalls n attempts, c.owner.part = .telemetry := by
  induction attempts generalizing n with
  | nil => exact fun c hc => absurd hc List.not_mem_nil
  | cons a rest ih =>
    intro c hc
    cases a with
    | nobody => exact absurd hc List.not_mem_nil
    | client inbox outbox =>
      rcases List.mem_cons.mp hc with rfl | hc
      · rfl
      · exact ih _ c hc
    | blocking | noMemory =>
      rcases List.mem_cons.mp hc with rfl | hc
      · rfl
      rcases List.mem_cons.mp hc with rfl | hc
      · rfl
      · exact ih _ c hc

theorem part_removeCalls (l : List (ℕ × Connection)) :
    ∀ c ∈ removeCalls l, c.owner.part = .telemetry := by
  intro c hc
  obtain ⟨e, _, rfl⟩ := List.mem_map.mp hc
  rfl

/-- **Accepting**: whoever has been accepted holds a number. -/
theorem leads_acceptCalls (now : ℤ) (attempts : List AcceptAttempt)
    (s : Service) (hlt : ∀ n ∈ s.clients.map Prod.fst, n < s.nextConn) :
    Leads s.Seated (acceptCalls s.nextConn attempts)
      (s.acceptClients now attempts).Seated := by
  induction attempts generalizing s with
  | nil => exact .refl _
  | cons a rest ih =>
    have hfree : ¬ s.Seated (.telemetryClient s.nextConn) := by
      rintro ⟨n, hn, he⟩
      exact Nat.lt_irrefl _ (Holder.telemetryClient.inj he ▸ hlt n hn)
    have hagain : ∀ o, o ≠ .telemetryClient s.nextConn
        ∧ (o = .telemetryClient s.nextConn ∨ s.Seated o) ↔ s.Seated o := by
      refine fun o => ⟨fun h => h.2.resolve_left h.1, fun h => ⟨?_, .inr h⟩⟩
      rintro rfl
      exact hfree h
    cases a with
    | nobody => exact .refl _
    | blocking =>
      exact ⟨hfree, (ih s hlt).congr hagain fun _ => Iff.rfl⟩
    | noMemory =>
      exact ⟨hfree, (ih s hlt).congr hagain fun _ => Iff.rfl⟩
    | client inbox outbox =>
      refine ⟨hfree, (ih (s.accept now inbox outbox) ?_).congr ?_
        fun _ => Iff.rfl⟩
      · intro n hn
        rcases List.mem_cons.mp hn with rfl | hn
        · exact Nat.lt_succ_self _
        · exact Nat.lt_succ_of_lt (hlt n hn)
      · intro o
        constructor
        · rintro (rfl | ⟨n, hn, rfl⟩)
          · exact ⟨_, List.mem_cons_self, rfl⟩
          · exact ⟨n, List.mem_cons_of_mem _ hn, rfl⟩
        · rintro ⟨n, hn, rfl⟩
          rcases List.mem_cons.mp hn with rfl | hn
          · exact .inl rfl
          · exact .inr ⟨n, hn, rfl⟩

/-- **Removing**: nobody who has been removed does. -/
theorem leads_removeCalls {p q : Holder → Prop} (l : List (ℕ × Connection))
    (hq : ∀ o, q o ↔ p o ∧ ∀ e ∈ l, o ≠ .telemetryClient e.1) :
    Leads p (removeCalls l) q := by
  induction l generalizing p with
  | nil =>
    exact fun o => ⟨fun h => (hq o).mpr ⟨h, fun e he => absurd he
      List.not_mem_nil⟩, fun h => ((hq o).mp h).1⟩
  | cons e l ih =>
    refine ih fun o => (hq o).trans ?_
    rw [List.forall_mem_cons]
    exact ⟨fun h => ⟨⟨h.2.1, h.1⟩, h.2.2⟩, fun h => ⟨h.1.2, h.1.1, h.2⟩⟩

/-- Who stays is who has not left. -/
theorem mem_staying_iff {l : List (ℕ × Connection)}
    (hl : (l.map Prod.fst).Nodup) (n : ℕ) :
    n ∈ (staying l).map Prod.fst
      ↔ n ∈ l.map Prod.fst ∧ ∀ e ∈ leaving l, n ≠ e.1 := by
  constructor
  · intro h
    obtain ⟨e, he, rfl⟩ := List.mem_map.mp h
    obtain ⟨he, hstays⟩ := List.mem_filter.mp he
    refine ⟨List.mem_map_of_mem he, fun d hd heq => ?_⟩
    obtain ⟨hd, hleaves⟩ := List.mem_filter.mp hd
    rw [List.inj_on_of_nodup_map hl he hd heq] at hstays
    rw [hstays] at hleaves
    exact absurd hleaves (by decide)
  · rintro ⟨h, hnot⟩
    obtain ⟨e, he, rfl⟩ := List.mem_map.mp h
    refine List.mem_map_of_mem (List.mem_filter.mpr ⟨he, ?_⟩)
    by_contra hgone
    refine hnot e (List.mem_filter.mpr ⟨he, ?_⟩) rfl
    rw [Bool.eq_false_iff.mpr hgone]
    rfl

/-- The clients have been given lower numbers. -/
theorem Service.Alone.lt {ts : List NetworkTick} {s : Service}
    (h : s.Alone ts) : ∀ n ∈ s.clients.map Prod.fst, n < s.nextConn := by
  intro n hn
  rw [h.clients, List.map_reverse, List.mem_reverse] at hn
  have hmem := (List.filter_sublist.map Prod.fst).subset hn
  rw [map_fst_alone, List.mem_range'_1] at hmem
  rw [h.nextConn]
  omega

/-- **Every tick of the worker keeps account** of its clients. -/
theorem leads_tickCalls {ts : List NetworkTick} {s : Service} (h : s.Alone ts)
    (t : NetworkTick) :
    Leads s.Seated (s.tickCalls t) (s.networkTick t).Seated := by
  have hpool := h.nodup t
  have hremoved : (s.networkTick t).removed.drop s.removed.length
      = leaving (serveAll t ((fresh s.nextConn t).reverse ++ s.clients)) := by
    rw [s.networkTick_eq t hpool h.stays]
    exact List.drop_left
  unfold Service.tickCalls
  rw [hremoved]
  refine (leads_acceptCalls t.now t.attempts s h.lt).trans
    (leads_removeCalls _ fun o => ?_)
  unfold Service.Seated
  rw [Service.acceptClients_eq, s.networkTick_eq t hpool h.stays]
  dsimp only
  have hfst := map_fst_serveAll t ((fresh s.nextConn t).reverse ++ s.clients)
  rw [← hfst] at hpool
  constructor
  · rintro ⟨n, hn, rfl⟩
    obtain ⟨hmem, hnot⟩ := (mem_staying_iff hpool n).mp hn
    rw [hfst] at hmem
    exact ⟨⟨n, hmem, rfl⟩, fun e he heq => hnot e he
      (Holder.telemetryClient.inj heq)⟩
  · rintro ⟨⟨n, hn, rfl⟩, hnot⟩
    rw [← hfst] at hn
    exact ⟨n, (mem_staying_iff hpool n).mpr ⟨hn, fun e he heq => hnot e he
      (congrArg Holder.telemetryClient heq)⟩, rfl⟩

/-- So does closing. -/
theorem leads_closeCalls {ts : List NetworkTick} {s : Service}
    (h : s.Alone ts) : Leads s.Seated s.closeCalls s.close.Seated := by
  have hn : (s.clients.map Prod.fst).Nodup := by
    have hpool := h.nodup ⟨fun _ => ⟨[], fun _ => 0⟩, .zero, 0, []⟩
    rw [List.map_append] at hpool
    exact hpool.sublist (List.sublist_append_right _ _)
  have hremoved : s.close.removed.drop s.removed.length = s.clients := by
    rw [Service.close_eq hn]
    exact List.drop_left
  unfold Service.closeCalls
  rw [hremoved]
  refine leads_removeCalls _ fun o => ?_
  rw [Service.close_eq hn]
  constructor
  · rintro ⟨n, hn, _⟩
    exact absurd hn List.not_mem_nil
  · rintro ⟨⟨n, hn, rfl⟩, hnot⟩
    obtain ⟨e, he, rfl⟩ := List.mem_map.mp hn
    exact absurd rfl (hnot e he)

end Telemetry
