import StnStratum.Program

/-!
# Stage by stage

What the program is at every stage, in every run. Up to `chain_transport_select`
the server is the zeroed one; from there to the end of its loop it is a server
that `turns` can reach, so that everything proved of those is true of the
program (`program_serves`). The telemetry service has its two threads where
they should be. And every variable that holds a descriptor holds it between
two stages only (`Holder.span`).
-/

/-! ## Places -/

namespace Stage

/-- **How far it is** to the end, as far as a turn of the loop is one way. -/
def rank : Stage → ℕ
  | .handlers => 25
  | .log => 24
  | .config => 23
  | .select => 22
  | .poolListener => 21
  | .soloListener => 20
  | .telemetryListener => 19
  | .telemetryWorker => 18
  | .acceptPool => 17
  | .acceptSolo => 16
  | .serving _ => 15
  | .publishing => 14
  | .storing => 13
  | .polling => 12
  | .sending => 11
  | .sleeping => 10
  | .atLoop => 9
  | .sessions => 8
  | .stopWorker => 7
  | .joining => 6
  | .closeTelemetry => 5
  | .closeListeners => 4
  | .closeChain => 3
  | .closeLog => 2
  | .leaving => 1
  | .exited => 0

/-- **Where there cannot be a worker.** -/
def Workerless (st : Stage) : Prop := 18 ≤ st.rank ∨ st.rank ≤ 5

instance (st : Stage) : Decidable st.Workerless :=
  inferInstanceAs (Decidable (_ ∨ _))

end Stage

/-- **When a variable may hold a descriptor**: between the first stage and the
last, by their ranks. -/
def Holder.span : Holder → ℕ × ℕ
  | .logFile => (23, 2)
  | .configFile => (0, 1)
  | .listener .pool => (20, 4)
  | .listener .solo => (19, 4)
  | .telemetryListener => (18, 5)
  | .chain => (25, 3)
  | .session _ => (25, 8)
  | .telemetryClient _ => (25, 6)

/-- A server of which no Chain has been selected, in untouched surroundings. -/
structure Unselected (w : World WiredRpc) : Prop where
  /-- The server. -/
  server : ∃ chain transport running,
    w.server = { zeroedServer transport with
      chainServers := chain
      running := running }
  /-- No connection has been accepted. -/
  nextConn : w.nextConn = 0
  /-- Nothing was received or written. -/
  peers : ∀ c, (w.peers c).received = [] ∧ (w.peers c).asks = []
    ∧ (w.peers c).written = []
  /-- Nothing was done. -/
  trace : w.trace = []

namespace Program

/-- **What a variable holds**, by the state of the program. -/
def Holds (s : Program) : Holder → Prop
  | .logFile => s.logOpen = true
  | .configFile => False
  | .listener mode => s.listeners mode = true
  | .telemetryListener => s.telemetryListening = true
  | .chain => s.world.server.chainTransport.rpc.socket.isSome = true
  | .session c => c ∈ s.world.sockets
  | .telemetryClient n => n ∈ s.threads.service.clients.map Prod.fst

/-- Where the server is at a stage: not selected yet, or reachable. -/
def ServesAt (st : Stage) (w : World WiredRpc) : Prop :=
  (22 ≤ st.rank → Unselected w)
    ∧ (9 ≤ st.rank → st.rank ≤ 21 → (turns .linux wired).Reachable w)

/-- **Where the server is.** -/
def Serves (s : Program) : Prop := ServesAt s.stage s.world

/-- **Where everything else is.** -/
structure Placed (s : Program) : Prop where
  /-- The threads of the telemetry service. -/
  served : s.threads.Served
  /-- The main thread publishes up to `stn_telemetry_service_close`. -/
  serving : 7 ≤ s.stage.rank → s.threads.main = .serving
  /-- There it waits for the worker. -/
  joining : s.stage = .joining → s.threads.main = .joining
    ∧ s.workerStarted = true
  /-- It is in a publication at its stores only. -/
  idle : s.stage ≠ .storing → s.threads.memory.writer = .idle
  /-- There is no worker before it is created, and none behind
  `stn_telemetry_service_close`. -/
  unstarted : s.stage.Workerless → s.workerStarted = false
  /-- Without a worker there are no clients. -/
  clients : s.workerStarted = false → s.threads.service.clients = []
  /-- Every variable holds a descriptor at its stages only. -/
  span : ∀ o, s.Holds o → s.stage.rank ≤ o.span.1 ∧ o.span.2 ≤ s.stage.rank

/-- **Where it has ended, nothing is held.** -/
theorem Placed.exited {s : Program} (h : s.Placed) (hst : s.stage = .exited)
    (o : Holder) : ¬ s.Holds o := by
  intro ho
  have hlast := (h.span o ho).2
  rw [hst] at hlast
  cases o with
  | configFile => exact ho
  | listener mode => cases mode <;> exact absurd hlast (by decide)
  | _ => exact absurd hlast (Nat.not_le_of_lt (Nat.le_of_ble_eq_true rfl))

/-! ## The server -/

variable {s : Program}

/-- `chain_transport_select` takes a server to where `turns` may start, or
where it is if it has been stopped since. -/
theorem reachable_selected {w : World WiredRpc} (h : Unselected w)
    (hchain : (w.setServer fun v => { v with activeChainServer := 0
      }.chainTransportSelect wired 0).server.activeChain ≠ none) :
    (turns .linux wired).Reachable (w.setServer fun v =>
      { v with activeChainServer := 0 }.chainTransportSelect wired 0) := by
  obtain ⟨⟨chain, transport, running, hserver⟩, hnext, hpeers, htrace⟩ := h
  cases chain with
  | nil =>
    refine absurd ?_ hchain
    show (StratumServer.chainTransportSelect wired
      { w.server with activeChainServer := 0 } 0).activeChain = none
    rw [hserver]
    rfl
  | cons entry chain =>
    let w₀ : World WiredRpc := { w with
      server := StratumServer.chainTransportSelect wired
        { zeroedServer transport with chainServers := entry :: chain } 0 }
    have h₀ : Startup wired w₀ :=
      ⟨⟨entry, chain, transport, rfl⟩, hnext, hpeers, htrace⟩
    cases running with
    | true =>
      have he : w₀ = w.setServer fun v =>
          { v with activeChainServer := 0 }.chainTransportSelect wired 0 := by
        unfold World.setServer
        rw [hserver]
        rfl
      exact he ▸ .start h₀
    | false =>
      have he : (turns .linux wired).act w₀ .stop = w.setServer fun v =>
          { v with activeChainServer := 0 }.chainTransportSelect wired 0 := by
        unfold World.setServer
        rw [hserver]
        rfl
      exact he ▸ (Machine.Reachable.start h₀).act ServerAction.stop

/-- Once it closes nothing is asked of the server. -/
theorem servesAt_late (st : Stage) (h : st.rank ≤ 8) (w : World WiredRpc) :
    ServesAt st w :=
  ⟨fun h' => absurd (h'.trans h) (by decide),
    fun h' _ => absurd (h'.trans h) (by decide)⟩

/-- Where it is reachable there is nothing more to it. -/
theorem servesAt_reachable (st : Stage) (hr : st.rank ≤ 21)
    {w : World WiredRpc} (h : (turns .linux wired).Reachable w) :
    ServesAt st w :=
  ⟨fun h' => absurd (h'.trans hr) (by decide), fun _ _ => h⟩

/-- Before that there is not either. -/
theorem servesAt_unselected (st : Stage) (hr : 22 ≤ st.rank)
    {w : World WiredRpc} (h : Unselected w) : ServesAt st w :=
  ⟨fun _ => h, fun _ h' => absurd (hr.trans h') (by decide)⟩

/-- **A step of the main thread keeps the server where it should be.** -/
theorem Serves.main (h : s.Serves) (e : MainStep) : (s.main e).Serves := by
  have hearly : ∀ st, s.stage = st → 22 ≤ st.rank → Unselected s.world :=
    fun st hst hr => h.1 (hst ▸ hr)
  have hloop : ∀ st, s.stage = st → 9 ≤ st.rank → st.rank ≤ 21 →
      (turns .linux wired).Reachable s.world :=
    fun st hst hr hr' => h.2 (hst ▸ hr) (hst ▸ hr')
  have hlate : ∀ (w : World WiredRpc), ServesAt .sessions w :=
    servesAt_late .sessions (by decide)
  unfold Program.main
  split
  next hst =>
    split
    · exact servesAt_unselected .log (by decide) (hearly _ hst (by decide))
    · exact hlate _
  next hst =>
    split
    · exact servesAt_unselected .config (by decide) (hearly _ hst (by decide))
    · exact hlate _
  next hst =>
    dsimp only
    split
    next entry servers _ =>
      obtain ⟨⟨chain, transport, running, hserver⟩, hnext, hpeers, htrace⟩ :=
        hearly _ hst (by decide)
      exact servesAt_unselected .select (by decide)
        ⟨⟨entry :: servers, transport, running, congrArg
          (fun v : StratumServer WiredRpc =>
            { v with chainServers := entry :: servers }) hserver⟩,
          hnext, hpeers, htrace⟩
    next => exact hlate _
  next hst =>
    dsimp only
    split
    · exact hlate _
    next hactive =>
      exact servesAt_reachable .poolListener (by decide)
        (reachable_selected (hearly _ hst (by decide)) hactive)
  next hst =>
    dsimp only
    split
    · exact servesAt_reachable .soloListener (by decide)
        (hloop _ hst (by decide) (by decide))
    · exact hlate _
  next hst =>
    dsimp only
    split
    · exact servesAt_reachable .telemetryListener (by decide)
        (hloop _ hst (by decide) (by decide))
    · exact hlate _
  next hst =>
    dsimp only
    split
    · exact servesAt_reachable .telemetryWorker (by decide)
        (hloop _ hst (by decide) (by decide))
    · exact hlate _
  next hst =>
    split
    · exact servesAt_reachable .atLoop (by decide)
        (hloop _ hst (by decide) (by decide))
    · exact hlate _
  next hst =>
    split
    · exact servesAt_reachable .acceptPool (by decide)
        (hloop _ hst (by decide) (by decide))
    · exact hlate _
  next hst =>
    have hr := (hloop _ hst (by decide) (by decide)).act (.accept .pool)
    refine servesAt_reachable .acceptSolo (by decide) ?_
    show (turns .linux wired).Reachable (s.accept .pool e).world
    unfold Program.accept
    dsimp only
    split <;> exact hr
  next hst =>
    have hr := (hloop _ hst (by decide) (by decide)).act (.accept .solo)
    refine servesAt_reachable (.serving _) (Nat.le_of_ble_eq_true rfl) ?_
    show (turns .linux wired).Reachable (s.accept .solo e).world
    unfold Program.accept
    dsimp only
    split <;> exact hr
  next hst =>
    exact servesAt_reachable .publishing (by decide)
      (hloop _ hst (by decide) (by decide))
  next c todo hst =>
    exact servesAt_reachable (.serving _) (Nat.le_of_ble_eq_true rfl)
      ((hloop _ hst (Nat.le_of_ble_eq_true rfl)
        (Nat.le_of_ble_eq_true rfl)).act (.service c))
  next hst =>
    exact servesAt_reachable .storing (by decide)
      (hloop _ hst (by decide) (by decide))
  next hst =>
    have hr := hloop _ hst (by decide) (by decide)
    split
    · exact servesAt_reachable .polling (by decide) hr
    · exact servesAt_reachable s.stage (hst ▸ by decide) hr
  next hst =>
    have hr := hloop _ hst (by decide) (by decide)
    refine servesAt_reachable .sending (by decide) ?_
    show (turns .linux wired).Reachable (if _ then _ else _)
    split
    · exact hr.act .refresh
    · exact hr
  next hst =>
    exact servesAt_reachable .sleeping (by decide)
      ((hloop _ hst (by decide) (by decide)).act .sendPending)
  next hst =>
    exact servesAt_reachable .atLoop (by decide)
      ((hloop _ hst (by decide) (by decide)).act .tick)
  next => exact servesAt_late .stopWorker (by decide) _
  next =>
    split
    · exact servesAt_late .joining (by decide) _
    · exact servesAt_late .closeTelemetry (by decide) _
  next =>
    split
    · exact servesAt_late .closeTelemetry (by decide) _
    · exact h
  next => exact servesAt_late .closeListeners (by decide) _
  next => exact servesAt_late .closeChain (by decide) _
  next => exact servesAt_late .closeLog (by decide) _
  next => exact servesAt_late .leaving (by decide) _
  next => exact servesAt_late .exited (by decide) _
  next => exact h

/-- The server stays there whatever happens. -/
theorem Serves.act (h : s.Serves) (a : ProgramAction) : (s.act a).Serves := by
  cases a with
  | main e =>
    simp only [Program.act]
    split
    · exact h.main e
    · exact h
  | worker step =>
    simp only [Program.act]
    split <;> exact h
  | call k => exact h
  | signal =>
    simp only [Program.act]
    split
    · exact h
    · refine ⟨fun hr => ?_, fun hr hr' => (h.2 hr hr').act ServerAction.stop⟩
      obtain ⟨⟨chain, transport, running, hserver⟩, hnext, hpeers, htrace⟩ :=
        h.1 hr
      exact ⟨⟨chain, transport, false, congrArg
        (fun v : StratumServer WiredRpc => { v with running := false })
          hserver⟩, hnext, hpeers, htrace⟩

/-- It is there at the beginning. -/
theorem serves_start {inherited : List ℕ} (h : s.Start inherited) :
    s.Serves := by
  refine ⟨fun _ => ?_, fun _ hr => ?_⟩
  · obtain ⟨transport, _, _, hserver⟩ := h.server
    exact ⟨⟨[], transport, true, hserver⟩, h.nextConn, h.peers, h.trace⟩
  · rw [h.stage.1] at hr
    exact absurd hr (by decide)

/-! ## The rest of it -/

/-- A variable that may hold a descriptor at a stage. -/
def Within (st : Stage) (o : Holder) : Prop :=
  st.rank ≤ o.span.1 ∧ o.span.2 ≤ st.rank

/-- All of them may around the loop. -/
theorem span_bounds {o : Holder} (ho : s.Holds o) :
    18 ≤ o.span.1 ∧ o.span.2 ≤ 8 := by
  cases o with
  | configFile => exact ho.elim
  | listener mode => cases mode <;> decide
  | session c => exact ⟨Nat.le_of_ble_eq_true rfl, le_rfl⟩
  | telemetryClient n =>
    exact ⟨Nat.le_of_ble_eq_true rfl, Nat.le_of_ble_eq_true rfl⟩
  | _ => decide

theorem within_mid (st : Stage) (h8 : 8 ≤ st.rank) (h18 : st.rank ≤ 18)
    {o : Holder} (ho : s.Holds o) : Within st o :=
  ⟨h18.trans (span_bounds ho).1, (span_bounds ho).2.trans h8⟩

/-- What is held on the way to the loop is held a stage later. -/
theorem within_early {st : Stage} (st' : Stage) {o : Holder}
    (h : Within st o) (h8 : 8 ≤ st'.rank) (hle : st'.rank ≤ st.rank)
    (ho : s.Holds o) : Within st' o :=
  ⟨hle.trans h.1, (span_bounds ho).2.trans h8⟩

/-- A step from one stage to another that leaves the telemetry service
alone. -/
structure Goes (st st' : Stage) : Prop where
  /-- It does not come back from `stn_telemetry_service_close`. -/
  publishing : 7 ≤ st'.rank → 7 ≤ st.rank
  /-- It does not go there. -/
  joining : st' ≠ .joining
  /-- It does not leave the stores. -/
  storing : st ≠ .storing
  /-- It does not come or go without a worker. -/
  unstarted : st'.Workerless → st.Workerless

instance (st st' : Stage) : Decidable (Goes st st') :=
  decidable_of_iff ((7 ≤ st'.rank → 7 ≤ st.rank) ∧ st' ≠ .joining
      ∧ st ≠ .storing ∧ (st'.Workerless → st.Workerless))
    ⟨fun ⟨h₁, h₂, h₃, h₄⟩ => ⟨h₁, h₂, h₃, h₄⟩,
      fun h => ⟨h.publishing, h.joining, h.storing, h.unstarted⟩⟩

/-- **A step that leaves the telemetry service alone.** -/
theorem Placed.keep (h : s.Placed) {st : Stage} (hst : s.stage = st)
    {s' : Program} (st' : Stage) (hst' : s'.stage = st') (hgo : Goes st st')
    (ht : s'.threads = s.threads) (hw : s'.workerStarted = s.workerStarted)
    (hspan : ∀ o, s'.Holds o → Within st' o) : s'.Placed where
  served := ht ▸ h.served
  serving hr := ht ▸ h.serving (hst ▸ hgo.publishing (hst' ▸ hr))
  joining hj := absurd (hst'.symm.trans hj) hgo.joining
  idle _ := ht ▸ h.idle (hst ▸ hgo.storing)
  unstarted hr := hw ▸ h.unstarted (hst ▸ hgo.unstarted (hst' ▸ hr))
  clients := by
    rw [ht, hw]
    exact h.clients
  span o ho := hst' ▸ hspan o ho

/-- Around the loop it is enough that the telemetry service is left alone. -/
theorem Placed.around (h : s.Placed) {st : Stage} (hst : s.stage = st)
    {s' : Program} (st' : Stage) (hst' : s'.stage = st') (hgo : Goes st st')
    (h8 : 8 ≤ st'.rank) (h18 : st'.rank ≤ 18) (ht : s'.threads = s.threads)
    (hw : s'.workerStarted = s.workerStarted) : s'.Placed :=
  h.keep hst st' hst' hgo ht hw fun _ ho => within_mid st' h8 h18 ho

/-- What is held at a stage is held at the next, unless it ends there. -/
theorem within_next {st : Stage} (st' : Stage) {o : Holder}
    (h : Within st o) (hrank : st'.rank < st.rank) (hnext : o.span.2 ≤ st'.rank
      ∨ o.span.2 ≠ st.rank ∧ st.rank = st'.rank + 1) : Within st' o := by
  refine ⟨hrank.le.trans h.1, ?_⟩
  have := h.2
  omega

/-- **A step of the end of the program**, where one thing after the other is
closed. -/
theorem Placed.late (h : s.Placed) {st : Stage} (hst : s.stage = st)
    {s' : Program} (st' : Stage) (hst' : s'.stage = st') (hgo : Goes st st')
    (ht : s'.threads = s.threads) (hw : s'.workerStarted = s.workerStarted)
    (hrank : st.rank = st'.rank + 1)
    (hheld : ∀ o, s'.Holds o → s.Holds o ∧ o.span.2 ≠ st.rank) : s'.Placed := by
  refine h.keep hst st' hst' hgo ht hw fun o ho => ?_
  obtain ⟨ho, hlast⟩ := hheld o ho
  have hin : Within st o := hst ▸ h.span o ho
  exact within_next st' hin (hrank ▸ Nat.lt_succ_self _) (.inr ⟨hlast, hrank⟩)

theorem threads_accept (s : Program) (mode : ServiceMode) (e : MainStep) :
    (s.accept mode e).threads = s.threads
      ∧ (s.accept mode e).workerStarted = s.workerStarted
      ∧ (s.accept mode e).world = s.world.acceptFromListener mode := by
  unfold accept
  dsimp only
  split <;> exact ⟨rfl, rfl, rfl⟩

theorem closeListener_fields (s : Program) (mode : ServiceMode) :
    (s.closeListener mode).threads = s.threads
      ∧ (s.closeListener mode).workerStarted = s.workerStarted
      ∧ (s.closeListener mode).world = s.world
      ∧ (s.closeListener mode).logOpen = s.logOpen
      ∧ (s.closeListener mode).telemetryListening = s.telemetryListening
      ∧ (s.closeListener mode).listeners
        = Function.update s.listeners mode false := by
  unfold closeListener
  split
  next => exact ⟨rfl, rfl, rfl, rfl, rfl, rfl⟩
  next hopen =>
    refine ⟨rfl, rfl, rfl, rfl, rfl, ?_⟩
    rw [← Bool.eq_false_iff.mpr hopen, Function.update_eq_self]

theorem closeListeners_fields (s : Program) :
    s.closeListeners.threads = s.threads
      ∧ s.closeListeners.workerStarted = s.workerStarted
      ∧ s.closeListeners.world = s.world
      ∧ s.closeListeners.logOpen = s.logOpen
      ∧ s.closeListeners.telemetryListening = s.telemetryListening
      ∧ ∀ mode, s.closeListeners.listeners mode = false := by
  obtain ⟨ht, hw, hworld, hlog, hlisten, hmodes⟩ := s.closeListener_fields .solo
  obtain ⟨ht', hw', hworld', hlog', hlisten', hmodes'⟩ :=
    (s.closeListener .solo).closeListener_fields .pool
  refine ⟨ht'.trans ht, hw'.trans hw, hworld'.trans hworld, hlog'.trans hlog,
    hlisten'.trans hlisten, fun mode => ?_⟩
  show ((s.closeListener .solo).closeListener .pool).listeners mode = false
  rw [hmodes', hmodes]
  cases mode <;> rfl

theorem closeTelemetryListener_fields (s : Program) :
    s.closeTelemetryListener.threads = s.threads
      ∧ s.closeTelemetryListener.workerStarted = s.workerStarted
      ∧ s.closeTelemetryListener.world = s.world
      ∧ s.closeTelemetryListener.logOpen = s.logOpen
      ∧ s.closeTelemetryListener.listeners = s.listeners
      ∧ s.closeTelemetryListener.telemetryListening = false := by
  unfold closeTelemetryListener
  split
  next => exact ⟨rfl, rfl, rfl, rfl, rfl, rfl⟩
  next hopen => exact ⟨rfl, rfl, rfl, rfl, rfl, Bool.eq_false_iff.mpr hopen⟩

/-- What is held behind the calls that close. -/
theorem holds_closeListener (s : Program) (mode : ServiceMode) (o : Holder) :
    (s.closeListener mode).Holds o ↔ o ≠ .listener mode ∧ s.Holds o := by
  obtain ⟨ht, _, hworld, hlog, hlisten, hmodes⟩ := s.closeListener_fields mode
  cases o with
  | listener m =>
    have hupdate : (s.closeListener mode).Holds (.listener m)
        ↔ Function.update s.listeners mode false m = true := by
      rw [← hmodes]
      exact Iff.rfl
    rw [hupdate]
    by_cases hm : m = mode
    · subst hm
      rw [Function.update_self]
      exact ⟨fun h => absurd h Bool.noConfusion, fun h => absurd rfl h.1⟩
    · rw [Function.update_of_ne hm]
      exact (and_iff_right fun he => hm (Holder.listener.inj he)).symm
  | _ =>
    refine Iff.trans ?_ (and_iff_right nofun).symm
    simp only [Holds, hlog, hlisten, hworld, ht]

theorem holds_closeListeners (s : Program) (o : Holder) :
    s.closeListeners.Holds o ↔ (∀ mode, o ≠ .listener mode) ∧ s.Holds o := by
  unfold closeListeners
  rw [holds_closeListener, holds_closeListener, ← and_assoc]
  refine and_congr_left fun _ => ⟨fun h mode => ?_, fun h => ⟨h _, h _⟩⟩
  cases mode with
  | pool => exact h.1
  | solo => exact h.2

theorem holds_closeTelemetryListener (s : Program) (o : Holder) :
    s.closeTelemetryListener.Holds o
      ↔ o ≠ .telemetryListener ∧ s.Holds o := by
  obtain ⟨ht, _, hworld, hlog, hmodes, hlisten⟩ :=
    s.closeTelemetryListener_fields
  cases o with
  | telemetryListener =>
    exact ⟨fun h => absurd (hlisten.symm.trans h) Bool.noConfusion,
      fun h => absurd rfl h.1⟩
  | _ =>
    refine Iff.trans ?_ (and_iff_right nofun).symm
    simp only [Holds, hlog, hmodes, hworld, ht]

/-- Nobody is left where all sessions have been removed. -/
theorem sockets_removeAll {τ : Type} (w : World τ) :
    w.removeAll.sockets = [] := by
  have key : ∀ (cs : List ConnId) (w : World τ), ∀ c ∈
      (cs.foldl (fun w c => w.clientRemove c .serverClosing) w).sockets,
      c ∈ w.sockets ∧ c ∉ cs := by
    intro cs
    induction cs with
    | nil => exact fun w c hc => ⟨hc, List.not_mem_nil⟩
    | cons d cs ih =>
      intro w c hc
      obtain ⟨hmem, hnot⟩ := ih _ c hc
      rw [World.sockets_clientRemove] at hmem
      obtain ⟨hmem, hne⟩ := List.mem_filter.mp hmem
      refine ⟨hmem, fun hd => ?_⟩
      rcases List.mem_cons.mp hd with rfl | hd
      · exact bne_iff_ne.mp hne rfl
      · exact hnot hd
  refine List.eq_nil_iff_forall_not_mem.mpr fun c hc => ?_
  obtain ⟨hmem, hnot⟩ := key w.sockets w c hc
  exact hnot hmem

/-- Closing leaves nobody and no connection to Chain. -/
theorem serverClose_fields (w : World WiredRpc) :
    (w.serverClose wired).sockets = []
      ∧ (w.serverClose wired).server.chainTransport.rpc.socket = none := by
  refine ⟨?_, rfl⟩
  have hnone := congrArg List.length (sockets_removeAll w)
  unfold World.sockets at hnone ⊢
  rw [List.length_map] at hnone
  refine List.eq_nil_of_length_eq_zero ?_
  rw [List.length_map]
  exact (List.length_map _).trans hnone

/-- **A step of the main thread leaves everything where it should be.** -/
theorem Placed.main (h : s.Placed) (e : MainStep) : (s.main e).Placed := by
  have hwas : ∀ {st o}, s.stage = st → s.Holds o → Within st o :=
    fun hst ho => hst ▸ h.span _ ho
  -- where startup fails
  have hfail : ∀ {st} {s' : Program}, s.stage = st → s'.stage = .sessions →
      Goes st .sessions → s'.threads = s.threads →
      s'.workerStarted = s.workerStarted → s'.Placed :=
    fun hst hst' hgo => h.around hst .sessions hst' hgo (by decide) (by decide)
  unfold Program.main
  split
  next hst =>
    split
    · refine h.keep hst .log rfl (by decide) rfl rfl ?_
      exact fun o ho => within_early .log (s := s) (hwas hst ho) (by decide)
        (by decide) ho
    · exact hfail hst rfl (by decide) rfl rfl
  next hst =>
    split
    · refine h.keep hst .config rfl (by decide) rfl
        rfl fun o ho => ?_
      cases o with
      | logFile => exact ⟨by decide, by decide⟩
      | _ =>
        exact within_early .config (s := s) (hwas hst ho) (by decide)
          (by decide) ho
    · exact hfail hst rfl (by decide) rfl rfl
  next hst =>
    dsimp only
    split
    next entry servers _ =>
      refine h.keep hst .select rfl (by decide) rfl
        rfl fun o ho => ?_
      exact within_early .select (s := s) (hwas hst ho) (by decide)
        (by decide) ho
    next => exact hfail hst rfl (by decide) rfl rfl
  next hst =>
    dsimp only
    split
    · exact hfail hst rfl (by decide) rfl rfl
    · refine h.keep hst .poolListener rfl (by decide)
        rfl rfl fun o ho => ?_
      cases o with
      | chain => exact ⟨by decide, by decide⟩
      | session c =>
        exact ⟨Nat.le_of_ble_eq_true rfl, Nat.le_of_ble_eq_true rfl⟩
      | _ =>
        exact within_early .poolListener (s := s) (hwas hst ho) (by decide)
          (by decide) ho
  next hst =>
    dsimp only
    split
    next hok =>
      refine h.keep hst .soloListener rfl (by decide)
        rfl rfl fun o ho => ?_
      cases o with
      | listener mode =>
        cases mode with
        | pool => exact ⟨by decide, by decide⟩
        | solo =>
          have hsolo : s.Holds (.listener .solo) := ho
          exact within_early .soloListener (s := s) (hwas hst hsolo)
            (by decide) (by decide) hsolo
      | _ =>
        exact within_early .soloListener (s := s) (hwas hst ho) (by decide)
          (by decide) ho
    · exact hfail hst rfl (by decide) rfl rfl
  next hst =>
    dsimp only
    split
    next hok =>
      refine h.keep hst .telemetryListener rfl
        (by decide) rfl rfl fun o ho => ?_
      cases o with
      | listener mode => cases mode <;> exact ⟨by decide, by decide⟩
      | _ =>
        exact within_early .telemetryListener (s := s) (hwas hst ho)
          (by decide) (by decide) ho
    next hok =>
      obtain ⟨ht, hw, _⟩ := (s.openListener .solo e).closeListener_fields .pool
      exact hfail hst rfl (by decide) ht hw
  next hst =>
    dsimp only
    split
    next hok =>
      refine h.keep hst .telemetryWorker rfl
        (by decide) rfl rfl fun o ho => ?_
      cases o with
      | telemetryListener => exact ⟨by decide, by decide⟩
      | _ =>
        exact within_early .telemetryWorker (s := s) (hwas hst ho)
          (by decide) (by decide) ho
    next hok =>
      refine hfail hst rfl (by decide) ?_ ?_
      · exact (closeListeners_fields _).1
      · exact (closeListeners_fields _).2.1
  next hst =>
    split
    next hok =>
      -- the worker is started
      have hmid : ∀ o, s.Holds o → Within .atLoop o := fun o ho =>
        within_mid .atLoop (by decide) (by decide) ho
      have hlt : ¬ Stage.Workerless .atLoop := by decide
      exact ⟨h.served, fun _ => h.serving (hst ▸ by decide), Stage.noConfusion,
        fun _ => h.idle (hst ▸ Stage.noConfusion), fun hr => absurd hr hlt,
        fun hw => absurd hw.symm Bool.false_ne_true, hmid⟩
    next hok =>
      refine hfail hst rfl (by decide) ?_ ?_
      · refine (closeListeners_fields _).1.trans ?_
        exact (closeTelemetryListener_fields s).1
      · refine (closeListeners_fields _).2.1.trans ?_
        exact (closeTelemetryListener_fields s).2.1
  next hst =>
    split
    · exact h.around hst .acceptPool rfl (by decide)
        (by decide) (by decide) rfl rfl
    · exact hfail hst rfl (by decide) rfl rfl
  next hst =>
    obtain ⟨ht, hw, _⟩ := s.threads_accept .pool e
    exact h.around hst .acceptSolo rfl (by decide)
      (by decide) (by decide) ht hw
  next hst =>
    obtain ⟨ht, hw, _⟩ := s.threads_accept .solo e
    have hlt : ∀ todo, ¬ Stage.Workerless (.serving todo) := fun todo hr =>
      hr.elim (Nat.not_le_of_lt (Nat.le_of_ble_eq_true rfl))
        (Nat.not_le_of_lt (Nat.le_of_ble_eq_true rfl))
    exact h.around hst (.serving _) rfl ⟨fun _ => by decide,
      Stage.noConfusion, Stage.noConfusion,
      fun hr => absurd hr (hlt _)⟩ (Nat.le_of_ble_eq_true rfl)
      (Nat.le_of_ble_eq_true rfl) ht hw
  next hst =>
    exact h.around hst .publishing rfl (by decide)
      (by decide) (by decide) rfl rfl
  next c todo hst =>
    exact h.around hst (.serving _) rfl
      ⟨id, Stage.noConfusion, Stage.noConfusion, id⟩
      (Nat.le_of_ble_eq_true rfl) (Nat.le_of_ble_eq_true rfl) rfl rfl
  next hst =>
    -- a publication begins
    have hserved := h.served.act (.publish
      (s.world.server.telemetryStatus e.heap s.startedAt e.now))
    have hservice : (s.publish e).threads.service = s.threads.service := by
      unfold publish Telemetry.Threads.act
      dsimp only
      split <;> rfl
    have hmain : (s.publish e).threads.main = s.threads.main := by
      unfold publish Telemetry.Threads.act
      dsimp only
      split <;> rfl
    have hlt : ¬ Stage.Workerless .storing := by decide
    refine ⟨hserved, fun _ => hmain.trans (h.serving (hst ▸ by decide)),
      Stage.noConfusion, fun hne => absurd rfl hne,
      fun hr => absurd hr hlt, fun hw => ?_,
      fun o ho => within_mid .storing (by decide) (by decide) ho⟩
    exact (congrArg _ hservice).trans (h.clients hw)
  next hst =>
    split
    next hwriter =>
      have hlt : ¬ Stage.Workerless .polling := by decide
      exact ⟨h.served, fun _ => h.serving (hst ▸ by decide), Stage.noConfusion,
        fun _ => hwriter, fun hr => absurd hr hlt, h.clients,
        fun o ho => within_mid .polling (by decide) (by decide) ho⟩
    next =>
      have hst' : { s with threads := s.threads.act .store }.stage = .storing :=
        hst
      refine ⟨h.served.act .store, fun _ => h.serving (hst ▸ by decide),
        fun hj => absurd (hst.symm.trans hj) Stage.noConfusion,
        fun hne => absurd hst hne, fun hr => absurd (hst ▸ hr) (by decide),
        h.clients, fun o ho => hst' ▸ within_mid .storing (by decide)
          (by decide) ho⟩
  next hst =>
    exact h.around hst .sending rfl (by decide)
      (by decide) (by decide) rfl rfl
  next hst =>
    exact h.around hst .sleeping rfl (by decide)
      (by decide) (by decide) rfl rfl
  next hst =>
    exact h.around hst .atLoop rfl (by decide)
      (by decide) (by decide) rfl rfl
  next hst =>
    refine h.keep hst .stopWorker rfl (by decide) rfl
      rfl fun o ho => ?_
    cases o with
    | session c =>
      have hc : c ∈ s.world.removeAll.sockets := ho
      rw [sockets_removeAll] at hc
      exact absurd hc List.not_mem_nil
    | configFile => exact ho.elim
    | listener mode => cases mode <;> exact ⟨by decide, by decide⟩
    | telemetryClient n =>
      exact ⟨Nat.le_of_ble_eq_true rfl, Nat.le_of_ble_eq_true rfl⟩
    | _ => exact ⟨by decide, by decide⟩
  next hst =>
    -- the sessions are gone
    have h8 : ¬ 8 ≤ Stage.rank .stopWorker := by decide
    split
    next hstarted =>
      have hlt : ¬ Stage.Workerless .joining := by decide
      have hmain := h.serving (hst ▸ by decide)
      have hidle := h.idle (hst ▸ Stage.noConfusion)
      have hclose : s.threads.act .close
          = { s.threads with workerRunning := false, main := .joining } := by
        simp only [Telemetry.Threads.act, hmain, hidle]
      refine ⟨h.served.act .close, fun hr => absurd hr (by decide : ¬ 7 ≤ 6),
        fun _ => ?_, fun _ => ?_, fun hr => absurd hr hlt,
        fun hw => absurd (hstarted.symm.trans hw) Bool.noConfusion,
        fun o ho => ?_⟩
      · exact ⟨congrArg _ hclose, hstarted⟩
      · show (s.threads.act .close).memory.writer = .idle
        rw [hclose]
        exact hidle
      · cases o with
        | telemetryClient n => exact ⟨Nat.le_of_ble_eq_true rfl, le_rfl⟩
        | listener mode =>
          refine within_next .joining (hwas hst ho) (by decide) (.inl ?_)
          cases mode <;> decide
        | session c => exact absurd (hwas (o := .session c) hst ho).2 h8
        | _ =>
          exact within_next .joining (hwas hst ho) (by decide)
            (.inl (by decide))
    next hstarted =>
      refine ⟨h.served, fun _ => h.serving (hst ▸ by decide), Stage.noConfusion,
        fun _ => h.idle (hst ▸ Stage.noConfusion),
        fun _ => Bool.eq_false_iff.mpr hstarted, h.clients, fun o ho => ?_⟩
      cases o with
      | telemetryClient n =>
        have hn : n ∈ s.threads.service.clients.map Prod.fst := ho
        rw [h.clients (Bool.eq_false_iff.mpr hstarted)] at hn
        exact absurd hn List.not_mem_nil
      | listener mode =>
        refine within_next .closeTelemetry (hwas hst ho) (by decide) (.inl ?_)
        cases mode <;> decide
      | session c => exact absurd (hwas (o := .session c) hst ho).2 h8
      | _ =>
        exact within_next .closeTelemetry (hwas hst ho) (by decide)
          (.inl (by decide))
  next hst =>
    have hmain := (h.joining hst).1
    split
    next hended =>
      have hjoin : s.threads.act .join
          = { s.threads with
            main := .closed
            service := s.threads.service.close } :=
        if_pos ⟨hmain, hended⟩
      have hserved := h.served.act .join
      have hnone : (s.threads.act .join).service.clients = [] :=
        hserved.service_perm.2.2 (congrArg _ hjoin)
      refine ⟨hserved, fun hr => absurd hr (by decide : ¬ 7 ≤ 5),
        Stage.noConfusion,
        fun _ => ?_, fun _ => rfl, fun _ => hnone, fun o ho => ?_⟩
      · show (s.threads.act .join).memory.writer = .idle
        rw [hjoin]
        exact h.idle (hst ▸ Stage.noConfusion)
      · cases o with
        | telemetryClient n =>
          have hn : n ∈ (s.threads.act .join).service.clients.map Prod.fst := ho
          rw [hnone] at hn
          exact absurd hn List.not_mem_nil
        | listener mode =>
          refine within_next .closeTelemetry (hwas hst ho) (by decide) (.inl ?_)
          cases mode <;> decide
        | session c =>
          exact absurd (hwas (o := .session c) hst ho).2 (by decide : ¬ 8 ≤ 6)
        | _ =>
          exact within_next .closeTelemetry (hwas hst ho) (by decide)
            (.inl (by decide))
    next => exact h
  next hst =>
    obtain ⟨ht, hw, _⟩ := s.closeTelemetryListener_fields
    refine h.late hst .closeListeners rfl (by decide)
      ht hw rfl fun o ho => ?_
    obtain ⟨hne, ho⟩ := (s.holds_closeTelemetryListener o).mp ho
    refine ⟨ho, fun hlast => hne ?_⟩
    cases o with
    | telemetryListener => rfl
    | listener mode => cases mode <;> exact absurd hlast (by decide)
    | _ => exact absurd hlast (Nat.ne_of_beq_eq_false rfl)
  next hst =>
    obtain ⟨ht, hw, _⟩ := s.closeListeners_fields
    refine h.late hst .closeChain rfl (by decide)
      ht hw rfl fun o ho => ?_
    obtain ⟨hne, ho⟩ := (s.holds_closeListeners o).mp ho
    refine ⟨ho, fun hlast => ?_⟩
    cases o with
    | listener mode => exact hne mode rfl
    | _ => exact absurd hlast (Nat.ne_of_beq_eq_false rfl)
  next hst =>
    obtain ⟨hsockets, hsocket⟩ := serverClose_fields s.world
    refine h.late hst .closeLog rfl (by decide)
      rfl rfl rfl fun o ho => ?_
    cases o with
    | configFile => exact ho.elim
    | listener mode => exact ⟨ho, by cases mode <;> decide⟩
    | chain =>
      have ho : (s.world.serverClose
        wired).server.chainTransport.rpc.socket.isSome = true := ho
      rw [hsocket] at ho
      exact absurd ho Bool.noConfusion
    | session c =>
      have ho : c ∈ (s.world.serverClose wired).sockets := ho
      rw [hsockets] at ho
      exact absurd ho List.not_mem_nil
    | telemetryClient n => exact ⟨ho, (by decide : 6 ≠ 3)⟩
    | _ => exact ⟨ho, by decide⟩
  next hst =>
    split
    next hopen =>
      refine h.late hst .leaving rfl (by decide)
        rfl rfl rfl fun o ho => ?_
      cases o with
      | logFile => exact absurd ho Bool.noConfusion
      | listener mode => exact ⟨ho, by cases mode <;> decide⟩
      | _ => exact ⟨ho, Nat.ne_of_beq_eq_false rfl⟩
    next hopen =>
      refine h.late hst .leaving rfl (by decide)
        rfl rfl rfl fun o ho => ?_
      cases o with
      | logFile => exact absurd ho hopen
      | listener mode => exact ⟨ho, by cases mode <;> decide⟩
      | _ => exact ⟨ho, Nat.ne_of_beq_eq_false rfl⟩
  next hst =>
    refine h.late hst .exited rfl (by decide)
      rfl rfl rfl fun o ho => ?_
    cases o with
    | configFile => exact ho.elim
    | listener mode => exact ⟨ho, by cases mode <;> decide⟩
    | _ => exact ⟨ho, Nat.ne_of_beq_eq_false rfl⟩
  next => exact h

/-- A step of the worker changes nothing else. -/
theorem Placed.work (h : s.Placed) (hstarted : s.workerStarted = true)
    (step : Telemetry.WorkerStep) : (s.work step).Placed := by
  have hserved := h.served.work step
  obtain ⟨hmain, hwriter⟩ := s.threads.main_work step
  have hrank : ¬ s.stage.Workerless := fun hr =>
    absurd (hstarted.symm.trans (h.unstarted hr)) Bool.noConfusion
  refine ⟨hserved, fun hr => hmain.trans (h.serving hr),
    fun hj => ⟨hmain.trans (h.joining hj).1, hstarted⟩,
    fun hst => hwriter.trans (h.idle hst), fun hr => absurd hr hrank,
    fun hw => absurd (hstarted.symm.trans hw) Bool.noConfusion, fun o ho => ?_⟩
  cases o with
  | telemetryClient n =>
    refine ⟨?_, ?_⟩
    · exact (Nat.lt_of_not_le fun hr => hrank (.inl hr)).le.trans
        (Nat.le_of_ble_eq_true rfl)
    · exact Nat.lt_of_not_le fun hr => hrank (.inr hr)
  | _ => exact h.span _ ho

/-- **Everything stays where it should be**, whatever happens. -/
theorem Placed.act (h : s.Placed) (a : ProgramAction) : (s.act a).Placed := by
  cases a with
  | main e =>
    simp only [Program.act]
    split
    · exact h.main e
    · exact h
  | worker step =>
    simp only [Program.act]
    split
    next hw => exact h.work hw.1 step
    next => exact h
  | call k => exact ⟨h.served, h.serving, h.joining, h.idle, h.unstarted,
      h.clients, h.span⟩
  | signal =>
    simp only [Program.act]
    split
    · exact h
    · exact ⟨h.served, h.serving, h.joining, h.idle, h.unstarted, h.clients,
        h.span⟩

/-- It is there at the beginning. -/
theorem placed_start {inherited : List ℕ} (h : s.Start inherited) :
    s.Placed := by
  have hclosed := h.closed
  have hrank : s.stage.rank = 25 := congrArg Stage.rank h.stage.1
  obtain ⟨_, _, _, hmain, hservice, _⟩ := h.threads
  have hnone : s.threads.service.clients = [] := congrArg _ hservice
  refine ⟨Telemetry.Threads.served_start h.threads, fun _ => hmain, fun hj =>
    absurd (h.stage.1.symm.trans hj) nofun, fun _ => ?_, fun _ =>
    hclosed.2.2.2, fun _ => hnone, fun o ho => ?_⟩
  · exact h.threads.1.2.2.1
  · rw [hrank]
    cases o with
    | logFile => exact absurd (hclosed.1.symm.trans ho) Bool.noConfusion
    | configFile => exact ho.elim
    | listener mode =>
      exact absurd ((hclosed.2.1 mode).symm.trans ho) Bool.noConfusion
    | telemetryListener =>
      exact absurd (hclosed.2.2.1.symm.trans ho) Bool.noConfusion
    | chain => decide
    | session c => exact ⟨le_rfl, Nat.le_of_ble_eq_true rfl⟩
    | telemetryClient n => exact ⟨le_rfl, Nat.le_of_ble_eq_true rfl⟩

/-- **In every run everything is where it should be.** -/
theorem placed_of_run {inherited : List ℕ} (h : s.Start inherited)
    (as : List ProgramAction) :
    ((program inherited).run s as).Serves
      ∧ ((program inherited).run s as).Placed :=
  (program inherited).run_induction
    (P := fun s => s.Serves ∧ s.Placed)
    (fun _ a hs => ⟨hs.1.act a, hs.2.act a⟩)
    ⟨serves_start h, placed_start h⟩ as

end Program

/-- **The program serves as the server does.** In every run, in every
interleaving of its threads, of a signal and of its calls, from
`chain_transport_select` to the end of the loop the server is one that `turns`
can reach, so that its work is coherent; and every variable that holds a
descriptor is between the two stages at which it may. -/
theorem program_serves {inherited : List ℕ} {s : Program}
    (h : (program inherited).Start s) (as : List ProgramAction) :
    let s' := (program inherited).run s as
    (9 ≤ s'.stage.rank → s'.stage.rank ≤ 21 →
        (turns .linux wired).Reachable s'.world ∧ WorkCoherent s'.world.server)
      ∧ ∀ o, s'.Holds o →
        s'.stage.rank ≤ o.span.1 ∧ o.span.2 ≤ s'.stage.rank := by
  obtain ⟨hserves, hplaced⟩ := Program.placed_of_run h as
  refine ⟨fun hr hr' => ?_, hplaced.span⟩
  have hreach := hserves.2 hr hr'
  exact ⟨hreach, workCoherent_of_turns hreach⟩

/-- **It does so where the signal comes** in a visit, with the miner who has
registered next to be served; and there is no session at the end of it. -/
theorem program_serves_visit :
    let s := (program [0, 1, 2]).run programVisited
      (visitConfig ++ (visitMiner ++ visitTelemetry))
    (s.stage = .serving [0] ∧ s.world.server.clients.map
          (fun c => (c.socket, c.addressRegistered)) = [(0, true)]
        ∧ (turns .linux wired).Reachable s.world
        ∧ WorkCoherent s.world.server)
      ∧ ¬ ((program [0, 1, 2]).run programVisited visit).Holds (.session 0) := by
  have hserves := (program_serves start_programVisited
    (visitConfig ++ (visitMiner ++ visitTelemetry))).1
  have hspan := (program_serves start_programVisited visit).2 (.session 0)
  dsimp only at hserves hspan ⊢
  rw [visit] at hspan ⊢
  rw [run_visit] at hserves hspan ⊢
  rw [run_visit]
  generalize hs : (program [0, 1, 2]).run programConfigured
    (visitMiner ++ visitTelemetry) = s at hserves ⊢
  obtain ⟨hstage, hminer⟩ : s.stage = .serving [0]
      ∧ s.world.server.clients.map (fun c => (c.socket, c.addressRegistered))
        = [(0, true)] := by
    rw [← hs]
    decide +kernel
  refine ⟨⟨hstage, hminer, hserves ?_ ?_⟩, fun ho => ?_⟩
  · rw [hstage]
    decide
  · rw [hstage]
    decide
  · have hend : ((program [0, 1, 2]).run programConfigured
        (visitMiner ++ visitTelemetry ++ visitEnd)).stage = .exited := by
      decide +kernel
    have hle := (hspan ho).2
    rw [hend] at hle
    exact absurd hle (by decide)
