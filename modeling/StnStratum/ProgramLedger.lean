import StnStratum.ProgramStages

/-!
# The program's descriptors

The calls that open and close are made one by one, and those of the telemetry
worker in any order with those of the main thread. Here the books are kept
over all of it: with `Handled` for the server, `leads_tickCalls` for the
worker, and `Placed` for who can hold a descriptor at all, every step of the
program leads from the descriptors that its variables hold to those that they
hold afterwards, so that none is lost and none is closed twice, whichever way
startup fails and whenever the program is told to end (`program_balanced`).

It depends on something that the program does not see to. `socket_fd` is 0 at
first, and the first `stn_rpc_linux_close` closes that number. If it was open
from the start nothing comes of it; if it was not, `log_open` gets it, and
then there is a run in which it is closed twice (`program_faultless_iff`).
-/

open Descriptors (Leads)

namespace Program

variable {s s' : Program} {inherited : List ℕ}

/-- **The books of the program**: the calls that are still to be made lead to
what its variables hold. -/
def Books (inherited : List ℕ) (s : Program) : Prop :=
  s.process.Ledger Holder.part inherited s.Holds

/-! ## Making calls -/

/-- Calls that one part makes. -/
theorem Books.issue (h : s.Books inherited) {k : ProgramPart}
    {cs : List (DescriptorCall Holder)}
    (hprocess : s'.process = s.process.issue k cs)
    (hown : ∀ c ∈ cs, c.owner.part = k) (hleads : Leads s.Holds cs s'.Holds) :
    s'.Books inherited := by
  unfold Books
  rw [hprocess]
  exact Process.Ledger.issue h hown hleads

/-- No calls. -/
theorem Books.congr (h : s.Books inherited) (hprocess : s'.process = s.process)
    (hholds : ∀ o, s'.Holds o ↔ s.Holds o) : s'.Books inherited := by
  unfold Books
  rw [hprocess, show s'.Holds = s.Holds from funext fun o =>
    propext (hholds o)]
  exact h

/-- A variable gets a descriptor. -/
theorem Books.opens (h : s.Books inherited) {o : Holder}
    (hprocess : s'.process = s.process.issue o.part [.opens o])
    (ho : ¬ s.Holds o) (hholds : ∀ x, s'.Holds x ↔ x = o ∨ s.Holds x) :
    s'.Books inherited :=
  h.issue hprocess (fun _ hc => List.mem_singleton.mp hc ▸ rfl)
    (.opens ho hholds)

/-- What a variable holds is closed. -/
theorem Books.closes (h : s.Books inherited) {o : Holder}
    (hprocess : s'.process = s.process.issue o.part [.closes o])
    (hholds : ∀ x, s'.Holds x ↔ x ≠ o ∧ s.Holds x) : s'.Books inherited :=
  h.issue hprocess (fun _ hc => List.mem_singleton.mp hc ▸ rfl)
    (.closes hholds)

/-- A variable gets a descriptor, which is closed again. -/
theorem Books.transient (h : s.Books inherited) {o : Holder}
    (hprocess : s'.process = s.process.issue o.part [.opens o, .closes o])
    (ho : ¬ s.Holds o) (hholds : ∀ x, s'.Holds x ↔ s.Holds x) :
    s'.Books inherited := by
  refine h.issue hprocess (fun c hc => ?_) ((Leads.transient ho).congr
    (fun _ => Iff.rfl) hholds)
  rcases List.mem_cons.mp hc with rfl | hc
  · rfl
  · exact List.mem_singleton.mp hc ▸ rfl

/-- **The server does something.** -/
theorem Books.toWorld (h : s.Books inherited) {w : World WiredRpc}
    (hw : Handled dialling s.world w) : (s.toWorld w).Books inherited := by
  obtain ⟨⟨es, hes, hsessions⟩, ⟨cs, hcs, hown, hchain⟩, _⟩ := hw
  -- what is held when the calls of the transport are made
  let dialled : Holder → Prop := fun o =>
    o = .chain ∧ (s.toWorld w).Holds o ∨ o ≠ .chain ∧ s.Holds o
  have hother : ∀ o, o ≠ .chain → (dialled o ↔ s.Holds o) := fun o ho =>
    (or_iff_right fun h => ho h.1).trans (and_iff_right ho)
  have hdialled : dialled .chain ↔ (s.toWorld w).Holds .chain :=
    (or_iff_left fun h => h.1 rfl).trans (and_iff_right rfl)
  have h₁ : (s.process.issue .chain cs).Ledger Holder.part inherited
      dialled := by
    refine Process.Ledger.issue h (fun c hc => hown c hc ▸ rfl)
      (hchain.frame (S := fun o => o = .chain) hown ?_ ?_ hother)
    · rintro o rfl
      exact (and_iff_right rfl).symm
    · rintro o rfl
      exact hdialled.trans (and_iff_right rfl).symm
  have hdrop : w.server.chainTransport.calls.drop
      s.world.server.chainTransport.calls.length = cs := by
    rw [hcs]
    exact List.drop_left
  have hdrop' : w.trace.drop s.world.trace.length = es := by
    rw [hes]
    exact List.drop_left
  unfold Books Program.toWorld
  dsimp only
  rw [hdrop, hdrop']
  refine h₁.issue (part_sessionCalls es) (hsessions.frame
    (S := fun o => o.part = .sessions) (part_sessionCalls es) ?_ ?_ ?_)
  · intro o ho
    cases o with
    | session c =>
      refine (hother (.session c) nofun).trans ⟨fun hc => ⟨c, hc, rfl⟩, ?_⟩
      rintro ⟨d, hd, he⟩
      exact Holder.session.inj he ▸ hd
    | _ => cases ho
  · intro o ho
    cases o with
    | session c =>
      refine ⟨fun hc => ⟨c, hc, rfl⟩, ?_⟩
      rintro ⟨d, hd, he⟩
      exact Holder.session.inj he ▸ hd
    | _ => cases ho
  · intro o ho
    by_cases hc : o = .chain
    · subst hc
      exact hdialled.symm
    · refine Iff.trans ?_ (hother o hc).symm
      cases o with
      | chain => exact absurd rfl hc
      | session c => exact absurd rfl ho
      | _ => exact Iff.rfl

/-! ## The main thread -/

/-- A listener is closed. -/
theorem Books.closeListener (h : s.Books inherited) (mode : ServiceMode) :
    (s.closeListener mode).Books inherited := by
  have hholds := s.holds_closeListener mode
  unfold Program.closeListener at hholds ⊢
  split
  next hopen =>
    rw [if_pos hopen] at hholds
    exact h.closes rfl hholds
  next => exact h

theorem Books.closeListeners (h : s.Books inherited) :
    s.closeListeners.Books inherited :=
  (h.closeListener .solo).closeListener .pool

/-- That of the telemetry service as well. -/
theorem Books.closeTelemetryListener (h : s.Books inherited) :
    s.closeTelemetryListener.Books inherited := by
  have hholds := s.holds_closeTelemetryListener
  unfold Program.closeTelemetryListener at hholds ⊢
  split
  next hopen =>
    rw [if_pos hopen] at hholds
    exact h.closes rfl hholds
  next => exact h

/-- **A listener is opened, or is not.** -/
theorem Books.listen (h : s.Books inherited) {o : Holder} {e : MainStep}
    (hprocess : s'.process = s.process.issue o.part (listenCalls o e))
    (ho : ¬ s.Holds o)
    (hholds : ∀ x, s'.Holds x ↔ x = o ∧ e.succeeds = true ∨ s.Holds x) :
    s'.Books inherited := by
  unfold listenCalls at hprocess
  split at hprocess
  next hok =>
    exact h.opens hprocess ho fun x => (hholds x).trans
      (or_congr_left (and_iff_left hok))
  next hok =>
    have hsame : ∀ x, s'.Holds x ↔ s.Holds x := fun x =>
      (hholds x).trans (or_iff_right fun hx => hok hx.2)
    split at hprocess
    · exact h.transient hprocess ho hsame
    · exact h.issue hprocess (fun _ hc => absurd hc List.not_mem_nil)
        fun o => (hsame o).symm

/-- **`stn_mining_listener_open`.** -/
theorem Books.openListener (h : s.Books inherited) (mode : ServiceMode)
    (ho : ¬ s.Holds (.listener mode)) (e : MainStep) :
    (s.openListener mode e).Books inherited := by
  refine h.listen rfl ho fun x => ?_
  cases x with
  | listener m =>
    show Function.update s.listeners mode e.succeeds m = true ↔ _
    by_cases hm : m = mode
    · subst hm
      rw [Function.update_self]
      exact ⟨fun h => .inl ⟨rfl, h⟩, fun h => (h.resolve_right ho).2⟩
    · rw [Function.update_of_ne hm]
      exact (or_iff_right fun h => hm (Holder.listener.inj h.1)).symm
  | _ => exact (or_iff_right fun h => nomatch h.1).symm

/-- **`accept_from_listener`.** -/
theorem Books.accept (h : s.Books inherited)
    (hr : (turns .linux wired).Reachable s.world) (mode : ServiceMode)
    (e : MainStep) : (s.accept mode e).Books inherited := by
  have h' := h.toWorld (Handled.acceptFrom (R := dialling) mode (s.world.backlog mode)
    (orderly_of_turns hr))
  have ho := orderly_of_turns (hr.act (.accept mode))
  unfold Program.accept
  dsimp only
  split
  next =>
    refine h'.transient (o := .session _) rfl (fun hc => ?_) fun _ => Iff.rfl
    exact Nat.lt_irrefl _ (ho.lt _ hc)
  next => exact h'

/-- **Something happens to the telemetry clients.** -/
theorem Books.telemetry (h : s.Books inherited)
    (cs : List (DescriptorCall Holder)) (service : Telemetry.Service)
    (hprocess : s'.process = s.process.issue .telemetry cs)
    (hown : ∀ c ∈ cs, c.owner.part = .telemetry)
    (hleads : Leads s.threads.service.Seated cs service.Seated)
    (hservice : s'.threads.service = service) (hworld : s'.world = s.world)
    (hlog : s'.logOpen = s.logOpen) (hmodes : s'.listeners = s.listeners)
    (hlisten : s'.telemetryListening = s.telemetryListening) :
    s'.Books inherited := by
  have hseated : ∀ (s : Program) (o : Holder), o.part = .telemetry →
      (s.Holds o ↔ s.threads.service.Seated o) := by
    intro s o ho
    cases o with
    | telemetryClient n =>
      refine ⟨fun hn => ⟨n, hn, rfl⟩, ?_⟩
      rintro ⟨m, hm, he⟩
      exact Holder.telemetryClient.inj he ▸ hm
    | _ => cases ho
  refine h.issue hprocess hown (hleads.frame (S := fun o => o.part = .telemetry)
    hown (hseated s) (hservice ▸ hseated s') fun o ho => ?_)
  cases o with
  | telemetryClient n => exact absurd rfl ho
  | _ => simp only [Holds, hworld, hlog, hmodes, hlisten]

/-- What the main thread does in the telemetry service before it closes it is
not about its clients. -/
theorem service_act (t : Telemetry.Threads) {a : Telemetry.ThreadAction}
    (ha : (∃ status, a = .publish status) ∨ a = .store ∨ a = .close) :
    (t.act a).service = t.service := by
  obtain ⟨status, rfl⟩ | rfl | rfl := ha
  · simp only [Telemetry.Threads.act]
    split <;> rfl
  · rfl
  · simp only [Telemetry.Threads.act]
    split <;> rfl

theorem Books.withThreads (h : s.Books inherited) {a : Telemetry.ThreadAction}
    (ha : (∃ status, a = .publish status) ∨ a = .store ∨ a = .close)
    (reports : List (StratumServer WiredRpc × Heap × ℤ)) :
    { s with threads := s.threads.act a, reports := reports }.Books
      inherited := by
  refine h.congr rfl fun o => ?_
  cases o with
  | telemetryClient n =>
    show n ∈ (s.threads.act a).service.clients.map Prod.fst ↔ _
    rw [service_act s.threads ha]
    exact Iff.rfl
  | _ => exact Iff.rfl

/-- **A step of the main thread keeps the books.** -/
theorem Books.main (h : s.Books inherited) (hs : s.Serves) (hp : s.Placed)
    (e : MainStep) : (s.main e).Books inherited := by
  have hfree : ∀ {st o}, s.stage = st → ¬ Within st o → ¬ s.Holds o :=
    fun hst hnot ho => hnot (hst ▸ hp.span _ ho)
  have hloop : ∀ st, s.stage = st → 9 ≤ st.rank → st.rank ≤ 21 →
      (turns .linux wired).Reachable s.world :=
    fun st hst hr hr' => hs.2 (hst ▸ hr) (hst ▸ hr')
  unfold Program.main
  split
  next => split <;> exact h
  next hst =>
    split
    next =>
      refine h.opens (o := .logFile) rfl
        (hfree hst fun hw => absurd hw.1 (by decide)) fun x => ?_
      cases x with
      | logFile => exact ⟨fun _ => .inl rfl, fun _ => rfl⟩
      | _ => exact (or_iff_right nofun).symm
    next => exact h
  next hst =>
    have hconfig : (s.issue .main (configCalls e)).Books inherited := by
      unfold configCalls
      split
      · exact h.transient (o := .configFile) rfl id fun _ => Iff.rfl
      · exact h.issue rfl (fun _ hc => absurd hc List.not_mem_nil) (.refl _)
    dsimp only
    split
    · exact hconfig.congr rfl fun o => by cases o <;> exact Iff.rfl
    · exact hconfig
  next hst =>
    have hselect : Handled dialling s.world (s.world.setServer fun v =>
        { v with activeChainServer := 0 }.chainTransportSelect wired 0) := by
      exact .select (fun v => { v with activeChainServer := 0 }) rfl rfl rfl 0
    have h' := h.toWorld hselect
    dsimp only
    split <;> exact h'
  next hst =>
    have h' := h.openListener .pool
      (hfree hst fun hw => absurd hw.1 (by decide)) e
    dsimp only
    split <;> exact h'
  next hst =>
    have h' := h.openListener .solo
      (hfree hst fun hw => absurd hw.1 (by decide)) e
    dsimp only
    split
    · exact h'
    · exact h'.closeListener .pool
  next hst =>
    have h' : { s.issue .main (listenCalls .telemetryListener e) with
        telemetryListening := e.succeeds }.Books inherited := by
      have ho := hfree (o := .telemetryListener) hst fun hw =>
        absurd hw.1 (by decide)
      refine h.listen (o := .telemetryListener) rfl ho fun x => ?_
      cases x with
      | telemetryListener =>
        exact ⟨fun hx => .inl ⟨rfl, hx⟩, fun hx => (hx.resolve_right ho).2⟩
      | _ => exact (or_iff_right fun hx => nomatch hx.1).symm
    dsimp only
    split
    · exact h'
    · exact h'.closeListeners
  next hst =>
    split
    · exact h
    · exact h.closeTelemetryListener.closeListeners
  next hst => split <;> exact h
  next hst => exact h.accept (hloop _ hst (by decide) (by decide)) .pool e
  next hst => exact h.accept (hloop _ hst (by decide) (by decide)) .solo e
  next => exact h
  next => exact h.toWorld .serviceTurn
  next => exact h.withThreads (.inl ⟨_, rfl⟩) (s.publish e).reports
  next =>
    split
    · exact h
    · exact h.withThreads (.inr (.inl rfl)) s.reports
  next =>
    refine h.toWorld ?_
    split
    · exact .refreshWork
    · exact .refl _
  next => exact h.toWorld .sendPendingJobs
  next =>
    have htick : Handled dialling s.world (s.world.setServer fun v =>
        { v with loopCount := v.loopCount + 1 }) :=
      .setServer (.refl _) (dialling.refl _) rfl
    exact h.toWorld htick
  next => exact h.toWorld .removeAll
  next =>
    split
    · exact h.withThreads (.inr (.inr rfl)) s.reports
    · exact h
  next hst =>
    split
    next hended =>
      have hclosed : s.threads.main ≠ .closed := by
        rw [(hp.joining hst).1]
        decide
      refine h.telemetry s.threads.service.closeCalls s.threads.service.close
        rfl (Telemetry.part_removeCalls _) ?_ ?_ rfl rfl rfl rfl
      · exact Telemetry.leads_closeCalls (hp.served.service_alone hclosed)
      · have hjoin : s.threads.act .join
            = { s.threads with
              main := .closed
              service := s.threads.service.close } :=
          if_pos ⟨(hp.joining hst).1, hended⟩
        exact congrArg _ hjoin
    next => exact h
  next => exact h.closeTelemetryListener
  next => exact h.closeListeners
  next => exact h.toWorld .serverClose
  next =>
    split
    next hopen =>
      refine h.closes (o := .logFile) rfl fun x => ?_
      cases x with
      | logFile => exact ⟨fun h => absurd h Bool.noConfusion,
          fun h => absurd rfl h.1⟩
      | _ => exact (and_iff_right nofun).symm
    next => exact h
  next => exact h
  next => exact h

/-! ## Everything -/

/-- **A step of the worker keeps the books.** -/
theorem Books.work (h : s.Books inherited) (hp : s.Placed)
    (step : Telemetry.WorkerStep) : (s.work step).Books inherited := by
  have hservice : (s.threads.work step).service = s.threads.service →
      s.workCalls step = [] → (s.work step).Books inherited := by
    intro hservice hcalls
    refine h.telemetry [] s.threads.service ?_
      (fun _ hc => absurd hc List.not_mem_nil) (.refl _) hservice rfl rfl
      rfl rfl
    rw [← hcalls]
    rfl
  cases hat : s.threads.worker with
  | ended =>
    refine hservice ?_ (by simp only [workCalls, hat])
    simp only [Telemetry.Threads.work, hat]
  | atLoop =>
    refine hservice ?_ (by simp only [workCalls, hat])
    simp only [Telemetry.Threads.work, hat]
    split <;> rfl
  | reading =>
    cases hreader : s.threads.memory.reader with
    | returned snapshot =>
      have hclosed : s.threads.main ≠ .closed := fun hm =>
        absurd (hat.symm.trans (hp.served.ended hm)) (by decide)
      have hcalls : s.workCalls step = s.threads.service.tickCalls
          ⟨step.heap, snapshot, step.now, step.attempts⟩ := by
        simp only [workCalls, hat, hreader]
      refine h.telemetry (s.workCalls step) (s.threads.service.networkTick
        ⟨step.heap, snapshot, step.now, step.attempts⟩) rfl ?_ ?_ ?_ rfl rfl
          rfl rfl
      · rw [hcalls]
        intro c hc
        rcases List.mem_append.mp hc with hc | hc
        · exact Telemetry.part_acceptCalls _ _ c hc
        · exact Telemetry.part_removeCalls _ c hc
      · rw [hcalls]
        exact Telemetry.leads_tickCalls (hp.served.service_alone hclosed) _
      · show (s.threads.work step).service = _
        simp only [Telemetry.Threads.work, hat, hreader]
        rfl
    | _ =>
      refine hservice ?_ (by simp only [workCalls, hat, hreader])
      simp only [Telemetry.Threads.work, hat, hreader]

/-- **Every step of the program keeps the books.** -/
theorem Books.act (h : s.Books inherited) (hs : s.Serves) (hp : s.Placed)
    (a : ProgramAction) : (s.act a).Books inherited := by
  cases a with
  | main e =>
    simp only [Program.act]
    split
    · exact h.main hs hp e
    · exact h
  | worker step =>
    simp only [Program.act]
    split
    · exact h.work hp step
    · exact h
  | call k => exact Process.Ledger.call h k
  | signal =>
    simp only [Program.act]
    split
    · exact h
    · exact h.congr rfl fun o => by cases o <;> exact Iff.rfl

/-- **They are balanced at the start** if the number 0 is open. -/
theorem books_start (hn : inherited.Nodup) (h0 : 0 ∈ inherited)
    (h : s.Start inherited) : s.Books (inherited.erase 0) := by
  obtain ⟨transport, hsocket, _, hserver⟩ := h.server
  have hholds : ∀ o, s.process.table.Holds o ↔ s.Holds o := by
    have htable : ∀ o, s.process.table.Holds o ↔ o = .chain := by
      intro o
      rw [h.table]
      exact ⟨fun ⟨n, hm⟩ => congrArg Prod.fst (List.mem_singleton.mp hm),
        fun ho => ⟨0, List.mem_singleton.mpr (by rw [ho])⟩⟩
    intro o
    rw [htable]
    cases o with
    | chain =>
      refine ⟨fun _ => ?_, fun _ => rfl⟩
      show s.world.server.chainTransport.rpc.socket.isSome = true
      rw [hserver]
      exact hsocket
    | logFile =>
      exact ⟨nofun, fun hx => absurd (h.closed.1.symm.trans hx)
        Bool.noConfusion⟩
    | configFile => exact ⟨nofun, False.elim⟩
    | listener mode =>
      exact ⟨nofun, fun hx => absurd ((h.closed.2.1 mode).symm.trans hx)
        Bool.noConfusion⟩
    | telemetryListener =>
      exact ⟨nofun, fun hx => absurd (h.closed.2.2.1.symm.trans hx)
        Bool.noConfusion⟩
    | session c =>
      refine ⟨nofun, fun hc => ?_⟩
      have hc : c ∈ s.world.server.clients.map ClientSession.socket := hc
      rw [hserver] at hc
      exact absurd hc List.not_mem_nil
    | telemetryClient n =>
      refine ⟨nofun, fun hn => ?_⟩
      have hn : n ∈ s.threads.service.clients.map Prod.fst := hn
      rw [h.threads.2.2.2.2.1] at hn
      exact absurd hn List.not_mem_nil
  refine ⟨?_, fun k => ?_, fun k c hc => ?_⟩
  · rw [h.table]
    exact ⟨List.perm_cons_erase h0, hn, List.nodup_singleton _, rfl⟩
  · rw [h.pending k]
    exact fun o => and_congr_right fun _ => hholds o
  · rw [h.pending k] at hc
    exact absurd hc List.not_mem_nil

/-- **In every run the books are kept.** -/
theorem books_of_run (hn : inherited.Nodup) (h0 : 0 ∈ inherited)
    (h : s.Start inherited) (as : List ProgramAction) :
    ((program inherited).run s as).Books (inherited.erase 0) := by
  have key : ∀ s' : Program, s'.Serves ∧ s'.Placed
      ∧ s'.Books (inherited.erase 0) → ∀ a : ProgramAction,
      (s'.act a).Serves ∧ (s'.act a).Placed
        ∧ (s'.act a).Books (inherited.erase 0) := fun s' h' a =>
    ⟨h'.1.act a, h'.2.1.act a, h'.2.2.act h'.1 h'.2.1 a⟩
  exact ((program inherited).run_induction (P := fun s' => s'.Serves
    ∧ s'.Placed ∧ s'.Books (inherited.erase 0)) (fun s' a h' => key s' h' a)
    ⟨serves_start h, placed_start h, books_start hn h0 h⟩ as).2.2

end Program

/-- **The program without anything open** but perhaps its log, and without
calls to make. -/
structure Program.Bare (s : Program) (st : Stage) (table : Descriptors Holder)
    (log : Bool) : Prop where
  /-- Where the main thread is. -/
  stage : s.stage = st
  /-- The descriptors. -/
  table : s.process.table = table
  /-- There are no calls to make. -/
  pending : ∀ k, s.process.pending k = []
  /-- The log. -/
  log : s.logOpen = log
  /-- There are no sessions. -/
  sockets : s.world.sockets = []
  /-- There are no listeners, and there is no worker. -/
  closed : (∀ mode, s.listeners mode = false) ∧ s.telemetryListening = false
    ∧ s.workerStarted = false

/-- There are no sessions to remove. -/
theorem removeAll_of_sockets {τ : Type} {w : World τ} (h : w.sockets = []) :
    w.removeAll = w := by
  unfold World.removeAll
  rw [h]
  rfl

namespace Program.Bare

variable {s : Program} {st : Stage} {table : Descriptors Holder} {log : Bool}

/-- The main thread can go on. -/
theorem act (h : s.Bare st table log) (e : MainStep) :
    s.act (.main e) = s.main e :=
  if_pos ⟨h.pending _, h.pending _, h.pending _, fun _ => h.pending _⟩

/-- It does so without calls. -/
theorem goTo (h : s.Bare st table log) (st' : Stage) :
    (s.goTo st').Bare st' table log :=
  ⟨rfl, h.table, h.pending, h.log, h.sockets, h.closed⟩

/-- A call that is made at once. -/
theorem call (h : s.Bare st table log) {s' : Program} (st' : Stage)
    (log' : Bool) {k : ProgramPart} {c : DescriptorCall Holder}
    (hstage : s'.stage = st') (hlog : s'.logOpen = log')
    (hsockets : s'.world.sockets = [])
    (hclosed : (∀ mode, s'.listeners mode = false)
      ∧ s'.telemetryListening = false ∧ s'.workerStarted = false)
    (hprocess : s'.process = s.process.issue k [c]) :
    (s'.act (.call k)).Bare st' (table.act c) log' := by
  have hcall : s'.process.call k = { s.process with
      table := s.process.table.act c } := by
    rw [hprocess, s.process.call_issue (h.pending k)]
  refine ⟨hstage, ?_, fun j => ?_, hlog, hsockets, hclosed⟩
  · show (s'.process.call k).table = _
    rw [hcall, ← h.table]
  · show (s'.process.call k).pending j = []
    rw [hcall]
    exact h.pending j

/-- **The log is opened.** -/
theorem opened_log (h : s.Bare .log table false) {e : MainStep}
    (he : e.succeeds = true) :
    ((s.act (.main e)).act (.call .main)).Bare .config
      (table.act (.opens .logFile)) true := by
  rw [h.act e]
  simp only [Program.main, h.stage, he, if_true]
  exact h.call .config true rfl rfl h.sockets h.closed rfl

/-- **There is no configuration.** -/
theorem unconfigured (h : s.Bare .config table log) {e : MainStep}
    (hfiles : e.files = fun _ => none) (hopened : e.opened = false) :
    (s.act (.main e)).Bare .sessions table log := by
  have hcalls : configCalls e = [] := by
    unfold configCalls
    rw [hfiles, hopened]
    rfl
  have hload : ∀ servers, (ChainConfig.load e.files e.heap servers
      (some chainConfigPath)).1 = false := by
    intro servers
    rw [hfiles]
    cases servers <;> rfl
  rw [h.act e]
  simp only [Program.main, h.stage]
  split
  next entry servers heq =>
    exact absurd ((congrArg Prod.fst heq).symm.trans (hload _)) Bool.noConfusion
  next =>
    rw [hcalls]
    refine ⟨rfl, h.table, fun k => ?_, h.log, h.sockets, h.closed⟩
    show (s.process.issue .main []).pending k = []
    rw [Process.issue_nil]
    exact h.pending k

/-- **The sessions are removed**: there are none. -/
theorem sessions (h : s.Bare .sessions table log) (e : MainStep) :
    (s.act (.main e)).Bare .stopWorker table log := by
  have hself : s.toWorld s.world = s := by
    unfold toWorld
    rw [List.drop_length, List.drop_length, Process.issue_nil]
    exact congrArg (fun P => { s with process := P }) (s.process.issue_nil _)
  rw [h.act e]
  simp only [Program.main, h.stage]
  rw [removeAll_of_sockets h.sockets, hself]
  exact h.goTo .stopWorker

/-- **Nothing is left to close** up to `stn_rpc_linux_close`. -/
theorem closing (h : s.Bare .stopWorker table log) (e : MainStep) :
    (((s.act (.main e)).act (.main e)).act (.main e)).Bare .closeChain table
      log := by
  have h₁ : (s.act (.main e)).Bare .closeTelemetry table log := by
    rw [h.act e]
    simp only [Program.main, h.stage, h.closed.2.2, Bool.false_eq_true,
      if_false]
    exact h.goTo .closeTelemetry
  have h₂ : ((s.act (.main e)).act (.main e)).Bare .closeListeners table
      log := by
    rw [h₁.act e]
    simp only [Program.main, h₁.stage, closeTelemetryListener, h₁.closed.2.1,
      Bool.false_eq_true, if_false]
    exact h₁.goTo .closeListeners
  rw [h₂.act e]
  simp only [Program.main, h₂.stage, closeListeners, closeListener,
    h₂.closed.1, Bool.false_eq_true, if_false]
  exact h₂.goTo .closeChain

/-- **What `socket_fd` holds is closed**, and the log if there is one. -/
theorem closed_chain (h : s.Bare .closeChain table true) (e e' : MainStep) :
    ((((s.act (.main e)).act (.call .chain)).act (.main e')).act
      (.call .main)).Bare .leaving ((table.act (.closes .chain)).act
        (.closes .logFile)) false := by
  have h₁ : ((s.act (.main e)).act (.call .chain)).Bare .closeLog
      (table.act (.closes .chain)) true := by
    rw [h.act e]
    simp only [Program.main, h.stage]
    refine h.call .closeLog true rfl h.log (serverClose_fields _).1 h.closed ?_
    show (s.process.issue .chain (List.drop _
      (s.world.removeAll.server.chainTransport.calls
        ++ [.closes .chain]))).issue .sessions
        (sessionCalls (s.world.removeAll.trace.drop _)) = _
    rw [removeAll_of_sockets h.sockets, List.drop_left, List.drop_length]
    exact Process.issue_nil _ _
  rw [h₁.act e']
  simp only [Program.main, h₁.stage, h₁.log, if_true]
  exact h₁.call .leaving false rfl rfl h₁.sockets h₁.closed rfl

/-- `main` returns. -/
theorem exited (h : s.Bare .leaving table log) (e : MainStep) :
    (s.act (.main e)).process.table = table := by
  rw [h.act e]
  simp only [Program.main, h.stage]
  exact h.table

end Program.Bare

/-- **What that run does to the table**, whatever is open at the start. -/
theorem table_unconfigured (inherited : List ℕ) :
    ((program inherited).run (programStart inherited)
        unconfigured).process.table
      = ((Descriptors.act ⟨inherited, [(.chain, 0)], 0⟩
        (.opens .logFile)).act (.closes .chain)).act (.closes .logFile) := by
  have h₀ : (programStart inherited).Bare .handlers
      ⟨inherited, [(.chain, 0)], 0⟩ false :=
    ⟨rfl, rfl, fun _ => rfl, rfl, rfl, fun _ => rfl, rfl, rfl⟩
  let step (succeeds : Bool) : MainStep :=
    ⟨succeeds, false, fun _ => none, ⟨[], fun _ => 0⟩, 0, false⟩
  have hhandlers : ((programStart inherited).act (.main (step true))).Bare .log
      ⟨inherited, [(.chain, 0)], 0⟩ false := by
    rw [h₀.act]
    exact h₀.goTo .log
  have hlog := hhandlers.opened_log (e := step true) rfl
  have hconfig := hlog.unconfigured (e := step false) rfl rfl
  have hclosing := (hconfig.sessions (step false)).closing (step false)
  have hclosed := hclosing.closed_chain (step false) (step true)
  have hrun : (program inherited).run (programStart inherited) unconfigured
      = [.main (step true), .main (step true), .call .main, .main (step false),
        .main (step false), .main (step false), .main (step false),
        .main (step false), .main (step false), .call .chain,
        .main (step true), .call .main, .main (step true)].foldl Program.act
          (programStart inherited) := by rfl
  rw [hrun]
  simp only [List.foldl_cons, List.foldl_nil]
  exact hclosed.exited (step true)
