import StnStratum.ProgramLedger
import Mathlib.Data.Prod.Lex

/-!
# The program ends

Once it has been told to, or once its startup has failed, the program gets to
its end, in whatever order its threads and its calls take turns, if only each
of them is given turns again and again and no broken pipe kills the process on
the way (`program_exits`). Then every descriptor it has opened has been closed.

The rank of a state has four parts. The first is how far the main thread is
from its end, stage by stage. The second and the third are for the stages that
do not end with one step: `service_clients`, which ends because the sessions
to serve and the bytes to read get fewer; `snapshot_publish`, with its stores;
and `pthread_join`, which ends because the worker does. The last is the calls
that the main thread has to wait for. The worker may take as many turns as it
likes until it is waited for.
-/

namespace Program

variable {s s' : Program} {inherited : List ℕ}

/-! ## The rank -/

/-- **Who has to be served.** -/
inductive Actor where
  /-- The main thread. -/
  | main
  /-- The telemetry worker. -/
  | worker
  /-- The calls of a part. -/
  | call (part : ProgramPart)

/-- Which action serves whom. -/
def serves : Actor → ProgramAction → Prop
  | .main, .main _ => True
  | .worker, .worker _ => True
  | .call k, .call j => j = k
  | _, _ => False

/-- How much is left of a stage that does not end with one step. -/
def left (s : Program) : ℕ × ℕ :=
  match s.stage with
  | .serving [] => (0, 0)
  | .serving (c :: todo) =>
    (todo.length + 1, (allData (s.world.peers c).inbox).length)
  | .storing => (s.threads.memory.writer.toIdle telemetry, 0)
  | .joining => (s.threads.toEnd, 0)
  | _ => (0, 0)

/-- Whether the main thread waits for the calls of the worker. -/
def Awaits (st : Stage) : Prop := st = .joining ∨ st = .closeTelemetry

instance (st : Stage) : Decidable (Awaits st) :=
  inferInstanceAs (Decidable (_ ∨ _))

/-- **The calls that the main thread waits for.** -/
def waiting (s : Program) : ℕ :=
  (s.process.pending .main).length + (s.process.pending .chain).length
    + (s.process.pending .sessions).length
    + if Awaits s.stage then (s.process.pending .telemetry).length else 0

/-- **The rank of a state.** -/
def toExit (s : Program) : ℕ ×ₗ ℕ ×ₗ ℕ ×ₗ ℕ :=
  toLex (s.stage.rank, toLex (s.left.1, toLex (s.left.2, s.waiting)))

/-- **Who is next.** -/
def next (s : Program) : Actor :=
  if s.process.pending .main ≠ [] then .call .main
  else if s.process.pending .chain ≠ [] then .call .chain
  else if s.process.pending .sessions ≠ [] then .call .sessions
  else if Awaits s.stage ∧ s.process.pending .telemetry ≠ [] then
    .call .telemetry
  else if s.stage = .joining ∧ s.threads.worker ≠ .ended then .worker
  else .main

/-- It gets lower. -/
theorem toExit_lt_iff : s'.toExit < s.toExit ↔ s'.stage.rank < s.stage.rank
    ∨ s'.stage.rank = s.stage.rank ∧ (s'.left.1 < s.left.1
      ∨ s'.left.1 = s.left.1 ∧ (s'.left.2 < s.left.2
        ∨ s'.left.2 = s.left.2 ∧ s'.waiting < s.waiting)) := by
  unfold toExit
  simp only [Prod.Lex.toLex_lt_toLex]

/-- The next stage. -/
theorem toExit_lt_of_stage {st : Stage} (hst : s.stage = st)
    (hlt : s'.stage.rank < st.rank) : s'.toExit < s.toExit :=
  toExit_lt_iff.mpr (.inl (hst ▸ hlt))

/-- More of the same stage. -/
theorem toExit_lt_of_left (hst : s'.stage.rank = s.stage.rank)
    (hlt : s'.left.1 < s.left.1 ∨ s'.left.1 = s.left.1 ∧ s'.left.2 < s.left.2) :
    s'.toExit < s.toExit :=
  toExit_lt_iff.mpr (.inr ⟨hst, hlt.imp_right fun h => ⟨h.1, .inl h.2⟩⟩)

/-! ## The main thread -/

/-- **The main thread does not end its loop**, nor begin it again. -/
theorem running_main (hs : s.Serves) (e : MainStep) :
    (s.main e).world.server.running = s.world.server.running := by
  have hworld : ∀ {s' : Program}, s'.world = s.world →
      s'.world.server.running = s.world.server.running :=
    fun h => congrArg (fun w : World WiredRpc => w.server.running) h
  have haccept : ∀ mode st, s.stage = st → 9 ≤ st.rank → st.rank ≤ 21 →
      (s.accept mode e).world.server.running = s.world.server.running :=
    fun mode st hst hr hr' => by
      rw [(s.threads_accept mode e).2.2]
      exact (Handled.acceptFrom (R := dialling) mode _ (orderly_of_turns
        (hs.2 (hst ▸ hr) (hst ▸ hr')))).running
  unfold Program.main
  split
  next => split <;> rfl
  next => split <;> rfl
  next =>
    dsimp only
    split <;> rfl
  next =>
    have hselect := (Handled.select (R := dialling) (w := s.world)
      (fun v => { v with activeChainServer := 0 }) rfl rfl rfl 0).running
    dsimp only
    split <;> exact hselect
  next =>
    dsimp only
    split <;> rfl
  next =>
    dsimp only
    split
    · rfl
    · exact hworld ((s.openListener .solo e).closeListener_fields .pool).2.2.1
  next =>
    dsimp only
    split
    · rfl
    · exact hworld (closeListeners_fields { s.issue .main
        (listenCalls .telemetryListener e) with
          telemetryListening := e.succeeds }).2.2.1
  next =>
    split
    · rfl
    · exact hworld ((closeListeners_fields _).2.2.1.trans
        (closeTelemetryListener_fields s).2.2.1)
  next => split <;> rfl
  next hst => exact haccept .pool _ hst (by decide) (by decide)
  next hst => exact haccept .solo _ hst (by decide) (by decide)
  next => rfl
  next => exact (Handled.serviceTurn (R := dialling)).running
  next => rfl
  next => split <;> rfl
  next =>
    show (if _ then _ else _ : World WiredRpc).server.running = _
    split
    · exact (Handled.refreshWork (R := dialling)).running
    · rfl
  next => exact (Handled.sendPendingJobs (R := dialling)).running
  next => rfl
  next => exact (Handled.removeAll (R := dialling)).running
  next => split <;> rfl
  next => split <;> rfl
  next => exact hworld (closeTelemetryListener_fields s).2.2.1
  next => exact hworld (closeListeners_fields s).2.2.1
  next => exact (Handled.serverClose (R := dialling)).running
  next => split <;> rfl
  next => rfl
  next => rfl

/-- **The program is on its way to its end**: it has been told to, or it is
closing already. -/
def Ending (s : Program) : Prop :=
  s.world.server.running = false ∨ s.stage.rank ≤ 8

/-- **Every step of the main thread gets it closer**, except where it waits for
the worker. -/
theorem toExit_main (hs : s.Serves) (hending : s.Ending)
    (hexited : s.stage ≠ .exited)
    (hjoin : s.stage = .joining → s.threads.worker = .ended) (e : MainStep) :
    (s.main e).toExit < s.toExit := by
  have hgo : ∀ {st : Stage} {s' : Program}, s.stage = st →
      (s'.stage.rank + 1).ble st.rank = true → s'.toExit < s.toExit :=
    fun hst hlt => toExit_lt_of_stage hst (Nat.le_of_ble_eq_true hlt)
  unfold Program.main
  split
  next hst => split <;> exact hgo hst rfl
  next hst => split <;> exact hgo hst rfl
  next hst =>
    dsimp only
    split <;> exact hgo hst rfl
  next hst =>
    dsimp only
    split <;> exact hgo hst rfl
  next hst =>
    dsimp only
    split <;> exact hgo hst rfl
  next hst =>
    dsimp only
    split <;> exact hgo hst rfl
  next hst =>
    dsimp only
    split <;> exact hgo hst rfl
  next hst => split <;> exact hgo hst rfl
  next hst =>
    have hstopped : s.world.server.running = false :=
      hending.resolve_right (by rw [hst]; decide)
    rw [if_neg (by rw [hstopped]; exact Bool.false_ne_true)]
    exact hgo hst rfl
  next hst => exact hgo hst rfl
  next hst => exact hgo hst rfl
  next hst => exact hgo hst rfl
  next c todo hst =>
    -- a turn of a session, with fewer bytes to read behind it or none
    have hready := ready_of_turns (hs.2 (hst ▸ Nat.le_of_ble_eq_true rfl)
      (hst ▸ Nat.le_of_ble_eq_true rfl)) c
    have hleft : s.left = (todo.length + 1,
        (allData (s.world.peers c).inbox).length) := by
      simp only [left, hst]
    dsimp only
    split
    next hmore =>
      refine toExit_lt_of_left (congrArg Stage.rank hst).symm (.inr ?_)
      rw [hleft]
      exact ⟨rfl, hready.progress hmore⟩
    next =>
      refine toExit_lt_of_left (congrArg Stage.rank hst).symm (.inl ?_)
      rw [hleft]
      cases todo with
      | nil => exact Nat.succ_pos _
      | cons d todo => exact Nat.lt_succ_self _
  next hst => exact hgo hst rfl
  next hst =>
    split
    next hidle => exact hgo hst rfl
    next hwriter =>
      refine toExit_lt_of_left rfl (.inl ?_)
      have hleft : ∀ s' : Program, s'.stage = .storing →
          s'.left.1 = s'.threads.memory.writer.toIdle telemetry := by
        intro s' hs'
        simp only [left, hs']
      rw [hleft s hst, hleft { s with threads := s.threads.act .store } hst]
      exact Seqlock.toIdle_written hwriter
  next hst => exact hgo hst rfl
  next hst => exact hgo hst rfl
  next hst => exact hgo hst rfl
  next hst => exact hgo hst rfl
  next hst => split <;> exact hgo hst rfl
  next hst =>
    rw [if_pos (hjoin hst)]
    exact hgo hst rfl
  next hst => exact hgo hst rfl
  next hst => exact hgo hst rfl
  next hst => exact hgo hst rfl
  next hst => exact hgo hst rfl
  next hst => exact hgo hst rfl
  next hst => exact absurd hst hexited

/-! ## Everyone else -/

/-- What does not concern the main thread leaves the rank and who is next
alone. -/
theorem toExit_congr (s s' : Program) (hstage : s'.stage = s.stage)
    (hleft : s'.left = s.left)
    (hmain : s'.process.pending .main = s.process.pending .main)
    (hchain : s'.process.pending .chain = s.process.pending .chain)
    (hsessions : s'.process.pending .sessions = s.process.pending .sessions)
    (htelemetry : Awaits s.stage →
      s'.process.pending .telemetry = s.process.pending .telemetry)
    (hworker : s.stage = .joining → s'.threads.worker = s.threads.worker) :
    s'.toExit = s.toExit ∧ s'.next = s.next := by
  by_cases hawaits : Awaits s.stage
  · have ht := htelemetry hawaits
    refine ⟨?_, ?_⟩
    · unfold toExit waiting
      rw [hstage, hleft, hmain, hchain, hsessions, ht]
    · unfold next
      rw [hstage, hmain, hchain, hsessions, ht]
      by_cases hjoin : s.stage = .joining
      · rw [hworker hjoin]
      · simp only [hjoin, false_and, if_false]
  · have hjoin : s.stage ≠ .joining := fun h => hawaits (.inl h)
    refine ⟨?_, ?_⟩
    · unfold toExit waiting
      rw [hstage, hleft, hmain, hchain, hsessions, if_neg hawaits,
        if_neg hawaits]
    · unfold next
      rw [hstage, hmain, hchain, hsessions]
      simp only [hawaits, hjoin, false_and, if_false]

/-- **What the one who is next can do.** -/
def Due (s : Program) : Actor → Prop
  | .main => s.Ready ∧ (s.stage = .joining → s.threads.worker = .ended)
  | .worker => s.stage = .joining ∧ s.threads.worker ≠ .ended
    ∧ s.process.pending .telemetry = []
  | .call k => s.process.pending k ≠ [] ∧ (k = .telemetry → Awaits s.stage)

theorem due_next (s : Program) : s.Due s.next := by
  unfold next
  split
  next h => exact ⟨h, nofun⟩
  next hmain =>
  split
  next h => exact ⟨h, nofun⟩
  next hchain =>
  split
  next h => exact ⟨h, nofun⟩
  next hsessions =>
  split
  next h => exact ⟨h.2, fun _ => h.1⟩
  next htelemetry =>
  have hdrained : Awaits s.stage → s.process.pending .telemetry = [] :=
    fun ha => not_not.mp fun hp => htelemetry ⟨ha, hp⟩
  split
  next h => exact ⟨h.1, h.2, hdrained (.inl h.1)⟩
  next hworker =>
    exact ⟨⟨not_not.mp hmain, not_not.mp hchain, not_not.mp hsessions,
      hdrained⟩, fun hj => not_not.mp fun he => hworker ⟨hj, he⟩⟩

/-- **What a step comes to**: the rank gets lower, or nothing changes that
matters and who is next is not the one. -/
def Steps (s : Program) (a : ProgramAction) : Prop :=
  (s.act a).toExit < s.toExit
    ∨ (s.act a).toExit = s.toExit ∧ (s.act a).next = s.next
      ∧ ¬ serves s.next a

/-- A step that changes nothing. -/
theorem steps_of_eq {a : ProgramAction} (h : s.act a = s)
    (hnext : ¬ serves s.next a) : s.Steps a :=
  .inr ⟨by rw [h], by rw [h], hnext⟩

/-- **A step of the main thread.** -/
theorem steps_main (hs : s.Serves) (hending : s.Ending)
    (hexited : s.stage ≠ .exited) (e : MainStep) : s.Steps (.main e) := by
  have hdue := s.due_next
  by_cases hready : s.Ready
  · have hact : s.act (.main e) = s.main e := act_main hready e
    by_cases hjoin : s.stage = .joining → s.threads.worker = .ended
    · exact .inl (hact ▸ toExit_main hs hending hexited hjoin e)
    · obtain ⟨hst, hworker⟩ := Classical.not_imp.mp hjoin
      refine steps_of_eq ?_ fun hserves => ?_
      · rw [hact]
        simp only [Program.main, hst, hworker, if_false]
      · cases hnext : s.next with
        | main =>
          rw [hnext] at hdue
          exact hjoin hdue.2
        | _ =>
          rw [hnext] at hserves
          exact hserves
  · refine steps_of_eq (if_neg hready) fun hserves => ?_
    cases hnext : s.next with
    | main =>
      rw [hnext] at hdue
      exact hready hdue.1
    | _ =>
      rw [hnext] at hserves
      exact hserves

/-- **A call that is made.** -/
theorem steps_call (k : ProgramPart) : s.Steps (.call k) := by
  have hdue := s.due_next
  have hserves : serves s.next (.call k) → s.next = .call k := by
    intro h
    cases hnext : s.next with
    | call j =>
      rw [hnext] at h
      exact congrArg Actor.call h.symm
    | _ =>
      rw [hnext] at h
      exact h.elim
  cases hpending : s.process.pending k with
  | nil =>
    refine steps_of_eq ?_ fun h => ?_
    · show { s with process := s.process.call k } = s
      unfold Process.call
      rw [hpending]
    · rw [hserves h] at hdue
      exact hdue.1 hpending
  | cons c cs =>
    have hcall : (s.act (.call k)).process.pending
        = Function.update s.process.pending k cs := by
      show (s.process.call k).pending = _
      unfold Process.call
      rw [hpending]
    by_cases hk : k = .telemetry ∧ ¬ Awaits s.stage
    · obtain ⟨rfl, hawaits⟩ := hk
      have hother : ∀ j, j ≠ .telemetry →
          (s.act (.call .telemetry)).process.pending j = s.process.pending j :=
        fun j hj => by rw [hcall, Function.update_of_ne hj]
      obtain ⟨hrank, hnext⟩ := toExit_congr s (s.act (.call .telemetry)) rfl
        rfl (hother .main (by decide)) (hother .chain (by decide))
        (hother .sessions (by decide)) (fun h => absurd h hawaits) fun _ => rfl
      refine .inr ⟨hrank, hnext, fun h => ?_⟩
      rw [hserves h] at hdue
      exact hawaits (hdue.2 rfl)
    · refine .inl (toExit_lt_iff.mpr (.inr ⟨rfl, .inr ⟨rfl, .inr ⟨rfl, ?_⟩⟩⟩))
      have hlength := congrArg List.length hpending
      rw [List.length_cons] at hlength
      have hstage : (s.act (.call k)).stage = s.stage := rfl
      unfold waiting
      rw [hcall, hstage]
      cases k with
      | telemetry =>
        have hawaits : Awaits s.stage := not_not.mp fun h => hk ⟨rfl, h⟩
        simp only [if_pos hawaits, Function.update_self, ne_eq, reduceCtorEq,
          not_false_eq_true, Function.update_of_ne]
        omega
      | _ =>
        simp only [Function.update_self, ne_eq, reduceCtorEq,
          not_false_eq_true, Function.update_of_ne]
        omega

/-- The worker makes no difference to a stage that does not wait for it. -/
theorem left_work (hst : s.stage ≠ .joining) (step : Telemetry.WorkerStep) :
    (s.work step).left = s.left := by
  have hwriter : (s.work step).threads.memory.writer
      = s.threads.memory.writer := (s.threads.main_work step).2
  have hworld : (s.work step).world = s.world := rfl
  have hstage : (s.work step).stage = s.stage := rfl
  unfold left
  rw [hwriter, hworld, hstage]
  cases hs : s.stage with
  | joining => exact absurd hs hst
  | serving todo => cases todo <;> rfl
  | _ => rfl

/-- **A step of the worker.** -/
theorem steps_worker (hp : s.Placed) (step : Telemetry.WorkerStep) :
    s.Steps (.worker step) := by
  have hdue := s.due_next
  have hserves : serves s.next (.worker step) → s.stage = .joining
      ∧ s.threads.worker ≠ .ended ∧ s.process.pending .telemetry = [] := by
    intro h
    cases hnext : s.next with
    | worker =>
      rw [hnext] at hdue
      exact hdue
    | _ =>
      rw [hnext] at h
      exact h.elim
  by_cases hgo : s.workerStarted = true ∧ s.process.pending .telemetry = []
  · have hact : s.act (.worker step) = s.work step := if_pos hgo
    have hother : ∀ j, j ≠ .telemetry →
        (s.work step).process.pending j = s.process.pending j :=
      fun j hj => Function.update_of_ne hj _ _
    by_cases hworking : s.stage = .joining ∧ s.threads.worker ≠ .ended
    · -- the main thread waits for it
      obtain ⟨hst, hworker⟩ := hworking
      have hserving : s.threads.main ≠ .serving := by
        rw [(hp.joining hst).1]
        decide
      obtain ⟨hrunning, hidle⟩ := hp.served.idle hserving
      have hend := (Telemetry.Threads.toEnd_work hrunning
        (hp.served.writer.even (by decide) hidle) step).1
      have hpos : 0 < s.threads.toEnd := by
        unfold Telemetry.Threads.toEnd
        split
        next h => exact absurd h hworker
        next => exact Nat.zero_lt_one
        next => exact Nat.succ_pos _
      refine .inl (hact ▸ toExit_lt_of_left rfl (.inl ?_))
      have hleft : ∀ s' : Program, s'.stage = .joining →
          s'.left.1 = s'.threads.toEnd := fun s' hs' => by
        simp only [left, hs']
      rw [hleft s hst, hleft (s.work step) hst]
      show (s.threads.work step).toEnd < _
      omega
    by_cases hst : s.stage = .joining
    · -- it has ended
      have hended : s.threads.worker = .ended :=
        not_not.mp fun h => hworking ⟨hst, h⟩
      refine steps_of_eq ?_ fun h => (hserves h).2.1 hended
      have hcalls : s.workCalls step = [] := by
        simp only [workCalls, hended]
      have hthreads : s.threads.act (.work step) = s.threads := by
        simp only [Telemetry.Threads.act, Telemetry.Threads.work, hended]
      rw [hact]
      unfold work issue
      rw [hcalls, hthreads, Process.issue_nil]
    · -- nobody waits for it
      have hstage : s.stage ≠ .closeTelemetry := fun h => by
        have := hp.unstarted (h ▸ by decide)
        rw [hgo.1] at this
        exact Bool.noConfusion this
      have hawaits : ¬ Awaits s.stage := fun h => h.elim hst hstage
      obtain ⟨hrank, hnext⟩ := toExit_congr s (s.work step) rfl
        (left_work hst step) (hother .main (by decide))
        (hother .chain (by decide)) (hother .sessions (by decide))
        (fun h => absurd h hawaits) fun h => absurd h hst
      exact .inr ⟨hact ▸ hrank, hact ▸ hnext, fun h => hst (hserves h).1⟩
  · refine steps_of_eq (if_neg hgo) fun h => ?_
    obtain ⟨hst, _, hpending⟩ := hserves h
    exact hgo ⟨(hp.joining hst).2, hpending⟩

/-- **Every step gets the program closer to its end**, or leaves who is next
to wait for a turn. -/
theorem steps_act (hs : s.Serves) (hp : s.Placed) (hending : s.Ending)
    (hexited : s.stage ≠ .exited) (a : ProgramAction) : s.Steps a := by
  cases a with
  | main e => exact steps_main hs hending hexited e
  | worker step => exact steps_worker hp step
  | call k => exact steps_call k
  | signal =>
    have hnot : ¬ serves s.next .signal := by
      cases s.next <;> exact id
    by_cases hst : s.stage = .handlers
    · exact steps_of_eq (if_pos hst) hnot
    · have hact : s.act .signal = { s with world := s.world.setServer fun v =>
          { v with running := false } } := if_neg hst
      rw [Steps, hact]
      exact .inr ⟨rfl, rfl, hnot⟩

/-! ## The way to the end -/

/-- It is told to end. -/
theorem running_signal (h : s.stage ≠ .handlers) :
    (s.act .signal).world.server.running = false := by
  simp only [Program.act, if_neg h]
  rfl

/-- It stays where it has ended. -/
theorem exited_act (h : s.stage = .exited) (a : ProgramAction) :
    (s.act a).stage = .exited := by
  cases a with
  | main e =>
    simp only [Program.act, Program.main, h]
    split <;> exact h
  | worker step =>
    simp only [Program.act]
    split <;> exact h
  | call k => exact h
  | signal =>
    simp only [Program.act]
    split <;> exact h

/-- **The program stays on its way.** -/
theorem Ending.act (h : s.Ending) (hs : s.Serves) (hp : s.Placed)
    (a : ProgramAction) : (s.act a).Ending := by
  rcases id h with hrunning | hlate
  · left
    cases a with
    | main e =>
      simp only [Program.act]
      split
      · exact (running_main hs e).trans hrunning
      · exact hrunning
    | worker step =>
      simp only [Program.act]
      split <;> exact hrunning
    | call k => exact hrunning
    | signal =>
      simp only [Program.act]
      split
      · exact hrunning
      · rfl
  · right
    by_cases hexited : s.stage = .exited
    · rw [exited_act hexited a]
      decide
    · rcases steps_act hs hp h hexited a with hlt | ⟨heq, _⟩
      · exact ((toExit_lt_iff.mp hlt).elim Nat.le_of_lt
          fun h => le_of_eq h.1).trans hlate
      · have hrank : (s.act a).stage.rank = s.stage.rank :=
          congrArg (fun b => (ofLex b).1) heq
        exact hrank.trans_le hlate

/-- **Nothing is left to be called** at the end. -/
structure Drained (s : Program) : Prop where
  /-- For the telemetry clients, once they are removed. -/
  telemetry : s.stage.rank ≤ 4 → s.process.pending .telemetry = []
  /-- For everything else. -/
  rest : s.stage = .exited → s.process.pending .main = []
    ∧ s.process.pending .chain = [] ∧ s.process.pending .sessions = []

/-- A step of the main thread keeps it so. -/
theorem Drained.main (h : s.Drained) (hready : s.Ready) (e : MainStep) :
    (s.main e).Drained := by
  have hearly : ∀ {s' : Program}, (4 + 1).ble s'.stage.rank = true →
      s'.Drained := fun hlt => by
    have hlt := Nat.le_of_ble_eq_true hlt
    refine ⟨fun hr => absurd (hlt.trans hr) (by decide), fun hst => ?_⟩
    rw [hst] at hlt
    exact absurd hlt (by decide)
  have hlate : ∀ {s' : Program}, s.stage.rank ≤ 4 → s'.stage ≠ .exited →
      s'.process.pending .telemetry = s.process.pending .telemetry →
      s'.Drained := fun hr hne ht =>
    ⟨fun _ => ht.trans (h.telemetry hr), fun hst => absurd hst hne⟩
  have hlistener : ∀ (s : Program) mode,
      (s.closeListener mode).process.pending .telemetry
        = s.process.pending .telemetry := fun s mode => by
    unfold closeListener
    split <;> rfl
  unfold Program.main
  split
  next => split <;> exact hearly rfl
  next => split <;> exact hearly rfl
  next =>
    dsimp only
    split <;> exact hearly rfl
  next =>
    dsimp only
    split <;> exact hearly rfl
  next =>
    dsimp only
    split <;> exact hearly rfl
  next =>
    dsimp only
    split <;> exact hearly rfl
  next =>
    dsimp only
    split <;> exact hearly rfl
  next => split <;> exact hearly rfl
  next => split <;> exact hearly rfl
  next => exact hearly rfl
  next => exact hearly rfl
  next => exact hearly rfl
  next => exact hearly rfl
  next => exact hearly rfl
  next hst =>
    split
    · exact hearly rfl
    · refine hearly ?_
      show (4 + 1).ble s.stage.rank = true
      rw [hst]
      rfl
  next => exact hearly rfl
  next => exact hearly rfl
  next => exact hearly rfl
  next => exact hearly rfl
  next => split <;> exact hearly rfl
  next =>
    split
    · exact hearly rfl
    · exact h
  next hst =>
    refine ⟨fun _ => ?_, nofun⟩
    show s.closeTelemetryListener.process.pending .telemetry = []
    unfold closeTelemetryListener
    split <;> exact hready.2.2.2 (.inr hst)
  next hst =>
    refine hlate (by rw [hst]; decide) nofun ?_
    exact (hlistener _ .pool).trans (hlistener s .solo)
  next hst => exact hlate (by rw [hst]; decide) nofun rfl
  next hst =>
    refine hlate (by rw [hst]; decide) nofun ?_
    split <;> rfl
  next hst =>
    exact ⟨fun _ => h.telemetry (by rw [hst]; decide),
      fun _ => ⟨hready.1, hready.2.1, hready.2.2.1⟩⟩
  next => exact h

/-- Every step does. -/
theorem Drained.act (h : s.Drained) (hp : s.Placed) (a : ProgramAction) :
    (s.act a).Drained := by
  cases a with
  | main e =>
    simp only [Program.act]
    split
    next hready => exact h.main hready e
    next => exact h
  | worker step =>
    simp only [Program.act]
    split
    next hgo =>
      -- it is not started at the end
      have hlate : ∀ {n : ℕ}, n ≤ 5 → ¬ s.stage.rank ≤ n := fun hn hr => by
        have := hp.unstarted (.inr (hr.trans hn))
        rw [hgo.1] at this
        exact Bool.noConfusion this
      refine ⟨fun hr => absurd hr (hlate (by decide)), fun hst => ?_⟩
      have hst : s.stage = .exited := hst
      exact absurd (le_of_eq (congrArg Stage.rank hst)) (hlate (Nat.zero_le 5))
    next => exact h
  | call k =>
    refine ⟨fun hr => Process.pending_call (h.telemetry hr) k, fun hst => ?_⟩
    obtain ⟨hmain, hchain, hsessions⟩ := h.rest hst
    exact ⟨Process.pending_call hmain k, Process.pending_call hchain k,
      Process.pending_call hsessions k⟩
  | signal =>
    simp only [Program.act]
    split
    · exact h
    · exact ⟨h.telemetry, h.rest⟩

/-- **In every run** everything is where it should be, and nothing is left to be
called at the end. -/
theorem drained_of_run (h : s.Start inherited) (as : List ProgramAction) :
    ((program inherited).run s as).Drained := by
  have hstart : s.Drained := by
    refine ⟨fun hr => ?_, fun hst => ?_⟩
    · rw [h.stage.1] at hr
      exact absurd hr (by decide)
    · rw [h.stage.1] at hst
      cases hst
  exact ((program inherited).run_induction (P := fun s => s.Placed ∧ s.Drained)
    (fun s a hs => ⟨hs.1.act a, hs.2.act hs.1 a⟩)
    ⟨placed_start h, hstart⟩ as).2

/-- **A program that nothing kills** ends under every fair schedule, once it has
been told to. -/
theorem exits_of_fair (h : (program inherited).Start s)
    {schedule : ℕ → ProgramAction} (hfair : Machine.Fair serves schedule)
    {n : ℕ} (hends : schedule n = .signal
        ∧ ((program inherited).trajectory s schedule n).stage ≠ .handlers
      ∨ ((program inherited).trajectory s schedule n).stage = .sessions) :
    ∃ m, ∀ i, m ≤ i →
      let s' := (program inherited).trajectory s schedule i
      s'.stage = .exited ∧ (∀ k, s'.process.pending k = [])
        ∧ (inherited.Nodup → 0 ∈ inherited →
          s'.process.table.opened.Perm (inherited.erase 0)) := by
  have hinv : ∀ i, ((program inherited).trajectory s schedule i).Serves
      ∧ ((program inherited).trajectory s schedule i).Placed :=
    fun i => placed_of_run h _
  -- from some time on it is on its way
  obtain ⟨n', hending⟩ : ∃ n',
      ((program inherited).trajectory s schedule n').Ending := by
    rcases hends with ⟨hsignal, hst⟩ | hst
    · refine ⟨n + 1, .inl ?_⟩
      rw [Machine.trajectory_succ, hsignal]
      exact running_signal hst
    · exact ⟨n, .inr (by rw [hst]; decide)⟩
  have hact : ∀ (s : Program) (a : ProgramAction),
      s.Serves ∧ s.Placed ∧ s.Ending →
        (s.act a).Serves ∧ (s.act a).Placed ∧ (s.act a).Ending :=
    fun s a hs => ⟨hs.1.act a, hs.2.1.act a, hs.2.2.act hs.1 hs.2.1 a⟩
  have hstep : ∀ (s : Program) (a : ProgramAction),
      s.Serves ∧ s.Placed ∧ s.Ending → ¬ s.stage = .exited →
        (s.act a).stage = .exited ∨ s.Steps a :=
    fun s a hs hexited => .inr (steps_act hs.1 hs.2.1 hs.2.2 hexited a)
  obtain ⟨m, hexited⟩ := hfair.eventually (M := program inherited) hact hstep
    ⟨(hinv n').1, (hinv n').2, hending⟩
  refine ⟨m, fun i hi => ?_⟩
  have hst : ((program inherited).trajectory s schedule i).stage = .exited :=
    Machine.trajectory_induction (I := fun s : Program => s.stage = .exited)
      (fun s a hs => exited_act hs a) hexited i hi
  have hpending : ∀ k,
      ((program inherited).trajectory s schedule i).process.pending k = [] := by
    have hd : ((program inherited).trajectory s schedule i).Drained :=
      drained_of_run h _
    obtain ⟨hmain, hchain, hsessions⟩ := hd.rest hst
    intro k
    cases k with
    | main => exact hmain
    | chain => exact hchain
    | sessions => exact hsessions
    | telemetry => exact hd.telemetry (by rw [hst]; decide)
  refine ⟨hst, hpending, fun hn h0 => ?_⟩
  have hbooks : ((program inherited).trajectory s schedule i).Books
      (inherited.erase 0) := books_of_run hn h0 h _
  exact hbooks.balanced.opened_of_free fun o ho =>
    (hinv i).2.exited hst o ((hbooks.drained (hpending o.part)).mp ho)

/-- Nothing kills it once `main` has returned. -/
theorem kills_of_exited (hp : s.Placed) (h : s.stage = .exited)
    (a : ProgramAction) : s.kills a = false := by
  cases a with
  | main e =>
    have hmain : s.main e = s := by
      unfold Program.main
      rw [h]
    have hsent : sendFailed s.world s.world = false := by
      unfold sendFailed
      dsimp only
      rw [Nat.sub_self]
      rfl
    simp only [kills, hmain, hsent, Bool.and_false]
  | worker step =>
    have hstarted : s.workerStarted = false :=
      hp.unstarted (.inr (by rw [h]; decide))
    simp only [kills, hstarted, Bool.false_and]
  | call k => rfl
  | signal => rfl

end Program

/-- **The program ends, and leaves nothing behind**, or a broken pipe ends it.
Take any schedule that gives the main thread, the telemetry worker and the calls
of every part turns again and again. If SIGINT or SIGTERM comes at some time
behind the installation of the handlers, wherever the main thread and the worker
are, or if startup fails, then `main` returns: from some time on it has, no call
is left to be made, and what is open is what was open at the start, except for
0 (if 0 was among it). Otherwise there is a step before it that SIGPIPE has
killed the process in. -/
theorem program_exits {inherited : List ℕ} {s : Program}
    (h : (program inherited).Start s) {schedule : ℕ → ProgramAction}
    (hfair : Machine.Fair Program.serves schedule) {n : ℕ} {s₁ : Program}
    (hlives : (mortalProgram inherited).trajectory (some s) schedule n
      = some s₁)
    (hends : schedule n = .signal ∧ s₁.stage ≠ .handlers
      ∨ s₁.stage = .sessions) :
    (∃ m, ∀ i, m ≤ i → ∃ s',
        (mortalProgram inherited).trajectory (some s) schedule i = some s'
          ∧ s'.stage = .exited ∧ (∀ k, s'.process.pending k = [])
          ∧ (inherited.Nodup → 0 ∈ inherited →
            s'.process.table.opened.Perm (inherited.erase 0)))
      ∨ ∃ j, ((program inherited).trajectory s schedule j).stage ≠ .exited
        ∧ ((program inherited).trajectory s schedule j).kills (schedule j) = true
        ∧ ∀ i, j < i →
          (mortalProgram inherited).trajectory (some s) schedule i = none := by
  obtain rfl := Machine.eq_run_of_mortal hlives
  rcases (program inherited).trajectory_mortal s schedule
    with halive | ⟨j, hk, hdead⟩
  · obtain ⟨m, hm⟩ := Program.exits_of_fair h hfair hends
    exact .inl ⟨m, fun i hi => ⟨_, halive i, hm i hi⟩⟩
  · refine .inr ⟨j, fun hst => ?_, hk, hdead⟩
    have hp : ((program inherited).trajectory s schedule j).Placed :=
      (Program.placed_of_run h _).2
    rw [Program.kills_of_exited hp hst] at hk
    cases hk

/-- Turns for everyone, one after the other, where nothing that is asked for
succeeds. -/
def roundRobin (n : ℕ) : ProgramAction :=
  match n % 6 with
  | 0 => .main ⟨false, false, fun _ => none, ⟨[], fun _ => 0⟩, 0, false⟩
  | 1 => .worker Telemetry.quietStep
  | 2 => .call .main
  | 3 => .call .chain
  | 4 => .call .sessions
  | _ => .call .telemetry

/-- The turns are fair. -/
theorem fair_roundRobin : Machine.Fair Program.serves roundRobin := by
  have hmod : ∀ n r : ℕ, r < 6 → (6 * n + r) % 6 = r := fun n r hr => by omega
  intro k n
  cases k with
  | main =>
    refine ⟨6 * n + 0, by omega, ?_⟩
    simp only [roundRobin, hmod n 0 (by decide)]
    trivial
  | worker =>
    refine ⟨6 * n + 1, by omega, ?_⟩
    simp only [roundRobin, hmod n 1 (by decide)]
    trivial
  | call k =>
    cases k with
    | main =>
      refine ⟨6 * n + 2, by omega, ?_⟩
      simp only [roundRobin, hmod n 2 (by decide)]
      rfl
    | chain =>
      refine ⟨6 * n + 3, by omega, ?_⟩
      simp only [roundRobin, hmod n 3 (by decide)]
      rfl
    | sessions =>
      refine ⟨6 * n + 4, by omega, ?_⟩
      simp only [roundRobin, hmod n 4 (by decide)]
      rfl
    | telemetry =>
      refine ⟨6 * n + 5, by omega, ?_⟩
      simp only [roundRobin, hmod n 5 (by decide)]
      rfl

/-- The turns of a visit, and then turns for everyone. -/
def visitSchedule (n : ℕ) : ProgramAction := visit[n]?.getD (roundRobin n)

/-- The turns are fair. -/
theorem fair_visitSchedule : Machine.Fair Program.serves visitSchedule := by
  intro k n
  obtain ⟨m, hm, hserves⟩ := fair_roundRobin k (max n visit.length)
  obtain ⟨hn, hlen⟩ := max_le_iff.mp hm
  refine ⟨m, hn, ?_⟩
  unfold visitSchedule
  rw [List.getElem?_eq_none hlen]
  exact hserves

/-- They begin with the visit. -/
theorem map_visitSchedule :
    (List.range visit.length).map visitSchedule = visit := by
  refine List.ext_getElem (by simp) fun i hi hi' => ?_
  rw [List.getElem_map, List.getElem_range, visitSchedule,
    List.getElem?_eq_getElem hi']
  rfl

/-- The main thread meets no broken pipe in it. -/
theorem kills_luckyStep (s : Program) : s.kills (.main luckyStep) = false := by
  simp only [Program.kills, luckyStep, Bool.and_false, Bool.false_and]

/-- **Nothing kills the program there.** -/
theorem trajectory_visitSchedule (i : ℕ) :
    (mortalProgram [0, 1, 2]).trajectory (some programVisited) visitSchedule i
      = some ((program [0, 1, 2]).trajectory programVisited visitSchedule i) := by
  have hconfig : (mortalProgram [0, 1, 2]).run (some programVisited) visitConfig
      = some programConfigured := by
    rw [← run_visitConfig]
    refine Machine.run_mortal_of_forall fun a ha s => ?_
    simp only [visitConfig, List.mem_cons, List.not_mem_nil, or_false] at ha
    rcases ha with rfl | rfl | rfl | rfl
    · exact kills_luckyStep s
    · exact kills_luckyStep s
    · rfl
    · exact kills_luckyStep s
  have hvisit : (mortalProgram [0, 1, 2]).trajectory (some programVisited)
      visitSchedule visit.length = (mortalProgram [0, 1, 2]).run
        (some programConfigured) (visitMiner ++ visitTelemetry ++ visitEnd) := by
    unfold Machine.trajectory
    rw [map_visitSchedule, visit, Machine.run_append, hconfig]
  have hlives : ((mortalProgram [0, 1, 2]).run (some programConfigured)
      (visitMiner ++ visitTelemetry ++ visitEnd)).isSome = true := by
    decide +kernel
  have hexited : ((program [0, 1, 2]).trajectory programVisited visitSchedule
      visit.length).stage = .exited := by
    unfold Machine.trajectory
    rw [map_visitSchedule, visit, run_visit]
    decide +kernel
  rcases (program [0, 1, 2]).trajectory_mortal programVisited visitSchedule
    with halive | ⟨j, hk, hdead⟩
  · exact halive i
  · exfalso
    rcases Nat.lt_or_ge j visit.length with hj | hj
    · rw [← hvisit, show (mortalProgram [0, 1, 2]).trajectory _ _ _ = none from
        hdead _ hj] at hlives
      cases hlives
    · have hst := Machine.trajectory_induction (M := program [0, 1, 2])
        (I := fun s : Program => s.stage = .exited)
        (fun s a hs => Program.exited_act hs a) hexited j hj
      have hp : ((program [0, 1, 2]).trajectory programVisited visitSchedule
        j).Placed := (Program.placed_of_run start_programVisited _).2
      rw [Program.kills_of_exited hp hst] at hk
      cases hk

/-- **The program ends behind a visit**, in which there is a signal. -/
theorem program_exits_visit :
    ∃ m, ∀ i, m ≤ i → ∃ s', (mortalProgram [0, 1, 2]).trajectory
        (some programVisited) visitSchedule i = some s'
      ∧ s'.stage = .exited ∧ s'.process.table.opened.Perm [1, 2] := by
  have hsignal : visitSchedule 64 = .signal := rfl
  have hst : ((program [0, 1, 2]).trajectory programVisited visitSchedule
      64).stage = .serving [0] := by
    have hturns : (List.range 64).map visitSchedule
        = visitConfig ++ (visitMiner ++ visitTelemetry) := by
      rfl
    unfold Machine.trajectory
    rw [hturns, run_visit]
    decide +kernel
  rcases program_exits start_programVisited fair_visitSchedule
    (trajectory_visitSchedule 64)
    (.inl ⟨hsignal, by rw [hst]; exact Stage.noConfusion⟩)
    with ⟨m, hm⟩ | ⟨j, _, _, hdead⟩
  · refine ⟨m, fun i hi => ?_⟩
    obtain ⟨s', hs', hexited, _, hopened⟩ := hm i hi
    exact ⟨s', hs', hexited, hopened (by decide) (by decide)⟩
  · have hlives := trajectory_visitSchedule (j + 1)
    rw [hdead _ (Nat.lt_succ_self j)] at hlives
    cases hlives
