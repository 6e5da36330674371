import StnStratum.ProgramStages

/-!
# What the program reports

A step of the program is a step of one of the two threads of `TelemetryThreads`
or leaves them alone (`TelemetryStep`), and a publication begins in
`telemetry_tick` only, with what the server is like then. So what is proved
about the threads is true of them in the program, and whatever is told to
anyone is the status of a server that `turns` can reach, or all zeros before
the first is published (`program_reports`).
-/

namespace Program

variable {s s' : Program} {inherited : List ℕ}

/-! ## Every step -/

/-- **What a step does to the telemetry.** -/
inductive TelemetryStep (s s' : Program) : Prop where
  /-- Nothing. -/
  | quiet (startedAt : s'.startedAt = s.startedAt)
    (reports : s'.reports = s.reports) (threads : s'.threads = s.threads)
  /-- A step of one of its threads that publishes nothing. -/
  | thread (a : Telemetry.ThreadAction) (ha : ∀ status, a ≠ .publish status)
    (startedAt : s'.startedAt = s.startedAt) (reports : s'.reports = s.reports)
    (threads : s'.threads = s.threads.act a)
  /-- The beginning of a publication. -/
  | publish (e : MainStep) (stage : s.stage = .publishing)
    (startedAt : s'.startedAt = s.startedAt)
    (reports : s'.reports = s.reports ++ [(s.world.server, e.heap, e.now)])
    (threads : s'.threads = s.threads.act (.publish
      (s.world.server.telemetryStatus e.heap s.startedAt e.now)))

/-- Closing the listeners is none of them. -/
theorem telemetryStep_closeListener (h : TelemetryStep s s')
    (mode : ServiceMode) : TelemetryStep s (s'.closeListener mode) := by
  unfold closeListener
  split
  · cases h with
    | quiet h₁ h₂ h₃ => exact .quiet h₁ h₂ h₃
    | thread a ha h₁ h₂ h₃ => exact .thread a ha h₁ h₂ h₃
    | publish e hst h₁ h₂ h₃ => exact .publish e hst h₁ h₂ h₃
  · exact h

theorem telemetryStep_closeTelemetryListener (s : Program) :
    TelemetryStep s s.closeTelemetryListener := by
  unfold closeTelemetryListener
  split <;> exact .quiet rfl rfl rfl

theorem telemetryStep_closeListeners (h : TelemetryStep s s') :
    TelemetryStep s s'.closeListeners :=
  telemetryStep_closeListener (telemetryStep_closeListener h .solo) .pool

/-- **Every step of the main thread is one of them.** -/
theorem telemetryStep_main (s : Program) (e : MainStep) :
    TelemetryStep s (s.main e) := by
  have hquiet : TelemetryStep s s := .quiet rfl rfl rfl
  have haccept : ∀ mode, TelemetryStep s (s.accept mode e) := fun mode => by
    unfold accept
    dsimp only
    split <;> exact .quiet rfl rfl rfl
  have hgo : ∀ {s' : Program} (st : Stage), TelemetryStep s s' →
      TelemetryStep s (s'.goTo st) := fun st h => by
    cases h with
    | quiet h₁ h₂ h₃ => exact .quiet h₁ h₂ h₃
    | thread a ha h₁ h₂ h₃ => exact .thread a ha h₁ h₂ h₃
    | publish e hst h₁ h₂ h₃ => exact .publish e hst h₁ h₂ h₃
  unfold Program.main
  split
  next => split <;> exact hgo _ hquiet
  next => split <;> exact .quiet rfl rfl rfl
  next =>
    dsimp only
    split <;> exact .quiet rfl rfl rfl
  next =>
    dsimp only
    split <;> exact .quiet rfl rfl rfl
  next =>
    dsimp only
    split <;> exact .quiet rfl rfl rfl
  next =>
    have hopen : TelemetryStep s (s.openListener .solo e) := .quiet rfl rfl rfl
    dsimp only
    split
    · exact .quiet rfl rfl rfl
    · exact hgo _ (telemetryStep_closeListener hopen .pool)
  next =>
    dsimp only
    split
    · exact .quiet rfl rfl rfl
    · exact hgo _ (telemetryStep_closeListeners (.quiet rfl rfl rfl))
  next =>
    split
    · exact .quiet rfl rfl rfl
    · exact hgo _ (telemetryStep_closeListeners
        (telemetryStep_closeTelemetryListener s))
  next => split <;> exact .quiet rfl rfl rfl
  next => exact hgo _ (haccept .pool)
  next => exact hgo _ (haccept .solo)
  next => exact hgo _ hquiet
  next => exact .quiet rfl rfl rfl
  next hst => exact .publish e hst rfl rfl rfl
  next =>
    split
    · exact hgo _ hquiet
    · exact .thread .store
        (fun _ => Telemetry.ThreadAction.noConfusion) rfl rfl rfl
  next => exact .quiet rfl rfl rfl
  next => exact .quiet rfl rfl rfl
  next => exact .quiet rfl rfl rfl
  next => exact .quiet rfl rfl rfl
  next =>
    split
    · exact .thread .close
        (fun _ => Telemetry.ThreadAction.noConfusion) rfl rfl rfl
    · exact hgo _ hquiet
  next =>
    split
    · exact .thread .join
        (fun _ => Telemetry.ThreadAction.noConfusion) rfl rfl rfl
    · exact hquiet
  next => exact hgo _ (telemetryStep_closeTelemetryListener s)
  next => exact hgo _ (telemetryStep_closeListeners hquiet)
  next => exact .quiet rfl rfl rfl
  next => split <;> exact .quiet rfl rfl rfl
  next => exact hgo _ hquiet
  next => exact hquiet

/-- **So is every step of the program.** -/
theorem telemetryStep_act (s : Program) (a : ProgramAction) :
    TelemetryStep s (s.act a) := by
  have hquiet : TelemetryStep s s := .quiet rfl rfl rfl
  cases a with
  | main e =>
    simp only [Program.act]
    split
    · exact telemetryStep_main s e
    · exact hquiet
  | worker step =>
    simp only [Program.act]
    split
    · exact .thread (.work step)
        (fun _ => Telemetry.ThreadAction.noConfusion) rfl rfl rfl
    · exact hquiet
  | call k => exact .quiet rfl rfl rfl
  | signal =>
    simp only [Program.act]
    split
    · exact hquiet
    · exact .quiet rfl rfl rfl

/-! ## What comes of it -/

/-- The status that a report is. -/
def status (s : Program) (r : StratumServer WiredRpc × Heap × ℤ) :
    TelemetryStatus :=
  r.1.telemetryStatus r.2.1 s.startedAt r.2.2

/-- **What is published is what has been reported**, and that is the status of
a server that can be reached. -/
structure Reports (s : Program) : Prop where
  /-- What is published. -/
  publications : s.threads.memory.publications = s.reports.map s.status
  /-- The servers. -/
  reachable : ∀ r ∈ s.reports, ∃ w, (turns .linux wired).Reachable w
    ∧ w.server = r.1

/-- Every step keeps it so. -/
theorem Reports.step (h : s.Reports) (hs : s.Serves) (hp : s.Placed)
    (hstep : TelemetryStep s s') : s'.Reports := by
  have hstatus : s'.startedAt = s.startedAt → s'.status = s.status := by
    intro ht
    unfold status
    rw [ht]
  cases hstep with
  | quiet ht hr hthreads =>
    refine ⟨?_, hr ▸ h.reachable⟩
    rw [hthreads, hr, hstatus ht]
    exact h.publications
  | thread a ha ht hr hthreads =>
    refine ⟨?_, hr ▸ h.reachable⟩
    rw [hthreads, hr, hstatus ht, Telemetry.Threads.publications_act _ ha]
    exact h.publications
  | publish e hst ht hr hthreads =>
    have hmain := hp.serving (hst ▸ by decide)
    have hidle := hp.idle (hst ▸ nofun)
    refine ⟨?_, fun r hm => ?_⟩
    · rw [hthreads, hr, hstatus ht, List.map_append, ← h.publications]
      simp only [Telemetry.Threads.act, hmain, if_true]
      exact Seqlock.publications_begun hidle _
    · rw [hr] at hm
      rcases List.mem_append.mp hm with hm | hm
      · exact h.reachable r hm
      · rw [List.mem_singleton.mp hm]
        exact ⟨s.world, hs.2 (hst ▸ by decide) (hst ▸ by decide), rfl⟩

/-- **It is so in every run.** -/
theorem reports_of_run (h : s.Start inherited) (as : List ProgramAction) :
    ((program inherited).run s as).Reports := by
  have hstart : s.Reports := by
    refine ⟨?_, fun r hr => ?_⟩
    · rw [h.reports]
      unfold Seqlock.State.publications
      rw [h.threads.1.2.2.1, h.threads.1.2.2.2.2]
      rfl
    · rw [h.reports] at hr
      exact absurd hr List.not_mem_nil
  exact ((program inherited).run_induction (P := fun s => s.Serves ∧ s.Placed
    ∧ s.Reports) (fun s a hs => ⟨hs.1.act a, hs.2.1.act a, hs.2.2.step hs.1
      hs.2.1 (telemetryStep_act s a)⟩)
    ⟨serves_start h, placed_start h, hstart⟩ as).2.2

/-- **The threads are sound in every run** in which the passes of the reader are
short. -/
theorem sound_of_run (h : s.Start inherited) {as : List ProgramAction}
    (hpace : ∀ bs, bs <+: as →
      ((program inherited).run s bs).threads.memory.Unhurried) :
    ((program inherited).run s as).threads.Sound := by
  induction as using List.reverseRecOn with
  | nil => exact Telemetry.Threads.sound_start h.threads
  | append_singleton as a ih =>
    have hpre : as <+: as ++ [a] := List.prefix_append as [a]
    have hsound := ih fun bs hbs => hpace bs (hbs.trans hpre)
    rw [Machine.run_append]
    show (((program inherited).run s as).act a).threads.Sound
    cases telemetryStep_act ((program inherited).run s as) a with
    | quiet _ _ hthreads => exact hthreads ▸ hsound
    | thread b _ _ _ hthreads => exact hthreads ▸ hsound.act (hpace as hpre) b
    | publish e _ _ _ hthreads => exact hthreads ▸ hsound.act (hpace as hpre) _

/-- **In a run that is short itself**, every pass is. -/
theorem unhurried_of_short (h : s.Start inherited) {as : List ProgramAction}
    (hlen : as.length < 2 ^ 31) : ∀ bs, bs <+: as →
      ((program inherited).run s bs).threads.memory.Unhurried := by
  have hcount : ∀ bs : List ProgramAction,
      ((program inherited).run s bs).threads.memory.completed.length
        ≤ bs.length := by
    intro bs
    induction bs using List.reverseRecOn with
    | nil => exact le_of_eq (congrArg List.length h.threads.1.2.2.2.2)
    | append_singleton bs a ih =>
      rw [Machine.run_append, List.length_append, List.length_singleton]
      show (((program inherited).run s bs).act
        a).threads.memory.completed.length ≤ _
      have hact := fun b => (Telemetry.length_completed_threads
        ((program inherited).run s bs).threads b).trans (Nat.succ_le_succ ih)
      cases telemetryStep_act ((program inherited).run s bs) a with
      | quiet _ _ hthreads => exact hthreads ▸ Nat.le_succ_of_le ih
      | thread b _ _ _ hthreads => exact hthreads ▸ hact b
      | publish e _ _ _ hthreads => exact hthreads ▸ hact _
  intro bs hbs
  have hle := (hcount bs).trans hbs.length_le
  unfold Seqlock.State.Unhurried
  split
  next => omega
  next => omega
  next => trivial

end Program
