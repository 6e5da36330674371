import Mathlib.Data.List.Basic

/-!
# Fan-out

Somebody has a job, or none, and hands it to everybody who has signed on: to
those who have when a job comes up, and to those who come later when they
sign on. This is the fan-out as one of them sees it: the active job, where
the worker stands, and what has been sent to the worker so far. A worker may
leave at any time, also while a job is being sent.

`Fanned` is what is true of a fan-out at all times: a worker who has signed on
has the active job, and it is the last one that was sent. `During.sent_le` is
what it is for: while a job is the active one it is sent at most once.

Nothing is said about what a job is.
-/

namespace FanOut

/-- **Where a worker stands.** -/
inductive Worker (J : Type) where
  /-- Nothing is known of the worker yet. -/
  | absent
  /-- The worker has come. -/
  | new
  /-- The worker has signed on and has no job. -/
  | ready
  /-- The worker has signed on and has a job. -/
  | holds (job : J)
  /-- The worker has left. -/
  | gone
  deriving DecidableEq

/-- **A fan-out**, for one of the workers. -/
structure State (J : Type) where
  /-- The active job, if there is one. -/
  work : Option J
  /-- The worker. -/
  worker : Worker J
  /-- The jobs that have been sent to the worker. -/
  sent : List J

variable {J : Type}

/-- The worker without a job. -/
def Worker.clear : Worker J → Worker J
  | .holds _ => .ready
  | m => m

/-- **What is sent to a worker, and where the worker stands then**, when a job
is offered to everybody. -/
inductive Offer (j : J) : Worker J → Worker J → List J → Prop where
  /-- Nothing is sent to who has not signed on, or has left, or has the
  job. -/
  | keep {m : Worker J}
    (h : m = .absent ∨ m = .new ∨ m = .gone ∨ m = .holds j) : Offer j m m []
  /-- It is sent to who has no job, or another. The worker may leave. -/
  | send {m m' : Worker J} (h : m = .ready ∨ ∃ i, i ≠ j ∧ m = .holds i)
    (h' : m' = .holds j ∨ m' = .gone) : Offer j m m' [j]

/-- **What can happen in a fan-out.** The worker can only sign on if `on`. -/
inductive Step (on : Prop) : State J → State J → Prop where
  /-- Nothing that concerns the worker. -/
  | idle (s : State J) : Step on s s
  /-- The worker comes. -/
  | come {work : Option J} {sent : List J} :
    Step on ⟨work, .absent, sent⟩ ⟨work, .new, sent⟩
  /-- The worker leaves. -/
  | leave {work : Option J} {m : Worker J} {sent : List J}
    (h : m ≠ .absent) : Step on ⟨work, m, sent⟩ ⟨work, .gone, sent⟩
  /-- The worker signs on, and there is no job. -/
  | register (ho : on) {sent : List J} :
    Step on ⟨none, .new, sent⟩ ⟨none, .ready, sent⟩
  /-- The worker signs on and is sent the job. -/
  | welcome (ho : on) {j : J} {m : Worker J} {sent : List J}
    (h : m = .holds j ∨ m = .gone) :
    Step on ⟨some j, .new, sent⟩ ⟨some j, m, sent ++ [j]⟩
  /-- The job is withdrawn from everybody. The worker may have left. -/
  | clear {work : Option J} {m m' : Worker J} {sent : List J}
    (h : m' = m.clear ∨ m ≠ .absent ∧ m' = .gone) :
    Step on ⟨work, m, sent⟩ ⟨none, m', sent⟩
  /-- A job becomes the active one, or is it already, and is offered to
  everybody. -/
  | offer {work : Option J} {j : J} {m m' : Worker J} {sent new : List J}
    (h : Offer j m m' new) :
    Step on ⟨work, m, sent⟩ ⟨some j, m', sent ++ new⟩

variable {on : Prop}

/-- Signing on may be allowed more often. -/
theorem Step.mono {on' : Prop} {s s' : State J} (h : Step on s s')
    (ho : on → on') : Step on' s s' := by
  cases h with
  | idle => exact .idle _
  | come => exact .come
  | leave h => exact .leave h
  | register h => exact .register (ho h)
  | welcome h hm => exact .welcome (ho h) hm
  | clear h => exact .clear h
  | offer h => exact .offer h

/-- The fan-out without a job. -/
def State.clear (s : State J) : State J :=
  ⟨none, s.worker.clear, s.sent⟩

/-- **The worker stays, or leaves**, and nothing else happens. -/
inductive Leave (s : State J) : State J → Prop where
  /-- The worker stays. -/
  | stay : Leave s s
  /-- The worker leaves. -/
  | go (h : s.worker ≠ .absent) : Leave s { s with worker := .gone }

theorem Leave.trans {s s' s'' : State J} (h : Leave s s')
    (h' : Leave s' s'') : Leave s s'' := by
  cases h with
  | stay => exact h'
  | go h =>
    cases h' with
    | stay => exact .go h
    | go => exact .go h

theorem Leave.step {s s' : State J} (h : Leave s s') : Step on s s' := by
  cases h with
  | stay => exact .idle s
  | go h => exact .leave h

/-- The worker stays or leaves, and the job may be withdrawn then. -/
theorem Leave.step_clear {s s' s'' : State J} (h : Leave s s')
    (hc : s'' = s' ∨ s'' = s'.clear) : Step on s s'' := by
  rcases hc with rfl | rfl
  · exact h.step
  · cases h with
    | stay => exact .clear (.inl rfl)
    | go h => exact .clear (.inr ⟨h, rfl⟩)

/-! ## What is true at all times -/

/-- **The worker has the active job**, if one has signed on. -/
structure Fanned (s : State J) : Prop where
  /-- Who has no job has signed on when there was none. -/
  ready : s.worker = .ready → s.work = none
  /-- Who has a job has the active one. -/
  active : ∀ j, s.worker = .holds j → s.work = some j
  /-- It is the one that was sent last. -/
  last : ∀ j, s.worker = .holds j → s.sent.getLast? = some j
  /-- Nothing has been sent to who has not signed on. -/
  unsent : s.worker = .absent ∨ s.worker = .new → s.sent = []

/-- It is true at the beginning. -/
theorem fanned_init (work : Option J) : Fanned ⟨work, .absent, []⟩ :=
  ⟨nofun, nofun, nofun, fun _ => rfl⟩

/-- A worker who has left, or has the job that was just sent. -/
theorem fanned_sent {j : J} {m : Worker J} (sent : List J)
    (h : m = .holds j ∨ m = .gone) : Fanned ⟨some j, m, sent ++ [j]⟩ := by
  rcases h with rfl | rfl
  · refine ⟨nofun, ?_, ?_, fun h => h.elim nofun nofun⟩
    · rintro _ ⟨⟩
      rfl
    · rintro _ ⟨⟩
      exact List.getLast?_concat ..
  · exact ⟨nofun, nofun, nofun, fun h => h.elim nofun nofun⟩

/-- **It stays true.** -/
theorem Fanned.step {s s' : State J} (h : Fanned s) (hs : Step on s s') :
    Fanned s' := by
  cases hs with
  | idle => exact h
  | come => exact ⟨nofun, nofun, nofun, fun _ => h.unsent (.inl rfl)⟩
  | leave => exact ⟨nofun, nofun, nofun, fun h => h.elim nofun nofun⟩
  | register =>
    exact ⟨fun _ => rfl, nofun, nofun, fun h => h.elim nofun nofun⟩
  | welcome _ hm => exact fanned_sent _ hm
  | @clear _ m m' sent hm =>
    rcases hm with rfl | ⟨_, rfl⟩
    · refine ⟨fun _ => rfl, ?_, ?_, ?_⟩
      · intro j hj
        cases m <;> cases hj
      · intro j hj
        cases m <;> cases hj
      · intro hm
        cases m with
        | absent => exact h.unsent (.inl rfl)
        | new => exact h.unsent (.inr rfl)
        | ready => exact hm.elim nofun nofun
        | holds => exact hm.elim nofun nofun
        | gone => exact hm.elim nofun nofun
    · exact ⟨nofun, nofun, nofun, fun h => h.elim nofun nofun⟩
  | @offer _ j m m' sent new ho =>
    cases ho with
    | keep hm =>
      rw [List.append_nil]
      rcases hm with rfl | rfl | rfl | rfl
      · exact ⟨nofun, nofun, nofun, fun _ => h.unsent (.inl rfl)⟩
      · exact ⟨nofun, nofun, nofun, fun _ => h.unsent (.inr rfl)⟩
      · exact ⟨nofun, nofun, nofun, fun h => h.elim nofun nofun⟩
      · refine ⟨nofun, ?_, ?_, fun h => h.elim nofun nofun⟩
        · rintro _ ⟨⟩
          rfl
        · rintro _ ⟨⟩
          exact h.last j rfl
    | send _ hm' => exact fanned_sent _ hm'

/-- Whether a worker has signed on, and not left. -/
def Worker.SignedOn (m : Worker J) : Prop := m = .ready ∨ ∃ j, m = .holds j

/-- **Nobody is sent a job before signing on**, and nobody signs on but in a
step that allows it. -/
theorem Step.signedOn {s s' : State J} (hs : Step on s s')
    (h : s'.worker.SignedOn ∨ s'.sent ≠ s.sent) :
    on ∨ s.worker.SignedOn := by
  cases hs with
  | idle => exact h.elim .inr fun h => absurd rfl h
  | come =>
    exact h.elim (fun h => h.elim nofun nofun) fun h => absurd rfl h
  | leave =>
    exact h.elim (fun h => h.elim nofun nofun) fun h => absurd rfl h
  | register ho => exact .inl ho
  | welcome ho => exact .inl ho
  | @clear _ m m' _ hm =>
    refine h.elim (fun h => .inr ?_) fun h => absurd rfl h
    rcases hm with rfl | ⟨_, rfl⟩
    · cases m with
      | holds j => exact .inr ⟨j, rfl⟩
      | _ => exact h
    · exact h.elim nofun nofun
  | offer ho =>
    cases ho with
    | keep =>
      exact h.elim .inr fun h => absurd (List.append_nil _) h
    | send hm =>
      exact .inr (hm.imp id fun ⟨i, _, hi⟩ => ⟨i, hi⟩)

/-- **What is sent is the active job**, and it is sent once. -/
theorem Step.sent_eq {s s' : State J} (hs : Step on s s') :
    ∃ new, s'.sent = s.sent ++ new
      ∧ (new = [] ∨ ∃ j, new = [j] ∧ s'.work = some j) := by
  cases hs with
  | welcome => exact ⟨_, rfl, .inr ⟨_, rfl, rfl⟩⟩
  | offer ho =>
    cases ho with
    | keep => exact ⟨[], rfl, .inl rfl⟩
    | send => exact ⟨_, rfl, .inr ⟨_, rfl, rfl⟩⟩
  | _ => exact ⟨[], (List.append_nil _).symm, .inl rfl⟩

/-! ## While a job is the active one -/

/-- **What is still to be sent to a worker** while the job stays the same: one
job to who has not signed on, and no more to the others. -/
def Worker.due : Worker J → ℕ
  | .absent => 1
  | .new => 1
  | _ => 0

/-- Whatever happens, if there is a job afterwards then at most one has been
sent, and none is due to whom it was sent. -/
theorem Step.sent_le {s s' : State J} {j : J} (hs : Step on s s')
    (hj : s'.work = some j) :
    s'.sent.length + s'.worker.due ≤ s.sent.length + 1 := by
  have hdue : ∀ m : Worker J, m.due ≤ 1 := by
    intro m
    cases m <;> first | exact Nat.le_refl 1 | exact Nat.zero_le 1
  cases hs with
  | idle => exact Nat.add_le_add_left (hdue _) _
  | come => exact Nat.le_refl _
  | leave => exact Nat.le_succ _
  | register => cases hj
  | welcome _ hm =>
    rw [List.length_append]
    rcases hm with rfl | rfl <;> exact Nat.le_refl _
  | clear => cases hj
  | offer ho =>
    rw [List.length_append]
    cases ho with
    | keep => exact Nat.add_le_add_left (hdue _) _
    | send _ hm => rcases hm with rfl | rfl <;> exact Nat.le_refl _

/-- **While the job stays the same** what is sent was due. -/
theorem Step.sent_le_of_same {s s' : State J} {j : J} (hs : Step on s s')
    (hi : Fanned s) (hj : s.work = some j) (hj' : s'.work = some j) :
    s'.sent.length + s'.worker.due ≤ s.sent.length + s.worker.due := by
  cases hs with
  | idle => exact Nat.le_refl _
  | come => exact Nat.le_refl _
  | leave => exact Nat.add_le_add_left (Nat.zero_le _) _
  | register => cases hj
  | welcome _ hm =>
    rw [List.length_append]
    rcases hm with rfl | rfl <;> exact Nat.le_refl _
  | clear => cases hj'
  | offer ho =>
    obtain rfl := Option.some.inj hj'
    rw [List.length_append]
    cases ho with
    | keep => exact Nat.le_refl _
    | send hm =>
      -- whoever has signed on has the job already
      rcases hm with rfl | ⟨i, hne, rfl⟩
      · cases (hi.ready rfl).symm.trans hj
      · have := Option.some.inj ((hi.active i rfl).symm.trans hj)
        exact absurd this hne

/-- **From one moment to a later one** between which, and at the end, the
active job is `j`. At the first of the two it may be another one. -/
inductive During (j : J) (s : State J) : State J → Prop where
  /-- The next moment. -/
  | first {on : Prop} {s' : State J} (h : Step on s s') (hj : s'.work = some j) :
    During j s s'
  /-- A later one. -/
  | step {on : Prop} {s' s'' : State J} (h : During j s s')
    (hs : Step on s' s'')
    (hj : s''.work = some j) : During j s s''

/-- **While a job is the active one it is sent to each worker at most once.** -/
theorem During.sent_le {s s' : State J} {j : J} (h : During j s s')
    (hi : Fanned s) : s'.sent.length ≤ s.sent.length + 1 := by
  suffices hd : Fanned s' ∧ s'.work = some j
      ∧ s'.sent.length + s'.worker.due ≤ s.sent.length + 1 from
    Nat.le_trans (Nat.le_add_right _ _) hd.2.2
  induction h with
  | first h hj => exact ⟨hi.step h, hj, h.sent_le hj⟩
  | step _ hs hj ih =>
    obtain ⟨hi', hj', hle⟩ := ih
    exact ⟨hi'.step hs, hj, Nat.le_trans (hs.sent_le_of_same hi' hj' hj) hle⟩

end FanOut
