import StnStratum.Schedule

/-!
# Machines that can be killed

Some actions are the end of a machine: they kill it, and nothing happens to it
any more. What such an action would have led to does not matter, so a machine
and the actions that kill it are enough (`Machine.mortal`).

While it lives, a mortal machine is where the machine itself would be; it is
dead once an action has been among its actions that kills where the machine
itself would have been (`run_mortal`, `run_mortal_eq_none`). So what is shown
of the machine itself is true of the mortal one as long as it lives.
-/

namespace Machine

variable {σ α : Type} (M : Machine σ α) (kills : σ → α → Bool)

/-- **A machine that can be killed**: `none`, once it has been. -/
def mortal : Machine (Option σ) α where
  Start s := ∃ s₀, M.Start s₀ ∧ s = some s₀
  act s a := s.bind fun s => if kills s a = true then none else some (M.act s a)

/-- **One of some actions kills**, where the machine itself is by then. -/
def Kills (s : σ) (as : List α) : Prop :=
  ∃ before a after, as = before ++ a :: after
    ∧ kills (M.run s before) a = true

variable {M} {kills}

/-- Nothing kills before there is anything. -/
theorem not_kills_nil (s : σ) : ¬ M.Kills kills s [] := by
  rintro ⟨before, a, after, h, _⟩
  exact List.append_ne_nil_of_right_ne_nil before (List.cons_ne_nil a after) h.symm

/-- The first action kills, or one of the others. -/
theorem kills_cons (s : σ) (a : α) (as : List α) :
    M.Kills kills s (a :: as)
      ↔ kills s a = true ∨ M.Kills kills (M.act s a) as := by
  constructor
  · rintro ⟨before, b, after, h, hb⟩
    cases before with
    | nil =>
      obtain ⟨rfl, rfl⟩ := List.cons.inj h
      exact .inl hb
    | cons c before =>
      obtain ⟨rfl, rfl⟩ := List.cons.inj h
      exact .inr ⟨before, b, after, rfl, hb⟩
  · rintro (h | ⟨before, b, after, rfl, hb⟩)
    · exact ⟨[], a, as, rfl, h⟩
    · exact ⟨a :: before, b, after, rfl, hb⟩

/-- Some of the actions kill, or some of those behind them. -/
theorem kills_append (s : σ) (as bs : List α) :
    M.Kills kills s (as ++ bs)
      ↔ M.Kills kills s as ∨ M.Kills kills (M.run s as) bs := by
  induction as generalizing s with
  | nil => exact (or_iff_right (not_kills_nil s)).symm
  | cons a as ih =>
    rw [List.cons_append, kills_cons, kills_cons, ih, or_assoc, run_cons]

/-- **Which of some actions of a kind** it is that kills. -/
theorem kills_map {β : Type} {f : β → α} {s : σ} {bs : List β} :
    M.Kills kills s (bs.map f) ↔ ∃ before b after, bs = before ++ b :: after
      ∧ kills (M.run s (before.map f)) (f b) = true := by
  constructor
  · rintro ⟨before, a, after, h, hk⟩
    obtain ⟨as₁, as₂, rfl, rfl, h₂⟩ := List.map_eq_append_iff.mp h
    obtain ⟨b, after', rfl, rfl, rfl⟩ := List.map_eq_cons_iff.mp h₂
    exact ⟨as₁, b, after', rfl, hk⟩
  · rintro ⟨before, b, after, rfl, hk⟩
    exact ⟨before.map f, f b, after.map f, by rw [List.map_append]; rfl, hk⟩

/-- What has been killed stays so. -/
@[simp] theorem run_mortal_none (as : List α) :
    (M.mortal kills).run none as = none := by
  induction as with
  | nil => rfl
  | cons a as ih => exact ih

/-- **The runs of a mortal machine**: those of the machine itself, up to the
first action that kills. -/
theorem run_mortal (s : σ) (as : List α) :
    M.Kills kills s as ∧ (M.mortal kills).run (some s) as = none
      ∨ ¬ M.Kills kills s as
        ∧ (M.mortal kills).run (some s) as = some (M.run s as) := by
  induction as generalizing s with
  | nil => exact .inr ⟨not_kills_nil s, rfl⟩
  | cons a as ih =>
    rw [kills_cons, run_cons]
    by_cases ha : kills s a = true
    · have hact : (M.mortal kills).act (some s) a = none := if_pos ha
      rw [hact, run_mortal_none]
      exact .inl ⟨.inl ha, rfl⟩
    · have hact : (M.mortal kills).act (some s) a = some (M.act s a) :=
        if_neg ha
      rw [hact, or_iff_right ha]
      exact ih (M.act s a)

/-- **It is dead once something has killed it.** -/
theorem run_mortal_eq_none {s : σ} {as : List α} :
    (M.mortal kills).run (some s) as = none ↔ M.Kills kills s as := by
  rcases M.run_mortal s as with ⟨hk, hr⟩ | ⟨hk, hr⟩
  · exact iff_of_true hr hk
  · exact iff_of_false (by rw [hr]; exact Option.some_ne_none _) hk

/-- Actions that never kill do not. -/
theorem run_mortal_of_forall {s : σ} {as : List α}
    (h : ∀ a ∈ as, ∀ s, kills s a = false) :
    (M.mortal kills).run (some s) as = some (M.run s as) := by
  have hnot : ¬ M.Kills kills s as := by
    rintro ⟨before, a, after, rfl, hk⟩
    rw [h a (List.mem_append_right _ List.mem_cons_self)] at hk
    cases hk
  exact (M.run_mortal s as).resolve_left (fun hr => hnot hr.1) |>.2

/-- **While it lives**, it is where the machine itself would be. -/
theorem eq_run_of_mortal {s s' : σ} {as : List α}
    (h : (M.mortal kills).run (some s) as = some s') :
    s' = M.run s as := by
  rcases M.run_mortal s as with ⟨_, hr⟩ | ⟨_, hr⟩
  · rw [hr] at h
    cases h
  · exact Option.some.inj (h.symm.trans hr)

/-- **Under a schedule** it lives for ever, and is where the machine itself
would be, or it is dead from the first action on that kills. -/
theorem trajectory_mortal (s : σ) (schedule : ℕ → α) :
    (∀ i, (M.mortal kills).trajectory (some s) schedule i
        = some (M.trajectory s schedule i))
      ∨ ∃ j, kills (M.trajectory s schedule j) (schedule j) = true
        ∧ ∀ i, j < i →
          (M.mortal kills).trajectory (some s) schedule i = none := by
  by_cases h : ∃ j, kills (M.trajectory s schedule j) (schedule j) = true
  · obtain ⟨j, hj⟩ := h
    have hdead : (M.mortal kills).trajectory (some s) schedule (j + 1)
        = none := by
      rw [trajectory_succ]
      rcases M.run_mortal s ((List.range j).map schedule)
        with ⟨_, hr⟩ | ⟨_, hr⟩
      · exact congrArg (fun s => (M.mortal kills).act s (schedule j)) hr
      · exact (congrArg (fun s => (M.mortal kills).act s (schedule j)) hr).trans
          (if_pos hj)
    refine .inr ⟨j, hj, trajectory_induction (I := fun s => s = none) ?_ hdead⟩
    rintro _ a rfl
    rfl
  · refine .inl fun i => ?_
    induction i with
    | zero => rfl
    | succ i ih =>
      rw [trajectory_succ, trajectory_succ, ih]
      exact if_neg fun hk => h ⟨i, hk⟩

end Machine
