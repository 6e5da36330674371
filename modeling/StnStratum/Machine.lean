import Mathlib.Data.List.Basic

/-!
# Runs of a machine

A machine is what it may start from and what each action does to a state.
A state is reachable if some sequence of actions leads to it, and a
property of every reachable state is proved by showing that it holds at the
start and that every action keeps it (`Machine.Reachable.invariant`). An
action that keeps one property only in the presence of others may assume
whatever is already known of reachable states.
-/

/-- **A machine**: where it may start and what its actions do. -/
structure Machine (σ α : Type) where
  /-- The states a run may start from. -/
  Start : σ → Prop
  /-- The state an action leads to. -/
  act : σ → α → σ

namespace Machine

variable {σ α : Type} (M : Machine σ α)

/-- The state a sequence of actions leads to. -/
def run (s : σ) (as : List α) : σ := as.foldl M.act s

@[simp] theorem run_cons (s : σ) (a : α) (as : List α) :
    M.run s (a :: as) = M.run (M.act s a) as := rfl

theorem run_append (s : σ) (as bs : List α) :
    M.run s (as ++ bs) = M.run (M.run s as) bs := List.foldl_append

/-- A run that is one action longer. -/
theorem run_take_succ {n : ℕ} (s : σ) {as : List α} {a : α}
    (h : as[n]? = some a) :
    M.run s (as.take (n + 1)) = M.act (M.run s (as.take n)) a := by
  rw [List.take_add_one, h, run_append]
  rfl

/-- What every action keeps, every run keeps. -/
theorem run_induction {P : σ → Prop} (hact : ∀ s a, P s → P (M.act s a))
    {s : σ} (h : P s) (as : List α) : P (M.run s as) := by
  induction as generalizing s with
  | nil => exact h
  | cons a as ih => exact ih (hact s a h)

/-- **The states some run leads to.** -/
def Reachable (s : σ) : Prop := ∃ s₀ as, M.Start s₀ ∧ M.run s₀ as = s

variable {M}

theorem Reachable.start {s : σ} (h : M.Start s) : M.Reachable s :=
  ⟨s, [], h, rfl⟩

theorem Reachable.run {s : σ} (h : M.Reachable s) (as : List α) :
    M.Reachable (M.run s as) := by
  obtain ⟨s₀, bs, h₀, rfl⟩ := h
  exact ⟨s₀, bs ++ as, h₀, M.run_append s₀ bs as⟩

theorem Reachable.act {s : σ} (h : M.Reachable s) (a : α) :
    M.Reachable (M.act s a) := h.run [a]

/-- **The invariant rule**: what holds at the start and is kept by every
action holds of every reachable state. -/
theorem Reachable.invariant {P : σ → Prop} (hstart : ∀ s, M.Start s → P s)
    (hact : ∀ s a, M.Reachable s → P s → P (M.act s a)) {s : σ}
    (h : M.Reachable s) : P s := by
  obtain ⟨s₀, as, h₀, rfl⟩ := h
  have key : ∀ s, M.Reachable s ∧ P s → M.Reachable (M.run s as)
      ∧ P (M.run s as) := fun s hs =>
    M.run_induction (P := fun s => M.Reachable s ∧ P s)
      (fun s a hs => ⟨hs.1.act a, hact s a hs.1 hs.2⟩) hs as
  exact (key s₀ ⟨.start h₀, hstart s₀ h₀⟩).2

end Machine
