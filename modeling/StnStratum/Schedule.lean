import StnStratum.Machine
import Mathlib.Order.WellFounded

/-!
# Fair schedules

What a machine gets to is a matter of its schedule: a schedule gives an action
at every time, for ever. It is fair if everyone who has to be served is served
again and again (`Fair`), and nothing else is asked of it.

What a machine gets to under every fair schedule is shown with a rank. In
every state somebody is next, an action that serves them gets the machine
closer, and an action that does not either gets it closer as well or leaves
the rank and who is next alone (`Fair.eventually`).
-/

namespace Machine

variable {σ α κ : Type} (M : Machine σ α)

/-- **The state at a time.** -/
def trajectory (s : σ) (schedule : ℕ → α) (n : ℕ) : σ :=
  M.run s ((List.range n).map schedule)

/-- One action later. -/
theorem trajectory_succ (s : σ) (schedule : ℕ → α) (n : ℕ) :
    M.trajectory s schedule (n + 1)
      = M.act (M.trajectory s schedule n) (schedule n) := by
  unfold trajectory
  rw [List.range_succ, List.map_append, run_append]
  rfl

variable {M}

/-- What every action keeps holds from any time on. -/
theorem trajectory_induction {I : σ → Prop}
    (hact : ∀ s a, I s → I (M.act s a)) {s : σ} {schedule : ℕ → α} {n : ℕ}
    (h : I (M.trajectory s schedule n)) :
    ∀ m, n ≤ m → I (M.trajectory s schedule m) := by
  intro m hm
  induction m, hm using Nat.le_induction with
  | base => exact h
  | succ m _ ih =>
    rw [trajectory_succ]
    exact hact _ _ ih

/-- **A fair schedule**: everyone is served again and again. -/
def Fair (serves : κ → α → Prop) (schedule : ℕ → α) : Prop :=
  ∀ k n, ∃ m, n ≤ m ∧ serves k (schedule m)

/-- **The rule of fair schedules**, from any time on. -/
theorem Fair.eventually {β : Type} [Preorder β] [WellFoundedLT β]
    {serves : κ → α → Prop} {schedule : ℕ → α} (hfair : Fair serves schedule)
    {I goal : σ → Prop} {rank : σ → β} {next : σ → κ}
    (hact : ∀ s a, I s → I (M.act s a))
    (hstep : ∀ s a, I s → ¬ goal s → goal (M.act s a)
      ∨ rank (M.act s a) < rank s
      ∨ rank (M.act s a) = rank s ∧ next (M.act s a) = next s
        ∧ ¬ serves (next s) a)
    {s : σ} {n : ℕ} (hs : I (M.trajectory s schedule n)) :
    ∃ m, goal (M.trajectory s schedule m) := by
  have hall := trajectory_induction hact hs
  -- from any later time on, by induction on the rank there
  have key : ∀ b : β, ∀ i, n ≤ i → rank (M.trajectory s schedule i) = b →
      ∃ m, goal (M.trajectory s schedule m) := by
    intro b
    induction b using WellFoundedLT.induction with
    | _ b ih =>
    intro i hi hrank
    obtain ⟨m, hm, hserves⟩ := hfair (next (M.trajectory s schedule i)) i
    obtain ⟨d, rfl⟩ := Nat.exists_eq_add_of_le hm
    clear hm
    -- nothing changes until who is next is served
    induction d generalizing i with
    | zero =>
      by_cases hg : goal (M.trajectory s schedule i)
      · exact ⟨i, hg⟩
      have hsucc := M.trajectory_succ s schedule i
      rcases hstep _ (schedule i) (hall i hi) hg with h | h | ⟨_, _, h⟩
      · exact ⟨i + 1, hsucc ▸ h⟩
      · exact ih _ (hrank ▸ hsucc ▸ h) (i + 1) (Nat.le_succ_of_le hi) rfl
      · exact absurd hserves h
    | succ d ihd =>
      by_cases hg : goal (M.trajectory s schedule i)
      · exact ⟨i, hg⟩
      have hsucc := M.trajectory_succ s schedule i
      rcases hstep _ (schedule i) (hall i hi) hg with h | h | ⟨hsame, hnext, _⟩
      · exact ⟨i + 1, hsucc ▸ h⟩
      · exact ih _ (hrank ▸ hsucc ▸ h) (i + 1) (Nat.le_succ_of_le hi) rfl
      · rw [← hsucc] at hsame hnext
        refine ihd (i + 1) (Nat.le_succ_of_le hi) (hsame.trans hrank) ?_
        rw [hnext, Nat.add_right_comm]
        exact hserves
  exact key _ n le_rfl rfl

end Machine
