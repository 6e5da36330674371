import Mathlib.Order.Interval.Finset.Nat
import StnStratum.Machine

/-!
# Going round

A machine stands in one of `n` places and now and then moves on to the next,
and from the last to the first. It is enough to know this of every step
(`GoesRound`): a run then comes by the places in their order (`run_visits`),
and any `n` places that it comes by in a row are all of them
(`perm_of_infix`).

A machine that goes round to look for something stops where it is found. Once
it has nothing it moves on with an attempt that fails and with nothing else
(`Seeks`), and so it takes `n` attempts at most (`Seeks.run_found`).
-/

namespace RoundRobin

variable {σ α : Type} (M : Machine σ α) (place : σ → ℕ)
  (moves : σ → σ → Prop) [DecidableRel moves]

/-- **The places that a run moves on to**, in their order. -/
def visits : σ → List α → List ℕ
  | _, [] => []
  | s, a :: as =>
    if moves s (M.act s a) then place (M.act s a) :: visits (M.act s a) as
    else visits (M.act s a) as

/-- **A machine that goes round**: in a good state an allowed action moves it on
by one of `n` places, or leaves it where it is, and its moves are counted. -/
structure GoesRound (Good : σ → Prop) (Allowed : α → Prop) (count : σ → ℕ)
    (n : ℕ) : Prop where
  /-- The state stays good. -/
  good : ∀ s a, Good s → Allowed a → Good (M.act s a)
  /-- The machine moves on by one place, or stands still. -/
  step : ∀ s a, Good s → Allowed a → place (M.act s a)
    = if moves s (M.act s a) then (place s + 1) % n else place s
  /-- Only a move is counted. -/
  count : ∀ s a, Good s → Allowed a → count (M.act s a)
    = count s + if moves s (M.act s a) then 1 else 0

variable {M place moves} {n : ℕ} {s : σ} {a : α} {as : List α}

theorem visits_cons_of_moves (h : moves s (M.act s a)) :
    visits M place moves s (a :: as)
      = place (M.act s a) :: visits M place moves (M.act s a) as := by
  rw [visits, if_pos h]

theorem visits_cons_of_stays (h : ¬ moves s (M.act s a)) :
    visits M place moves s (a :: as)
      = visits M place moves (M.act s a) as := by
  rw [visits, if_neg h]

/-- Once around makes no difference to what comes. -/
theorem map_range'_mod (n i k : ℕ) :
    (List.range' (i % n + 1) k).map (· % n)
      = (List.range' (i + 1) k).map (· % n) := by
  rw [List.range'_eq_map_range, List.range'_eq_map_range, List.map_map,
    List.map_map]
  refine List.map_congr_left fun j _ => ?_
  show (i % n + 1 + j) % n = (i + 1 + j) % n
  rw [Nat.add_assoc, Nat.mod_add_mod, Nat.add_assoc]

section Run

variable {Good : σ → Prop} {Allowed : α → Prop} {count : σ → ℕ}
  (R : GoesRound M place moves Good Allowed count n)

include R

/-- A run of allowed actions ends in a good state. -/
theorem GoesRound.run_good (hs : Good s) (has : ∀ a ∈ as, Allowed a) :
    Good (M.run s as) := by
  induction as generalizing s with
  | nil => exact hs
  | cons a as ih =>
    obtain ⟨ha, has⟩ := List.forall_mem_cons.mp has
    exact ih (R.good s a hs ha) has

/-- **The count counts the places** that a run comes by. -/
theorem GoesRound.run_count (hs : Good s) (has : ∀ a ∈ as, Allowed a) :
    count (M.run s as)
      = count s + (visits M place moves s as).length := by
  induction as generalizing s with
  | nil => rfl
  | cons a as ih =>
    obtain ⟨ha, has⟩ := List.forall_mem_cons.mp has
    rw [Machine.run_cons, ih (R.good s a hs ha) has, R.count s a hs ha]
    by_cases hm : moves s (M.act s a)
    · rw [if_pos hm, visits_cons_of_moves hm, List.length_cons, Nat.add_assoc,
        Nat.add_comm 1]
    · rw [if_neg hm, visits_cons_of_stays hm, Nat.add_zero]

/-- **A run comes by the places in their order**, and ends up as many places on
as it has moved. -/
theorem GoesRound.run_visits (hs : Good s) (hplace : place s < n)
    (has : ∀ a ∈ as, Allowed a) :
    visits M place moves s as
        = (List.range' (place s + 1)
            (visits M place moves s as).length).map (· % n)
      ∧ place (M.run s as)
        = (place s + (visits M place moves s as).length) % n := by
  induction as generalizing s with
  | nil => exact ⟨rfl, (Nat.mod_eq_of_lt hplace).symm⟩
  | cons a as ih =>
    obtain ⟨ha, has⟩ := List.forall_mem_cons.mp has
    have hs' := R.good s a hs ha
    have hmove := R.step s a hs ha
    by_cases hm : moves s (M.act s a)
    · rw [if_pos hm] at hmove
      have hlt : place (M.act s a) < n :=
        hmove ▸ Nat.mod_lt _ (Nat.zero_lt_of_lt hplace)
      obtain ⟨hv, hp⟩ := ih hs' hlt has
      rw [visits_cons_of_moves hm, List.length_cons, List.range'_succ,
        List.map_cons]
      constructor
      · rw [hmove, map_range'_mod] at hv
        rw [← hv, hmove]
      · rw [Machine.run_cons, hp, hmove, Nat.mod_add_mod, Nat.add_assoc,
          Nat.add_comm 1]
    · rw [if_neg hm] at hmove
      obtain ⟨hv, hp⟩ := ih hs' (hmove ▸ hplace) has
      rw [visits_cons_of_stays hm]
      rw [hmove] at hv hp
      exact ⟨hv, hp⟩

end Run

/-- **Any `n` places in a row are all of them**, each of them once. -/
theorem perm_of_infix {i k : ℕ} {l : List ℕ}
    (h : l <:+: (List.range' i k).map (· % n)) (hl : l.length = n) :
    l.Perm (List.range n) := by
  obtain ⟨before, after, h⟩ := h
  obtain ⟨_, _, hrange, hfront, _⟩ := List.map_eq_append_iff.mp h.symm
  obtain ⟨v, m, rfl, _, rfl⟩ := List.map_eq_append_iff.mp hfront
  -- a part of a range is a range
  obtain ⟨_, _, hvm, _⟩ := List.range'_eq_append_iff.mp hrange
  obtain ⟨j, _, _, hm⟩ := List.range'_eq_append_iff.mp hvm.symm
  rw [List.length_map] at hl
  rw [hm, List.length_range'] at hl
  rw [hm, hl]
  refine Multiset.coe_eq_coe.mp ?_
  have := Nat.multiset_Ico_map_mod (i + j * 1) n
  rwa [show Multiset.Ico (i + j * 1) (i + j * 1 + n)
    = (List.range' (i + j * 1) n : Multiset ℕ) from
      congrArg (fun k => (List.range' (i + j * 1) k : Multiset ℕ))
        (Nat.add_sub_cancel_left ..)] at this

/-! ## Seeking -/

variable (M) (tries : σ → α → Prop)

/-- **The attempts of a run.** -/
def attempts [∀ s a, Decidable (tries s a)] : σ → List α → ℕ
  | _, [] => 0
  | s, a :: as => (if tries s a then 1 else 0) + attempts (M.act s a) as

/-- **A machine that seeks**: an attempt succeeds at a place that serves, and
moves on from one that does not. A machine that has nothing does not move on
otherwise. -/
structure Seeks (place : σ → ℕ) (Good : σ → Prop) (Allowed : α → Prop)
    (Idle : σ → Prop) (serves : ℕ → Prop) (Found : σ → Prop) (n : ℕ) :
    Prop where
  /-- The state stays good. -/
  good : ∀ s a, Good s → Allowed a → Good (M.act s a)
  /-- There are `n` places. -/
  place_lt : ∀ s, Good s → place s < n
  /-- An attempt succeeds at a place that serves. -/
  found : ∀ s a, Good s → Allowed a → tries s a → serves (place s) →
    Found (M.act s a)
  /-- It moves on from one that does not, and leaves nothing. -/
  moves : ∀ s a, Good s → Allowed a → tries s a → ¬ serves (place s) →
    place (M.act s a) = (place s + 1) % n ∧ Idle (M.act s a)
  /-- Nothing comes of nothing. -/
  rests : ∀ s a, Good s → Allowed a → Idle s → ¬ tries s a →
    place (M.act s a) = place s ∧ Idle (M.act s a)

/-- **An attempt of the run succeeds.** -/
def Finds (Found : σ → Prop) (s : σ) (as : List α) : Prop :=
  ∃ before a after, as = before ++ a :: after ∧ tries (M.run s before) a
    ∧ Found (M.run s (before ++ [a]))

variable {M tries} {Good Idle Found : σ → Prop} {Allowed : α → Prop}
  {serves : ℕ → Prop}

/-- The first attempt succeeds. -/
theorem finds_of_found (h : tries s a) (hf : Found (M.act s a)) :
    Finds M tries Found s (a :: as) :=
  ⟨[], a, as, rfl, h, hf⟩

/-- A later one does. -/
theorem Finds.cons (h : Finds M tries Found (M.act s a) as) :
    Finds M tries Found s (a :: as) := by
  obtain ⟨before, b, after, rfl, ht, hf⟩ := h
  exact ⟨a :: before, b, after, rfl, ht, hf⟩

/-- A place that serves is not far ahead. -/
theorem exists_ahead {i j : ℕ} (hi : i < n) (hj : j < n) :
    ∃ d < n, (i + d) % n = j := by
  by_cases h : i ≤ j
  · refine ⟨j - i, by omega, ?_⟩
    rw [Nat.add_sub_cancel' h, Nat.mod_eq_of_lt hj]
  · refine ⟨n - i + j, by omega, ?_⟩
    rw [show i + (n - i + j) = j + n by omega, Nat.add_mod_right,
      Nat.mod_eq_of_lt hj]

section Seek

variable [∀ s a, Decidable (tries s a)]

theorem attempts_cons_of_tries (h : tries s a) :
    attempts M tries s (a :: as) = attempts M tries (M.act s a) as + 1 := by
  rw [attempts, if_pos h, Nat.add_comm]

theorem attempts_cons_of_not_tries (h : ¬ tries s a) :
    attempts M tries s (a :: as) = attempts M tries (M.act s a) as := by
  rw [attempts, if_neg h, Nat.zero_add]

variable (S : Seeks M tries place Good Allowed Idle serves Found n)

include S

/-- **A machine that has nothing** finds what is `d` places ahead with `d + 1`
attempts. -/
theorem Seeks.run_idle {d : ℕ} (hs : Good s) (hidle : Idle s)
    (has : ∀ a ∈ as, Allowed a) (hd : serves ((place s + d) % n))
    (hlt : d < attempts M tries s as) : Finds M tries Found s as := by
  induction as generalizing s d with
  | nil => exact absurd hlt (Nat.not_lt_zero d)
  | cons a as ih =>
    obtain ⟨ha, has⟩ := List.forall_mem_cons.mp has
    by_cases ht : tries s a
    · by_cases hserves : serves (place s)
      · exact finds_of_found ht (S.found s a hs ha ht hserves)
      obtain ⟨hplace, hidle'⟩ := S.moves s a hs ha ht hserves
      rw [attempts_cons_of_tries ht] at hlt
      cases d with
      | zero =>
        rw [Nat.add_zero, Nat.mod_eq_of_lt (S.place_lt s hs)] at hd
        exact absurd hd hserves
      | succ d =>
        refine (ih (d := d) (S.good s a hs ha) hidle' has ?_
          (Nat.lt_of_succ_lt_succ hlt)).cons
        rwa [hplace, Nat.mod_add_mod, Nat.add_assoc, Nat.add_comm 1]
    · obtain ⟨hplace, hidle'⟩ := S.rests s a hs ha hidle ht
      rw [attempts_cons_of_not_tries ht] at hlt
      exact (ih (S.good s a hs ha) hidle' has (hplace.symm ▸ hd) hlt).cons

/-- **With `n` attempts it is found**, wherever the machine stands and whatever
it has, if one of the `n` places serves. -/
theorem Seeks.run_found {j : ℕ} (hs : Good s) (has : ∀ a ∈ as, Allowed a)
    (hj : j < n) (hserves : serves j) (hn : n ≤ attempts M tries s as) :
    Finds M tries Found s as := by
  induction as generalizing s with
  | nil => exact absurd (hj.trans_le hn) (Nat.not_lt_zero j)
  | cons a as ih =>
    obtain ⟨ha, has⟩ := List.forall_mem_cons.mp has
    by_cases ht : tries s a
    · by_cases hhere : serves (place s)
      · exact finds_of_found ht (S.found s a hs ha ht hhere)
      -- the place behind is the last of those ahead, and it does not serve
      obtain ⟨hplace, hidle⟩ := S.moves s a hs ha ht hhere
      have hgood := S.good s a hs ha
      obtain ⟨d, hd, hahead⟩ := exists_ahead (S.place_lt _ hgood) hj
      have hlast : d ≠ n - 1 := by
        rintro rfl
        rw [hplace, Nat.mod_add_mod, Nat.add_assoc,
          show 1 + (n - 1) = n by omega, Nat.add_mod_right,
          Nat.mod_eq_of_lt (S.place_lt s hs)] at hahead
        exact hhere (hahead ▸ hserves)
      rw [attempts_cons_of_tries ht] at hn
      exact (S.run_idle (d := d) hgood hidle has (hahead.symm ▸ hserves)
        (by omega)).cons
    · rw [attempts_cons_of_not_tries ht] at hn
      exact (ih (S.good s a hs ha) has hn).cons

end Seek

end RoundRobin
