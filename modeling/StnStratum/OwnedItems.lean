import StnStratum.Memory
import StnStratum.Scanner

/-!
# Items that are kept in memory

`Scanner.Items` is a parser of items with the heap as its resource: it says
what is parsed, and when the parser gives up for want of memory. A parser in C
has also variables, some of which point to blocks, and when it gives up it has
to know what to give back.

`OwnedItems` is such a parser, over one of those. The text it reads is in a
block of its own, and must be there whenever the parser reads on. It comes with
what its variables stand for and with the blocks they own, and with the proofs
that it parses the same items and that it holds what the variables own. So does
its loop (`OwnedItems.items_erase`, `OwnedItems.items_keeps`).
-/

open Scanner

/-- **The outcome of a parser with variables**, as that of one without: what
is left of the text, if it has not given up, the variables, and the memory. -/
def Scanner.erase {α σ τ : Type} (view : σ → τ)
    (r : Option (List α) × σ × Memory) : Option (τ × List α × Heap) :=
  r.1.map fun p => (view r.2.1, p, r.2.2.heap)

/-- **Items that are kept in memory**, of a text that is in the block
`text`. -/
structure OwnedItems {α τ : Type} (I : Items Heap τ α) (text : ℕ)
    (σ : Type) where
  /-- What parses an item: a block that is still to be freed, what is left of
  the text if it has not given up, the variables, and the memory. -/
  parse : Memory → σ → List α → Option ℕ × Option (List α) × σ × Memory
  /-- What the variables stand for. -/
  view : σ → τ
  /-- The blocks they own. -/
  owned : σ → List ℕ
  /-- The items are the same. -/
  erases : ∀ m s p, I.item.parse m.heap (view s) p
    = erase view (parse m s p).2
  /-- What is held is owned, or still to be freed, if the text is held. -/
  keeps : ∀ {m s bs} p, text ∈ bs → m.Holds (owned s ++ bs) →
    (parse m s p).2.2.2.Holds ((parse m s p).1.toList
      ++ (owned (parse m s p).2.2.1 ++ bs))
  /-- Behind an item there is nothing to be freed. -/
  settled : ∀ {m s p}, (parse m s p).2.1 ≠ none → (parse m s p).1 = none

namespace OwnedItems

variable {α τ σ : Type} [DecidableEq α] {I : Items Heap τ α} {text : ℕ}
  (O : OwnedItems I text σ)

/-- **A turn of the loop**: the closing mark, or an item and the mark behind
it. Each of them is read from the text. -/
def step : σ × List α × Memory →
    Next (σ × List α × Memory) (Option ℕ × Option (List α) × σ × Memory)
  | (s, p, m) =>
    let m := m.use (some text)
    if I.lenient = true ∧ (I.ahead p).head? = some I.close then
      .done (none, some (I.ahead p).tail, s, m)
    else
      match O.parse m s (I.ahead p) with
      | (key, none, s, m) => .done (key, none, s, m)
      | (_, some p, s, m) =>
        let m := m.use (some text)
        match p.dropWhile I.blank with
        | [] => .done (none, none, s, m)
        | b :: rest =>
          if b = I.sep then .more (s, rest, m)
          else if b = I.close then .done (none, some rest, s, m)
          else .done (none, none, s, m)

/-- **A turn does what a turn of the parser without variables does.** -/
theorem step_sim (s : σ) (p : List α) (m : Memory) :
    (∃ r u, O.step (s, p, m) = .done r
        ∧ I.step (O.view s, p, m.heap) = .done u
        ∧ erase O.view r.2 = some u)
      ∨ (∃ r, O.step (s, p, m) = .done r
        ∧ I.step (O.view s, p, m.heap) = .fail
        ∧ erase O.view r.2 = none)
      ∨ ∃ s' p' m', O.step (s, p, m) = .more (s', p', m')
        ∧ I.step (O.view s, p, m.heap) = .more (O.view s', p', m'.heap) := by
  unfold step Items.step
  dsimp only
  by_cases hclose : I.lenient = true ∧ (I.ahead p).head? = some I.close
  · rw [if_pos hclose, if_pos hclose]
    exact .inl ⟨_, _, rfl, rfl, congrArg some (by rw [Memory.heap_use])⟩
  have herase := O.erases (m.use (some text)) s (I.ahead p)
  rw [Memory.heap_use] at herase
  rw [if_neg hclose, if_neg hclose, herase]
  obtain ⟨key, _ | p, s, m⟩ := O.parse (m.use (some text)) s (I.ahead p)
  · exact .inr (.inl ⟨_, rfl, rfl, rfl⟩)
  dsimp only [erase, Option.map]
  cases p.dropWhile I.blank with
  | nil => exact .inr (.inl ⟨_, rfl, rfl, rfl⟩)
  | cons b rest =>
    dsimp only
    by_cases hsep : b = I.sep
    · rw [if_pos hsep, if_pos hsep]
      exact .inr (.inr ⟨_, _, _, rfl, by rw [Memory.heap_use]⟩)
    rw [if_neg hsep, if_neg hsep]
    by_cases hb : b = I.close
    · rw [if_pos hb, if_pos hb]
      exact .inl ⟨_, _, rfl, rfl, congrArg some (by rw [Memory.heap_use])⟩
    · rw [if_neg hb, if_neg hb]
      exact .inr (.inl ⟨_, rfl, rfl, rfl⟩)

/-- **A turn keeps what the variables own**, and leaves what is to be
freed. -/
theorem step_keeps {bs : List ℕ} (ht : text ∈ bs) (s : σ × List α × Memory)
    (h : s.2.2.Holds (O.owned s.1 ++ bs)) :
    (O.step s).All
      (fun r => r.2.2.2.Holds (r.1.toList ++ (O.owned r.2.2.1 ++ bs)))
      (fun s => s.2.2.Holds (O.owned s.1 ++ bs)) := by
  obtain ⟨s, p, m⟩ := s
  have hread := h.use (List.mem_append_right (O.owned s) ht)
  unfold step
  dsimp only
  by_cases hclose : I.lenient = true ∧ (I.ahead p).head? = some I.close
  · rw [if_pos hclose]
    exact hread
  rw [if_neg hclose]
  have hkeep := O.keeps (I.ahead p) ht hread
  have hsettled := O.settled (m := m.use (some text)) (s := s) (p := I.ahead p)
  revert hkeep hsettled
  obtain ⟨key, _ | p, s, m⟩ := O.parse (m.use (some text)) s (I.ahead p)
  · exact fun hkeep _ => hkeep
  intro hkeep hsettled
  obtain rfl : key = none := hsettled (Option.some_ne_none p)
  have hmark := hkeep.use (List.mem_append_right (O.owned s) ht)
  dsimp only
  cases p.dropWhile I.blank with
  | nil => exact hmark
  | cons b rest =>
    dsimp only
    by_cases hsep : b = I.sep
    · rw [if_pos hsep]
      exact hmark
    rw [if_neg hsep]
    by_cases hb : b = I.close
    · rw [if_pos hb]
      exact hmark
    · rw [if_neg hb]
      exact hmark

/-- **The loop that reads items**, up to the closing mark. -/
def loop :
    Loop (σ × List α × Memory) (Option ℕ × Option (List α) × σ × Memory) where
  step := O.step
  size s := s.2.1.length
  decreases {s s'} h := by
    obtain ⟨_, _, hr, _⟩ | ⟨_, hr, _⟩ | ⟨s₁, p₁, m₁, hs', hp⟩ :=
      O.step_sim s.1 s.2.1 s.2.2
    · cases hr.symm.trans h
    · cases hr.symm.trans h
    · obtain rfl := Next.more.inj (hs'.symm.trans h)
      exact I.loop.decreases
        (show I.loop.step (O.view s.1, s.2.1, s.2.2.heap) = _ from hp)

theorem step_ne_fail (s : σ × List α × Memory) : O.step s ≠ .fail := by
  intro h
  obtain ⟨_, _, hr, _⟩ | ⟨_, hr, _⟩ | ⟨_, _, _, hr, _⟩ :=
    O.step_sim s.1 s.2.1 s.2.2
  all_goals cases hr.symm.trans h

/-- **The items up to the closing mark**: a block that is still to be freed,
what is left of the text if the parser has not given up, the variables, and
the memory. -/
def items (s : σ) (p : List α) (m : Memory) :
    Option ℕ × Option (List α) × σ × Memory :=
  O.loop.value O.step_ne_fail (s, p, m)

/-- **The items are those of the parser without variables.** -/
theorem items_erase (s : σ) (p : List α) (m : Memory) :
    I.loop.run (O.view s, p, m.heap) = erase O.view (O.items s p m).2 := by
  refine O.loop.value_sim I.loop O.step_ne_fail
    (S := fun s t => t = (O.view s.1, s.2.1, s.2.2.heap))
    (R := fun r u => u = erase O.view r.2) ?_ rfl
  rintro ⟨s, p, m⟩ _ rfl
  obtain ⟨r, u, he, hp, hr⟩ | ⟨r, he, hp, hr⟩ | ⟨s', p', m', he, hp⟩ :=
    O.step_sim s p m
  · exact .inl ⟨r, u, he, hp, hr.symm⟩
  · exact .inr (.inl ⟨r, he, hp, hr.symm⟩)
  · exact .inr (.inr ⟨_, _, he, hp, rfl⟩)

/-- **What is held behind the items** is what the variables own, and what is
still to be freed. -/
theorem items_keeps {s : σ} {m : Memory} {bs : List ℕ} (p : List α)
    (ht : text ∈ bs) (h : m.Holds (O.owned s ++ bs)) :
    (O.items s p m).2.2.2.Holds ((O.items s p m).1.toList
      ++ (O.owned (O.items s p m).2.2.1 ++ bs)) :=
  O.loop.value_induction
    (I := fun s => s.2.2.Holds (O.owned s.1 ++ bs))
    (R := fun r => r.2.2.2.Holds (r.1.toList ++ (O.owned r.2.2.1 ++ bs)))
    O.step_ne_fail (O.step_keeps ht) h

/-- **What is still to be freed** behind the items is what an item has left
that failed, and then the parser has given up. -/
theorem items_key {s : σ} {p : List α} {m : Memory} {b : ℕ}
    (h : (O.items s p m).1 = some b) :
    (O.items s p m).2.1 = none ∧ ∃ m s p, (O.parse m s p).1 = some b := by
  revert h
  refine O.loop.value_induction (I := fun _ => True)
    (R := fun r => r.1 = some b →
      r.2.1 = none ∧ ∃ m s p, (O.parse m s p).1 = some b)
    O.step_ne_fail ?_ trivial
  rintro ⟨s, p, m⟩ _
  show (O.step (s, p, m)).All _ _
  unfold step
  dsimp only
  split
  · exact fun hr => (Option.some_ne_none b hr.symm).elim
  split
  next key s' m' hparse =>
    exact fun hr => ⟨rfl, _, s, _, (congrArg Prod.fst hparse).trans hr⟩
  split
  · exact fun hr => (Option.some_ne_none b hr.symm).elim
  split
  · trivial
  split
  all_goals exact fun hr => (Option.some_ne_none b hr.symm).elim

/-- **Behind the closing mark there is nothing to be freed.** -/
theorem items_settled {s : σ} {p p' : List α} {m : Memory}
    (h : (O.items s p m).2.1 = some p') : (O.items s p m).1 = none := by
  cases hkey : (O.items s p m).1 with
  | none => rfl
  | some b => cases h.symm.trans (O.items_key hkey).1

/-- Nor is there anywhere, if the items leave nothing. -/
theorem items_settled_of_parse (h : ∀ m s p, (O.parse m s p).1 = none) (s : σ)
    (p : List α) (m : Memory) : (O.items s p m).1 = none := by
  cases hkey : (O.items s p m).1 with
  | none => rfl
  | some b =>
    obtain ⟨_, m', s', p', hparse⟩ := O.items_key hkey
    cases (h m' s' p').symm.trans hparse

end OwnedItems
