import Mathlib.Data.List.DropRight
import Mathlib.Data.List.TakeWhile
import Mathlib.Algebra.GroupWithZero.Nat
import Mathlib.Data.Nat.Init

/-!
# Scanning a text

A text is a sequence of tokens with blanks anywhere between them. A token is
a mark, which is spelled as itself, or a value, which a `Lexicon` gives the
spellings of. `Lexicon.Reads` says that a text is spelled by some tokens and
goes on with a rest, and a scanner is right if it stops where they do.

A scanner is mostly loops. `Loop` is one that ends, since every turn but the
last leaves it with less. `Items.loop` is the one that reads items up to a
closing mark, with a separator between them and, if it is lenient, behind the
last one. What it accepts is what `Items` derives (`Items.sound`,
`Items.complete`), if the items are read as they should be.
-/

namespace Scanner

/-! ## Loops that end -/

/-- **What a turn of a loop comes to.** -/
inductive Next (σ ρ : Type) where
  /-- It is done. -/
  | done (r : ρ)
  /-- It goes on. -/
  | more (s : σ)
  /-- It gives up. -/
  | fail

/-- What a turn comes to is in order: what is done, or what goes on. -/
def Next.All {σ ρ : Type} (R : ρ → Prop) (I : σ → Prop) : Next σ ρ → Prop
  | .done r => R r
  | .more s => I s
  | .fail => True

/-- **A loop that ends**: where it goes on, it has less in front of it. -/
structure Loop (σ ρ : Type) where
  /-- A turn. -/
  step : σ → Next σ ρ
  /-- How much there is in front of it. -/
  size : σ → ℕ
  /-- A turn that another one follows leaves less. -/
  decreases : ∀ {s s' : σ}, step s = .more s' → size s' < size s

namespace Loop

variable {σ ρ : Type} (L : Loop σ ρ) {s s' : σ} {r : ρ}

/-- What the loop comes to, if it does not give up. -/
def run (s : σ) : Option ρ :=
  match _h : L.step s with
  | .done r => some r
  | .more s' => run s'
  | .fail => none
termination_by L.size s
decreasing_by exact L.decreases _h

theorem run_of_done (h : L.step s = .done r) : L.run s = some r := by
  rw [run]
  split
  next h' => rw [Next.done.inj (h'.symm.trans h)]
  next h' => cases h'.symm.trans h
  next h' => cases h'.symm.trans h

theorem run_of_more (h : L.step s = .more s') : L.run s = L.run s' := by
  rw [run]
  split
  next h' => cases h'.symm.trans h
  next h' => rw [Next.more.inj (h'.symm.trans h)]
  next h' => cases h'.symm.trans h

theorem run_of_fail (h : L.step s = .fail) : L.run s = none := by
  rw [run]
  split
  next h' => cases h'.symm.trans h
  next h' => cases h'.symm.trans h
  next => rfl

/-- **The rule of a loop**: what holds of the last turn, and of a turn if it
holds of the next one, holds of the loop. -/
theorem run_induction {R : σ → ρ → Prop}
    (hdone : ∀ s r, L.step s = .done r → R s r)
    (hmore : ∀ s s' r, L.step s = .more s' → R s' r → R s r)
    (h : L.run s = some r) : R s r := by
  induction hn : L.size s using Nat.strong_induction_on generalizing s with
  | _ n ih =>
    cases hs : L.step s with
    | done r' =>
      rw [L.run_of_done hs] at h
      exact Option.some.inj h ▸ hdone s r' hs
    | more s' =>
      rw [L.run_of_more hs] at h
      exact hmore s s' r hs (ih _ (hn ▸ L.decreases hs) h rfl)
    | fail =>
      rw [L.run_of_fail hs] at h
      cases h

/-- **The rule of a loop that does not give up**: what is kept from one turn
to the next, and what the last turn makes of it. -/
theorem exists_run {I : σ → Prop} {R : ρ → Prop}
    (hfail : ∀ s, I s → L.step s ≠ .fail)
    (hmore : ∀ s s', I s → L.step s = .more s' → I s')
    (hdone : ∀ s r, I s → L.step s = .done r → R r) (h : I s) :
    ∃ r, L.run s = some r ∧ R r := by
  induction hn : L.size s using Nat.strong_induction_on generalizing s with
  | _ n ih =>
    cases hs : L.step s with
    | done r => exact ⟨r, L.run_of_done hs, hdone s r h hs⟩
    | more s' =>
      rw [L.run_of_more hs]
      exact ih _ (hn ▸ L.decreases hs) (hmore s s' h hs) rfl
    | fail => exact absurd hs (hfail s h)

/-- **A loop that does not give up** comes to something. -/
def value (hfail : ∀ s, L.step s ≠ .fail) (s : σ) : ρ :=
  (L.run s).get (by
    obtain ⟨r, h, _⟩ := L.exists_run (I := fun _ => True) (R := fun _ => True)
      (fun s _ => hfail s) (fun _ _ _ _ => trivial) (fun _ _ _ _ => trivial)
      (s := s) trivial
    rw [h]
    rfl)

theorem run_eq_value (hfail : ∀ s, L.step s ≠ .fail) (s : σ) :
    L.run s = some (L.value hfail s) :=
  (Option.some_get _).symm

/-- **The rule of a loop that does not give up**, of what it comes to. -/
theorem value_induction {I : σ → Prop} {R : ρ → Prop}
    (hfail : ∀ s, L.step s ≠ .fail) (hstep : ∀ s, I s → (L.step s).All R I)
    (h : I s) : R (L.value hfail s) := by
  have hmore : ∀ s s', I s → L.step s = .more s' → I s' := by
    intro s s' hs he
    have := hstep s hs
    rwa [he] at this
  have hdone : ∀ s r, I s → L.step s = .done r → R r := by
    intro s r hs he
    have := hstep s hs
    rwa [he] at this
  obtain ⟨r, hr, hR⟩ := L.exists_run (fun s _ => hfail s) hmore hdone h
  rw [L.run_eq_value hfail] at hr
  exact Option.some.inj hr ▸ hR

/-- **A loop does what another does**, if its turns do. -/
theorem value_sim {τ υ : Type} (K : Loop τ υ) (hfail : ∀ s, L.step s ≠ .fail)
    {S : σ → τ → Prop} {R : ρ → Option υ → Prop}
    (hstep : ∀ s t, S s t →
      (∃ r u, L.step s = .done r ∧ K.step t = .done u ∧ R r (some u))
        ∨ (∃ r, L.step s = .done r ∧ K.step t = .fail ∧ R r none)
        ∨ ∃ s' t', L.step s = .more s' ∧ K.step t = .more t' ∧ S s' t')
    {t : τ} (h : S s t) : R (L.value hfail s) (K.run t) := by
  refine L.value_induction (I := fun s => ∃ t', S s t' ∧ K.run t' = K.run t)
    (R := fun r => R r (K.run t)) hfail ?_ ⟨t, h, rfl⟩
  rintro s ⟨t', h, he⟩
  rcases hstep s t' h with ⟨r, u, hr, ht, hR⟩ | ⟨r, hr, ht, hR⟩ |
    ⟨s', t₁, hs', ht, h'⟩
  · rw [hr, ← he, K.run_of_done ht]
    exact hR
  · rw [hr, ← he, K.run_of_fail ht]
    exact hR
  · rw [hs']
    exact ⟨t₁, h', (K.run_of_more ht).symm.trans he⟩

end Loop

/-! ## Tokens -/

/-- **A token**: a mark or a value. -/
inductive Token (α V : Type) where
  /-- A mark. -/
  | mark (b : α)
  /-- A value. -/
  | value (v : V)

/-- **How tokens are spelled**: what may stand between them, and what the
values are spelled as. A value is not spelled with a blank in front. -/
structure Lexicon (α V : Type) where
  /-- What may stand between tokens. -/
  blank : α → Bool
  /-- The spellings of a value. -/
  Spells : V → List α → Prop
  /-- There is no blank in front. -/
  solid : ∀ {v raw}, Spells v raw → ∃ b rest, raw = b :: rest ∧ blank b = false

namespace Lexicon

variable {α V : Type} (L : Lexicon α V) {t : Token α V}
  {ts us : List (Token α V)} {text mid rest : List α} {b : α}

/-- The spellings of a token. -/
def Raw : Token α V → List α → Prop
  | .mark b, raw => raw = [b] ∧ L.blank b = false
  | .value v, raw => L.Spells v raw

/-- **A text starts with a token**, with or without blanks in front, and goes
on with `rest`. -/
def Starts (t : Token α V) (text rest : List α) : Prop :=
  ∃ blanks raw, (∀ b ∈ blanks, L.blank b = true) ∧ L.Raw t raw
    ∧ text = blanks ++ (raw ++ rest)

/-- **A text starts with some tokens**, one after the other. -/
def Reads : List (Token α V) → List α → List α → Prop
  | [], text, rest => text = rest
  | t :: ts, text, rest => ∃ mid, L.Starts t text mid ∧ Reads ts mid rest

variable {L}

theorem raw_solid {raw : List α} (h : L.Raw t raw) :
    ∃ b rest, raw = b :: rest ∧ L.blank b = false := by
  cases t with
  | mark b => exact ⟨b, [], h.1, h.2⟩
  | value v => exact L.solid h

/-- **Skipping the blanks** leads to the token. -/
theorem starts_iff : L.Starts t text rest
    ↔ ∃ raw, L.Raw t raw ∧ text.dropWhile L.blank = raw ++ rest := by
  constructor
  · rintro ⟨blanks, raw, hb, hr, rfl⟩
    refine ⟨raw, hr, ?_⟩
    obtain ⟨b, raw', rfl, hsolid⟩ := raw_solid hr
    rw [List.dropWhile_append_of_pos hb]
    exact List.dropWhile_cons_of_neg (by rw [hsolid]; exact Bool.noConfusion)
  · rintro ⟨raw, hr, h⟩
    refine ⟨text.takeWhile L.blank, raw, fun b hb => ?_, hr, ?_⟩
    · exact List.mem_takeWhile_imp hb
    · rw [← h, List.takeWhile_append_dropWhile]

/-- A mark is the first thing behind the blanks. -/
theorem starts_mark_iff (hb : L.blank b = false) :
    L.Starts (.mark b) text rest ↔ text.dropWhile L.blank = b :: rest := by
  rw [starts_iff]
  constructor
  · rintro ⟨_, ⟨rfl, _⟩, h⟩
    exact h
  · exact fun h => ⟨[b], ⟨rfl, hb⟩, h⟩

/-- Blanks in front make no difference. -/
theorem starts_dropWhile :
    L.Starts t (text.dropWhile L.blank) rest ↔ L.Starts t text rest := by
  rw [starts_iff, starts_iff, List.dropWhile_idempotent]

theorem reads_dropWhile (h : ts ≠ []) :
    L.Reads ts (text.dropWhile L.blank) rest ↔ L.Reads ts text rest := by
  cases ts with
  | nil => exact absurd rfl h
  | cons t ts => exact exists_congr fun mid => and_congr_left' starts_dropWhile

/-- A text is read in two parts. -/
theorem reads_append : L.Reads (ts ++ us) text rest
    ↔ ∃ mid, L.Reads ts text mid ∧ L.Reads us mid rest := by
  induction ts generalizing text with
  | nil => exact ⟨fun h => ⟨text, rfl, h⟩, fun ⟨_, h, h'⟩ => h ▸ h'⟩
  | cons t ts ih =>
    constructor
    · rintro ⟨mid, hs, h⟩
      obtain ⟨mid', h, h'⟩ := ih.mp h
      exact ⟨mid', ⟨mid, hs, h⟩, h'⟩
    · rintro ⟨mid', ⟨mid, hs, h⟩, h'⟩
      exact ⟨mid, hs, ih.mpr ⟨mid', h, h'⟩⟩

theorem reads_singleton :
    L.Reads [t] text rest ↔ L.Starts t text rest :=
  ⟨fun ⟨_, h, he⟩ => he ▸ h, fun h => ⟨rest, h, rfl⟩⟩

/-- **Spellings are read**, one behind the other. -/
theorem reads_of_raws {raws : List (List α)} (h : List.Forall₂ L.Raw ts raws)
    (rest : List α) : L.Reads ts (raws.flatten ++ rest) rest := by
  induction h with
  | nil => rfl
  | @cons t raw ts raws hr _ ih =>
    refine ⟨raws.flatten ++ rest, ⟨[], raw, nofun, hr, ?_⟩, ih⟩
    rw [List.flatten_cons, List.append_assoc, List.nil_append]

/-- The rest is what the text ends with. -/
theorem Reads.suffix (h : L.Reads ts text rest) : rest <:+ text := by
  induction ts generalizing text with
  | nil => exact h ▸ List.suffix_rfl
  | cons t ts ih =>
    obtain ⟨mid, ⟨blanks, raw, _, _, rfl⟩, h⟩ := h
    exact (ih h).trans ⟨blanks ++ raw, List.append_assoc _ _ _⟩

/-- Every token of a text is spelled in it. -/
theorem Reads.exists_raw (h : L.Reads ts text rest) (ht : t ∈ ts) :
    ∃ raw, L.Raw t raw := by
  induction ts generalizing text with
  | nil => exact absurd ht List.not_mem_nil
  | cons u ts ih =>
    obtain ⟨mid, ⟨_, raw, _, hr, _⟩, h⟩ := h
    rcases List.mem_cons.mp ht with rfl | ht
    · exact ⟨raw, hr⟩
    · exact ih h ht

/-- **A text is as long as its tokens at least.** -/
theorem Reads.length_le {size : Token α V → ℕ}
    (hsize : ∀ t raw, L.Raw t raw → size t ≤ raw.length)
    (h : L.Reads ts text rest) :
    (ts.map size).sum + rest.length ≤ text.length := by
  induction ts generalizing text with
  | nil => exact h ▸ Nat.le_of_eq (Nat.zero_add _)
  | cons t ts ih =>
    obtain ⟨mid, ⟨blanks, raw, _, hr, rfl⟩, h⟩ := h
    have h₁ := ih h
    have h₂ := hsize t raw hr
    rw [List.map_cons, List.sum_cons, List.length_append, List.length_append]
    omega

end Lexicon

/-! ## Items up to a closing mark -/

/-- **What parses an item**: from the resources, a state and the text, the
state with the item, what is left of the text, and of the resources. -/
structure ItemParser (η σ α : Type) where
  /-- The parser. -/
  parse : η → σ → List α → Option (σ × List α × η)
  /-- It never has more text than before. -/
  shrinks : ∀ {e s p s' p' e'}, parse e s p = some (s', p', e') →
    p'.length ≤ p.length

/-- **A list of items**: the marks between and behind them, and whether there
may be a separator behind the last one, or nothing at all. -/
structure Items (η σ α : Type) where
  /-- What parses an item. -/
  item : ItemParser η σ α
  /-- What may stand between tokens. -/
  blank : α → Bool
  /-- The separator. -/
  sep : α
  /-- The closing mark. -/
  close : α
  /-- Whether the closing mark may stand where an item could. -/
  lenient : Bool

namespace Items

variable {η σ α : Type} [DecidableEq α] (I : Items η σ α)

/-- What is in front of an item. -/
def ahead (p : List α) : List α :=
  if I.lenient = true then p.dropWhile I.blank else p

/-- **A turn of the loop**: the closing mark, or an item and the mark behind
it. -/
def step : σ × List α × η → Next (σ × List α × η) (σ × List α × η)
  | (s, p, e) =>
    if I.lenient = true ∧ (I.ahead p).head? = some I.close then
      .done (s, (I.ahead p).tail, e)
    else
      match I.item.parse e s (I.ahead p) with
      | none => .fail
      | some (s, p, e) =>
        match p.dropWhile I.blank with
        | [] => .fail
        | b :: rest =>
          if b = I.sep then .more (s, rest, e)
          else if b = I.close then .done (s, rest, e)
          else .fail

variable {I} {s s' s₁ : σ} {p p' p₁ : List α} {e e' e₁ : η}

/-- What the last turn is. -/
theorem step_eq_done (h : I.step (s, p, e) = .done (s', p', e')) :
    (I.lenient = true ∧ s' = s ∧ e' = e
      ∧ p.dropWhile I.blank = I.close :: p')
    ∨ ∃ p₁, I.item.parse e s (I.ahead p) = some (s', p₁, e')
      ∧ p₁.dropWhile I.blank = I.close :: p' := by
  unfold step at h
  dsimp only at h
  split at h
  next hc =>
    obtain ⟨rfl, rfl, rfl⟩ : s = s' ∧ (I.ahead p).tail = p' ∧ e = e' := by
      simpa using h
    refine .inl ⟨hc.1, rfl, rfl, ?_⟩
    have hhead := hc.2
    rw [ahead, if_pos hc.1] at hhead ⊢
    exact (List.cons_head?_tail hhead).symm
  · split at h
    · cases h
    next s₁ p₁ e₁ hparse =>
    split at h
    · cases h
    next b rest hrest =>
    split at h
    · cases h
    split at h
    next hb =>
      obtain ⟨rfl, rfl, rfl⟩ : s₁ = s' ∧ rest = p' ∧ e₁ = e' := by
        simpa using h
      exact .inr ⟨p₁, hparse, hb ▸ hrest⟩
    · cases h

/-- What a turn is that another one follows. -/
theorem step_eq_more (h : I.step (s, p, e) = .more (s', p', e')) :
    ∃ p₁, I.item.parse e s (I.ahead p) = some (s', p₁, e')
      ∧ p₁.dropWhile I.blank = I.sep :: p' := by
  unfold step at h
  dsimp only at h
  split at h
  · cases h
  split at h
  · cases h
  next s₁ p₁ e₁ hparse =>
  split at h
  · cases h
  next b rest hrest =>
  split at h
  next hb =>
    obtain ⟨rfl, rfl, rfl⟩ : s₁ = s' ∧ rest = p' ∧ e₁ = e' := by
      simpa using h
    exact ⟨p₁, hparse, hb ▸ hrest⟩
  · split at h <;> cases h

/-- The closing mark. -/
theorem step_closed (hl : I.lenient = true)
    (h : p.dropWhile I.blank = I.close :: p') :
    I.step (s, p, e) = .done (s, p', e) := by
  unfold step
  dsimp only
  rw [ahead, if_pos hl, h, if_pos ⟨hl, rfl⟩, List.tail_cons]

/-- An item and a mark behind it. -/
theorem step_item (hc : (p.dropWhile I.blank).head? ≠ some I.close)
    (hparse : I.item.parse e s (I.ahead p) = some (s₁, p₁, e₁)) {b : α}
    (hb : p₁.dropWhile I.blank = b :: p') :
    I.step (s, p, e) = if b = I.sep then .more (s₁, p', e₁)
      else if b = I.close then .done (s₁, p', e₁) else .fail := by
  unfold step
  dsimp only
  rw [if_neg, hparse]
  · dsimp only
    rw [hb]
  · rintro ⟨hl, h⟩
    rw [ahead, if_pos hl] at h
    exact hc h

omit [DecidableEq α] in
theorem length_dropWhile_le (I : Items η σ α) (p : List α) :
    (p.dropWhile I.blank).length ≤ p.length :=
  (List.dropWhile_suffix _).length_le

omit [DecidableEq α] in
theorem length_ahead_le (I : Items η σ α) (p : List α) :
    (I.ahead p).length ≤ p.length := by
  unfold ahead
  split
  · exact I.length_dropWhile_le p
  · exact Nat.le_refl _

omit [DecidableEq α] in
/-- An item and the mark behind it have a length. -/
theorem length_lt_of_item {b : α}
    (hparse : I.item.parse e s (I.ahead p) = some (s', p₁, e'))
    (hb : p₁.dropWhile I.blank = b :: p') : p'.length < p.length := by
  have h₁ := I.item.shrinks hparse
  have h₂ := I.length_ahead_le p
  have h₃ := I.length_dropWhile_le p₁
  rw [hb, List.length_cons] at h₃
  omega

variable (I)

/-- **The loop that reads items** up to the closing mark. -/
def loop : Loop (σ × List α × η) (σ × List α × η) where
  step := I.step
  size s := s.2.1.length
  decreases h := by
    obtain ⟨p₁, hparse, hb⟩ := step_eq_more h
    exact length_lt_of_item hparse hb

variable {I}

/-- **There is less of the text behind the items.** -/
theorem length_lt (h : I.loop.run (s, p, e) = some (s', p', e')) :
    p'.length < p.length := by
  refine I.loop.run_induction (R := fun a b => b.2.1.length < a.2.1.length)
    ?_ ?_ h
  · rintro ⟨s, p, e⟩ ⟨s', p', e'⟩ h
    rcases step_eq_done h with ⟨_, _, _, hb⟩ | ⟨p₁, hparse, hb⟩
    · have := I.length_dropWhile_le p
      rw [hb, List.length_cons] at this
      exact this
    · exact length_lt_of_item hparse hb
  · intro a b r h hr
    exact Nat.lt_trans hr (I.loop.decreases h)

/-! ### The items of a text -/

end Items

variable {α V σ : Type}

/-- **Items up to the closing mark**, as tokens: what the loop is meant to
read. `M s ts s'` says that the tokens `ts` are an item, and what becomes of
the state. -/
inductive ItemTokens (sep close : α) (lenient : Bool)
    (M : σ → List (Token α V) → σ → Prop) :
    σ → List (Token α V) → σ → Prop where
  /-- The closing mark. -/
  | stop {s : σ} (h : lenient = true) :
    ItemTokens sep close lenient M s [.mark close] s
  /-- The last item. -/
  | last {s s' : σ} {ts : List (Token α V)} (h : M s ts s') :
    ItemTokens sep close lenient M s (ts ++ [.mark close]) s'
  /-- An item that others may follow. -/
  | more {s s' s'' : σ} {ts us : List (Token α V)} (h : M s ts s')
    (h' : ItemTokens sep close lenient M s' us s'') :
    ItemTokens sep close lenient M s (ts ++ .mark sep :: us) s''

namespace Items

variable {η : Type} [DecidableEq α] {I : Items η σ α} {L : Lexicon α V}
  {M : σ → List (Token α V) → σ → Prop} {s s' : σ} {p p' : List α} {e e' : η}

/-- **The marks of a list are marks**, and different ones. -/
structure Marks (I : Items η σ α) (L : Lexicon α V) : Prop where
  /-- The blanks are those of the lexicon. -/
  blank : I.blank = L.blank
  /-- The separator is no blank. -/
  sep : L.blank I.sep = false
  /-- The closing mark is none either. -/
  close : L.blank I.close = false
  /-- They differ. -/
  ne : I.close ≠ I.sep

omit [DecidableEq α] in
/-- An item is read with or without the blanks in front of it. -/
theorem reads_ahead (hI : I.Marks L) {ts : List (Token α V)} (hne : ts ≠ []) :
    L.Reads ts (I.ahead p) p' ↔ L.Reads ts p p' := by
  unfold ahead
  split
  · rw [hI.blank]
    exact Lexicon.reads_dropWhile hne
  · exact Iff.rfl

/-- **What the loop accepts are items**, if what the parser accepts is one. -/
theorem sound (hI : I.Marks L)
    (hM : ∀ {e s p s' p' e'}, I.item.parse e s p = some (s', p', e') →
      ∃ ts, ts ≠ [] ∧ M s ts s' ∧ L.Reads ts p p')
    (h : I.loop.run (s, p, e) = some (s', p', e')) :
    ∃ ts, ItemTokens I.sep I.close I.lenient M s ts s'
      ∧ L.Reads ts p p' := by
  have hmark : ∀ {b q q'}, L.blank b = false → q.dropWhile I.blank = b :: q' →
      L.Starts (.mark b) q q' := fun hb h =>
    (Lexicon.starts_mark_iff hb).mpr (hI.blank ▸ h)
  refine I.loop.run_induction (R := fun a b => ∃ ts,
    ItemTokens I.sep I.close I.lenient M a.1 ts b.1 ∧ L.Reads ts a.2.1 b.2.1)
    ?_ ?_ h
  · rintro ⟨s, p, e⟩ ⟨s', p', e'⟩ h
    rcases step_eq_done h with ⟨hl, rfl, _, hb⟩ | ⟨p₁, hparse, hb⟩
    · exact ⟨_, .stop hl, Lexicon.reads_singleton.mpr (hmark hI.close hb)⟩
    · obtain ⟨ts, hne, hm, hr⟩ := hM hparse
      refine ⟨_, .last hm, Lexicon.reads_append.mpr
        ⟨p₁, (reads_ahead hI hne).mp hr, ?_⟩⟩
      exact Lexicon.reads_singleton.mpr (hmark hI.close hb)
  · rintro ⟨s, p, e⟩ ⟨s', p', e'⟩ r h ⟨us, hus, hru⟩
    obtain ⟨p₁, hparse, hb⟩ := step_eq_more h
    obtain ⟨ts, hne, hm, hr⟩ := hM hparse
    exact ⟨_, .more hm hus, Lexicon.reads_append.mpr
      ⟨p₁, (reads_ahead hI hne).mp hr, p', hmark hI.sep hb, hru⟩⟩

/-- A mark of the list stands behind the blanks. -/
def Follows (I : Items η σ α) (p : List α) : Prop :=
  ∃ b rest, (b = I.sep ∨ b = I.close) ∧ p.dropWhile I.blank = b :: rest

/-- **The loop accepts items**, if the parser accepts each, a mark of the list
behind it. `Good` is what the parser asks of the resources. -/
theorem complete (hI : I.Marks L) {Good : η → Prop}
    (hM : ∀ {e s ts s' p p'}, M s ts s' → L.Reads ts p p' → I.Follows p' →
      Good e → ∃ e', I.item.parse e s p = some (s', p', e') ∧ Good e')
    (hfirst : ∀ {s ts s' p p'}, M s ts s' → L.Reads ts p p' →
      ts ≠ [] ∧ (p.dropWhile L.blank).head? ≠ some I.close)
    {ts : List (Token α V)}
    (h : ItemTokens I.sep I.close I.lenient M s ts s')
    (hr : L.Reads ts p p') (hg : Good e) :
    ∃ e', I.loop.run (s, p, e) = some (s', p', e') ∧ Good e' := by
  have hmark : ∀ {b q q'}, L.blank b = false → L.Starts (.mark b) q q' →
      q.dropWhile I.blank = b :: q' := fun hb h =>
    hI.blank ▸ (Lexicon.starts_mark_iff hb).mp h
  have hitem : ∀ {s ts s' p p₁ p' e b}, M s ts s' → L.Reads ts p p₁ →
      (b = I.sep ∨ b = I.close) → p₁.dropWhile I.blank = b :: p' → Good e →
      ∃ e₁, Good e₁ ∧ I.step (s, p, e) = if b = I.sep then .more (s', p', e₁)
        else if b = I.close then .done (s', p', e₁) else .fail := by
    intro s ts s' p p₁ p' e b hm hr hb hrest hg
    obtain ⟨hne, hc⟩ := hfirst hm hr
    obtain ⟨e₁, hparse, hg₁⟩ := hM hm ((reads_ahead hI hne).mpr hr)
      ⟨b, p', hb, hrest⟩ hg
    exact ⟨e₁, hg₁, step_item (hI.blank ▸ hc) hparse hrest⟩
  induction h generalizing p e with
  | stop hl =>
    exact ⟨e, I.loop.run_of_done (step_closed hl
      (hmark hI.close (Lexicon.reads_singleton.mp hr))), hg⟩
  | last hm =>
    obtain ⟨p₁, hr, hc⟩ := Lexicon.reads_append.mp hr
    obtain ⟨e₁, hg₁, hstep⟩ := hitem hm hr (.inr rfl)
      (hmark hI.close (Lexicon.reads_singleton.mp hc)) hg
    rw [if_neg hI.ne, if_pos rfl] at hstep
    exact ⟨e₁, I.loop.run_of_done hstep, hg₁⟩
  | @more s s' s'' ts us hm _ ih =>
    obtain ⟨p₁, hr, p₂, hs, hru⟩ := Lexicon.reads_append.mp hr
    obtain ⟨e₁, hg₁, hstep⟩ := hitem hm hr (.inl rfl) (hmark hI.sep hs) hg
    rw [if_pos rfl] at hstep
    obtain ⟨e', hrun, hg'⟩ := ih hru hg₁
    have hmore : I.loop.run (s, p, e) = I.loop.run (s', p₂, e₁) :=
      I.loop.run_of_more hstep
    exact ⟨e', hmore.trans hrun, hg'⟩

omit [DecidableEq α] in
/-- **A list that is not lenient begins with an item.** -/
theorem not_closed {sep close : α}
    (hfirst : ∀ {s ts s' p p'}, M s ts s' → L.Reads ts p p' →
      ts ≠ [] ∧ (p.dropWhile L.blank).head? ≠ some close)
    {ts : List (Token α V)} (h : ItemTokens sep close false M s ts s')
    (hr : L.Reads ts p p') :
    ts ≠ [] ∧ (p.dropWhile L.blank).head? ≠ some close := by
  cases h with
  | stop h => exact Bool.noConfusion h
  | last hm =>
    obtain ⟨_, hr, _⟩ := Lexicon.reads_append.mp hr
    exact ⟨List.append_ne_nil_of_left_ne_nil (hfirst hm hr).1 _,
      (hfirst hm hr).2⟩
  | more hm =>
    obtain ⟨_, hr, _⟩ := Lexicon.reads_append.mp hr
    exact ⟨List.append_ne_nil_of_left_ne_nil (hfirst hm hr).1 _,
      (hfirst hm hr).2⟩

end Items

end Scanner
