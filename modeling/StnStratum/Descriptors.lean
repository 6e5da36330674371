import Mathlib.Data.List.Nodup
import Mathlib.Data.List.Perm.Subperm
import Mathlib.Logic.Function.Basic

/-!
# Descriptors

A process has a table of open descriptors, which are numbers, and variables
that hold one each or none. A call that opens takes the lowest number that is
free and leaves it in a variable; a call that closes closes what is in one, if
there is anything in it. A number can be lost, when a variable that holds one
is stored into, and it can be closed twice, when two variables hold the same.

A table is `Balanced` if neither has happened: the open numbers are those that
the variables hold and those that the process was started with. What keeps it
balanced is a matter of the variables alone: `Leads` says of some calls that
they never store into a variable that holds a number, and what they lead to.

Several parts of a program make their calls at their own pace, each with its
own variables. `Process` has a queue of calls for each of them, and `Ledger`
says that the table is balanced, whatever has been called so far, and that the
queues will lead to what the program believes to hold. The rules are
`Ledger.issue`, `Ledger.call` and `Ledger.drained`.
-/

/-- **A table of descriptors**, and the variables of type `ω` that hold
them. -/
structure Descriptors (ω : Type) where
  /-- The numbers that are open. -/
  opened : List ℕ
  /-- What the variables hold. -/
  held : List (ω × ℕ)
  /-- How often a number has been closed that was not open. -/
  faults : ℕ
  deriving DecidableEq

/-- **A call** that is about a variable. -/
inductive DescriptorCall (ω : Type) where
  /-- A number is opened and stored. -/
  | opens (o : ω)
  /-- What is stored is closed. -/
  | closes (o : ω)
  deriving DecidableEq

namespace DescriptorCall

variable {ω : Type}

/-- The variable. -/
def owner : DescriptorCall ω → ω
  | .opens o => o
  | .closes o => o

end DescriptorCall

namespace Descriptors

variable {ω : Type}

/-! ## The table -/

/-- **The lowest number that is free.** -/
def lowest (opened : List ℕ) : ℕ :=
  ((List.range (opened.length + 1)).find? fun n => decide (n ∉ opened)).getD 0

/-- There is always a number that is free. -/
theorem lowest_not_mem (opened : List ℕ) : lowest opened ∉ opened := by
  unfold lowest
  cases hfind : (List.range (opened.length + 1)).find?
      fun n => decide (n ∉ opened) with
  | none =>
    have hsub : List.range (opened.length + 1) ⊆ opened := fun n hn => by
      have := List.find?_eq_none.mp hfind n hn
      simpa using this
    have hle := (List.nodup_range.subperm hsub).length_le
    rw [List.length_range] at hle
    exact absurd hle (Nat.not_succ_le_self _)
  | some n => simpa using List.find?_some hfind

/-- Whether a variable holds a number. -/
def Holds (d : Descriptors ω) (o : ω) : Prop := ∃ n, (o, n) ∈ d.held

/-- **The books are balanced.** -/
structure Balanced (inherited : List ℕ) (d : Descriptors ω) : Prop where
  /-- What is open is held or was open at the start. -/
  opened : d.opened.Perm (d.held.map Prod.snd ++ inherited)
  /-- No number is open twice, so that none is held twice. -/
  nodup : d.opened.Nodup
  /-- No variable holds two. -/
  owners : (d.held.map Prod.fst).Nodup
  /-- No number has been closed that was not open. -/
  faults : d.faults = 0

namespace Balanced

variable {inherited : List ℕ} {d : Descriptors ω}

/-- What is held is open. -/
theorem mem_opened (h : d.Balanced inherited) {o : ω} {n : ℕ}
    (hn : (o, n) ∈ d.held) : n ∈ d.opened :=
  h.opened.mem_iff.mpr (List.mem_append_left _ (List.mem_map_of_mem hn))

/-- **No two variables hold the same number.** -/
theorem numbers (h : d.Balanced inherited) : (d.held.map Prod.snd).Nodup :=
  (h.opened.nodup_iff.mp h.nodup).sublist (List.sublist_append_left _ _)

/-- **If nothing is held, nothing but what was open at the start is open.** -/
theorem opened_of_free (h : d.Balanced inherited)
    (hfree : ∀ o, ¬ d.Holds o) : d.opened.Perm inherited := by
  have hnone : d.held = [] :=
    List.eq_nil_iff_forall_not_mem.mpr fun e he => hfree e.1 ⟨e.2, he⟩
  have := h.opened
  rwa [hnone, List.map_nil, List.nil_append] at this

end Balanced

/-! ## Calls -/

section Calls

variable [DecidableEq ω]

/-- What is in a variable. -/
def number? (d : Descriptors ω) (o : ω) : Option ℕ :=
  (d.held.find? fun e => decide (e.1 = o)).map Prod.snd

/-- **What a call does.** -/
def act (d : Descriptors ω) : DescriptorCall ω → Descriptors ω
  | .opens o =>
    { d with
      opened := lowest d.opened :: d.opened
      held := (o, lowest d.opened) :: d.held.filter fun e => e.1 ≠ o }
  | .closes o =>
    match d.number? o with
    | none => d
    | some n =>
      { opened := d.opened.erase n
        held := d.held.filter fun e => e.1 ≠ o
        faults := if n ∈ d.opened then d.faults else d.faults + 1 }

/-- What is in a variable is held. -/
theorem mem_of_number? {d : Descriptors ω} {o : ω} {n : ℕ}
    (h : d.number? o = some n) : (o, n) ∈ d.held := by
  obtain ⟨⟨o', n'⟩, hfind, rfl⟩ := Option.map_eq_some_iff.mp h
  have howner := List.find?_some hfind
  obtain rfl : o' = o := of_decide_eq_true howner
  exact List.mem_of_find?_eq_some hfind

/-- A variable with nothing in it holds nothing. -/
theorem not_holds_of_number? {d : Descriptors ω} {o : ω}
    (h : d.number? o = none) : ¬ d.Holds o := by
  rintro ⟨n, hn⟩
  have := List.find?_eq_none.mp (Option.map_eq_none_iff.mp h) (o, n) hn
  exact this (decide_eq_true rfl)

/-- What is held by one variable and by the others. -/
theorem held_perm {d : Descriptors ω} (h : (d.held.map Prod.fst).Nodup) {o : ω}
    {n : ℕ} (hn : (o, n) ∈ d.held) :
    d.held.Perm ((o, n) :: d.held.filter fun e => e.1 ≠ o) := by
  obtain ⟨front, rest, hsplit⟩ := List.append_of_mem hn
  rw [hsplit] at h ⊢
  rw [List.map_append, List.map_cons, List.nodup_middle, List.nodup_cons,
    List.mem_append, not_or] at h
  have hkeep : ∀ l : List (ω × ℕ), o ∉ l.map Prod.fst →
      l.filter (fun e => e.1 ≠ o) = l := fun l hl =>
    List.filter_eq_self.mpr fun e he =>
      decide_eq_true fun ho => hl (ho ▸ List.mem_map_of_mem he)
  rw [List.filter_append, List.filter_cons_of_neg (by simp),
    hkeep front h.1.1, hkeep rest h.1.2]
  exact List.perm_middle

/-- Who holds a number behind a call. -/
theorem holds_opens (d : Descriptors ω) (o x : ω) :
    (d.act (.opens o)).Holds x ↔ x = o ∨ d.Holds x := by
  constructor
  · rintro ⟨n, hn⟩
    rcases List.mem_cons.mp hn with he | hn
    · exact .inl (congrArg Prod.fst he)
    · exact .inr ⟨n, (List.mem_filter.mp hn).1⟩
  · intro h
    by_cases hx : x = o
    · exact ⟨_, List.mem_cons.mpr (.inl (by rw [hx]))⟩
    · obtain ⟨n, hn⟩ := h.resolve_left hx
      exact ⟨n, List.mem_cons.mpr (.inr
        (List.mem_filter.mpr ⟨hn, decide_eq_true hx⟩))⟩

theorem holds_closes (d : Descriptors ω) (o x : ω) :
    (d.act (.closes o)).Holds x ↔ x ≠ o ∧ d.Holds x := by
  unfold act
  dsimp only
  cases hnumber : d.number? o with
  | none =>
    refine ⟨fun h => ⟨?_, h⟩, fun h => h.2⟩
    rintro rfl
    exact not_holds_of_number? hnumber h
  | some n =>
    constructor
    · rintro ⟨m, hm⟩
      obtain ⟨hm, hx⟩ := List.mem_filter.mp hm
      exact ⟨of_decide_eq_true hx, m, hm⟩
    · rintro ⟨hx, m, hm⟩
      exact ⟨m, List.mem_filter.mpr ⟨hm, decide_eq_true hx⟩⟩

namespace Balanced

variable {inherited : List ℕ} {d : Descriptors ω}

/-- **Opening keeps the books balanced**, if the variable is free. -/
theorem opens (h : d.Balanced inherited) {o : ω} (ho : ¬ d.Holds o) :
    (d.act (.opens o)).Balanced inherited := by
  have hkeep : d.held.filter (fun e => e.1 ≠ o) = d.held :=
    List.filter_eq_self.mpr fun e he =>
      decide_eq_true fun heq => ho ⟨e.2, by rw [← heq]; exact he⟩
  refine ⟨?_, List.nodup_cons.mpr ⟨lowest_not_mem _, h.nodup⟩, ?_, h.faults⟩
  · show List.Perm (_ :: _) (List.map _ (_ :: d.held.filter _) ++ _)
    rw [hkeep, List.map_cons, List.cons_append]
    exact h.opened.cons _
  · show (List.map _ (_ :: d.held.filter _)).Nodup
    rw [hkeep, List.map_cons, List.nodup_cons]
    refine ⟨fun hm => ?_, h.owners⟩
    obtain ⟨⟨o', n⟩, he, rfl⟩ := List.mem_map.mp hm
    exact ho ⟨n, he⟩

/-- **So does closing.** -/
theorem closes (h : d.Balanced inherited) (o : ω) :
    (d.act (.closes o)).Balanced inherited := by
  unfold act
  dsimp only
  cases hnumber : d.number? o with
  | none => exact h
  | some n =>
    have hmem := mem_of_number? hnumber
    have hperm := held_perm h.owners hmem
    refine ⟨?_, h.nodup.erase n, ?_, ?_⟩
    · have hopened := h.opened.trans ((hperm.map Prod.snd).append_right _)
      refine (hopened.erase n).trans ?_
      rw [List.map_cons, List.cons_append, List.erase_cons_head]
    · exact h.owners.sublist (List.filter_sublist.map Prod.fst)
    · show (if n ∈ d.opened then _ else _) = 0
      rw [if_pos (h.mem_opened hmem)]
      exact h.faults

end Balanced

end Calls

/-! ## What calls lead to -/

/-- **Calls that store into no variable that holds a number**, and lead from
some variables that hold one to others. -/
def Leads : (ω → Prop) → List (DescriptorCall ω) → (ω → Prop) → Prop
  | p, [], q => ∀ o, p o ↔ q o
  | p, .opens o :: cs, q => ¬ p o ∧ Leads (fun x => x = o ∨ p x) cs q
  | p, .closes o :: cs, q => Leads (fun x => x ≠ o ∧ p x) cs q

namespace Leads

variable {p p' q q' r : ω → Prop} {cs ds : List (DescriptorCall ω)}

theorem refl (p : ω → Prop) : Leads p [] p := fun _ => Iff.rfl

/-- A call that opens. -/
theorem opens {o : ω} (ho : ¬ p o) (hq : ∀ x, q x ↔ x = o ∨ p x) :
    Leads p [.opens o] q :=
  ⟨ho, fun x => (hq x).symm⟩

/-- A call that closes. -/
theorem closes {o : ω} (hq : ∀ x, q x ↔ x ≠ o ∧ p x) :
    Leads p [.closes o] q :=
  fun x => (hq x).symm

/-- A call that opens, and one that closes again. -/
theorem transient {o : ω} (ho : ¬ p o) : Leads p [.opens o, .closes o] p := by
  refine ⟨ho, fun x => ⟨fun h => h.2.resolve_left h.1, fun h => ⟨?_, .inr h⟩⟩⟩
  rintro rfl
  exact ho h

/-- Nothing but who holds a number matters. -/
theorem congr (h : Leads p cs q) (hp : ∀ o, p' o ↔ p o)
    (hq : ∀ o, q' o ↔ q o) : Leads p' cs q' := by
  obtain rfl : p' = p := funext fun o => propext (hp o)
  obtain rfl : q' = q := funext fun o => propext (hq o)
  exact h

/-- One after the other. -/
theorem trans (h : Leads p cs q) (h' : Leads q ds r) :
    Leads p (cs ++ ds) r := by
  induction cs generalizing p with
  | nil => exact h'.congr h fun _ => Iff.rfl
  | cons c cs ih =>
    cases c with
    | opens o => exact ⟨h.1, ih h.2⟩
    | closes o => exact ih h

/-- **The frame rule**: calls about some variables, whatever the others
hold. -/
theorem frame {S : ω → Prop} (h : Leads p cs q) (hown : ∀ c ∈ cs, S c.owner)
    (hp : ∀ o, S o → (p' o ↔ p o)) (hq : ∀ o, S o → (q' o ↔ q o))
    (hrest : ∀ o, ¬ S o → (q' o ↔ p' o)) : Leads p' cs q' := by
  induction cs generalizing p p' with
  | nil =>
    intro o
    by_cases ho : S o
    · exact (hp o ho).trans ((h o).trans (hq o ho).symm)
    · exact (hrest o ho).symm
  | cons c cs ih =>
    have hmine : S c.owner := hown c List.mem_cons_self
    have hown' : ∀ c ∈ cs, S c.owner := fun c hc =>
      hown c (List.mem_cons_of_mem _ hc)
    cases c with
    | opens o =>
      refine ⟨fun hn => h.1 ((hp o hmine).mp hn), ih h.2 hown' ?_ ?_⟩
      · exact fun x hx => or_congr_right (hp x hx)
      · refine fun x hx => (hrest x hx).trans (or_iff_right ?_).symm
        rintro rfl
        exact hx hmine
    | closes o =>
      refine ih h hown' ?_ ?_
      · exact fun x hx => and_congr_right fun _ => hp x hx
      · refine fun x hx => (hrest x hx).trans (and_iff_right ?_).symm
        rintro rfl
        exact hx hmine

/-- The others hold what they held. -/
theorem rest {S : ω → Prop} (h : Leads p cs q) (hown : ∀ c ∈ cs, S c.owner)
    {o : ω} (ho : ¬ S o) : q o ↔ p o := by
  induction cs generalizing p with
  | nil => exact (h o).symm
  | cons c cs ih =>
    have hne : o ≠ c.owner := by
      rintro rfl
      exact ho (hown c List.mem_cons_self)
    have hown' : ∀ c ∈ cs, S c.owner := fun c hc =>
      hown c (List.mem_cons_of_mem _ hc)
    cases c with
    | opens x => exact (ih h.2 hown').trans (or_iff_right hne)
    | closes x => exact (ih h hown').trans (and_iff_right hne)

end Leads

end Descriptors

/-! ## A process -/

/-- **A process** whose parts `κ` have calls to make. -/
structure Process (κ ω : Type) where
  /-- The table. -/
  table : Descriptors ω
  /-- The calls that each of them has still to make, in order. -/
  pending : κ → List (DescriptorCall ω)

namespace Process

open Descriptors (Leads)

variable {κ ω : Type} [DecidableEq κ]

/-- A part has more calls to make. -/
def issue (P : Process κ ω) (k : κ) (cs : List (DescriptorCall ω)) :
    Process κ ω :=
  { P with pending := Function.update P.pending k (P.pending k ++ cs) }

/-- **A part makes its next call.** -/
def call [DecidableEq ω] (P : Process κ ω) (k : κ) : Process κ ω :=
  match P.pending k with
  | [] => P
  | c :: cs =>
    { table := P.table.act c
      pending := Function.update P.pending k cs }

/-- **The ledger of a process**, of which every variable belongs to one part:
the books are balanced, and the calls to come lead to what the variables are
believed to hold. -/
structure Ledger (part : ω → κ) (inherited : List ℕ) (holds : ω → Prop)
    (P : Process κ ω) : Prop where
  /-- The books are balanced. -/
  balanced : P.table.Balanced inherited
  /-- The calls lead to it. -/
  leads : ∀ k, Leads (fun o => part o = k ∧ P.table.Holds o) (P.pending k)
    fun o => part o = k ∧ holds o
  /-- Each part sees to its own variables. -/
  own : ∀ k, ∀ c ∈ P.pending k, part c.owner = k

/-- Making a call gives no part more to call. -/
theorem pending_call [DecidableEq ω] {P : Process κ ω} {j : κ}
    (h : P.pending j = []) (k : κ) : (P.call k).pending j = [] := by
  unfold call
  split
  next => exact h
  next c cs hpending =>
    have hne : j ≠ k := by
      rintro rfl
      rw [h] at hpending
      cases hpending
    exact (Function.update_of_ne hne _ _).trans h

/-- Nothing changes without calls to make. -/
theorem issue_nil (P : Process κ ω) (k : κ) : P.issue k [] = P := by
  unfold issue
  rw [List.append_nil, Function.update_eq_self]

/-- A call that is made at once. -/
theorem call_issue [DecidableEq ω] (P : Process κ ω) {k : κ}
    (h : P.pending k = []) (c : DescriptorCall ω) :
    (P.issue k [c]).call k = { P with table := P.table.act c } := by
  unfold call issue
  rw [h]
  simp only [List.nil_append, Function.update_self, Function.update_idem]
  rw [← h, Function.update_eq_self]

namespace Ledger

variable {part : ω → κ} {inherited : List ℕ} {holds holds' : ω → Prop}
  {P : Process κ ω}

/-- **More calls** that lead to something else. -/
theorem issue (h : P.Ledger part inherited holds) {k : κ}
    {cs : List (DescriptorCall ω)} (hown : ∀ c ∈ cs, part c.owner = k)
    (hleads : Leads holds cs holds') :
    (P.issue k cs).Ledger part inherited holds' := by
  have hrest : ∀ o, part o ≠ k → (holds' o ↔ holds o) := fun o ho =>
    hleads.rest (S := fun o => part o = k) hown ho
  refine ⟨h.balanced, fun j => ?_, fun j c hc => ?_⟩
  · show Leads _ (Function.update P.pending k (P.pending k ++ cs) j) _
    by_cases hj : j = k
    · subst hj
      rw [Function.update_self]
      refine (h.leads j).trans (hleads.frame (S := fun o => part o = j) hown
        (fun o ho => and_iff_right ho) (fun o ho => and_iff_right ho) ?_)
      exact fun o ho => and_congr_right fun ho' => absurd ho' ho
    · rw [Function.update_of_ne hj]
      refine (h.leads j).congr (fun _ => Iff.rfl) fun o => ?_
      exact and_congr_right fun ho => hrest o (by rw [ho]; exact hj)
  · have hc' : c ∈ Function.update P.pending k (P.pending k ++ cs) j := hc
    by_cases hj : j = k
    · subst hj
      rw [Function.update_self] at hc'
      rcases List.mem_append.mp hc' with hc' | hc'
      · exact h.own j c hc'
      · exact hown c hc'
    · rw [Function.update_of_ne hj] at hc'
      exact h.own j c hc'

/-- **A call that is made** is as good as one that is still to come. -/
theorem call [DecidableEq ω] (h : P.Ledger part inherited holds) (k : κ) :
    (P.call k).Ledger part inherited holds := by
  unfold Process.call
  cases hpending : P.pending k with
  | nil => exact h
  | cons c cs =>
    have hleads := h.leads k
    have hown := h.own k
    rw [hpending] at hleads hown
    have hmine : part c.owner = k := hown c List.mem_cons_self
    -- the call is about a variable of this part, and the others hold the same
    have hother : ∀ o, part o ≠ k →
        ((P.table.act c).Holds o ↔ P.table.Holds o) := by
      intro o ho
      have hne : o ≠ c.owner := by
        rintro rfl
        exact ho hmine
      cases c with
      | opens x => exact (P.table.holds_opens x o).trans (or_iff_right hne)
      | closes x => exact (P.table.holds_closes x o).trans (and_iff_right hne)
    refine ⟨?_, fun j => ?_, fun j d hd => ?_⟩
    · cases c with
      | opens o => exact h.balanced.opens fun ho => hleads.1 ⟨hmine, ho⟩
      | closes o => exact h.balanced.closes o
    · dsimp only
      by_cases hj : j = k
      · subst hj
        rw [Function.update_self]
        cases c with
        | opens x =>
          refine hleads.2.congr (fun o => ?_) fun _ => Iff.rfl
          rw [P.table.holds_opens, and_or_left]
          refine or_congr_left (and_iff_right_of_imp ?_)
          rintro rfl
          exact hmine
        | closes x =>
          refine Leads.congr hleads (fun o => ?_) fun _ => Iff.rfl
          rw [P.table.holds_closes]
          exact and_left_comm
      · rw [Function.update_of_ne hj]
        refine (h.leads j).congr (fun o => ?_) fun _ => Iff.rfl
        exact and_congr_right fun ho => hother o (by rw [ho]; exact hj)
    · by_cases hj : j = k
      · subst hj
        dsimp only at hd
        rw [Function.update_self] at hd
        exact hown d (List.mem_cons_of_mem _ hd)
      · dsimp only at hd
        rw [Function.update_of_ne hj] at hd
        exact h.own j d hd

omit [DecidableEq κ] in
/-- **Where no call is left to make**, the variables hold what they are
believed to. -/
theorem drained (h : P.Ledger part inherited holds) {o : ω}
    (hdrained : P.pending (part o) = []) : P.table.Holds o ↔ holds o := by
  have hleads := h.leads (part o)
  rw [hdrained] at hleads
  exact ⟨fun ho => ((hleads o).mp ⟨rfl, ho⟩).2,
    fun ho => ((hleads o).mpr ⟨rfl, ho⟩).2⟩

end Ledger

end Process
