import StnStratum.Machine
import Mathlib.Data.List.Induction
import Mathlib.Data.Nat.ModEq

/-!
# Reading what another thread writes

One thread publishes contents of many parts, another reads them, and neither
waits for the other's lock. A counter goes with the contents. The writer makes
it odd, stores the parts one by one and makes it even again. The reader copies
the parts one by one between two loads of the counter, and starts over unless
it has found the same even number twice.

The steps of both interleave in any order, and in between two steps of the
reader the writer may publish as often as it likes. The counter has `w` bits
and wraps. As long as fewer than `2 ^ (w - 1)` publications are completed
during one pass of the reader, what the reader returns is what was there at
the beginning or after some publication, as a whole (`Seqlock.returned_whole`).

The argument is about what two equal even loads mean. Between them no
publication has been completed, since the counter counts them and has not come
around; and none is under way at either, since the counter would be odd. So
there was no store in between at all, and what was copied is what was there.
-/

/-- **What is published and how it is read**: contents `σ`, and publications
`π`. -/
structure Seqlock (σ π : Type) where
  /-- The contents at the beginning. -/
  initial : σ
  /-- The stores of a publication, in order. -/
  stores : π → List (σ → σ)
  /-- The copies of a reader, in order: a part of the contents, into what it
  has copied so far. -/
  copies : List (σ → σ → σ)
  /-- They copy everything. -/
  copies_all : ∀ contents copy,
    copies.foldl (fun copy f => f contents copy) copy = contents

namespace Seqlock

/-! ## The two threads -/

/-- **Where the writer is.** -/
inductive Writer (σ π : Type) (w : ℕ) where
  /-- Between two publications. -/
  | idle
  /-- It has loaded the counter. -/
  | loaded (sequence : BitVec w) (p : π)
  /-- It has made the counter odd, and has these stores to make. -/
  | storing (sequence : BitVec w) (p : π) (rest : List (σ → σ))

/-- **Where the reader is**, with what it has copied. -/
inductive Reader (σ : Type) (w : ℕ) where
  /-- At the head of its loop, with the second number it has loaded. -/
  | atHead (after : BitVec w) (copy : σ)
  /-- It has found an even number, and has these copies to make. -/
  | copying (before after : BitVec w) (copy : σ) (rest : List (σ → σ → σ))
  /-- At the condition of its loop. -/
  | atTest (before after : BitVec w) (copy : σ)
  /-- It has returned. -/
  | returned (copy : σ)

/-- **The two threads and what they share.** -/
structure State (σ π : Type) (w : ℕ) where
  /-- The counter. -/
  sequence : BitVec w
  /-- The contents. -/
  contents : σ
  /-- The writer. -/
  writer : Writer σ π w
  /-- The reader. -/
  reader : Reader σ w
  /-- The publications completed, in order. -/
  completed : List π
  /-- How many there were when the reader's pass began. -/
  began : ℕ

/-- **A step of one of the two.** -/
inductive Action (σ π : Type) (w : ℕ) where
  /-- The writer begins a publication. -/
  | publish (p : π)
  /-- The writer makes its next step. -/
  | write
  /-- The reader is called, with whatever is in its variables. -/
  | call (after : BitVec w) (copy : σ)
  /-- The reader makes its next step. -/
  | read

variable {σ π : Type} {w : ℕ} (L : Seqlock σ π)

/-- The writer begins a publication, unless it is in one. -/
def begun (s : State σ π w) (p : π) : State σ π w :=
  match s.writer with
  | .idle => { s with writer := .loaded s.sequence p }
  | _ => s

/-- **A step of the writer.** -/
def written (s : State σ π w) : State σ π w :=
  match s.writer with
  | .idle => s
  | .loaded sequence p =>
    { s with
      sequence := sequence + 1
      writer := .storing sequence p (L.stores p) }
  | .storing sequence p (f :: rest) =>
    { s with
      contents := f s.contents
      writer := .storing sequence p rest }
  | .storing sequence p [] =>
    { s with
      sequence := sequence + 2
      writer := .idle
      completed := s.completed ++ [p] }

/-- The reader is called, unless it is in a call. -/
def called (s : State σ π w) (after : BitVec w) (copy : σ) : State σ π w :=
  match s.reader with
  | .returned _ => { s with reader := .atHead after copy }
  | _ => s

/-- **A step of the reader.** A pass that finds an odd number goes to the
condition at once, and the second number is then still that of the pass
before. -/
def readOn (s : State σ π w) : State σ π w :=
  match s.reader with
  | .atHead after copy =>
    { s with
      began := s.completed.length
      reader := if s.sequence &&& 1 ≠ 0 then .atTest s.sequence after copy
        else .copying s.sequence after copy L.copies }
  | .copying before after copy (f :: rest) =>
    { s with reader := .copying before after (f s.contents copy) rest }
  | .copying before _ copy [] =>
    { s with reader := .atTest before s.sequence copy }
  | .atTest before after copy =>
    { s with
      reader := if before ≠ after ∨ after &&& 1 ≠ 0 then .atHead after copy
        else .returned copy }
  | .returned _ => s

/-- **The machine of the two threads.** At the beginning nothing is published,
and the reader is in its first call, with whatever is in its variables. -/
def machine (w : ℕ) : Machine (State σ π w) (Action σ π w) where
  Start s := s.sequence = 0 ∧ s.contents = L.initial ∧ s.writer = .idle
    ∧ (∃ after copy, s.reader = .atHead after copy) ∧ s.completed = []
  act s
    | .publish p => begun s p
    | .write => L.written s
    | .call after copy => called s after copy
    | .read => L.readOn s

/-- **The pass is short**: fewer publications have been completed in it than
the counter tells apart. -/
def State.Unhurried (s : State σ π w) : Prop :=
  match s.reader with
  | .copying .. => s.completed.length < s.began + 2 ^ (w - 1)
  | .atTest .. => s.completed.length < s.began + 2 ^ (w - 1)
  | _ => True

/-! ## What is published -/

/-- The contents behind a publication. -/
def publish (contents : σ) (p : π) : σ :=
  (L.stores p).foldl (fun contents f => f contents) contents

/-- **The contents behind some publications.** -/
def after (ps : List π) : σ := ps.foldl L.publish L.initial

/-- **Contents as a whole**: those at the beginning, or those behind some of the
publications that are completed. -/
def Whole (ps : List π) (contents : σ) : Prop :=
  ∃ k ≤ ps.length, contents = L.after (ps.take k)

variable {L}

/-- One publication more. -/
theorem after_append (ps : List π) (p : π) :
    L.after (ps ++ [p]) = L.publish (L.after ps) p := List.foldl_append

/-- They are so as well when more are completed. -/
theorem Whole.append {ps : List π} {contents : σ} (h : L.Whole ps contents)
    (qs : List π) : L.Whole (ps ++ qs) contents := by
  obtain ⟨k, hk, hc⟩ := h
  refine ⟨k, hk.trans ?_, ?_⟩
  · rw [List.length_append]
    exact Nat.le_add_right _ _
  · rw [List.take_append_of_le_length hk]
    exact hc

/-! ## The counter -/

/-- The counter is odd if what it counts is. -/
theorem and_one_ne_zero (hw : 0 < w) (m : ℕ) :
    BitVec.ofNat w m &&& 1 ≠ 0 ↔ m % 2 = 1 := by
  have hone : 1 < 2 ^ w := Nat.one_lt_two_pow (by omega)
  have hdvd : 2 ∣ 2 ^ w := dvd_pow_self 2 (by omega)
  have hval : (BitVec.ofNat w m &&& 1).toNat = m % 2 := by
    show (BitVec.ofNat w m &&& BitVec.ofNat w 1).toNat = _
    rw [BitVec.toNat_and, BitVec.toNat_ofNat, BitVec.toNat_ofNat,
      Nat.mod_eq_of_lt hone, Nat.and_one_is_mod, Nat.mod_mod_of_dvd m hdvd]
  rw [ne_eq, ← BitVec.toNat_inj, hval]
  show ¬ m % 2 = (BitVec.ofNat w 0).toNat ↔ _
  rw [BitVec.toNat_ofNat, Nat.zero_mod]
  omega

/-- **The counter has not come around**: it tells apart as many publications
as half its values. -/
theorem eq_of_ofNat_eq (hw : 0 < w) {m n : ℕ} (hle : m ≤ n)
    (hlt : n < m + 2 ^ (w - 1))
    (h : BitVec.ofNat w (2 * m) = BitVec.ofNat w (2 * n)) : m = n := by
  have hmod : 2 * m ≡ 2 * n [MOD 2 ^ w] := by
    have := congrArg BitVec.toNat h
    rw [BitVec.toNat_ofNat, BitVec.toNat_ofNat] at this
    exact this
  have hdvd : 2 ^ w ∣ 2 * n - 2 * m :=
    (Nat.modEq_iff_dvd' (by omega)).mp hmod
  have hpow : 2 ^ w = 2 * 2 ^ (w - 1) := by
    rw [← pow_succ', Nat.sub_add_cancel hw]
  have := Nat.eq_zero_of_dvd_of_lt hdvd (by omega)
  omega

/-! ## The invariant -/

variable (L) in
/-- **The writer between two publications**: the counter has counted those
that are completed, and the contents are what they left. -/
structure Settled (s : State σ π w) : Prop where
  /-- The counter. -/
  sequence : s.sequence = BitVec.ofNat w (2 * s.completed.length)
  /-- The contents. -/
  contents : s.contents = L.after s.completed

variable (L) in
/-- **What the writer keeps.** -/
def WriterInv (s : State σ π w) : Prop :=
  match s.writer with
  | .idle => L.Settled s
  | .loaded sequence _ => sequence = s.sequence ∧ L.Settled s
  | .storing sequence p rest =>
    sequence = BitVec.ofNat w (2 * s.completed.length)
      ∧ s.sequence = BitVec.ofNat w (2 * s.completed.length + 1)
      ∧ ∃ front, L.stores p = front ++ rest
        ∧ s.contents = front.foldl (fun contents f => f contents)
          (L.after s.completed)

/-- The writer is not at its stores. -/
def Writer.Resting : Writer σ π w → Prop
  | .storing .. => False
  | _ => True

/-- **Nothing has been stored** since the reader's pass began. -/
def State.Undisturbed (s : State σ π w) : Prop :=
  s.completed.length = s.began ∧ s.writer.Resting

variable (L) in
/-- **What the reader keeps.** -/
def ReaderInv (s : State σ π w) : Prop :=
  match s.reader with
  | .atHead .. => True
  | .copying before _ copy rest =>
    s.began ≤ s.completed.length
      ∧ before = BitVec.ofNat w (2 * s.began)
      ∧ (s.Undisturbed → ∃ copy₀ front, L.copies = front ++ rest
        ∧ copy = front.foldl (fun copy f => f s.contents copy) copy₀)
  | .atTest before after copy =>
    before = after → after &&& 1 = 0 → L.Whole s.completed copy
  | .returned copy => L.Whole s.completed copy

variable (L) in
/-- **The invariant of the two threads.** -/
structure Inv (s : State σ π w) : Prop where
  /-- What the writer keeps. -/
  writer : L.WriterInv s
  /-- What the reader keeps. -/
  reader : L.ReaderInv s

/-- It holds at the beginning. -/
theorem inv_start {s : State σ π w} (h : (L.machine w).Start s) :
    L.Inv s := by
  obtain ⟨hseq, hcontents, hwriter, ⟨after, copy, hreader⟩, hcompleted⟩ := h
  constructor
  · unfold WriterInv
    rw [hwriter]
    exact ⟨by rw [hseq, hcompleted]; rfl, by rw [hcontents, hcompleted]; rfl⟩
  · unfold ReaderInv
    rw [hreader]
    trivial

/-- The writer's counter and contents, where it rests. -/
theorem WriterInv.settled {s : State σ π w} (h : L.WriterInv s)
    (hrest : s.writer.Resting) : L.Settled s := by
  unfold WriterInv at h
  generalize s.writer = writer at h hrest
  cases writer with
  | idle => exact h
  | loaded sequence p => exact h.2
  | storing sequence p rest => exact hrest.elim

/-- The counter is odd where the writer does not rest. -/
theorem WriterInv.resting (hw : 0 < w) {s : State σ π w} (h : L.WriterInv s)
    (heven : s.sequence &&& 1 = 0) : s.writer.Resting := by
  unfold WriterInv at h
  generalize s.writer = writer at h
  cases writer with
  | storing sequence p rest =>
    rw [h.2.1] at heven
    exact absurd heven ((and_one_ne_zero hw _).mpr (by omega))
  | _ => trivial

/-- **A step of the writer does not harm the reader**: more may be completed,
and what was there stays if nothing is stored. -/
theorem ReaderInv.writer {s s' : State σ π w} (h : L.ReaderInv s)
    (hreader : s'.reader = s.reader) (hbegan : s'.began = s.began)
    (hcompleted : ∃ qs, s'.completed = s.completed ++ qs)
    (hquiet : s.began ≤ s.completed.length → s'.Undisturbed →
      s.Undisturbed ∧ s'.contents = s.contents) : L.ReaderInv s' := by
  obtain ⟨qs, hqs⟩ := hcompleted
  unfold ReaderInv at h ⊢
  rw [hreader]
  generalize s.reader = reader at h
  cases reader with
  | atHead after copy => trivial
  | copying before after copy rest =>
    obtain ⟨hle, hbefore, hcopy⟩ := h
    refine ⟨?_, hbegan ▸ hbefore, fun hun => ?_⟩
    · rw [hbegan, hqs, List.length_append]
      exact hle.trans (Nat.le_add_right _ _)
    · obtain ⟨hun, hcontents⟩ := hquiet hle hun
      rw [hcontents]
      exact hcopy hun
  | atTest before after copy =>
    intro heq heven
    rw [hqs]
    exact (h heq heven).append qs
  | returned copy =>
    show L.Whole s'.completed copy
    rw [hqs]
    exact Whole.append h qs

/-- **A step of the writer keeps the invariant.** -/
theorem Inv.written {s : State σ π w} (h : L.Inv s) :
    L.Inv (L.written s) := by
  obtain ⟨hw, hr⟩ := h
  unfold Seqlock.written
  have hinv := hw
  unfold WriterInv at hw
  split
  next => exact ⟨hinv, hr⟩
  next sequence p hwriter =>
    rw [hwriter] at hw
    obtain ⟨rfl, hsettled⟩ := hw
    refine ⟨⟨hsettled.sequence, ?_, [], rfl, hsettled.contents⟩, ?_⟩
    · show s.sequence + 1 = _
      rw [hsettled.sequence, BitVec.ofNat_add]
      rfl
    · exact hr.writer rfl rfl ⟨[], (List.append_nil _).symm⟩
        fun _ hun => hun.2.elim
  next sequence p f rest hwriter =>
    rw [hwriter] at hw
    obtain ⟨hseq, hodd, front, hstores, hcontents⟩ := hw
    refine ⟨⟨hseq, hodd, front ++ [f], ?_, ?_⟩, ?_⟩
    · rw [hstores, List.append_assoc]
      rfl
    · show f s.contents = _
      rw [List.foldl_append, ← hcontents]
      rfl
    · exact hr.writer rfl rfl ⟨[], (List.append_nil _).symm⟩
        fun _ hun => hun.2.elim
  next sequence p hwriter =>
    rw [hwriter] at hw
    obtain ⟨hseq, hodd, front, hstores, hcontents⟩ := hw
    refine ⟨⟨?_, ?_⟩, ?_⟩
    · show sequence + 2 = BitVec.ofNat w (2 * (s.completed ++ [p]).length)
      rw [hseq, List.length_append, Nat.mul_add, BitVec.ofNat_add]
      rfl
    · show s.contents = L.after (s.completed ++ [p])
      rw [after_append, publish, hstores, List.append_nil]
      exact hcontents
    · -- one more is completed than when the pass began
      refine hr.writer rfl rfl ⟨[p], rfl⟩ fun hle hun => ?_
      have hlen : (s.completed ++ [p]).length = s.began := hun.1
      rw [List.length_append, List.length_singleton] at hlen
      omega

/-- A step that only begins a publication keeps the invariant. -/
theorem Inv.begun {s : State σ π w} (h : L.Inv s) (p : π) :
    L.Inv (begun s p) := by
  obtain ⟨hw, hr⟩ := h
  unfold Seqlock.begun
  split
  next hwriter =>
    have hsettled := hw.settled (by rw [hwriter]; trivial)
    exact ⟨⟨rfl, hsettled.sequence, hsettled.contents⟩,
      hr.writer rfl rfl ⟨[], (List.append_nil _).symm⟩ fun _ hun =>
        ⟨⟨hun.1, by rw [hwriter]; trivial⟩, rfl⟩⟩
  next => exact ⟨hw, hr⟩

/-- What the writer keeps is about what the reader does not touch. -/
theorem WriterInv.congr {s s' : State σ π w} (h : L.WriterInv s)
    (hwriter : s'.writer = s.writer) (hsequence : s'.sequence = s.sequence)
    (hcontents : s'.contents = s.contents)
    (hcompleted : s'.completed = s.completed) : L.WriterInv s' := by
  obtain ⟨sequence, contents, writer, reader, completed, began⟩ := s
  obtain ⟨sequence', contents', writer', reader', completed', began'⟩ := s'
  dsimp only at hwriter hsequence hcontents hcompleted
  subst hwriter hsequence hcontents hcompleted
  unfold WriterInv at h ⊢
  dsimp only at h ⊢
  cases writer' with
  | idle => exact ⟨h.sequence, h.contents⟩
  | loaded sequence p => exact ⟨h.1, h.2.sequence, h.2.contents⟩
  | storing sequence p rest => exact h

/-- A call keeps the invariant. -/
theorem Inv.called {s : State σ π w} (h : L.Inv s) (after : BitVec w)
    (copy : σ) : L.Inv (called s after copy) := by
  unfold Seqlock.called
  split
  next => exact ⟨h.writer.congr rfl rfl rfl rfl, trivial⟩
  next => exact h

/-- **A step of the reader keeps the invariant**, if its pass is short. -/
theorem Inv.readOn (hw : 0 < w) {s : State σ π w} (h : L.Inv s)
    (hpace : s.Unhurried) : L.Inv (L.readOn s) := by
  obtain ⟨hwriter, hr⟩ := h
  unfold Seqlock.readOn
  unfold State.Unhurried at hpace
  have hinv := hr
  unfold ReaderInv at hr
  split
  next after copy hreader =>
    refine ⟨hwriter.congr rfl rfl rfl rfl, ?_⟩
    unfold ReaderInv
    dsimp only
    by_cases hodd : s.sequence &&& 1 ≠ 0
    · -- an odd number is not the second one, or that one is odd as well
      rw [if_pos hodd]
      rintro rfl heven
      exact absurd heven hodd
    · rw [if_neg hodd]
      have hsettled := hwriter.settled (hwriter.resting hw (not_not.mp hodd))
      exact ⟨le_rfl, hsettled.sequence, fun _ => ⟨copy, [], rfl, rfl⟩⟩
  next before after copy f rest hreader =>
    refine ⟨hwriter.congr rfl rfl rfl rfl, ?_⟩
    rw [hreader] at hr
    obtain ⟨hle, hbefore, hcopy⟩ := hr
    refine ⟨hle, hbefore, fun hun => ?_⟩
    obtain ⟨copy₀, front, hcopies, hfront⟩ := hcopy hun
    refine ⟨copy₀, front ++ [f], ?_, ?_⟩
    · rw [hcopies, List.append_assoc]
      rfl
    · show f s.contents copy = _
      rw [List.foldl_append, ← hfront]
      rfl
  next before after copy hreader =>
    refine ⟨hwriter.congr rfl rfl rfl rfl, ?_⟩
    rw [hreader] at hr hpace
    obtain ⟨hle, hbefore, hcopy⟩ := hr
    intro heq heven
    -- two equal even loads: nothing was stored in between
    have hrest := hwriter.resting hw heven
    have hsettled := hwriter.settled hrest
    have hlen : s.began = s.completed.length :=
      eq_of_ofNat_eq hw hle hpace (by rw [← hbefore, heq, hsettled.sequence])
    obtain ⟨copy₀, front, hcopies, hfront⟩ := hcopy ⟨hlen.symm, hrest⟩
    rw [List.append_nil] at hcopies
    refine ⟨s.completed.length, le_rfl, ?_⟩
    rw [List.take_length, ← hsettled.contents, hfront, ← hcopies]
    exact L.copies_all _ _
  next before after copy hreader =>
    refine ⟨hwriter.congr rfl rfl rfl rfl, ?_⟩
    rw [hreader] at hr
    unfold ReaderInv
    dsimp only
    by_cases hagain : before ≠ after ∨ after &&& 1 ≠ 0
    · rw [if_pos hagain]
      trivial
    · rw [if_neg hagain]
      obtain ⟨heq, heven⟩ := not_or.mp hagain
      exact hr (not_not.mp heq) (not_not.mp heven)
  next => exact ⟨hwriter, hinv⟩

/-! ## Runs -/

/-- **Every step keeps the invariant**, if the reader's pass is short. -/
theorem Inv.act (hw : 0 < w) {s : State σ π w} (h : L.Inv s)
    (hpace : s.Unhurried) (a : Action σ π w) :
    L.Inv ((L.machine w).act s a) := by
  cases a with
  | publish p => exact h.begun p
  | write => exact h.written
  | call after copy => exact h.called after copy
  | read => exact h.readOn hw hpace

/-- **The invariant holds along every run** in which the reader's passes are
short. -/
theorem inv_of_run (hw : 0 < w) {s : State σ π w} (h : (L.machine w).Start s)
    {as : List (Action σ π w)}
    (hpace : ∀ bs, bs <+: as → ((L.machine w).run s bs).Unhurried) :
    L.Inv ((L.machine w).run s as) := by
  induction as using List.reverseRecOn with
  | nil => exact inv_start h
  | append_singleton as a ih =>
    have hpre : as <+: as ++ [a] := List.prefix_append as [a]
    rw [Machine.run_append]
    exact (ih fun bs hbs => hpace bs (hbs.trans hpre)).act hw (hpace as hpre) a

/-- A step completes one publication at most. -/
theorem length_completed_act (s : State σ π w) (a : Action σ π w) :
    ((L.machine w).act s a).completed.length ≤ s.completed.length + 1 := by
  cases a with
  | publish p =>
    show (begun s p).completed.length ≤ _
    unfold begun
    split <;> exact Nat.le_succ _
  | write =>
    show (L.written s).completed.length ≤ _
    unfold written
    split
    next => exact Nat.le_succ _
    next => exact Nat.le_succ _
    next => exact Nat.le_succ _
    next => exact le_of_eq List.length_append
  | call after copy =>
    show (called s after copy).completed.length ≤ _
    unfold called
    split <;> exact Nat.le_succ _
  | read =>
    show (L.readOn s).completed.length ≤ _
    unfold readOn
    split <;> exact Nat.le_succ _

/-- **In a run that is short itself**, every pass is. -/
theorem unhurried_of_short {s : State σ π w} (h : (L.machine w).Start s)
    {as : List (Action σ π w)} (hlen : as.length < 2 ^ (w - 1)) :
    ∀ bs, bs <+: as → ((L.machine w).run s bs).Unhurried := by
  have hcount : ∀ bs : List (Action σ π w),
      ((L.machine w).run s bs).completed.length ≤ bs.length := by
    intro bs
    induction bs using List.reverseRecOn with
    | nil => exact le_of_eq (congrArg List.length h.2.2.2.2)
    | append_singleton bs a ih =>
      rw [Machine.run_append, List.length_append, List.length_singleton]
      exact (length_completed_act _ a).trans (Nat.succ_le_succ ih)
  intro bs hbs
  have hle := (hcount bs).trans hbs.length_le
  unfold State.Unhurried
  split
  next => omega
  next => omega
  next => trivial

/-- **What the reader returns was there as a whole**: at the beginning, or
behind one of the publications completed by then. -/
theorem returned_whole (hw : 0 < w) {s : State σ π w}
    (h : (L.machine w).Start s) {as : List (Action σ π w)}
    (hpace : ∀ bs, bs <+: as → ((L.machine w).run s bs).Unhurried) {copy : σ}
    (hret : ((L.machine w).run s as).reader = .returned copy) :
    L.Whole ((L.machine w).run s as).completed copy := by
  have hr := (inv_of_run hw h hpace).reader
  unfold ReaderInv at hr
  rw [hret] at hr
  exact hr

/-! ## The reader does not go back -/

variable (L) in
/-- **What the reader returns is recent**: it was there when its last pass
began, or has been published since. -/
def Recent (s : State σ π w) : Prop :=
  match s.reader with
  | .atTest before after copy => before = after → after &&& 1 = 0 →
    ∃ k, s.began ≤ k ∧ k ≤ s.completed.length
      ∧ copy = L.after (s.completed.take k)
  | .returned copy => ∃ k, s.began ≤ k ∧ k ≤ s.completed.length
      ∧ copy = L.after (s.completed.take k)
  | _ => True

/-- A step of the writer makes no difference to that. -/
theorem Recent.writer {s s' : State σ π w} (h : L.Recent s)
    (hreader : s'.reader = s.reader) (hbegan : s'.began = s.began)
    (hcompleted : ∃ qs, s'.completed = s.completed ++ qs) : L.Recent s' := by
  obtain ⟨qs, hqs⟩ := hcompleted
  have hmore : ∀ {copy : σ}, (∃ k, s.began ≤ k ∧ k ≤ s.completed.length
      ∧ copy = L.after (s.completed.take k)) → ∃ k, s'.began ≤ k
      ∧ k ≤ s'.completed.length ∧ copy = L.after (s'.completed.take k) := by
    rintro copy ⟨k, hb, hk, hc⟩
    refine ⟨k, hbegan ▸ hb, ?_, ?_⟩
    · rw [hqs, List.length_append]
      exact hk.trans (Nat.le_add_right _ _)
    · rw [hqs, List.take_append_of_le_length hk]
      exact hc
  unfold Recent at h ⊢
  rw [hreader]
  generalize s.reader = reader at h
  cases reader with
  | atTest before after copy => exact fun heq heven => hmore (h heq heven)
  | returned copy => exact hmore h
  | _ => trivial

/-- A writer only adds to what is completed. -/
theorem completed_written (s : State σ π w) :
    (L.written s).reader = s.reader ∧ (L.written s).began = s.began
      ∧ ∃ qs, (L.written s).completed = s.completed ++ qs := by
  unfold written
  split
  next => exact ⟨rfl, rfl, [], (List.append_nil _).symm⟩
  next => exact ⟨rfl, rfl, [], (List.append_nil _).symm⟩
  next => exact ⟨rfl, rfl, [], (List.append_nil _).symm⟩
  next sequence p _ => exact ⟨rfl, rfl, [p], rfl⟩

/-- A reader leaves the writer, the counter and what is completed alone, and a
pass of it begins at its head. -/
theorem completed_readOn (s : State σ π w) :
    (L.readOn s).completed = s.completed
      ∧ (L.readOn s).writer = s.writer ∧ (L.readOn s).sequence = s.sequence
      ∧ ((L.readOn s).began = s.completed.length
        ∨ (L.readOn s).began = s.began
          ∧ ∀ after copy, s.reader ≠ .atHead after copy) := by
  unfold readOn
  split
  next => exact ⟨rfl, rfl, rfl, .inl rfl⟩
  next h => exact ⟨rfl, rfl, rfl, .inr ⟨rfl, fun _ _ => by rw [h]; exact nofun⟩⟩
  next h => exact ⟨rfl, rfl, rfl, .inr ⟨rfl, fun _ _ => by rw [h]; exact nofun⟩⟩
  next h => exact ⟨rfl, rfl, rfl, .inr ⟨rfl, fun _ _ => by rw [h]; exact nofun⟩⟩
  next h => exact ⟨rfl, rfl, rfl, .inr ⟨rfl, fun _ _ => by rw [h]; exact nofun⟩⟩

/-- **How many steps a writer needs** to complete what it publishes. -/
def Writer.toIdle (L : Seqlock σ π) : Writer σ π w → ℕ
  | .idle => 0
  | .loaded _ p => (L.stores p).length + 2
  | .storing _ _ rest => rest.length + 1

/-- Each of its steps is one of them. -/
theorem toIdle_written {s : State σ π w} (h : s.writer ≠ .idle) :
    (L.written s).writer.toIdle L < s.writer.toIdle L := by
  unfold written
  split
  next hidle => exact absurd hidle h
  next hwriter =>
    rw [hwriter]
    exact Nat.lt_succ_self _
  next hwriter =>
    rw [hwriter]
    exact Nat.lt_succ_self _
  next hwriter =>
    rw [hwriter]
    exact Nat.zero_lt_one

/-- What a writer is publishing. -/
def Writer.inHand : Writer σ π w → List π
  | .idle => []
  | .loaded _ p => [p]
  | .storing _ p _ => [p]

/-- **The publications that have begun**, in order. -/
def State.publications (s : State σ π w) : List π :=
  s.completed ++ s.writer.inHand

/-- One more begins. -/
theorem publications_begun {s : State σ π w} (h : s.writer = .idle) (p : π) :
    (begun s p).publications = s.publications ++ [p] := by
  unfold begun State.publications
  rw [h]
  exact (congrArg (· ++ [p]) (List.append_nil _)).symm

/-- Completing them makes no difference. -/
theorem publications_written (s : State σ π w) :
    (L.written s).publications = s.publications := by
  unfold written State.publications
  split
  next h => rw [h]
  next h => rw [h]; rfl
  next h => rw [h]; rfl
  next h => rw [h]; exact List.append_nil _

theorem publications_readOn (s : State σ π w) :
    (L.readOn s).publications = s.publications := by
  obtain ⟨hcompleted, hwriter, _⟩ := completed_readOn (L := L) s
  unfold State.publications
  rw [hcompleted, hwriter]

theorem publications_called (s : State σ π w) (after : BitVec w) (copy : σ) :
    (called s after copy).publications = s.publications := by
  unfold called
  split <;> rfl

/-- **What has been copied between two equal even loads** is what is there. -/
theorem Inv.copied (hw : 0 < w) {s : State σ π w} (h : L.Inv s)
    (hpace : s.Unhurried) {after : BitVec w} {copy : σ}
    (hreader : s.reader = .copying s.sequence after copy [])
    (heven : s.sequence &&& 1 = 0) :
    s.began = s.completed.length ∧ copy = L.after s.completed := by
  have hr := h.reader
  unfold ReaderInv at hr
  unfold State.Unhurried at hpace
  rw [hreader] at hr hpace
  obtain ⟨hle, hbefore, hcopy⟩ := hr
  have hrest := h.writer.resting hw heven
  have hsettled := h.writer.settled hrest
  have hlen : s.began = s.completed.length :=
    eq_of_ofNat_eq hw hle hpace (hbefore.symm.trans hsettled.sequence)
  obtain ⟨copy₀, front, hcopies, hfront⟩ := hcopy ⟨hlen.symm, hrest⟩
  rw [List.append_nil] at hcopies
  refine ⟨hlen, ?_⟩
  rw [hfront, ← hcopies, ← hsettled.contents]
  exact L.copies_all _ _

/-- **A step of the reader keeps it recent**, if its pass is short. -/
theorem Recent.readOn (hw : 0 < w) {s : State σ π w} (h : L.Recent s)
    (hinv : L.Inv s) (hpace : s.Unhurried) : L.Recent (L.readOn s) := by
  have hrecent := h
  unfold Recent at h
  unfold Seqlock.readOn
  split
  next after copy hreader =>
    unfold Recent
    dsimp only
    by_cases hodd : s.sequence &&& 1 ≠ 0
    · rw [if_pos hodd]
      rintro rfl heven
      exact absurd heven hodd
    · rw [if_neg hodd]
      trivial
  next => trivial
  next before after copy hreader =>
    rintro rfl heven
    obtain ⟨hlen, hcopy⟩ := hinv.copied hw hpace hreader heven
    exact ⟨s.completed.length, hlen.le, le_rfl, by rw [List.take_length]; exact hcopy⟩
  next before after copy hreader =>
    rw [hreader] at h
    unfold Recent
    dsimp only
    by_cases hagain : before ≠ after ∨ after &&& 1 ≠ 0
    · rw [if_pos hagain]
      trivial
    · rw [if_neg hagain]
      obtain ⟨heq, heven⟩ := not_or.mp hagain
      exact h (not_not.mp heq) (not_not.mp heven)
  next => exact hrecent

/-! ## The reader returns -/

variable (L) in
/-- **How many steps the reader needs** while nothing is published. -/
def toReturn (s : State σ π w) : ℕ :=
  match s.reader with
  | .atHead .. => L.copies.length + 3
  | .copying before _ _ rest =>
    if before = s.sequence then rest.length + 2
    else rest.length + L.copies.length + 5
  | .atTest before after _ =>
    if before = after ∧ after &&& 1 = 0 then 1 else L.copies.length + 4
  | .returned _ => 0

/-- **Every step is one of them**, if the counter is even. -/
theorem toReturn_readOn {s : State σ π w} (heven : s.sequence &&& 1 = 0) :
    L.toReturn (L.readOn s) = L.toReturn s - 1 := by
  obtain ⟨sequence, contents, writer, reader, completed, began⟩ := s
  dsimp only at heven
  unfold readOn toReturn
  match reader with
  | .atHead after copy =>
    dsimp only
    rw [if_neg (not_not.mpr heven)]
    exact if_pos rfl
  | .copying before after copy (f :: rest) =>
    dsimp only
    rw [List.length_cons]
    split <;> omega
  | .copying before after copy [] =>
    dsimp only
    by_cases heq : before = sequence
    · rw [if_pos heq, if_pos ⟨heq, heven⟩]
      rfl
    · rw [if_neg heq, if_neg fun h => heq h.1, List.length_nil]
      omega
  | .atTest before after copy =>
    dsimp only
    by_cases hagain : before ≠ after ∨ after &&& 1 ≠ 0
    · rw [if_pos hagain, if_neg fun h => hagain.elim (· h.1) (· h.2)]
      rfl
    · obtain ⟨heq, hodd⟩ := not_or.mp hagain
      rw [if_neg hagain, if_pos ⟨not_not.mp heq, not_not.mp hodd⟩]
  | .returned copy => rfl

/-- The reader has no more copies to make than there are. -/
def Reader.Within (n : ℕ) : Reader σ w → Prop
  | .copying _ _ _ rest => rest.length ≤ n
  | _ => True

/-- A step of it does not change that. -/
theorem Reader.Within.readOn {s : State σ π w}
    (h : s.reader.Within L.copies.length) :
    (L.readOn s).reader.Within L.copies.length := by
  unfold Seqlock.readOn
  split
  next after copy hreader =>
    dsimp only
    split
    · trivial
    · exact le_rfl
  next before after copy f rest hreader =>
    rw [hreader] at h
    exact (Nat.le_succ _).trans h
  next => trivial
  next =>
    dsimp only
    split <;> trivial
  next => exact h

/-- **It never needs many of them.** -/
theorem toReturn_le {s : State σ π w} (h : s.reader.Within L.copies.length) :
    L.toReturn s ≤ 2 * L.copies.length + 5 := by
  unfold toReturn
  generalize s.reader = reader at h
  cases reader with
  | copying before after copy rest =>
    have hrest : rest.length ≤ L.copies.length := h
    dsimp only
    split <;> omega
  | atTest before after copy =>
    dsimp only
    split <;> omega
  | _ => dsimp only; omega

/-- Beginning a publication leaves the reader and what is completed alone. -/
theorem completed_begun (s : State σ π w) (p : π) :
    (begun s p).reader = s.reader ∧ (begun s p).began = s.began
      ∧ (begun s p).completed = s.completed := by
  unfold begun
  split <;> exact ⟨rfl, rfl, rfl⟩

/-- **What the writer keeps it keeps at any pace.** -/
theorem WriterInv.begun {s : State σ π w} (h : L.WriterInv s) (p : π) :
    L.WriterInv (begun s p) := by
  unfold Seqlock.begun
  split
  next hwriter =>
    have hsettled := h.settled (by rw [hwriter]; trivial)
    exact ⟨rfl, hsettled.sequence, hsettled.contents⟩
  next => exact h

theorem WriterInv.written {s : State σ π w} (h : L.WriterInv s) :
    L.WriterInv (L.written s) := by
  -- the reader does not matter, so it may as well be at its head
  have hinv : L.Inv { s with reader := .atHead 0 L.initial } :=
    ⟨h.congr rfl rfl rfl rfl, trivial⟩
  have hwritten := hinv.written.writer
  obtain ⟨sequence, contents, writer, reader, completed, began⟩ := s
  cases writer with
  | idle => exact h
  | loaded sequence p => exact hwritten.congr rfl rfl rfl rfl
  | storing sequence p rest =>
    cases rest with
    | nil => exact hwritten.congr rfl rfl rfl rfl
    | cons f rest => exact hwritten.congr rfl rfl rfl rfl

theorem WriterInv.readOn {s : State σ π w} (h : L.WriterInv s) :
    L.WriterInv (L.readOn s) := by
  unfold Seqlock.readOn
  split
  next => exact h.congr rfl rfl rfl rfl
  next => exact h.congr rfl rfl rfl rfl
  next => exact h.congr rfl rfl rfl rfl
  next => exact h.congr rfl rfl rfl rfl
  next => exact h

/-- Where the writer is between two publications the counter is even. -/
theorem WriterInv.even (hw : 0 < w) {s : State σ π w} (h : L.WriterInv s)
    (hidle : s.writer = .idle) : s.sequence &&& 1 = 0 := by
  have hsettled := h.settled (by rw [hidle]; trivial)
  by_contra hodd
  rw [hsettled.sequence] at hodd
  have := (and_one_ne_zero hw _).mp hodd
  omega

/-- The reader has returned if it needs no more of them. -/
theorem returned_of_toReturn {s : State σ π w} (h : L.toReturn s = 0) :
    ∃ copy, s.reader = .returned copy := by
  unfold toReturn at h
  split at h
  next => exact absurd h (by omega)
  next => split at h <;> exact absurd h (by omega)
  next => split at h <;> exact absurd h (by omega)
  next copy hreader => exact ⟨copy, hreader⟩

end Seqlock
