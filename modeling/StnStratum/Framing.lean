import StnStratum.Bytes

/-!
# Frames in a byte stream

A stream protocol without separators cuts its stream by the headers: the
first few bytes of a frame say how long the frame is. A `Framing` is such a
rule, and `Framing.decompose` is what a stream comes to under it: the
complete frames it starts with, and the bytes behind them, which are an
incomplete frame or a header that announces none.

The decomposition is the only one there is (`Framing.decompose_eq`): any
list of frames followed by a tail that no further frame begins is what
`decompose` finds. A program that keeps such a list and such a tail as its
bytes come in therefore has the decomposition of the whole stream in hand,
however the stream was cut on the way.
-/

/-- **A rule that cuts a stream into frames by their headers.** -/
structure Framing where
  /-- The length of a header. -/
  header : ℕ
  /-- The length of the frame a header announces, if it announces one. -/
  frameSize : Bytes → Option ℕ
  /-- A header is not empty. -/
  header_pos : 0 < header
  /-- A frame contains its header. -/
  header_le : ∀ h n, frameSize h = some n → header ≤ n

namespace Framing

variable (F : Framing)

/-- **A complete frame**: as long as its own header says. -/
def IsFrame (f : Bytes) : Prop :=
  F.header ≤ f.length ∧ F.frameSize (f.take F.header) = some f.length

/-- **An incomplete frame**: a part of a header, or a header with a part of
what it announces. -/
def Incomplete (t : Bytes) : Prop :=
  t.length < F.header ∨ ∃ n, F.frameSize (t.take F.header) = some n
    ∧ t.length < n

/-- A header that announces no frame, at the front of what is left. -/
def Refused (t : Bytes) : Prop :=
  F.header ≤ t.length ∧ F.frameSize (t.take F.header) = none

instance (f : Bytes) : Decidable (F.IsFrame f) :=
  inferInstanceAs (Decidable (_ ∧ _))

instance (t : Bytes) : Decidable (F.Refused t) :=
  inferInstanceAs (Decidable (_ ∧ _))

variable {F} in
/-- A complete frame is not an incomplete one. -/
theorem IsFrame.not_incomplete {f : Bytes} (h : F.IsFrame f) :
    ¬ F.Incomplete f := by
  rintro (hlt | ⟨n, hn, hlt⟩)
  · exact absurd h.1 (not_le.mpr hlt)
  · rw [h.2] at hn
    exact absurd hlt (not_lt.mpr (le_of_eq (Option.some.inj hn.symm)))

/-- Nothing is an incomplete frame. -/
theorem incomplete_nil : F.Incomplete [] := Or.inl F.header_pos

/-- The decomposition with a bound on the number of frames, which the
length of the stream is. -/
def decomposeAux : ℕ → Bytes → List Bytes × Bytes
  | 0, s => ([], s)
  | fuel + 1, s =>
    if s.length < F.header then ([], s)
    else
      match F.frameSize (s.take F.header) with
      | none => ([], s)
      | some n =>
        if s.length < n then ([], s)
        else
          let r := decomposeAux fuel (s.drop n)
          (s.take n :: r.1, r.2)

/-- **The decomposition of a stream**: the complete frames it starts with
and the bytes behind them. -/
def decompose (s : Bytes) : List Bytes × Bytes := F.decomposeAux s.length s

/-- A stream that no frame begins has none. -/
theorem decomposeAux_of_tail {fuel : ℕ} {t : Bytes}
    (h : F.Incomplete t ∨ F.Refused t) : F.decomposeAux fuel t = ([], t) := by
  cases fuel with
  | zero => rfl
  | succ fuel =>
    rw [decomposeAux]
    by_cases hh : t.length < F.header
    · rw [if_pos hh]
    · rw [if_neg hh]
      rcases h with (h | ⟨n, hn, hlt⟩) | ⟨_, hn⟩
      · exact absurd h hh
      · rw [hn]
        exact if_pos hlt
      · rw [hn]

/-- A frame at the front of a stream is the first of its decomposition. -/
theorem decomposeAux_cons {fuel : ℕ} {f s : Bytes} (hf : F.IsFrame f) :
    F.decomposeAux (fuel + 1) (f ++ s)
      = (f :: (F.decomposeAux fuel s).1, (F.decomposeAux fuel s).2) := by
  obtain ⟨hle, hsz⟩ := hf
  rw [decomposeAux, if_neg (by rw [List.length_append]; omega),
    List.take_append_of_le_length hle, hsz]
  dsimp only
  rw [if_neg (by rw [List.length_append]; omega), List.take_left,
    List.drop_left]

/-- **The decomposition is the only one**: frames in front of a tail that no
frame begins are what `decompose` finds. -/
theorem decompose_eq {fs : List Bytes} {t : Bytes}
    (hfs : ∀ f ∈ fs, F.IsFrame f) (ht : F.Incomplete t ∨ F.Refused t) :
    F.decompose (fs.flatten ++ t) = (fs, t) := by
  have haux : ∀ fuel, fs.length ≤ fuel →
      F.decomposeAux fuel (fs.flatten ++ t) = (fs, t) := by
    induction fs with
    | nil => exact fun fuel _ => F.decomposeAux_of_tail ht
    | cons f fs ih =>
      intro fuel hfuel
      obtain ⟨fuel, rfl⟩ : ∃ m, fuel = m + 1 :=
        ⟨fuel - 1, by rw [List.length_cons] at hfuel; omega⟩
      rw [List.flatten_cons, List.append_assoc,
        F.decomposeAux_cons (hfs f List.mem_cons_self),
        ih (fun g hg => hfs g (List.mem_cons_of_mem _ hg)) fuel
          (Nat.le_of_succ_le_succ hfuel)]
  refine haux _ ?_
  -- every frame has a byte, so there are no more frames than bytes
  clear haux ht
  induction fs with
  | nil => exact Nat.zero_le _
  | cons f fs ih =>
    have hf := (hfs f List.mem_cons_self).1
    have hpos := F.header_pos
    have := ih (fun g hg => hfs g (List.mem_cons_of_mem _ hg))
    rw [List.length_append] at this ⊢
    rw [List.flatten_cons, List.length_append, List.length_cons]
    omega

/-- The decomposition puts the stream back together. -/
theorem decomposeAux_flatten (fuel : ℕ) (s : Bytes) :
    (F.decomposeAux fuel s).1.flatten ++ (F.decomposeAux fuel s).2 = s := by
  fun_induction F.decomposeAux fuel s with
  | case5 s fuel _ n _ _ r ih =>
    dsimp only
    rw [List.flatten_cons, List.append_assoc, ih, List.take_append_drop]
  | _ => rfl

/-- What the decomposition lists are frames. -/
theorem isFrame_of_mem_decomposeAux {fuel : ℕ} {s f : Bytes}
    (h : f ∈ (F.decomposeAux fuel s).1) : F.IsFrame f := by
  fun_induction F.decomposeAux fuel s with
  | case5 fuel s hh n hn hlt r ih =>
    obtain rfl | h := List.mem_cons.mp h
    · have hle := F.header_le _ _ hn
      refine ⟨by rw [List.length_take]; omega, ?_⟩
      rw [List.take_take, Nat.min_eq_left hle, hn, List.length_take,
        Nat.min_eq_left (by omega)]
    · exact ih h
  | _ => exact absurd h List.not_mem_nil

/-- What the decomposition leaves is a tail that no frame begins. -/
theorem tail_decomposeAux {fuel : ℕ} {s : Bytes} (h : s.length ≤ fuel) :
    F.Incomplete (F.decomposeAux fuel s).2
      ∨ F.Refused (F.decomposeAux fuel s).2 := by
  fun_induction F.decomposeAux fuel s with
  | case1 s =>
    obtain rfl := List.eq_nil_of_length_eq_zero (Nat.le_zero.mp h)
    exact Or.inl F.incomplete_nil
  | case2 fuel s hh => exact Or.inl (Or.inl hh)
  | case3 fuel s hh hn => exact Or.inr ⟨Nat.le_of_not_lt hh, hn⟩
  | case4 fuel s hh n hn hlt => exact Or.inl (Or.inr ⟨n, hn, hlt⟩)
  | case5 fuel s hh n hn hlt r ih =>
    refine ih ?_
    have hle := F.header_le _ _ hn
    have hpos := F.header_pos
    rw [List.length_drop]
    omega

/-- **The stream is its frames and its tail.** -/
theorem decompose_flatten (s : Bytes) :
    (F.decompose s).1.flatten ++ (F.decompose s).2 = s :=
  F.decomposeAux_flatten _ _

theorem isFrame_of_mem_decompose {s f : Bytes}
    (h : f ∈ (F.decompose s).1) : F.IsFrame f :=
  F.isFrame_of_mem_decomposeAux h

theorem tail_decompose (s : Bytes) :
    F.Incomplete (F.decompose s).2 ∨ F.Refused (F.decompose s).2 :=
  F.tail_decomposeAux le_rfl

/-- A frame at the front of a stream is the first of its decomposition, and
the rest of the stream has the rest. -/
theorem decompose_append {f s : Bytes} (hf : F.IsFrame f) :
    F.decompose (f ++ s)
      = (f :: (F.decompose s).1, (F.decompose s).2) := by
  have h : F.decompose ((f :: (F.decompose s).1).flatten ++ (F.decompose s).2)
      = (f :: (F.decompose s).1, (F.decompose s).2) :=
    F.decompose_eq (fun g hg => by
      obtain rfl | hg := List.mem_cons.mp hg
      · exact hf
      · exact F.isFrame_of_mem_decompose hg) (F.tail_decompose s)
  rwa [List.flatten_cons, List.append_assoc, decompose_flatten] at h

/-- A stream that no frame begins is its own tail. -/
theorem decompose_of_tail {t : Bytes} (h : F.Incomplete t ∨ F.Refused t) :
    F.decompose t = ([], t) :=
  F.decomposeAux_of_tail h

end Framing
