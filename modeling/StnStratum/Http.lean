import StnStratum.Printf

/-!
# Heads of messages

A message is a head and a body, and the head is some lines and a blank one.
Where the head ends is for the bytes to say: behind the first two ends of line
in a row (`HeadEnds`). If no line of the head is empty and none has a carriage
return in it, that is where it was meant to end, whatever the body is
(`headEnds_message`).

The first blank line of what there is of a message so far stays where it is
when more comes (`EndsAt.iff_of_prefix`).
-/

namespace Http

/-- Carriage return. -/
abbrev cr : UInt8 := 0x0d
/-- Line feed. -/
abbrev lf : UInt8 := 0x0a

/-- An end of line. -/
def crlf : Bytes := [cr, lf]

/-- The end of a line and a blank one. -/
def blankLine : Bytes := [cr, lf, cr, lf]

/-- **A blank line ends at `k`.** -/
def EndsAt (b : Bytes) (k : ℕ) : Prop :=
  ∃ front back, b = front ++ (blankLine ++ back) ∧ front.length + 4 = k

/-- **The head ends at `k`**, with the first blank line. -/
def HeadEnds (b : Bytes) (k : ℕ) : Prop := EndsAt b k ∧ ∀ j < k, ¬ EndsAt b j

/-- The head of some lines. -/
def head (lines : List Bytes) : Bytes :=
  lines.flatMap (fun line => line ++ crlf) ++ crlf

/-- **A message**: its lines, a blank one, and its body. -/
def message (lines : List Bytes) (body : Bytes) : Bytes := head lines ++ body

/-- What the fields with some name say. -/
def fieldValues (name : Bytes) (lines : List Bytes) : List Bytes :=
  lines.filterMap fun line =>
    if (name ++ [0x3a, 0x20]).isPrefixOf line = true then
      some (line.drop (name.length + 2))
    else none

/-- **A message is framed**: its head ends with the first blank line, one field
of it says how long the body is, and the body is that long. -/
def Framed (text body : Bytes) : Prop :=
  ∃ lines value, text = message lines body
    ∧ HeadEnds text (head lines).length
    ∧ fieldValues (ascii "Content-Length") lines = [value]
    ∧ (∀ b ∈ value, 0x30 ≤ b ∧ b ≤ 0x39)
    ∧ Printf.number value = body.length

section EndsAt

variable {b b' : Bytes} {k : ℕ}

theorem EndsAt.four_le (h : EndsAt b k) : 4 ≤ k := by
  obtain ⟨front, back, _, rfl⟩ := h
  exact Nat.le_add_left _ _

theorem EndsAt.le_length (h : EndsAt b k) : k ≤ b.length := by
  obtain ⟨front, back, rfl, rfl⟩ := h
  rw [List.length_append, List.length_append]
  show _ ≤ front.length + (4 + back.length)
  omega

theorem EndsAt.cr_mem (h : EndsAt b k) : cr ∈ b := by
  obtain ⟨front, back, rfl, _⟩ := h
  exact List.mem_append_right _ List.mem_cons_self

/-- A blank line is where four bytes are one. -/
theorem endsAt_iff :
    EndsAt b k ↔ 4 ≤ k ∧ slice b (k - 4) 4 = blankLine := by
  constructor
  · intro h
    refine ⟨h.four_le, ?_⟩
    obtain ⟨front, back, rfl, rfl⟩ := h
    exact slice_eq_of_append rfl (by omega) rfl
  · rintro ⟨h, hs⟩
    have hk : k ≤ b.length := by
      have := congrArg List.length hs
      rw [slice, List.length_take, List.length_drop] at this
      have : min 4 (b.length - (k - 4)) = 4 := this
      omega
    refine ⟨b.take (k - 4), b.drop (k - 4 + 4), ?_, ?_⟩
    · rw [← hs, slice_append_drop, List.take_append_drop]
    · rw [List.length_take]
      omega

instance (b : Bytes) (k : ℕ) : Decidable (EndsAt b k) :=
  decidable_of_iff _ endsAt_iff.symm

/-- **What comes behind makes no difference.** -/
theorem EndsAt.iff_of_prefix (h : b <+: b') (hk : k ≤ b.length) :
    EndsAt b k ↔ EndsAt b' k := by
  obtain ⟨t, rfl⟩ := h
  rw [endsAt_iff, endsAt_iff]
  refine and_congr_right fun h4 => ?_
  rw [slice_append_left (by omega)]

end EndsAt

/-- A head begins with a carriage return only if it has no lines. -/
theorem eq_nil_of_head {lines : List Bytes}
    (h : ∀ line ∈ lines, line ≠ [] ∧ cr ∉ line) {body rest : Bytes}
    (he : message lines body = cr :: rest) : lines = [] := by
  cases lines with
  | nil => rfl
  | cons line lines =>
    obtain ⟨hne, hcr⟩ := h line List.mem_cons_self
    obtain ⟨b, line, rfl⟩ := List.exists_cons_of_ne_nil hne
    exact absurd ((List.cons.inj he).1 ▸ List.mem_cons_self) hcr

/-- Nothing in front of the end of the head is a blank line. -/
theorem length_head_le {lines : List Bytes}
    (h : ∀ line ∈ lines, line ≠ [] ∧ cr ∉ line) {body front back : Bytes}
    (he : message lines body = front ++ (blankLine ++ back)) :
    (head lines).length ≤ front.length + 4 := by
  induction lines generalizing front with
  | nil => exact (show 2 ≤ front.length + 4 by omega)
  | cons line lines ih =>
    obtain ⟨hne, hcr⟩ := h line List.mem_cons_self
    have hrest := fun l hl => h l (List.mem_cons_of_mem line hl)
    have hm : message (line :: lines) body
        = line ++ (cr :: lf :: message lines body) := by
      simp [message, head, crlf]
    have hlen : (head (line :: lines)).length
        = line.length + (2 + (head lines).length) := by
      simp [head, crlf]
      omega
    rw [hm] at he
    rcases List.append_eq_append_iff.mp he with ⟨mid, rfl, hb⟩ | ⟨mid, rfl, hb⟩
    · rw [hlen, List.length_append]
      match mid, hb with
      | [], hb =>
        -- the blank line is the end of this line and one more behind it
        obtain rfl := eq_nil_of_head hrest (List.cons.inj (List.cons.inj hb).2).2
        exact le_rfl
      | [_], hb =>
        exact absurd (List.cons.inj (List.cons.inj hb).2).1 (by decide)
      | _ :: _ :: mid, hb =>
        have := ih hrest (List.cons.inj (List.cons.inj hb).2).2
        rw [List.length_cons, List.length_cons]
        omega
    · match mid, hb with
      | [], hb =>
        obtain rfl := eq_nil_of_head hrest
          (List.cons.inj (List.cons.inj hb).2).2.symm
        rw [hlen, List.append_nil]
        exact le_rfl
      | b :: mid, hb =>
        exact absurd ((List.cons.inj hb).1 ▸
          List.mem_append_right front List.mem_cons_self) hcr

/-- **The head ends where it was meant to**, whatever the body is. -/
theorem headEnds_message {lines : List Bytes} (hne : lines ≠ [])
    (h : ∀ line ∈ lines, line ≠ [] ∧ cr ∉ line) (body : Bytes) :
    HeadEnds (message lines body) (head lines).length := by
  refine ⟨?_, ?_⟩
  · obtain ⟨lines, line, rfl⟩ := List.eq_nil_or_concat lines |>.resolve_left hne
    refine ⟨lines.flatMap (fun line => line ++ crlf) ++ line, body, ?_, ?_⟩
    · simp [message, head, crlf, blankLine]
    · simp [head, crlf]
      omega
  · rintro j hj ⟨front, back, he, rfl⟩
    exact absurd (length_head_le h he) (Nat.not_le_of_lt hj)

end Http
