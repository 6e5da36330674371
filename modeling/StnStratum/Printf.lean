import Mathlib.Tactic.IntervalCases
import StnStratum.Buffer

/-!
# Printing into a buffer

`snprintf` prints the pieces of a format one behind the other. It stores as
much of them as the buffer has room for in front of a terminator, and it comes
back with the length of all of them; a caller that finds this length below the
size of the buffer knows that nothing has been cut off
(`snprintf_of_length_lt`).

Numbers are printed in decimal. Their digits are read back as the number
(`number_decimal`), there are no more of them than the number has
(`length_decimal_le`), and none of them is a zero in front (`decimal_head`).
-/

/-- The bytes of a text. -/
def ascii (s : String) : Bytes := s.toList.map fun c => UInt8.ofNat c.toNat

namespace Printf

/-! ## Numbers -/

/-- **A number in decimal.** -/
def decimal (n : ℕ) : Bytes :=
  (Nat.toDigits 10 n).map fun c => UInt8.ofNat c.toNat

/-- **The number that digits are.** -/
def number (digits : Bytes) : ℕ :=
  digits.foldl (fun n b => n * 10 + (b.toNat - 0x30)) 0

/-- The code of a digit. -/
theorem toNat_digit {c : Char} (h : c.isDigit = true) :
    48 ≤ c.toNat ∧ c.toNat ≤ 57 := by
  rw [Char.isDigit, Bool.and_eq_true, decide_eq_true_eq, decide_eq_true_eq] at h
  exact ⟨UInt32.le_iff_toNat_le.mp h.1, UInt32.le_iff_toNat_le.mp h.2⟩

/-- A number is printed in digits. -/
theorem digit_of_mem_decimal {n : ℕ} {b : UInt8} (h : b ∈ decimal n) :
    0x30 ≤ b ∧ b ≤ 0x39 := by
  obtain ⟨c, hc, rfl⟩ := List.mem_map.mp h
  obtain ⟨h₁, h₂⟩ := toNat_digit
    (Nat.isDigit_of_mem_toDigits (by decide) (by decide) hc)
  rw [UInt8.le_iff_toNat_le, UInt8.le_iff_toNat_le, UInt8.toNat_ofNat']
  show 48 ≤ c.toNat % 256 ∧ c.toNat % 256 ≤ 57
  omega

/-- **There are no more digits than the number has.** -/
theorem length_decimal_le {n k : ℕ} (hk : 0 < k) (h : n < 10 ^ k) :
    (decimal n).length ≤ k := by
  rw [decimal, List.length_map]
  exact (Nat.length_toDigits_le_iff (by decide) hk).mpr h

/-- **The digits are read back.** -/
theorem number_decimal (n : ℕ) : number (decimal n) = n := by
  have key : ∀ (cs : List Char) (m : ℕ), (∀ c ∈ cs, c.isDigit = true) →
      (cs.map fun c => UInt8.ofNat c.toNat).foldl
        (fun n b => n * 10 + (b.toNat - 0x30)) m
      = Nat.ofDigitChars 10 cs m := by
    intro cs m hcs
    induction cs generalizing m with
    | nil => rfl
    | cons c cs ih =>
      obtain ⟨_, hle⟩ := toNat_digit (hcs c List.mem_cons_self)
      rw [List.map_cons, List.foldl_cons, Nat.ofDigitChars_cons,
        ih _ fun c hc => hcs c (List.mem_cons_of_mem _ hc),
        UInt8.toNat_ofNat', Nat.mod_eq_of_lt (by omega), Nat.mul_comm]
      rfl
  exact (key _ _ fun c hc => Nat.isDigit_of_mem_toDigits (by decide)
    (by decide) hc).trans Nat.ofDigitChars_ten_toDigits

/-- **No number but zero begins with a zero.** -/
theorem decimal_head (n : ℕ) : decimal n = [0x30]
    ∨ ∃ d ds, decimal n = d :: ds ∧ d ≠ 0x30 := by
  induction n using Nat.strong_induction_on with
  | _ n ih =>
    by_cases hn : n < 10
    · interval_cases n
      · exact .inl rfl
      all_goals exact .inr ⟨_, _, rfl, by decide⟩
    · have he : decimal n = decimal (n / 10)
          ++ [UInt8.ofNat (Nat.digitChar (n % 10)).toNat] := by
        rw [decimal, Nat.toDigits_of_base_le (by decide) (by omega),
          List.map_append]
        rfl
      rcases ih (n / 10) (by omega) with h | ⟨d, ds, h, hd⟩
      · have := number_decimal (n / 10)
        rw [h] at this
        exact absurd this (by show ¬ 0 = n / 10; omega)
      · exact .inr ⟨d, _, by rw [he, h]; rfl, hd⟩

/-! ## Formats -/

/-- **A piece of a format**, with its argument. -/
inductive Piece where
  /-- Characters of the format. -/
  | text (s : Bytes)
  /-- `%s`. -/
  | string (s : Bytes)
  /-- `%u`, `%zu` and `%llu`, and `%d` of what is not negative. -/
  | number (n : ℕ)

/-- What a piece is printed as. -/
def Piece.bytes : Piece → Bytes
  | .text s => s
  | .string s => s
  | .number n => decimal n

/-- **What a format is printed as.** -/
def print (format : List Piece) : Bytes := format.flatMap Piece.bytes

@[simp] theorem print_nil : print [] = [] := rfl

@[simp] theorem print_cons (p : Piece) (format : List Piece) :
    print (p :: format) = p.bytes ++ print format := rfl

/-- The characters of a format. -/
def literal (format : List Piece) : Bytes :=
  format.flatMap fun p =>
    match p with
    | .text s => s
    | _ => []

/-- What the arguments of a format are printed as. -/
def arguments (format : List Piece) : List Bytes :=
  format.filterMap fun p =>
    match p with
    | .text _ => none
    | p => some p.bytes

/-- **What is printed is the characters and the arguments.** -/
theorem length_print (format : List Piece) : (print format).length
    = (literal format).length + ((arguments format).map List.length).sum := by
  induction format with
  | nil => rfl
  | cons p format ih =>
    rw [print_cons, List.length_append, ih]
    cases p with
    | text s =>
      show _ = (s ++ literal format).length
        + ((arguments format).map List.length).sum
      rw [List.length_append, Nat.add_assoc]
      rfl
    | string s =>
      show _ = (literal format).length
        + (s.length + ((arguments format).map List.length).sum)
      exact Nat.add_left_comm _ _ _
    | number n =>
      show _ = (literal format).length
        + ((decimal n).length + ((arguments format).map List.length).sum)
      exact Nat.add_left_comm _ _ _

/-- `INT_MAX`. -/
abbrev intMax : ℕ := 2 ^ 31 - 1

/-- **`snprintf`**: a length that is no `int` is an error, and what the buffer
holds then is not said. -/
def snprintf {n : ℕ} (output : Buf n) (format : List Piece) : ℤ × Buf n :=
  let text := print format
  if intMax < text.length then (-1, output)
  else if n = 0 then (text.length, output)
  else
    let stored := text.take (n - 1)
    (text.length, (output.write 0 stored).write stored.length [0])

/-- **Nothing is cut off** where the length is below the size. -/
theorem snprintf_of_length_lt {n : ℕ} (output : Buf n) (format : List Piece)
    (hn : (print format).length < n) (hi : (print format).length ≤ intMax) :
    ∃ output', snprintf output format
        = (((print format).length : ℤ), output')
      ∧ output'.Begins (print format ++ [0]) := by
  refine ⟨(output.write 0 (print format)).write (print format).length [0], ?_,
    (output.begins_nil.write (i := 0) (s := print format) rfl
      (by omega)).write rfl ?_⟩
  · unfold snprintf
    dsimp only
    rw [if_neg (by omega), if_neg (by omega), List.take_of_length_le (by omega)]
  · rw [List.length_singleton]
    omega

end Printf
