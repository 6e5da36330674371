import StnStratum.Printf

/-!
# Hexadecimal

A byte is written as two digits, the upper four bits first. What is written in
this way is read back (`decode_encode`); reading takes the digits in either
case, and nothing else.
-/

namespace Hex

/-- The digits. -/
def digits : Bytes := ascii "0123456789abcdef"

/-- The digit for a number below 16. -/
def digit (n : ℕ) : UInt8 := digits.getD n 0

/-- The number that a digit is for. -/
def value? (b : UInt8) : Option ℕ :=
  if 0x30 ≤ b ∧ b ≤ 0x39 then some (b.toNat - 0x30)
  else if 0x61 ≤ b ∧ b ≤ 0x66 then some (b.toNat - 0x57)
  else if 0x41 ≤ b ∧ b ≤ 0x46 then some (b.toNat - 0x37)
  else none

/-- A string of digits. -/
def Hexadecimal (v : Bytes) : Prop := ∀ b ∈ v, (value? b).isSome = true

instance (v : Bytes) : Decidable (Hexadecimal v) :=
  List.decidableBAll _ v

/-- **Bytes in hexadecimal.** -/
def encode (v : Bytes) : Bytes :=
  v.flatMap fun b => [digit (b.toNat / 16), digit (b.toNat % 16)]

/-- **The bytes that digits are**, two by two. -/
def decode : Bytes → Option Bytes
  | [] => some []
  | [_] => none
  | x :: y :: rest =>
    match value? x, value? y, decode rest with
    | some high, some low, some v => some (UInt8.ofNat (high * 16 + low) :: v)
    | _, _, _ => none

theorem value?_digit {n : ℕ} (h : n < 16) : value? (digit n) = some n := by
  interval_cases n <;> rfl

@[simp] theorem encode_cons (b : UInt8) (v : Bytes) :
    encode (b :: v) = digit (b.toNat / 16) :: digit (b.toNat % 16) :: encode v :=
  rfl

@[simp] theorem length_encode (v : Bytes) : (encode v).length = 2 * v.length := by
  induction v with
  | nil => rfl
  | cons b v ih =>
    rw [encode_cons, List.length_cons, List.length_cons, ih, List.length_cons]
    omega

theorem encode_append (v w : Bytes) : encode (v ++ w) = encode v ++ encode w :=
  List.flatMap_append

/-- **What is written is read back.** -/
theorem decode_encode (v : Bytes) : decode (encode v) = some v := by
  induction v with
  | nil => rfl
  | cons b v ih =>
    have hb := b.toNat_lt
    rw [encode_cons, decode, value?_digit (by omega), value?_digit (by omega), ih]
    dsimp only
    rw [Nat.div_add_mod', UInt8.ofNat_toNat]

/-- Digits are what they should be. -/
theorem mem_digits_of_mem_encode {v : Bytes} {b : UInt8} (h : b ∈ encode v) :
    b ∈ digits := by
  obtain ⟨c, _, hm⟩ := List.mem_flatMap.mp h
  have hd : ∀ n < 16, digit n ∈ digits := by decide
  have hc := c.toNat_lt
  rcases List.mem_cons.mp hm with rfl | hm
  · exact hd _ (by omega)
  · rw [List.mem_singleton.mp hm]
    exact hd _ (by omega)

end Hex
