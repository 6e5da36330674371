import Mathlib.Data.List.Induction
import Mathlib.Tactic.Ring

/-!
# Byte strings, fields and big-endian numbers

A wire format is a byte string read at offsets. `slice` reads the field of
a given length at a given offset, and `readBE` and `writeBE` go between a
field and the number it spells, most significant byte first.

Two loops over such fields come back in every program that computes with
them, and both are settled here once. Comparing two fields byte by byte
from the front compares the numbers they spell (`leBytes_iff`), and
multiplying a field by a small factor from the back, carrying, multiplies
the number (`mulBE_eq`).
-/

/-- A byte string. -/
abbrev Bytes := List UInt8

/-- **The field of `n` bytes at offset `off`.** -/
def slice (b : Bytes) (off n : ℕ) : Bytes := (b.drop off).take n

/-- A field inside the string has the length asked for. -/
theorem length_slice {b : Bytes} {off n : ℕ} (h : off + n ≤ b.length) :
    (slice b off n).length = n := by
  rw [slice, List.length_take, List.length_drop]
  omega

/-- The field behind a prefix is the field of the rest. -/
theorem slice_append_right (a b : Bytes) (off n : ℕ) :
    slice (a ++ b) (a.length + off) n = slice b off n := by
  rw [slice, slice, List.drop_append, List.drop_eq_nil_of_le (by omega),
    List.nil_append, Nat.add_sub_cancel_left]

/-- A field that ends inside the prefix is a field of the prefix. -/
theorem slice_append_left {a b : Bytes} {off n : ℕ}
    (h : off + n ≤ a.length) : slice (a ++ b) off n = slice a off n := by
  rw [slice, slice, List.drop_append_of_le_length (by omega),
    List.take_append_of_le_length (by rw [List.length_drop]; omega)]

/-- The field that is exactly the prefix. -/
theorem slice_append_self {a b : Bytes} {n : ℕ} (h : a.length = n) :
    slice (a ++ b) 0 n = a := by
  rw [slice, List.drop_zero, ← h, List.take_left]

/-- A string is its own field. -/
theorem slice_self {a : Bytes} {n : ℕ} (h : a.length = n) :
    slice a 0 n = a := by
  rw [slice, List.drop_zero, List.take_of_length_le (by omega)]

/-- The field between two others, by their lengths. -/
theorem slice_eq_of_append {b front p back : Bytes} {off n : ℕ}
    (hb : b = front ++ (p ++ back)) (hf : front.length = off)
    (hp : p.length = n) : slice b off n = p := by
  have h := slice_append_right front (p ++ back) 0 n
  rwa [slice_append_self hp, Nat.add_zero, hf, ← hb] at h

/-- Two adjacent fields make one. -/
theorem slice_append_slice (b : Bytes) (off m n : ℕ) :
    slice b off m ++ slice b (off + m) n = slice b off (m + n) := by
  rw [slice, slice, slice, List.take_add, List.drop_drop]

/-- A field and what is behind it. -/
theorem slice_append_drop (b : Bytes) (off n : ℕ) :
    slice b off n ++ b.drop (off + n) = b.drop off := by
  rw [slice, ← List.drop_drop, List.take_append_drop]

/-- A field of a field is a field. -/
theorem slice_slice {b : Bytes} {off m i n : ℕ} (h : i + n ≤ m) :
    slice (slice b off m) i n = slice b (off + i) n := by
  rw [slice, slice, slice, List.drop_take, List.drop_drop, List.take_take,
    Nat.min_eq_left (by omega)]

/-! ## Big-endian numbers -/

/-- **The number a field spells, most significant byte first.** -/
def readBE (b : Bytes) : ℕ := b.foldl (fun v x => v * 256 + x.toNat) 0

/-- **A number in `n` bytes, most significant first**, reduced to what fits:
the last byte carries the remainder and the bytes before it the quotient. -/
def writeBE : ℕ → ℕ → Bytes
  | 0, _ => []
  | n + 1, v => writeBE n (v / 256) ++ [UInt8.ofNat (v % 256)]

@[simp] theorem length_writeBE (n v : ℕ) : (writeBE n v).length = n := by
  induction n generalizing v with
  | zero => rfl
  | succ n ih => rw [writeBE, List.length_append, ih, List.length_singleton]

@[simp] theorem readBE_nil : readBE [] = 0 := rfl

/-- The last byte of a field is its least significant one. -/
theorem readBE_concat (b : Bytes) (x : UInt8) :
    readBE (b ++ [x]) = readBE b * 256 + x.toNat := by
  rw [readBE, List.foldl_append]
  rfl

/-- The bytes of a field in front of others count in multiples of the
others' range. -/
theorem readBE_append (a b : Bytes) :
    readBE (a ++ b) = readBE a * 256 ^ b.length + readBE b := by
  induction b using List.reverseRecOn with
  | nil => simp
  | append_singleton b x ih =>
    rw [← List.append_assoc, readBE_concat, ih, readBE_concat,
      List.length_append, List.length_singleton, pow_succ]
    ring

/-- The first byte of a field is its most significant one. -/
theorem readBE_cons (x : UInt8) (b : Bytes) :
    readBE (x :: b) = x.toNat * 256 ^ b.length + readBE b := by
  rw [← List.singleton_append, readBE_append]
  simp [readBE]

/-- A field of `n` bytes spells a number below `256 ^ n`. -/
theorem readBE_lt (b : Bytes) : readBE b < 256 ^ b.length := by
  induction b using List.reverseRecOn with
  | nil => simp
  | append_singleton b x ih =>
    have hx : x.toNat < 256 := x.toNat_lt
    rw [readBE_concat, List.length_append, List.length_singleton, pow_succ]
    omega

/-- **Writing and reading back** keeps what fits. -/
theorem readBE_writeBE {n v : ℕ} (h : v < 256 ^ n) :
    readBE (writeBE n v) = v := by
  induction n generalizing v with
  | zero =>
    rw [pow_zero] at h
    rw [writeBE, readBE_nil]
    omega
  | succ n ih =>
    have hq : v / 256 < 256 ^ n := by
      rw [pow_succ] at h
      omega
    have hr : (UInt8.ofNat (v % 256)).toNat = v % 256 :=
      UInt8.toNat_ofNat_of_lt' (by show v % 256 < 256; omega)
    rw [writeBE, readBE_concat, ih hq, hr]
    omega

/-- **Reading and writing back** a field. -/
theorem writeBE_readBE (b : Bytes) : writeBE b.length (readBE b) = b := by
  induction b using List.reverseRecOn with
  | nil => rfl
  | append_singleton b x ih =>
    have hx : x.toNat < 256 := x.toNat_lt
    have hq : (readBE b * 256 + x.toNat) / 256 = readBE b := by omega
    have hr : (readBE b * 256 + x.toNat) % 256 = x.toNat := by omega
    rw [List.length_append, List.length_singleton, writeBE, readBE_concat, hq,
      hr, ih, UInt8.ofNat_toNat]

/-! ## The byte order is the numeric order -/

/-- **Comparing byte by byte from the front**: the first difference decides,
and no difference is at most. -/
def leBytes : Bytes → Bytes → Bool
  | x :: a, y :: b =>
    if x < y then true else if y < x then false else leBytes a b
  | _, _ => true

/-- **Comparing fields of one length byte by byte compares the numbers they
spell.** -/
theorem leBytes_iff {a b : Bytes} (hl : a.length = b.length) :
    leBytes a b = true ↔ readBE a ≤ readBE b := by
  induction a generalizing b with
  | nil =>
    obtain rfl : b = [] := List.eq_nil_of_length_eq_zero hl.symm
    simp [leBytes]
  | cons x a ih =>
    cases b with
    | nil => simp at hl
    | cons y b =>
      have hab : a.length = b.length := by simpa using hl
      have ha := readBE_lt a
      have hb := readBE_lt b
      rw [hab] at ha
      rw [leBytes, readBE_cons, readBE_cons, hab]
      generalize 256 ^ b.length = p at ha hb
      -- the leading byte outweighs everything behind it
      by_cases hxy : x < y
      · have hlt : x.toNat + 1 ≤ y.toNat := hxy
        have := Nat.mul_le_mul_right p hlt
        rw [if_pos hxy, Nat.add_mul] at *
        simp only [true_iff]
        omega
      · by_cases hyx : y < x
        · have hlt : y.toNat + 1 ≤ x.toNat := hyx
          have := Nat.mul_le_mul_right p hlt
          rw [if_neg hxy, if_pos hyx, Nat.add_mul] at *
          simp only [Bool.false_eq_true, false_iff]
          omega
        · have heq : x = y := UInt8.toNat_inj.mp
            (Nat.le_antisymm (Nat.le_of_not_lt hyx) (Nat.le_of_not_lt hxy))
          rw [if_neg hxy, if_neg hyx, ih hab, heq]
          omega

/-! ## Multiplying a field by a small factor -/

/-- **The carry loop**: the field multiplied by `k`, last byte first, as the
carry out of the front and the field that remains. -/
def mulBE (k : ℕ) : Bytes → ℕ × Bytes
  | [] => (0, [])
  | x :: b =>
    let r := mulBE k b
    let v := x.toNat * k + r.1
    (v / 256, UInt8.ofNat (v % 256) :: r.2)

@[simp] theorem length_mulBE (k : ℕ) (b : Bytes) :
    (mulBE k b).2.length = b.length := by
  induction b with
  | nil => rfl
  | cons x b ih => rw [mulBE, List.length_cons, List.length_cons, ih]

/-- **The carry loop is the multiplication**: carry and field together spell
the product. -/
theorem mulBE_eq (k : ℕ) (b : Bytes) :
    (mulBE k b).1 * 256 ^ b.length + readBE (mulBE k b).2
      = k * readBE b := by
  induction b with
  | nil => simp [mulBE]
  | cons x b ih =>
    rw [mulBE, readBE_cons, readBE_cons, List.length_cons, length_mulBE]
    dsimp only
    generalize hv : x.toNat * k + (mulBE k b).1 = v
    have hr : (UInt8.ofNat (v % 256)).toNat = v % 256 :=
      UInt8.toNat_ofNat_of_lt' (by show v % 256 < 256; omega)
    rw [hr, pow_succ]
    calc v / 256 * (256 ^ b.length * 256)
          + (v % 256 * 256 ^ b.length + readBE (mulBE k b).2)
        = (256 * (v / 256) + v % 256) * 256 ^ b.length
            + readBE (mulBE k b).2 := by ring
      _ = x.toNat * k * 256 ^ b.length
            + ((mulBE k b).1 * 256 ^ b.length + readBE (mulBE k b).2) := by
          rw [Nat.div_add_mod, ← hv]; ring
      _ = k * (x.toNat * 256 ^ b.length + readBE b) := by rw [ih]; ring

/-- The carry stays below the factor, so a factor of one byte leaves a carry
of one byte. -/
theorem mulBE_carry_lt {k : ℕ} (hk : 0 < k) (b : Bytes) :
    (mulBE k b).1 < k := by
  induction b with
  | nil => exact hk
  | cons x b ih =>
    have hx : x.toNat + 1 ≤ 256 := x.toNat_lt
    have := Nat.mul_le_mul_right k hx
    rw [mulBE]
    dsimp only
    rw [Nat.add_mul] at this
    omega
