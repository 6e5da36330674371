import StnStratum.Bytes
import Mathlib.Data.List.Basic
import Mathlib.Data.List.GetD
import Mathlib.Data.Nat.NthRoot.Defs
import Mathlib.Data.Nat.Prime.Defs

/-!
# SHA-256

A block hash compresses a message block by block into a chaining value. What
such a hash makes of a message that arrives in pieces is settled first, for
any compression function and any size of a block: the blocks that are whole
are compressed, the rest waits, and a piece that is added either joins the
rest (`BlockHash.absorb_append_of_lt`) or makes it a block
(`BlockHash.absorb_append_of_eq`).

SHA-256 is then the hash of FIPS 180-4 as the standard has it, for messages of
whole bytes: the functions of 4.1.2, the constants of 4.2.2 and 5.3.3 as the
fractional parts of roots of primes, the padding of 5.1.1, and the computation
of 6.2.2.
-/

/-! ## Hashing block by block -/

namespace BlockHash

variable {σ : Type} (compress : σ → Bytes → σ) (size : ℕ)

/-- **The blocks that are whole**, compressed in their order. -/
def absorb (s : σ) (m : Bytes) : σ :=
  (List.range (m.length / size)).foldl
    (fun s i => compress s (slice m (size * i) size)) s

/-- **What is left of a message** behind the blocks that are whole. -/
def rest (m : Bytes) : Bytes := m.drop (size * (m.length / size))

variable {compress size} {s : σ} {m p : Bytes}

@[simp] theorem absorb_nil : absorb compress size s [] = s := by
  rw [absorb, List.length_nil, Nat.zero_div]
  rfl

@[simp] theorem rest_nil : rest size [] = [] := List.drop_nil

/-- The rest is what remains of the length. -/
theorem length_rest : (rest size m).length = m.length % size := by
  rw [rest, List.length_drop, Nat.mod_eq_sub]

/-- The rest is less than a block. -/
theorem length_rest_lt (hsize : 0 < size) : (rest size m).length < size := by
  rw [length_rest]
  exact Nat.mod_lt _ hsize

/-- The message is its whole blocks and its rest. -/
theorem length_eq (size : ℕ) (m : Bytes) :
    size * (m.length / size) + (rest size m).length = m.length := by
  rw [length_rest, Nat.div_add_mod]

/-- The whole blocks are where they were. -/
theorem slice_append {i : ℕ} (h : i < m.length / size) :
    slice (m ++ p) (size * i) size = slice m (size * i) size := by
  refine slice_append_left ?_
  calc size * i + size = size * (i + 1) := by ring
    _ ≤ size * (m.length / size) := Nat.mul_le_mul_left size h
    _ ≤ m.length := Nat.mul_div_le m.length size

/-- Compressing the whole blocks does not look behind them. -/
theorem foldl_append :
    (List.range (m.length / size)).foldl
        (fun s i => compress s (slice (m ++ p) (size * i) size)) s
      = absorb compress size s m := by
  refine List.foldl_ext _ _ s fun s i hi => ?_
  rw [slice_append (List.mem_range.mp hi)]

/-- What is behind the whole blocks of the front. -/
theorem drop_append :
    (m ++ p).drop (size * (m.length / size)) = rest size m ++ p := by
  rw [List.drop_append_of_le_length (Nat.mul_div_le m.length size), rest]

/-- **A piece that does not fill the block joins the rest.** -/
theorem absorb_append_of_lt (h : (rest size m).length + p.length < size) :
    absorb compress size s (m ++ p) = absorb compress size s m
      ∧ rest size (m ++ p) = rest size m ++ p := by
  have hdiv : (m ++ p).length / size = m.length / size := by
    rw [List.length_append, ← length_eq size m, Nat.add_assoc,
      Nat.mul_add_div (by omega), Nat.div_eq_of_lt h, length_eq size m,
      Nat.add_zero]
  constructor
  · rw [absorb, hdiv, foldl_append]
  · rw [rest, hdiv, drop_append]

/-- **A piece that fills the block** makes the rest a block, and leaves
none. -/
theorem absorb_append_of_eq (hsize : 0 < size)
    (h : (rest size m).length + p.length = size) :
    absorb compress size s (m ++ p)
        = compress (absorb compress size s m) (rest size m ++ p)
      ∧ rest size (m ++ p) = [] := by
  have hlen : (m ++ p).length = size * (m.length / size + 1) := by
    rw [List.length_append, Nat.mul_add, Nat.mul_one, ← h, ← Nat.add_assoc, h,
      length_eq]
  have hdiv : (m ++ p).length / size = m.length / size + 1 := by
    rw [hlen, Nat.mul_div_cancel_left _ hsize]
  constructor
  · rw [absorb, hdiv, List.range_succ, List.foldl_append, foldl_append]
    show compress _ (slice (m ++ p) (size * (m.length / size)) size) = _
    rw [slice, drop_append, List.take_of_length_le]
    rw [List.length_append, h]
  · rw [rest, hdiv, ← hlen, List.drop_length]

end BlockHash

namespace Sha256

/-! ## Functions and constants -/

/-- A word. -/
abbrev Word := BitVec 32

/-- `Ch`. -/
def ch (x y z : Word) : Word := (x &&& y) ^^^ (~~~x &&& z)

/-- `Maj`. -/
def maj (x y z : Word) : Word := (x &&& y) ^^^ (x &&& z) ^^^ (y &&& z)

/-- `Σ₀`. -/
def bigSigma0 (x : Word) : Word :=
  x.rotateRight 2 ^^^ x.rotateRight 13 ^^^ x.rotateRight 22

/-- `Σ₁`. -/
def bigSigma1 (x : Word) : Word :=
  x.rotateRight 6 ^^^ x.rotateRight 11 ^^^ x.rotateRight 25

/-- `σ₀`. -/
def smallSigma0 (x : Word) : Word :=
  x.rotateRight 7 ^^^ x.rotateRight 18 ^^^ (x >>> 3)

/-- `σ₁`. -/
def smallSigma1 (x : Word) : Word :=
  x.rotateRight 17 ^^^ x.rotateRight 19 ^^^ (x >>> 10)

/-- The primes up to 311, of which there are 64, by trial division. -/
def primes : List ℕ :=
  (List.range 312).filter fun p => 2 ≤ p ∧ ∀ d ∈ List.range 18, d ∣ p → d = 1 ∨ d = p

/-- They are the primes: a divisor below 18 is enough, as `18 ^ 2` is more
than 311. -/
theorem mem_primes {p : ℕ} : p ∈ primes ↔ p < 312 ∧ p.Prime := by
  rw [primes, List.mem_filter, List.mem_range, decide_eq_true_iff]
  refine and_congr_right fun hp => ⟨fun ⟨h2, hdvd⟩ => ?_, fun hprime =>
    ⟨hprime.two_le, fun d _ hd => (Nat.dvd_prime hprime).mp hd⟩⟩
  by_contra hnot
  have hsq : p.minFac ^ 2 ≤ p := Nat.minFac_sq_le_self (by omega) hnot
  have hlt : p.minFac < 18 := by
    rw [← Nat.pow_lt_pow_iff_left two_ne_zero]
    omega
  have hprime : p.minFac.Prime := Nat.minFac_prime (by omega)
  obtain hone | hself :=
    hdvd p.minFac (List.mem_range.mpr hlt) (Nat.minFac_dvd p)
  · exact hprime.ne_one hone
  · rw [hself] at hprime
    exact hnot hprime

/-- **The first 32 bits of the fractional part of a root**: of the `e`-th root
of `p`, scaled by `2 ^ 32`, what is left of the whole part. -/
def rootFraction (e p : ℕ) : Word :=
  BitVec.ofNat 32 (Nat.nthRoot e (p * 2 ^ (32 * e)))

/-- `K₀` to `K₆₃`: cube roots of the first 64 primes. -/
def K : List Word := primes.map (rootFraction 3)

/-- **A hash value**: eight words, under the names of the working
variables. -/
@[ext] structure Hash where
  /-- The words. -/
  (a b c d e f g h : Word)
  deriving DecidableEq

/-- The sum of two hash values, word by word. -/
def Hash.add (x y : Hash) : Hash :=
  ⟨x.a + y.a, x.b + y.b, x.c + y.c, x.d + y.d, x.e + y.e, x.f + y.f,
    x.g + y.g, x.h + y.h⟩

/-- The bytes of a hash value. -/
def Hash.bytes (x : Hash) : Bytes :=
  [x.a, x.b, x.c, x.d, x.e, x.f, x.g, x.h].flatMap
    fun v => writeBE 4 v.toNat

/-- The square roots of the first eight primes. -/
def squareRoots : List Word := (primes.take 8).map (rootFraction 2)

/-- **The initial hash value.** -/
def initial : Hash :=
  let H (i : ℕ) : Word := squareRoots.getD i 0
  ⟨H 0, H 1, H 2, H 3, H 4, H 5, H 6, H 7⟩

/-! ## Padding -/

/-- The zero bytes behind the one bit of a message of `n` bytes, which leave
eight bytes to the end of a block. -/
def zeros (n : ℕ) : ℕ := (119 - n % 64) % 64

/-- They are the fewest that do. -/
theorem zeros_spec (n : ℕ) : (n + 1 + zeros n) % 64 = 56
    ∧ ∀ k, (n + 1 + k) % 64 = 56 → zeros n ≤ k := by
  unfold zeros
  constructor
  · omega
  · intro k hk
    omega

/-- **What is put behind a message** of `n` bytes: a one bit, zeros, and its
length in bits. -/
def padding (n : ℕ) : Bytes :=
  [0x80] ++ List.replicate (zeros n) 0 ++ writeBE 8 (8 * n)

/-- The message with its padding is whole blocks. -/
theorem length_padding (n : ℕ) : (n + (padding n).length) % 64 = 0 := by
  have := (zeros_spec n).1
  rw [padding, List.length_append, List.length_append, List.length_singleton,
    List.length_replicate, length_writeBE]
  omega

/-! ## The hash -/

/-- The word at place `t` of a block. -/
def word (block : Bytes) (t : ℕ) : Word :=
  BitVec.ofNat 32 (readBE (slice block (4 * t) 4))

/-- The first words of the message schedule. -/
def schedule (block : Bytes) : ℕ → List Word
  | 0 => []
  | t + 1 =>
    let W := schedule block t
    W ++ [if t < 16 then word block t
      else smallSigma1 (W.getD (t - 2) 0) + W.getD (t - 7) 0
        + smallSigma0 (W.getD (t - 15) 0) + W.getD (t - 16) 0]

/-- One round, with its constant and its word. -/
def round (v : Hash) (kw : Word × Word) : Hash :=
  let T₁ := v.h + bigSigma1 v.e + ch v.e v.f v.g + kw.1 + kw.2
  let T₂ := bigSigma0 v.a + maj v.a v.b v.c
  ⟨T₁ + T₂, v.a, v.b, v.c, v.d + T₁, v.e, v.f, v.g⟩

/-- **The hash value behind a block**: 64 rounds, and the sum with the hash
value in front of it. -/
def compress (H : Hash) (block : Bytes) : Hash :=
  H.add ((K.zip (schedule block 64)).foldl round H)

/-- **SHA-256**: the message is padded, and compressed block by block. -/
def hash (m : Bytes) : Bytes :=
  (BlockHash.absorb compress 64 initial (m ++ padding m.length)).bytes

/-! ### What the schedule is -/

theorem length_schedule (block : Bytes) (n : ℕ) :
    (schedule block n).length = n := by
  induction n with
  | zero => rfl
  | succ n ih => rw [schedule, List.length_append, ih, List.length_singleton]

/-- The words there are stay as the schedule grows. -/
theorem getD_schedule_succ (block : Bytes) {t n : ℕ} (h : t < n) :
    (schedule block (n + 1)).getD t 0 = (schedule block n).getD t 0 := by
  rw [schedule]
  exact List.getD_append _ _ _ _ (by rw [length_schedule]; exact h)

theorem getD_schedule (block : Bytes) {t n : ℕ} (h : t < n) :
    (schedule block n).getD t 0 = (schedule block (t + 1)).getD t 0 := by
  induction n, h using Nat.le_induction with
  | base => rfl
  | succ n hn ih => rw [getD_schedule_succ block hn, ih]

/-- **The words of the schedule**: those of the block, and behind them the
recurrence. -/
theorem schedule_spec (block : Bytes) {t n : ℕ} (h : t < n) :
    (schedule block n).getD t 0
      = if t < 16 then word block t
        else smallSigma1 ((schedule block n).getD (t - 2) 0)
          + (schedule block n).getD (t - 7) 0
          + smallSigma0 ((schedule block n).getD (t - 15) 0)
          + (schedule block n).getD (t - 16) 0 := by
  have hback : ∀ k, 0 < k → k ≤ t →
      (schedule block n).getD (t - k) 0
        = (schedule block t).getD (t - k) 0 := fun k hk hkt => by
    rw [getD_schedule block (by omega),
      getD_schedule block (show t - k < t by omega)]
  rw [getD_schedule block h, schedule, List.getD_append_right _ _ _ _ (by
    rw [length_schedule]), length_schedule, Nat.sub_self, List.getD_cons_zero]
  split
  · rfl
  next ht =>
    rw [hback 2 (by decide) (by omega), hback 7 (by decide) (by omega),
      hback 15 (by decide) (by omega), hback 16 (by decide) (by omega)]

/-- The digest of three letters that the standard's examples give. -/
example : hash [0x61, 0x62, 0x63]
    = [0xba, 0x78, 0x16, 0xbf, 0x8f, 0x01, 0xcf, 0xea, 0x41, 0x41, 0x40, 0xde,
      0x5d, 0xae, 0x22, 0x23, 0xb0, 0x03, 0x61, 0xa3, 0x96, 0x17, 0x7a, 0x9c,
      0xb4, 0x10, 0xff, 0x61, 0xf2, 0x00, 0x15, 0xad] := by decide +kernel

end Sha256
