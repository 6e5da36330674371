import StnStratum.Bytes

/-!
# Buffers of a fixed size

An array of `n` bytes keeps its size whatever is stored in it, and `Buf n`
carries that as a field. `Buf.write` stores a byte string at an offset, and
stores nothing where the string would not fit: a store past the end is not
a behaviour of the program, and what is proved about a program that writes
inside its buffers never meets that case.

A buffer comes with contents nobody chose (`Heap.malloc`, `Heap.uninit`).
What a sequence of stores makes of it is therefore a statement about every
initial contents, and `Begins` is how it is proved: a buffer that begins
with a string, and is written just behind it, begins with the longer string
(`Begins.write`), until the string is all there is (`Begins.bytes_eq`).
-/

/-- **An array of `n` bytes.** -/
structure Buf (n : ℕ) where
  /-- The contents. -/
  bytes : Bytes
  /-- The contents are `n` bytes, whatever was stored. -/
  size : bytes.length = n
  deriving DecidableEq

namespace Buf

variable {n : ℕ}

@[ext] theorem ext {a b : Buf n} (h : a.bytes = b.bytes) : a = b := by
  cases a; cases b; cases h; rfl

/-- The buffer of zeros, `memset` to `0`. -/
def zero (n : ℕ) : Buf n := ⟨List.replicate n 0, List.length_replicate⟩

/-- The buffer with the contents a function chooses per offset. -/
def ofFn (f : ℕ → UInt8) (n : ℕ) : Buf n :=
  ⟨(List.range n).map f, by rw [List.length_map, List.length_range]⟩

/-- **A store of `src` at offset `off`**, `memcpy` into the buffer. -/
def write (b : Buf n) (off : ℕ) (src : Bytes) : Buf n :=
  if h : off + src.length ≤ n then
    ⟨b.bytes.take off ++ src ++ b.bytes.drop (off + src.length), by
      rw [List.length_append, List.length_append, List.length_take,
        List.length_drop, b.size]
      omega⟩
  else b

theorem write_bytes {b : Buf n} {off : ℕ} {src : Bytes}
    (h : off + src.length ≤ n) :
    (b.write off src).bytes
      = b.bytes.take off ++ src ++ b.bytes.drop (off + src.length) := by
  rw [write, dif_pos h]

/-- A store that fills the buffer is all there is in it. -/
theorem write_zero_of_length {b : Buf n} {src : Bytes}
    (h : src.length = n) : (b.write 0 src).bytes = src := by
  rw [write_bytes (by omega), List.take_zero, List.nil_append,
    List.drop_eq_nil_of_le (by rw [b.size]; omega), List.append_nil]

/-- A store of nothing. -/
@[simp] theorem write_nil (b : Buf n) (off : ℕ) : b.write off [] = b := by
  refine ext ?_
  by_cases h : off + ([] : Bytes).length ≤ n
  · rw [write_bytes h, List.append_nil, List.length_nil, Nat.add_zero,
      List.take_append_drop]
  · rw [write, dif_neg h]

/-- Two stores, the second just behind the first, are one. -/
theorem write_write {b : Buf n} {off : ℕ} {src src' : Bytes}
    (h : off + (src.length + src'.length) ≤ n) :
    (b.write off src).write (off + src.length) src'
      = b.write off (src ++ src') := by
  have hfront : (b.bytes.take off ++ src).length = off + src.length := by
    rw [List.length_append, List.length_take, b.size]
    omega
  have hgap : off + src.length + src'.length - (off + src.length)
      = src'.length := by omega
  refine ext ?_
  rw [write_bytes (by omega), write_bytes (by omega),
    write_bytes (by rw [List.length_append]; omega), List.take_left' hfront,
    List.drop_append, hfront, List.drop_eq_nil_of_le (by omega),
    List.nil_append, List.drop_drop, hgap, List.length_append,
    List.append_assoc (b.bytes.take off), Nat.add_assoc]

/-- What stands in front of the end of a store: what stood in front of the
store, and what was stored. -/
theorem take_write {b : Buf n} {off : ℕ} {src : Bytes}
    (h : off + src.length ≤ n) :
    (b.write off src).bytes.take (off + src.length)
      = b.bytes.take off ++ src := by
  rw [write_bytes h, List.take_left']
  rw [List.length_append, List.length_take, b.size]
  omega

/-- A store leaves the fields in front of it alone. -/
theorem slice_write_before {b : Buf n} {off i m : ℕ} {src : Bytes}
    (h : i + m ≤ off) :
    slice (b.write off src).bytes i m = slice b.bytes i m := by
  by_cases hw : off + src.length ≤ n
  · have ht : (b.bytes.take off).length = off := by
      rw [List.length_take, b.size]
      omega
    rw [write_bytes hw, List.append_assoc, slice_append_left (by omega)]
    rw [slice, slice, List.drop_take, List.take_take,
      Nat.min_eq_left (by omega)]
  · rw [write, dif_neg hw]

/-- A store leaves the fields behind it alone. -/
theorem slice_write_after {b : Buf n} {off i m : ℕ} {src : Bytes}
    (h : off + src.length ≤ i) :
    slice (b.write off src).bytes i m = slice b.bytes i m := by
  by_cases hw : off + src.length ≤ n
  · have ht : (b.bytes.take off ++ src).length = off + src.length := by
      rw [List.length_append, List.length_take, b.size]
      omega
    obtain ⟨k, rfl⟩ := Nat.exists_eq_add_of_le h
    have := slice_append_right (b.bytes.take off ++ src)
      (b.bytes.drop (off + src.length)) k m
    rw [ht] at this
    rw [write_bytes hw, this, slice, slice, List.drop_drop]
  · rw [write, dif_neg hw]

/-! ## Filling a buffer from the front -/

/-- **The buffer begins with `p`**, whatever stands behind it. -/
def Begins (b : Buf n) (p : Bytes) : Prop := p <+: b.bytes

theorem begins_nil (b : Buf n) : b.Begins [] := List.nil_prefix

/-- **A store just behind what the buffer begins with extends it.** -/
theorem Begins.write {b : Buf n} {p s : Bytes} {i : ℕ} (h : b.Begins p)
    (hp : p.length = i) (hle : i + s.length ≤ n) :
    (b.write i s).Begins (p ++ s) := by
  rw [Begins, write_bytes hle]
  obtain ⟨t, ht⟩ := h
  rw [← ht, ← hp, List.take_left]
  exact List.prefix_append _ _

/-- A buffer that begins with a string of its own size is that string. -/
theorem Begins.bytes_eq {b : Buf n} {p : Bytes} (h : b.Begins p)
    (hp : p.length = n) : b.bytes = p :=
  (List.IsPrefix.eq_of_length h (hp.trans b.size.symm)).symm

/-- What the buffer begins with is read back from its front. -/
theorem Begins.slice_eq {b : Buf n} {p : Bytes} {off len : ℕ}
    (h : b.Begins p) (hl : off + len ≤ p.length) :
    slice b.bytes off len = slice p off len := by
  obtain ⟨t, ht⟩ := h
  rw [← ht, slice_append_left hl]

/-- **A store inside what the buffer begins with** replaces what it covers. -/
theorem Begins.overwrite {b : Buf n} {p s : Bytes} {i : ℕ} (h : b.Begins p)
    (hle : i + s.length ≤ p.length) :
    (b.write i s).Begins (p.take i ++ s ++ p.drop (i + s.length)) := by
  obtain ⟨t, ht⟩ := h
  have hlen : p.length ≤ n := by
    rw [← b.size, ← ht, List.length_append]
    exact Nat.le_add_right _ _
  rw [Begins, write_bytes (by omega), ← ht,
    List.take_append_of_le_length (by omega),
    List.drop_append_of_le_length hle, ← List.append_assoc]
  exact List.prefix_append _ _

/-! ## The big-endian store loop -/

/-- **The byte loop that stores a number big-endian**: from the last of `k`
bytes at `off` to the first, the low byte is stored and the number shifted
right by eight. -/
def storeBE (b : Buf n) (off : ℕ) : ℕ → ℕ → Buf n
  | 0, _ => b
  | k + 1, v =>
    (b.write (off + k) [UInt8.ofNat (v % 256)]).storeBE off k (v / 256)

/-- **The loop stores the field `writeBE` writes.** -/
theorem storeBE_eq_write {b : Buf n} {off k v : ℕ} (h : off + k ≤ n) :
    b.storeBE off k v = b.write off (writeBE k v) := by
  induction k generalizing b v with
  | zero =>
    refine ext ?_
    rw [storeBE, writeBE, write_bytes (by rw [List.length_nil]; omega)]
    simp
  | succ k ih =>
    have hb : off + k + [UInt8.ofNat (v % 256)].length ≤ n := by
      rw [List.length_singleton]
      omega
    refine ext ?_
    rw [storeBE, ih (by omega),
      write_bytes (by rw [length_writeBE]; omega), write_bytes hb,
      write_bytes (by rw [length_writeBE]; omega)]
    simp only [length_writeBE, List.length_singleton]
    have ht : (b.bytes.take (off + k)).length = off + k := by
      rw [List.length_take, b.size]
      omega
    -- the loop's own store begins where the shorter field ends
    rw [List.append_assoc (b.bytes.take (off + k)),
      List.take_append_of_le_length (by omega), List.take_take,
      Nat.min_eq_left (by omega), List.drop_left' ht, writeBE]
    simp only [List.append_assoc, Nat.add_assoc]

end Buf

/-! ## Where the memory comes from -/

/-- **What the allocator will do.** `outcomes` is the fate of the calls of
`malloc` to come, in order: no block, or a block whose contents are the
given ones. Once the list is used up every call succeeds with a block of
zeros. `junk` is what uninitialised automatic storage contains. -/
structure Heap where
  /-- The outcomes of the calls to come. -/
  outcomes : List (Option (ℕ → UInt8))
  /-- What an uninitialised local array holds at each offset. -/
  junk : ℕ → UInt8

namespace Heap

/-- **`malloc`**: a block of `n` bytes with contents nobody chose, or no
block. -/
def malloc (h : Heap) (n : ℕ) : Option (Buf n) × Heap :=
  match h.outcomes with
  | [] => (some (Buf.zero n), h)
  | none :: rest => (none, { h with outcomes := rest })
  | some f :: rest => (some (Buf.ofFn f n), { h with outcomes := rest })

/-- An uninitialised local array of `n` bytes. -/
def uninit (h : Heap) (n : ℕ) : Buf n := Buf.ofFn h.junk n

/-- **No call to come is refused.** -/
def Generous (h : Heap) : Prop := none ∉ h.outcomes

/-- A generous heap hands out a block and stays generous. -/
theorem Generous.malloc {h : Heap} (hg : h.Generous) (n : ℕ) :
    (∃ b, (h.malloc n).1 = some b) ∧ (h.malloc n).2.Generous := by
  obtain ⟨outcomes, junk⟩ := h
  cases outcomes with
  | nil => exact ⟨⟨_, rfl⟩, hg⟩
  | cons o rest =>
    cases o with
    | none => exact absurd List.mem_cons_self hg
    | some f =>
      exact ⟨⟨_, rfl⟩, fun hm => hg (List.mem_cons_of_mem _ hm)⟩

end Heap
