import StnStratum.Buffer
import Mathlib.Data.List.Perm.Basic

/-!
# Memory that is given back

A program that asks for memory has to give it back, once, and must not touch
it any more. Here is a memory that keeps the books. A block is known by a
number that no other block has had. `free` and `use` of a block that is not
live are faults, and are counted.

`Memory.Holds` says that the live blocks are those of a list, each of them
once, and that there has been no fault. Each call has a rule for it. A
function keeps the books if what it holds afterwards can be said for all of
its ways out.
-/

/-- **A memory**: what the allocator will do, and the blocks it has handed
out. -/
structure Memory where
  /-- What the allocator will do. -/
  heap : Heap
  /-- The number of the next block. -/
  next : ℕ
  /-- The blocks that have not been freed. -/
  live : List ℕ
  /-- How often a block was freed or used that was not live. -/
  faults : ℕ

namespace Memory

/-- Nothing has been asked for. -/
def fresh (heap : Heap) : Memory := ⟨heap, 0, [], 0⟩

/-- **`malloc`**, and the number of the block. -/
def malloc (m : Memory) (n : ℕ) : Option (ℕ × Buf n) × Memory :=
  match m.heap.malloc n with
  | (none, heap) => (none, { m with heap := heap })
  | (some b, heap) => (some (m.next, b), { m with
      heap := heap
      next := m.next + 1
      live := m.next :: m.live })

/-- **`free`**. Nothing is done about a null pointer. -/
def free (m : Memory) : Option ℕ → Memory
  | none => m
  | some b => { m with
      live := m.live.erase b
      faults := if b ∈ m.live then m.faults else m.faults + 1 }

/-- What a pointer points to is read or written. -/
def use (m : Memory) : Option ℕ → Memory
  | none => { m with faults := m.faults + 1 }
  | some b => { m with
      faults := if b ∈ m.live then m.faults else m.faults + 1 }

/-- **`realloc`**: where there is no other block the old one stays. -/
def realloc (m : Memory) (b : Option ℕ) (n : ℕ) : Option ℕ × Memory :=
  match m.malloc n with
  | (none, m) => (none, m)
  | (some r, m) => (some r.1, m.free b)

/-- **The blocks that are held** are live, each of them once, and no others
are. There has been no fault. -/
structure Holds (m : Memory) (bs : List ℕ) : Prop where
  /-- The live blocks. -/
  live : m.live.Perm bs
  /-- None of them twice. -/
  nodup : bs.Nodup
  /-- All of them have been handed out. -/
  lt : ∀ b ∈ bs, b < m.next
  /-- No block was freed or used that was not live. -/
  faults : m.faults = 0

variable {m : Memory} {b : ℕ} {bs cs : List ℕ}

@[simp] theorem heap_free (m : Memory) (b : Option ℕ) :
    (m.free b).heap = m.heap := by
  cases b <;> rfl

@[simp] theorem heap_use (m : Memory) (b : Option ℕ) :
    (m.use b).heap = m.heap := by
  cases b <;> rfl

theorem holds_fresh (heap : Heap) : (fresh heap).Holds [] :=
  ⟨.refl [], List.nodup_nil, fun _ hb => absurd hb List.not_mem_nil, rfl⟩

/-- **The two ways of `malloc`.** -/
theorem malloc_cases (m : Memory) (n : ℕ) :
    (∃ m', m.malloc n = (none, m') ∧ m.heap.malloc n = (none, m'.heap)
        ∧ ∀ bs, m.Holds bs → m'.Holds bs)
      ∨ ∃ b buf m', m.malloc n = (some (b, buf), m')
        ∧ m.heap.malloc n = (some buf, m'.heap)
        ∧ ∀ bs, m.Holds bs → m'.Holds (b :: bs) := by
  unfold malloc
  obtain ⟨_ | buf, heap⟩ := m.heap.malloc n
  · exact .inl ⟨_, rfl, rfl, fun bs h => ⟨h.live, h.nodup, h.lt, h.faults⟩⟩
  · refine .inr ⟨m.next, buf, _, rfl, rfl, fun bs h => ⟨?_, ?_, ?_, h.faults⟩⟩
    · exact h.live.cons m.next
    · exact List.nodup_cons.mpr ⟨fun hm => Nat.lt_irrefl _ (h.lt _ hm), h.nodup⟩
    · intro b hb
      rcases List.mem_cons.mp hb with rfl | hb
      · exact Nat.lt_succ_self _
      · exact Nat.lt_succ_of_lt (h.lt b hb)

namespace Holds

/-- Their order does not matter. -/
theorem perm (h : m.Holds bs) (hp : bs.Perm cs) : m.Holds cs where
  live := h.live.trans hp
  nodup := hp.nodup_iff.mp h.nodup
  lt b hb := h.lt b (hp.mem_iff.mpr hb)
  faults := h.faults

/-- What is held is live. -/
theorem mem_live (h : m.Holds bs) (hb : b ∈ bs) : b ∈ m.live :=
  h.live.mem_iff.mpr hb

/-- **What is held can be freed**, and is held no more. -/
theorem free (h : m.Holds (b :: bs)) : (m.free (some b)).Holds bs where
  live := by
    have := h.live.erase b
    rwa [List.erase_cons_head] at this
  nodup := (List.nodup_cons.mp h.nodup).2
  lt c hc := h.lt c (List.mem_cons_of_mem _ hc)
  faults := (if_pos (h.mem_live List.mem_cons_self)).trans h.faults

/-- So can what a variable holds, if it holds anything. -/
theorem freeOption {b : Option ℕ} (h : m.Holds (b.toList ++ bs)) :
    (m.free b).Holds bs := by
  cases b with
  | none => exact h
  | some b => exact free h

/-- **What is held can be used.** -/
theorem use (h : m.Holds bs) (hb : b ∈ bs) : (m.use (some b)).Holds bs :=
  ⟨h.live, h.nodup, h.lt, (if_pos (h.mem_live hb)).trans h.faults⟩

end Holds

/-- **The two ways of `realloc`.** -/
theorem realloc_cases (m : Memory) (b : Option ℕ) (n : ℕ) :
    (∃ m', m.realloc b n = (none, m') ∧ m.heap.malloc n = (none, m'.heap)
        ∧ ∀ bs, m.Holds bs → m'.Holds bs)
      ∨ ∃ b' buf m', m.realloc b n = (some b', m')
        ∧ m.heap.malloc n = (some buf, m'.heap)
        ∧ ∀ bs, m.Holds (b.toList ++ bs) → m'.Holds (b' :: bs) := by
  unfold realloc
  obtain ⟨m', he, hh, hk⟩ | ⟨b', buf, m', he, hh, hk⟩ := m.malloc_cases n
  · rw [he]
    exact .inl ⟨m', rfl, hh, hk⟩
  · rw [he]
    refine .inr ⟨b', buf, m'.free b, rfl, by rw [heap_free, hh], fun bs h => ?_⟩
    exact ((hk _ h).perm List.perm_middle.symm).freeOption

end Memory
