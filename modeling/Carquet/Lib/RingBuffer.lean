import Mathlib.Data.List.Basic
import Mathlib.Data.Nat.ModEq
import Mathlib.Logic.Function.Basic

/-!
# Ring buffers

A circular queue of bounded capacity: `head` is the slot to read next, `tail` the slot to write
next, and both wrap at the capacity. `contents` walks the slots from `head`; as long as the counters
are in step (`WellFormed`) a push appends to it and a pop takes its first element away, wherever the
wrap falls.
-/

/-- A circular buffer. The capacity is a parameter of its operations. -/
structure RingBuffer (α : Type) where
  slots : Nat → α
  head : Nat
  tail : Nat
  count : Nat

namespace RingBuffer

variable {α : Type} {capacity : Nat} {r : RingBuffer α}

/-- No element, and both counters at the first slot. -/
def empty (slots : Nat → α) : RingBuffer α := ⟨slots, 0, 0, 0⟩

def push (capacity : Nat) (r : RingBuffer α) (a : α) : RingBuffer α :=
  { slots := Function.update r.slots r.tail a
    head := r.head
    tail := (r.tail + 1) % capacity
    count := r.count + 1 }

def front (r : RingBuffer α) : α := r.slots r.head

def pop (capacity : Nat) (r : RingBuffer α) : RingBuffer α :=
  { r with head := (r.head + 1) % capacity, count := r.count - 1 }

/-- The elements in the order they leave. -/
def contents (capacity : Nat) (r : RingBuffer α) : List α :=
  (List.range r.count).map fun i => r.slots ((r.head + i) % capacity)

/-- The counters are within the buffer and in step. -/
structure WellFormed (capacity : Nat) (r : RingBuffer α) : Prop where
  head_lt : r.head < capacity
  tail_eq : r.tail = (r.head + r.count) % capacity
  count_le : r.count ≤ capacity

@[simp] theorem length_contents : (contents capacity r).length = r.count := by simp [contents]

theorem WellFormed.tail_lt (h : WellFormed capacity r) : r.tail < capacity := by
  rw [h.tail_eq]
  exact Nat.mod_lt _ (Nat.lt_of_le_of_lt (Nat.zero_le _) h.head_lt)

theorem wellFormed_empty (slots : Nat → α) (h : 0 < capacity) : WellFormed capacity (empty slots) :=
  ⟨h, (Nat.zero_mod capacity).symm, Nat.zero_le _⟩

@[simp] theorem contents_empty (slots : Nat → α) : contents capacity (empty slots) = [] := rfl

theorem WellFormed.push (h : WellFormed capacity r) (hroom : r.count < capacity) (a : α) :
    WellFormed capacity (r.push capacity a) := by
  refine ⟨h.head_lt, ?_, hroom⟩
  show (r.tail + 1) % capacity = (r.head + (r.count + 1)) % capacity
  rw [h.tail_eq, Nat.mod_add_mod, Nat.add_assoc]

theorem WellFormed.pop (h : WellFormed capacity r) (hne : r.count ≠ 0) :
    WellFormed capacity (r.pop capacity) := by
  have hpos : 0 < capacity := Nat.lt_of_le_of_lt (Nat.zero_le _) h.head_lt
  refine ⟨Nat.mod_lt _ hpos, ?_, Nat.le_trans (Nat.sub_le _ _) h.count_le⟩
  show r.tail = ((r.head + 1) % capacity + (r.count - 1)) % capacity
  rw [h.tail_eq, Nat.mod_add_mod]
  congr 1
  omega

/-- The slot written next holds no element of a buffer with room. -/
theorem WellFormed.tail_free (h : WellFormed capacity r) (hroom : r.count < capacity) {i : Nat}
    (hi : i < r.count) : (r.head + i) % capacity ≠ r.tail := by
  rw [h.tail_eq]
  intro heq
  have hmod : i % capacity = r.count % capacity := Nat.ModEq.add_left_cancel' r.head heq
  rw [Nat.mod_eq_of_lt (by omega), Nat.mod_eq_of_lt hroom] at hmod
  omega

/-- **A push appends.** -/
theorem contents_push (h : WellFormed capacity r) (hroom : r.count < capacity) (a : α) :
    contents capacity (r.push capacity a) = contents capacity r ++ [a] := by
  have hold : (List.range r.count).map
      (fun i => Function.update r.slots r.tail a ((r.head + i) % capacity)) =
      contents capacity r := by
    apply List.map_congr_left
    intro i hi
    rw [List.mem_range] at hi
    exact Function.update_of_ne (h.tail_free hroom hi) a r.slots
  show (List.range (r.count + 1)).map
      (fun i => Function.update r.slots r.tail a ((r.head + i) % capacity)) = _
  rw [List.range_succ, List.map_append, hold, List.map_singleton, ← h.tail_eq,
    Function.update_self]

/-- **A pop takes the first element.** -/
theorem contents_eq_cons (h : WellFormed capacity r) (hne : r.count ≠ 0) :
    contents capacity r = r.front :: contents capacity (r.pop capacity) := by
  obtain ⟨n, hn⟩ := Nat.exists_eq_succ_of_ne_zero hne
  have hpop : contents capacity (r.pop capacity) =
      (List.range n).map fun i => r.slots ((r.head + 1 + i) % capacity) := by
    simp [contents, RingBuffer.pop, hn, Nat.mod_add_mod]
  rw [hpop, contents, hn, List.range_succ_eq_map, List.map_cons, List.map_map, Nat.add_zero,
    Nat.mod_eq_of_lt h.head_lt]
  refine congrArg (r.front :: ·) (List.map_congr_left fun i _ => ?_)
  show r.slots ((r.head + (i + 1)) % capacity) = _
  rw [Nat.add_assoc, Nat.add_comm 1 i]

end RingBuffer
