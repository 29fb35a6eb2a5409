import Mathlib

/-!
# Levels beside dense values

A column of rows, some of which hold no value: one level a row, and the values of the rows
whose level says `present`, packed. A cursor into such a stream has two positions, one among the
levels and one among the values; `take` and `drop` move both.
-/

namespace LevelStream

/-- One level of either kind a row, one value for each row that is present. -/
@[ext]
structure Stream (L R V : Type) (present : L → Bool) where
  levels : List L
  reps : List R
  values : List V
  length_reps : reps.length = levels.length
  length_values : values.length = levels.countP present

variable {L R V : Type} {present : L → Bool}

namespace Stream

/-- The number of rows. -/
def length (s : Stream L R V present) : Nat := s.levels.length

/-- How many values the first `n` rows hold. -/
def dense (s : Stream L R V present) (n : Nat) : Nat := (s.levels.take n).countP present

theorem dense_add (s : Stream L R V present) (m n : Nat) :
    s.dense (m + n) = s.dense m + ((s.levels.drop m).take n).countP present := by
  rw [dense, List.take_add, List.countP_append, dense]

theorem dense_le (s : Stream L R V present) (n : Nat) : s.dense n ≤ s.values.length := by
  rw [s.length_values, dense]
  exact (List.take_sublist n s.levels).countP_le

theorem dense_of_length_le {s : Stream L R V present} {n : Nat} (h : s.length ≤ n) :
    s.dense n = s.values.length := by
  rw [dense, List.take_of_length_le h, s.length_values]

theorem drop_countP (levels : List L) (n : Nat) :
    (levels.drop n).countP present = levels.countP present - (levels.take n).countP present := by
  conv_rhs => rw [← List.take_append_drop n levels]
  rw [List.countP_append, List.take_append_drop, Nat.add_sub_cancel_left]

def empty : Stream L R V present := ⟨[], [], [], rfl, rfl⟩

/-- The first `n` rows. -/
def take (n : Nat) (s : Stream L R V present) : Stream L R V present where
  levels := s.levels.take n
  reps := s.reps.take n
  values := s.values.take (s.dense n)
  length_reps := by rw [List.length_take, List.length_take, s.length_reps]
  length_values := by rw [List.length_take, Nat.min_eq_left (s.dense_le n), dense]

/-- The rows behind the first `n`. -/
def drop (n : Nat) (s : Stream L R V present) : Stream L R V present where
  levels := s.levels.drop n
  reps := s.reps.drop n
  values := s.values.drop (s.dense n)
  length_reps := by rw [List.length_drop, List.length_drop, s.length_reps]
  length_values := by rw [List.length_drop, s.length_values, drop_countP, dense]

/-- The rows of `s`, then those of `t`. -/
def append (s t : Stream L R V present) : Stream L R V present where
  levels := s.levels ++ t.levels
  reps := s.reps ++ t.reps
  values := s.values ++ t.values
  length_reps := by rw [List.length_append, List.length_append, s.length_reps, t.length_reps]
  length_values := by
    rw [List.length_append, List.countP_append, s.length_values, t.length_values]

/-- The rows of all, in order. -/
def concat (ss : List (Stream L R V present)) : Stream L R V present := ss.foldr append empty

@[simp] theorem length_take (n : Nat) (s : Stream L R V present) :
    (s.take n).length = min n s.length := List.length_take

@[simp] theorem length_drop (n : Nat) (s : Stream L R V present) :
    (s.drop n).length = s.length - n := List.length_drop

@[simp] theorem length_append (s t : Stream L R V present) :
    (s.append t).length = s.length + t.length := List.length_append

@[simp] theorem length_empty : (empty : Stream L R V present).length = 0 := rfl

theorem length_concat (ss : List (Stream L R V present)) :
    (concat ss).length = (ss.map length).sum := by
  induction ss with
  | nil => rfl
  | cons s ss ih =>
    rw [List.map_cons, List.sum_cons, ← ih]
    exact length_append s (concat ss)

theorem eq_empty_of_length {s : Stream L R V present} (h : s.length = 0) : s = empty := by
  have hl : s.levels = [] := List.length_eq_zero_iff.mp h
  have hr : s.reps = [] := List.length_eq_zero_iff.mp (by rw [s.length_reps, hl]; rfl)
  have hv : s.values = [] := List.length_eq_zero_iff.mp (by rw [s.length_values, hl]; rfl)
  exact Stream.ext hl hr hv

@[simp] theorem drop_zero (s : Stream L R V present) : s.drop 0 = s := by
  ext1 <;> simp [drop, dense]

@[simp] theorem take_zero (s : Stream L R V present) : s.take 0 = empty := by
  ext1 <;> simp [take, dense, empty]

@[simp] theorem empty_append (s : Stream L R V present) : empty.append s = s := by
  ext1 <;> rfl

@[simp] theorem append_empty (s : Stream L R V present) : s.append empty = s := by
  ext1 <;> exact List.append_nil _

theorem append_assoc (s t u : Stream L R V present) :
    (s.append t).append u = s.append (t.append u) := by
  ext1 <;> exact List.append_assoc _ _ _

theorem drop_drop (m n : Nat) (s : Stream L R V present) : (s.drop m).drop n = s.drop (m + n) := by
  ext1
  · exact List.drop_drop
  · exact List.drop_drop
  · change (s.values.drop (s.dense m)).drop _ = s.values.drop (s.dense (m + n))
    rw [List.drop_drop, dense_add]
    rfl

/-- Two consecutive windows are one. -/
theorem take_add (m n : Nat) (s : Stream L R V present) :
    s.take (m + n) = (s.take m).append ((s.drop m).take n) := by
  ext1
  · exact List.take_add
  · exact List.take_add
  · change s.values.take (s.dense (m + n)) = s.values.take (s.dense m) ++ _
    rw [dense_add, List.take_add]
    rfl

theorem take_of_length_le {n : Nat} {s : Stream L R V present} (h : s.length ≤ n) :
    s.take n = s := by
  ext1
  · exact List.take_of_length_le h
  · exact List.take_of_length_le (by rw [s.length_reps]; exact h)
  · change s.values.take (s.dense n) = s.values
    rw [dense_of_length_le h, List.take_length]

theorem drop_of_length_le {n : Nat} {s : Stream L R V present} (h : s.length ≤ n) :
    s.drop n = empty :=
  eq_empty_of_length (by rw [length_drop]; omega)

theorem take_append_of_le {n : Nat} {s : Stream L R V present} (t : Stream L R V present)
    (h : n ≤ s.length) : (s.append t).take n = s.take n := by
  have hl : (s.levels ++ t.levels).take n = s.levels.take n := List.take_append_of_le_length h
  ext1
  · exact hl
  · exact List.take_append_of_le_length (by rw [s.length_reps]; exact h)
  · change (s.values ++ t.values).take ((s.append t).dense n) = s.values.take (s.dense n)
    have hd : (s.append t).dense n = s.dense n := by
      rw [dense, dense]
      exact congrArg _ hl
    rw [hd, List.take_append_of_le_length (s.dense_le n)]

theorem drop_append_of_le {n : Nat} {s : Stream L R V present} (t : Stream L R V present)
    (h : n ≤ s.length) : (s.append t).drop n = (s.drop n).append t := by
  have hl : (s.levels ++ t.levels).take n = s.levels.take n := List.take_append_of_le_length h
  ext1
  · exact List.drop_append_of_le_length h
  · exact List.drop_append_of_le_length (by rw [s.length_reps]; exact h)
  · change (s.values ++ t.values).drop ((s.append t).dense n) = s.values.drop (s.dense n) ++ t.values
    have hd : (s.append t).dense n = s.dense n := by
      rw [dense, dense]
      exact congrArg _ hl
    rw [hd, List.drop_append_of_le_length (s.dense_le n)]

theorem take_append_drop (n : Nat) (s : Stream L R V present) : (s.take n).append (s.drop n) = s := by
  have := take_add n s.length s
  rwa [take_of_length_le (Nat.le_add_left _ _), take_of_length_le (s := s.drop n)
    (by rw [length_drop]; omega), eq_comm] at this

end Stream

/-! ## Rows -/

/-- The values in the slots of their rows. -/
def weave (present : L → Bool) : List L → List V → List (Option V)
  | [], _ => []
  | l :: ls, vs =>
    if present l then vs.head? :: weave present ls vs.tail else none :: weave present ls vs

@[simp] theorem length_weave (present : L → Bool) (ls : List L) (vs : List V) :
    (weave present ls vs).length = ls.length := by
  induction ls generalizing vs with
  | nil => rfl
  | cons l ls ih =>
    unfold weave
    split <;> rw [List.length_cons, List.length_cons, ih]

theorem weave_append {ls : List L} {vs : List V} (h : vs.length = ls.countP present)
    (ls' : List L) (vs' : List V) :
    weave present (ls ++ ls') (vs ++ vs') = weave present ls vs ++ weave present ls' vs' := by
  induction ls generalizing vs with
  | nil => rw [List.eq_nil_of_length_eq_zero h]; rfl
  | cons l ls ih =>
    rw [List.countP_cons] at h
    rw [List.cons_append, weave, weave]
    split
    · rename_i hl
      rw [if_pos hl] at h
      cases vs with
      | nil => simp at h
      | cons v vs =>
        rw [List.cons_append, List.head?_cons, List.tail_cons, List.head?_cons, List.tail_cons,
          ih (by simpa using h), List.cons_append]
    · rename_i hl
      rw [if_neg hl] at h
      rw [ih h, List.cons_append]

/-- A row is its value, the one behind those of the rows before. -/
theorem getElem?_weave (present : L → Bool) (ls : List L) (vs : List V) (i : Nat) (l : L) (h : ls[i]? = some l) :
    (weave present ls vs)[i]? =
      some (if present l then vs[(ls.take i).countP present]? else none) := by
  induction ls generalizing vs i with
  | nil => cases h
  | cons l' ls ih =>
    cases i with
    | zero =>
      obtain rfl : l' = l := Option.some.inj h
      rw [weave]
      split <;> simp [List.head?_eq_getElem?]
    | succ i =>
      rw [List.getElem?_cons_succ] at h
      rw [weave, List.take_succ_cons, List.countP_cons]
      split
      · rw [List.getElem?_cons_succ, ih _ _ h, List.getElem?_tail]
      · rw [List.getElem?_cons_succ, ih _ _ h, Nat.add_zero]

/-- Without rows that hold no value, a row is a value. -/
theorem weave_eq_map_some {ls : List L} {vs : List V} (hall : ∀ l ∈ ls, present l)
    (h : vs.length = ls.length) : weave present ls vs = vs.map some := by
  induction ls generalizing vs with
  | nil => rw [List.eq_nil_of_length_eq_zero h]; rfl
  | cons l ls ih =>
    cases vs with
    | nil => cases h
    | cons v vs =>
      rw [weave, if_pos (hall l (by simp)), List.tail_cons, List.map_cons,
        ih (fun l' hl' => hall l' (List.mem_cons_of_mem _ hl')) (by simpa using h)]
      rfl

namespace Stream

/-- The rows, each with its value if it holds one. -/
def rows (s : Stream L R V present) : List (Option V) := weave present s.levels s.values

@[simp] theorem length_rows (s : Stream L R V present) : s.rows.length = s.length :=
  length_weave present s.levels s.values

theorem rows_append (s t : Stream L R V present) : (s.append t).rows = s.rows ++ t.rows :=
  weave_append s.length_values t.levels t.values

theorem rows_take_append_drop (n : Nat) (s : Stream L R V present) :
    (s.take n).rows ++ (s.drop n).rows = s.rows := by
  rw [← rows_append, take_append_drop]

theorem rows_take (n : Nat) (s : Stream L R V present) : (s.take n).rows = s.rows.take n := by
  have hlen : (s.take n).rows.length = min n s.rows.length := by simp
  have := congrArg (List.take (s.take n).rows.length) (rows_take_append_drop n s)
  rw [List.take_left, hlen] at this
  rw [this, ← List.take_eq_take_min]

theorem rows_drop (n : Nat) (s : Stream L R V present) : (s.drop n).rows = s.rows.drop n := by
  have hlen : (s.take n).rows.length = min n s.rows.length := by simp
  have := congrArg (List.drop (s.take n).rows.length) (rows_take_append_drop n s)
  rw [List.drop_left, hlen] at this
  rw [this]
  rcases Nat.le_total n s.rows.length with h | h
  · rw [Nat.min_eq_left h]
  · rw [Nat.min_eq_right h, List.drop_length, List.drop_of_length_le h]

end Stream

end LevelStream
