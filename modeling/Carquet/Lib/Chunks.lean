import Mathlib.Data.List.Basic

/-!
# Fixed-width chunks

A byte string cut into pieces of one width, and the pieces put together again. `splitChunks`
takes the pieces it is asked for and leaves the rest; `splitChunks_flatten` says it undoes
concatenation.
-/

namespace Chunks

variable {α : Type}

/-- The first `n` pieces of `w` elements. -/
def splitChunks (w : Nat) : Nat → List α → List (List α)
  | 0, _ => []
  | n + 1, xs => xs.take w :: splitChunks w n (xs.drop w)

@[simp] theorem length_splitChunks (w n : Nat) (xs : List α) :
    (splitChunks w n xs).length = n := by
  induction n generalizing xs with
  | zero => rfl
  | succ n ih => simp [splitChunks, ih]

/-- Cutting a concatenation at the pieces' width gives the pieces back. -/
theorem splitChunks_flatten {w : Nat} {pieces : List (List α)} (h : ∀ p ∈ pieces, p.length = w)
    (rest : List α) : splitChunks w pieces.length (pieces.flatten ++ rest) = pieces := by
  induction pieces with
  | nil => rfl
  | cons p ps ih =>
    have hp : p.length = w := h p (by simp)
    have hps : ∀ q ∈ ps, q.length = w := fun q hq => h q (List.mem_cons_of_mem _ hq)
    simp only [List.length_cons, splitChunks, List.flatten_cons, List.append_assoc]
    rw [← hp, List.take_left, List.drop_left, hp, ih hps]

/-- Every piece has the full width when there is enough to cut. -/
theorem length_of_mem_splitChunks {w n : Nat} {xs p : List α} (h : n * w ≤ xs.length)
    (hp : p ∈ splitChunks w n xs) : p.length = w := by
  induction n generalizing xs with
  | zero => simp [splitChunks] at hp
  | succ n ih =>
    have hmul : (n + 1) * w = n * w + w := Nat.succ_mul n w
    simp only [splitChunks, List.mem_cons] at hp
    rcases hp with rfl | hp
    · rw [List.length_take]
      omega
    · exact ih (by rw [List.length_drop]; omega) hp

theorem length_flatten_of_width {w : Nat} {pieces : List (List α)}
    (h : ∀ p ∈ pieces, p.length = w) : pieces.flatten.length = pieces.length * w := by
  induction pieces with
  | nil => simp
  | cons p ps ih =>
    have hp : p.length = w := h p (by simp)
    have hps : ∀ q ∈ ps, q.length = w := fun q hq => h q (List.mem_cons_of_mem _ hq)
    rw [List.flatten_cons, List.length_append, ih hps, List.length_cons, Nat.succ_mul, hp,
      Nat.add_comm]

/-- The `n` pieces and what is left of a longer input. -/
theorem splitChunks_append {w n : Nat} {xs : List α} (h : n * w ≤ xs.length) (rest : List α) :
    splitChunks w n (xs ++ rest) = splitChunks w n xs := by
  induction n generalizing xs with
  | zero => rfl
  | succ n ih =>
    have hmul : (n + 1) * w = n * w + w := Nat.succ_mul n w
    simp only [splitChunks]
    rw [List.take_append_of_le_length (by omega), List.drop_append_of_le_length (by omega),
      ih (by rw [List.length_drop]; omega)]

/-- Piece `i` starts at `i * w`. -/
theorem splitChunks_eq_map (w n : Nat) (xs : List α) :
    splitChunks w n xs = (List.range n).map fun i => (xs.drop (i * w)).take w := by
  induction n generalizing xs with
  | zero => rfl
  | succ n ih =>
    rw [splitChunks, ih, List.range_succ_eq_map, List.map_cons, List.map_map]
    simp only [Nat.zero_mul, List.drop_zero, List.cons.injEq, true_and]
    apply List.map_congr_left
    intro i _
    simp only [Function.comp, List.drop_drop]
    congr 2
    rw [Nat.succ_mul, Nat.add_comm]

/-- Piece `i` of a concatenation. -/
theorem take_drop_flatten {w : Nat} {pieces : List (List α)} (h : ∀ p ∈ pieces, p.length = w)
    {i : Nat} (hi : i < pieces.length) : (pieces.flatten.drop (i * w)).take w = pieces[i] := by
  have hsplit := splitChunks_flatten h []
  rw [List.append_nil, splitChunks_eq_map] at hsplit
  have hpiece := congrArg (·[i]?) hsplit
  simp only [List.getElem?_map, List.getElem?_range hi, List.getElem?_eq_getElem hi,
    Option.map_some, Option.some.injEq] at hpiece
  exact hpiece

end Chunks
