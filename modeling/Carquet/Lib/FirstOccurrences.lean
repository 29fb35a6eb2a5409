import Mathlib.Data.List.Induction

/-!
# First occurrences

The distinct elements of a list in the order in which they first occur (`List.eraseDups`), and what
one more element changes.
-/

namespace FirstOccurrences

variable {α : Type} [BEq α] [LawfulBEq α]

theorem eraseDups_concat_of_mem {xs : List α} {x : α} (h : x ∈ xs) :
    (xs ++ [x]).eraseDups = xs.eraseDups := by
  rw [List.eraseDups_append]
  simp [List.removeAll, h]

theorem eraseDups_concat_of_not_mem {xs : List α} {x : α} (h : x ∉ xs) :
    (xs ++ [x]).eraseDups = xs.eraseDups ++ [x] := by
  rw [List.eraseDups_append]
  simp [List.removeAll, h, List.eraseDups_cons]

/-- **In the order of the first occurrences**, each element once. -/
theorem pairwise_idxOf (xs : List α) :
    xs.eraseDups.Pairwise fun a b => xs.idxOf a < xs.idxOf b := by
  induction xs using List.reverseRecOn with
  | nil => exact List.Pairwise.nil
  | append_singleton xs x ih =>
    have hold : xs.eraseDups.Pairwise fun a b => (xs ++ [x]).idxOf a < (xs ++ [x]).idxOf b := by
      refine ih.imp_of_mem fun {a b} ha hb hab => ?_
      rwa [List.idxOf_append, if_pos (List.mem_eraseDups.mp ha), List.idxOf_append,
        if_pos (List.mem_eraseDups.mp hb)]
    by_cases hx : x ∈ xs
    · rwa [eraseDups_concat_of_mem hx]
    · rw [eraseDups_concat_of_not_mem hx, List.pairwise_append]
      refine ⟨hold, List.pairwise_singleton .., ?_⟩
      intro a ha b hb
      obtain rfl := List.mem_singleton.mp hb
      have hmem := List.mem_eraseDups.mp ha
      rw [List.idxOf_append, if_pos hmem, List.idxOf_append, if_neg hx]
      exact Nat.lt_of_lt_of_le (List.idxOf_lt_length_of_mem hmem) (Nat.le_add_left ..)

theorem nodup_eraseDups (xs : List α) : xs.eraseDups.Nodup :=
  (pairwise_idxOf xs).imp fun h he => absurd (he ▸ h) (Nat.lt_irrefl _)

theorem length_eraseDups_le (xs : List α) : xs.eraseDups.length ≤ xs.length := by
  induction xs using List.reverseRecOn with
  | nil => exact Nat.le_refl _
  | append_singleton xs x ih =>
    rw [List.length_append, List.length_singleton]
    by_cases hx : x ∈ xs
    · rw [eraseDups_concat_of_mem hx]
      exact Nat.le_succ_of_le ih
    · rw [eraseDups_concat_of_not_mem hx, List.length_append]
      exact Nat.succ_le_succ ih

end FirstOccurrences
