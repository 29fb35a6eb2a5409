import Mathlib.Data.List.Basic

/-!
# Strict prefixes

`Cut pre full`: `full` was cut short to `pre`. A concatenation is cut in its first part, or its
first part is whole and the second is cut.
-/

/-- `pre` is `full` cut short. -/
def Cut {α : Type} (pre full : List α) : Prop := pre <+: full ∧ pre ≠ full

namespace Cut

variable {α : Type} {pre a b : List α} {x : α}

theorem length_lt (h : Cut pre a) : pre.length < a.length := by
  refine Nat.lt_of_le_of_ne h.1.length_le fun heq => ?_
  exact h.2 (h.1.eq_of_length heq)

theorem not_nil : ¬ Cut pre ([] : List α) := fun h => h.2 (List.prefix_nil.mp h.1)

theorem nil_of_ne (h : a ≠ []) : Cut [] a := ⟨List.nil_prefix, h.symm⟩

theorem append_left (c : List α) (h : Cut pre a) : Cut (c ++ pre) (c ++ a) :=
  ⟨(List.prefix_append_right_inj c).mpr h.1, fun heq => h.2 (List.append_cancel_left heq)⟩

theorem append_right (c : List α) (h : Cut pre a) : Cut pre (a ++ c) :=
  ⟨h.1.trans (List.prefix_append a c), fun heq => by
    have := h.length_lt
    simp only [heq, List.length_append] at this
    omega⟩

/-- **A concatenation is cut in its first or in its second part.** -/
theorem append_cases (h : Cut pre (a ++ b)) :
    Cut pre a ∨ ∃ pre', pre = a ++ pre' ∧ Cut pre' b := by
  obtain ⟨⟨t, ht⟩, hne⟩ := h
  rcases List.append_eq_append_iff.mp ht with ⟨a', rfl, rfl⟩ | ⟨c, rfl, rfl⟩
  · cases a' with
    | nil =>
      refine .inr ⟨[], by simp, nil_of_ne ?_⟩
      rintro rfl
      exact hne (by simp)
    | cons x a' => exact .inl ⟨List.prefix_append _ _, by simp⟩
  · exact .inr ⟨c, rfl, List.prefix_append _ _, fun heq => hne (by rw [← heq])⟩

/-- One element is all or nothing. -/
theorem cons_cases (h : Cut pre (x :: a)) : pre = [] ∨ ∃ pre', pre = x :: pre' ∧ Cut pre' a := by
  rcases append_cases (a := [x]) h with hx | ⟨pre', rfl, hcut⟩
  · have := hx.length_lt
    exact .inl (List.length_eq_zero_iff.mp (by simpa using this))
  · exact .inr ⟨pre', rfl, hcut⟩

end Cut
