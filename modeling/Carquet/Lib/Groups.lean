import Mathlib.Data.List.Basic

/-!
# Groups of a list

A list whose elements either start a group or go on with the one before. `offsets` has the place
where each group starts, and the end of the last one: the places are increasing
(`pairwise_offsets`), and between two that follow each other lies a group, of which there are no
others (`isGroup_iff`).
-/

namespace Groups

variable {α : Type} {starts : α → Bool} {xs : List α}

/-- Where each group starts, and the end of the last. -/
def offsets (starts : α → Bool) (xs : List α) : List Nat := xs.findIdxs starts ++ [xs.length]

/-- `xs[a..b)` is a group, and nothing behind it belongs to it. -/
structure IsGroup (starts : α → Bool) (xs : List α) (a b : Nat) : Prop where
  lt : a < b
  le : b ≤ xs.length
  start : starts (xs[a])
  goes_on : ∀ j (h : j < b), a < j → starts (xs[j]) = false
  ends : ∀ h : b < xs.length, starts (xs[b])

@[simp] theorem length_offsets : (offsets starts xs).length = xs.countP starts + 1 := by
  simp [offsets]

theorem pairwise_offsets : (offsets starts xs).Pairwise (· < ·) := by
  rw [offsets, List.pairwise_append]
  refine ⟨List.pairwise_findIdxs, List.pairwise_singleton .., ?_⟩
  intro a ha b hb
  rw [List.mem_singleton] at hb
  have := List.lt_add_of_mem_findIdxs a ha
  omega

theorem getLast?_offsets : (offsets starts xs).getLast? = some xs.length := by
  simp [offsets]

theorem head?_offsets {x : α} (h : xs.head? = some x) (hx : starts x) :
    (offsets starts xs).head? = some 0 := by
  cases xs with
  | nil => cases h
  | cons y ys =>
    obtain rfl : y = x := by simpa using h
    simp [offsets, hx]

theorem mem_offsets {i : Nat} : i ∈ offsets starts xs ↔
    i = xs.length ∨ ∃ h : i < xs.length, starts xs[i] := by
  rw [offsets, List.mem_append, List.mem_singleton, List.mem_findIdxs_iff_exists_getElem_pos,
    Or.comm]

/-- Offsets that follow each other have no offset between them. -/
theorem not_mem_between {i j : Nat} (h : i + 1 < (offsets starts xs).length)
    (h1 : (offsets starts xs)[i] < j) (h2 : j < (offsets starts xs)[i + 1]) :
    j ∉ offsets starts xs := by
  intro hj
  obtain ⟨k, hk, rfl⟩ := List.getElem_of_mem hj
  have hinc := List.pairwise_iff_getElem.mp (@pairwise_offsets _ starts xs)
  rcases Nat.lt_trichotomy k (i + 1) with hlt | heq | hgt
  · rcases Nat.lt_or_eq_of_le (Nat.le_of_lt_succ hlt) with hlt' | heq'
    · exact absurd (hinc k i hk (by omega) hlt') (by omega)
    · subst heq'
      omega
  · subst heq
    omega
  · exact absurd (hinc (i + 1) k h hk hgt) (by omega)

theorem isGroup_offsets {i : Nat} (h : i + 1 < (offsets starts xs).length) :
    IsGroup starts xs (offsets starts xs)[i] (offsets starts xs)[i + 1] := by
  have hlt := List.pairwise_iff_getElem.mp (@pairwise_offsets _ starts xs)
    i (i + 1) (by omega) h (by omega)
  have hle : (offsets starts xs)[i + 1] ≤ xs.length := by
    rcases mem_offsets.mp (List.getElem_mem h) with he | ⟨hl, -⟩ <;> omega
  refine ⟨hlt, hle, ?_, ?_, ?_⟩
  · rcases mem_offsets.mp (List.getElem_mem (Nat.lt_of_succ_lt h)) with he | ⟨hl, hs⟩
    · omega
    · exact hs
  · intro j hj hij
    by_contra hs
    exact not_mem_between h hij hj (mem_offsets.mpr (Or.inr ⟨by omega, by simpa using hs⟩))
  · intro hl
    rcases mem_offsets.mp (List.getElem_mem h) with he | ⟨_, hs⟩
    · omega
    · exact hs

/-- The groups are what lies between offsets that follow each other. -/
theorem isGroup_iff {a b : Nat} : IsGroup starts xs a b ↔
    ∃ (i : Nat) (h : i + 1 < (offsets starts xs).length),
      a = (offsets starts xs)[i] ∧ b = (offsets starts xs)[i + 1] := by
  constructor
  · rintro ⟨hlt, hle, hstart, hgoes, hends⟩
    have ha : a ∈ offsets starts xs := mem_offsets.mpr (Or.inr ⟨by omega, hstart⟩)
    have hb : b ∈ offsets starts xs := by
      rcases Nat.lt_or_eq_of_le hle with hl | he
      · exact mem_offsets.mpr (Or.inr ⟨hl, hends hl⟩)
      · exact mem_offsets.mpr (Or.inl he)
    obtain ⟨i, hi, rfl⟩ := List.getElem_of_mem ha
    obtain ⟨k, hk, rfl⟩ := List.getElem_of_mem hb
    have hinc := List.pairwise_iff_getElem.mp (@pairwise_offsets _ starts xs)
    have hik : i < k := by
      by_contra hki
      rcases Nat.lt_or_eq_of_le (Nat.not_lt.mp hki) with h | h
      · exact absurd (hinc k i hk hi h) (by omega)
      · subst h
        omega
    have hnext := hinc i (i + 1) hi (by omega) (by omega)
    refine ⟨i, by omega, rfl, ?_⟩
    -- an offset between the two would start another group
    by_contra hne
    have hki : i + 1 < k := by
      by_contra hc
      obtain rfl : k = i + 1 := by omega
      exact hne rfl
    have hbefore := hinc (i + 1) k (by omega) hk hki
    rcases mem_offsets.mp (List.getElem_mem (show i + 1 < (offsets starts xs).length by omega))
      with he | ⟨_, hs⟩
    · omega
    · rw [hgoes _ hbefore hnext] at hs
      cases hs
  · rintro ⟨i, h, rfl, rfl⟩
    exact isGroup_offsets h

end Groups
