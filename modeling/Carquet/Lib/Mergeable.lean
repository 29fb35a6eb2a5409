import Carquet.Lib.Bounds
import Mathlib.Data.List.Perm.Subperm

/-!
# Accumulators that merge

An accumulator whose step is a merge with the accumulator of one element: where merging is
associative and starts from a unit, a sequence may be cut anywhere and the parts merged
(`foldl_parts`). Two such accumulators:

* `Extent`: the least and the greatest of the values so far, the first of them among equals.
* `CappedSet`: the distinct values so far in the order they came in, as many as there is room for.
-/

namespace Mergeable

/-- **The parts of a sequence merge to the whole.** -/
theorem foldl_parts {α μ : Type} {op : μ → μ → μ} {e : μ} (single : α → μ)
    (hassoc : ∀ a b c, op (op a b) c = op a (op b c)) (hleft : ∀ a, op e a = a)
    (hright : ∀ a, op a e = a) (parts : List (List α)) :
    (parts.map fun part => part.foldl (fun s x => op s (single x)) e).foldl op e =
      parts.flatten.foldl (fun s x => op s (single x)) e := by
  have hfrom : ∀ (xs : List α) (s : μ), xs.foldl (fun s x => op s (single x)) s =
      op s (xs.foldl (fun s x => op s (single x)) e) := by
    intro xs
    induction xs with
    | nil => exact fun s => (hright s).symm
    | cons x xs ih =>
      intro s
      rw [List.foldl_cons, List.foldl_cons, ih, ih (op e (single x)), hleft, hassoc]
  have hgen : ∀ s, (parts.map fun part => part.foldl (fun s x => op s (single x)) e).foldl op s =
      parts.flatten.foldl (fun s x => op s (single x)) s := by
    induction parts with
    | nil => exact fun s => rfl
    | cons part parts ih =>
      intro s
      rw [List.map_cons, List.foldl_cons, List.flatten_cons, List.foldl_append, ih, ← hfrom part s]
  exact hgen e

/-! ## Extents -/

section Extents

open Std Bounds

variable {β : Type} (cmp : β → β → Ordering)

/-- A least and a greatest value, if there is one. -/
abbrev Extent (β : Type) : Type := Option (β × β)

def Extent.join : Extent β → Extent β → Extent β
  | none, b => b
  | some a, none => some a
  | some a, some b => some (pickLo cmp a.1 b.1, pickHi cmp a.2 b.2)

/-- A value lies between the least and the greatest. -/
def Extent.Contains (e : Extent β) (v : β) : Prop :=
  ∃ b, e = some b ∧ (cmp b.1 v).isLE ∧ (cmp v b.2).isLE

@[simp] theorem Extent.none_join (a : Extent β) : Extent.join cmp none a = a := rfl

@[simp] theorem Extent.join_none (a : Extent β) : Extent.join cmp a none = a := by
  cases a <;> rfl

variable [TransCmp cmp]

theorem pickLo_assoc (a b c : β) :
    pickLo cmp (pickLo cmp a b) c = pickLo cmp a (pickLo cmp b c) := by
  unfold pickLo
  by_cases hba : cmp b a = .lt
  · by_cases hcb : cmp c b = .lt
    · simp [hba, hcb, TransCmp.lt_trans hcb hba]
    · simp [hba, hcb]
  · by_cases hcb : cmp c b = .lt
    · simp [hba, hcb]
    · have hca : cmp c a ≠ .lt := by
        intro hca
        have hab : (cmp a b).isLE := isLE_of_not_lt hba
        exact hcb (TransCmp.lt_of_lt_of_isLE hca hab)
      simp [hba, hcb, hca]

theorem pickHi_assoc (a b c : β) :
    pickHi cmp (pickHi cmp a b) c = pickHi cmp a (pickHi cmp b c) := by
  unfold pickHi
  by_cases hba : cmp b a = .gt
  · by_cases hcb : cmp c b = .gt
    · simp [hba, hcb, TransCmp.gt_trans hcb hba]
    · simp [hba, hcb]
  · by_cases hcb : cmp c b = .gt
    · simp [hba, hcb]
    · have hca : cmp c a ≠ .gt := by
        intro hca
        have hba' : (cmp b a).isLE := isLE_of_not_gt hba
        have hac : cmp a c = .lt := OrientedCmp.gt_iff_lt.mp hca
        exact hcb (OrientedCmp.gt_iff_lt.mpr (TransCmp.lt_of_isLE_of_lt hba' hac))
      simp [hba, hcb, hca]

theorem Extent.join_assoc (a b c : Extent β) :
    Extent.join cmp (Extent.join cmp a b) c = Extent.join cmp a (Extent.join cmp b c) := by
  cases a with
  | none => rfl
  | some a =>
    cases b with
    | none => rfl
    | some b =>
      cases c with
      | none => rfl
      | some c => simp only [Extent.join, pickLo_assoc, pickHi_assoc]

theorem Extent.contains_single (v : β) : Extent.Contains cmp (some (v, v)) v := by
  refine ⟨_, rfl, ?_, ?_⟩ <;> simp [ReflCmp.compare_self]

variable {cmp}

theorem Extent.Contains.join_left {a : Extent β} {v : β} (h : a.Contains cmp v) (b : Extent β) :
    (Extent.join cmp a b).Contains cmp v := by
  obtain ⟨r, rfl, hlo, hhi⟩ := h
  cases b with
  | none => exact ⟨r, rfl, hlo, hhi⟩
  | some b =>
    exact ⟨_, rfl, TransCmp.isLE_trans (pickLo_le_left _ _) hlo,
      TransCmp.isLE_trans hhi (le_pickHi_left _ _)⟩

theorem Extent.Contains.join_right {b : Extent β} {v : β} (h : b.Contains cmp v) (a : Extent β) :
    (Extent.join cmp a b).Contains cmp v := by
  obtain ⟨r, rfl, hlo, hhi⟩ := h
  cases a with
  | none => exact ⟨r, rfl, hlo, hhi⟩
  | some a =>
    exact ⟨_, rfl, TransCmp.isLE_trans (pickLo_le_right _ _) hlo,
      TransCmp.isLE_trans hhi (le_pickHi_right _ _)⟩

end Extents

/-! ## Sets with limited room -/

section Capped

variable {α : Type} [DecidableEq α] {cap : Nat}

/-- Distinct values, no more than `cap`. -/
@[ext] structure CappedSet (α : Type) (cap : Nat) where
  items : List α
  nodup : items.Nodup
  room : items.length ≤ cap

namespace CappedSet

def empty : CappedSet α cap := ⟨[], List.nodup_nil, Nat.zero_le _⟩

/-- A value that is new is taken while there is room. -/
def insert (s : CappedSet α cap) (a : α) : CappedSet α cap :=
  if h : a ∈ s.items ∨ cap ≤ s.items.length then s
  else
    ⟨s.items ++ [a], by
      rw [List.nodup_append]
      refine ⟨s.nodup, by simp, ?_⟩
      intro x hx y hy hxy
      obtain rfl := List.mem_singleton.mp hy
      exact h (.inl (hxy ▸ hx)),
      by
        rw [List.length_append, List.length_singleton]
        omega⟩

def union (s t : CappedSet α cap) : CappedSet α cap := t.items.foldl insert s

theorem insert_of_mem {s : CappedSet α cap} {a : α} (h : a ∈ s.items) : s.insert a = s :=
  dif_pos (.inl h)

theorem insert_of_full {s : CappedSet α cap} {a : α} (h : cap ≤ s.items.length) :
    s.insert a = s := dif_pos (.inr h)

theorem items_insert {s : CappedSet α cap} {a : α} (ha : a ∉ s.items) (h : s.items.length < cap) :
    (s.insert a).items = s.items ++ [a] := by
  rw [insert, dif_neg (by rintro (hmem | hfull); exacts [ha hmem, Nat.not_lt.mpr hfull h])]

/-- A value is in, or there was no room. -/
theorem mem_or_full_insert (s : CappedSet α cap) (a : α) :
    a ∈ (s.insert a).items ∨ cap ≤ (s.insert a).items.length := by
  by_cases ha : a ∈ s.items
  · rw [insert_of_mem ha]
    exact .inl ha
  · by_cases hfull : cap ≤ s.items.length
    · rw [insert_of_full hfull]
      exact .inr hfull
    · rw [items_insert ha (by omega)]
      exact .inl (by simp)

theorem subset_insert (s : CappedSet α cap) (a : α) : s.items ⊆ (s.insert a).items := by
  by_cases h : a ∈ s.items ∨ cap ≤ s.items.length
  · rw [insert, dif_pos h]
    exact fun x hx => hx
  · rw [insert, dif_neg h]
    exact List.subset_append_left ..

theorem subset_foldl (xs : List α) (s : CappedSet α cap) :
    s.items ⊆ (xs.foldl insert s).items := by
  induction xs generalizing s with
  | nil => exact fun x hx => hx
  | cons x xs ih => exact fun y hy => ih _ (subset_insert s x hy)

theorem length_le_foldl (xs : List α) (s : CappedSet α cap) :
    s.items.length ≤ (xs.foldl insert s).items.length :=
  (List.subperm_of_subset s.nodup (subset_foldl xs s)).length_le

/-- Every value of a fold is in, or there was no room. -/
theorem mem_or_full_foldl (xs : List α) (s : CappedSet α cap) :
    (∀ x ∈ xs, x ∈ (xs.foldl insert s).items) ∨ cap ≤ (xs.foldl insert s).items.length := by
  induction xs generalizing s with
  | nil => exact .inl fun x hx => absurd hx List.not_mem_nil
  | cons x xs ih =>
    rcases mem_or_full_insert s x with hx | hfull
    · refine (ih (s.insert x)).imp (fun hall y hy => ?_) id
      rcases List.mem_cons.mp hy with rfl | hy
      · exact subset_foldl xs _ hx
      · exact hall y hy
    · exact .inr (Nat.le_trans hfull (length_le_foldl xs _))

@[simp] theorem union_empty (s : CappedSet α cap) : s.union empty = s := rfl

/-- Values that were taken are taken again, in their order. -/
@[simp] theorem empty_union (s : CappedSet α cap) : empty.union s = s := by
  have hgen : ∀ (xs : List α) (t : CappedSet α cap), (t.items ++ xs).Nodup →
      (t.items ++ xs).length ≤ cap → (xs.foldl insert t).items = t.items ++ xs := by
    intro xs
    induction xs with
    | nil => exact fun t _ _ => (List.append_nil _).symm
    | cons x xs ih =>
      intro t hnodup hroom
      have hx : x ∉ t.items := fun hmem =>
        (List.nodup_append.mp hnodup).2.2 x hmem x List.mem_cons_self rfl
      have hlt : t.items.length < cap := by
        rw [List.length_append, List.length_cons] at hroom
        omega
      have hitems := items_insert hx hlt
      rw [List.append_cons] at hnodup hroom ⊢
      rw [List.foldl_cons, ih (t.insert x) (by rwa [hitems]) (by rwa [hitems]), hitems]
  exact CappedSet.ext (hgen s.items empty (by simpa [empty] using s.nodup)
    (by simpa [empty] using s.room))

theorem union_insert (s t : CappedSet α cap) (a : α) :
    s.union (t.insert a) = (s.union t).insert a := by
  by_cases ha : a ∈ t.items
  · rw [insert_of_mem ha]
    rcases mem_or_full_foldl t.items s with hall | hfull
    · exact (insert_of_mem (hall a ha)).symm
    · exact (insert_of_full hfull).symm
  · by_cases hfull : cap ≤ t.items.length
    · rw [insert_of_full hfull]
      -- a full set on the right fills the left one
      refine (insert_of_full ?_).symm
      rcases mem_or_full_foldl t.items s with hall | hfull'
      · exact Nat.le_trans hfull (List.subperm_of_subset t.nodup hall).length_le
      · exact hfull'
    · rw [union, items_insert ha (by omega), List.foldl_append]
      rfl

/-- **Merging is associative**, whatever did not fit. -/
theorem union_assoc (s t u : CappedSet α cap) : (s.union t).union u = s.union (t.union u) := by
  have hgen : ∀ (xs : List α) (t : CappedSet α cap),
      xs.foldl insert (s.union t) = s.union (xs.foldl insert t) := by
    intro xs
    induction xs with
    | nil => exact fun t => rfl
    | cons x xs ih =>
      intro t
      rw [List.foldl_cons, List.foldl_cons, ← union_insert, ih]
  exact hgen u.items t

end CappedSet

end Capped

end Mergeable
