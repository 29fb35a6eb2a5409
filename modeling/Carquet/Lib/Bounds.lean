import Mathlib.Order.Compare

/-!
# Bounds of a list under a comparison

`Spans cmp vs lo hi`: under the comparison `cmp`, `lo` and `hi` are a least and a greatest value
of `vs`. Two such pairs merge by comparing them; a pair that may lie further out (`Covers`) is
all that is needed to decide that a list holds no value of some kind.
-/

namespace Bounds

open Std

variable {β : Type} {cmp : β → β → Ordering} [TransCmp cmp] {vs ws : List β} {lo hi lo' hi' : β}

/-- All values lie between `lo` and `hi`. -/
structure Covers (cmp : β → β → Ordering) (vs : List β) (lo hi : β) : Prop where
  lower : ∀ v ∈ vs, (cmp lo v).isLE
  upper : ∀ v ∈ vs, (cmp v hi).isLE

/-- They do, and both bounds are met. -/
structure Spans (cmp : β → β → Ordering) (vs : List β) (lo hi : β) : Prop
    extends Covers cmp vs lo hi where
  lo_mem : ∃ v ∈ vs, cmp lo v = .eq
  hi_mem : ∃ v ∈ vs, cmp hi v = .eq

/-- The lower of two bounds, the first unless the second is less. -/
def pickLo (cmp : β → β → Ordering) (lo lo' : β) : β := if cmp lo' lo = .lt then lo' else lo

/-- The higher of two bounds, the first unless the second is greater. -/
def pickHi (cmp : β → β → Ordering) (hi hi' : β) : β := if cmp hi' hi = .gt then hi' else hi

/-- The least and the greatest of a list, kept while the list is gone through. -/
def ofList (cmp : β → β → Ordering) (v : β) (vs : List β) : β × β :=
  vs.foldl (fun b u => (pickLo cmp b.1 u, pickHi cmp b.2 u)) (v, v)

theorem isLE_of_not_lt {a b : β} (h : cmp b a ≠ .lt) : (cmp a b).isLE := by
  rw [@OrientedCmp.eq_swap _ cmp _ _ _]
  cases hc : cmp b a <;> simp_all

omit [TransCmp cmp] in
theorem isLE_of_not_gt {a b : β} (h : cmp a b ≠ .gt) : (cmp a b).isLE := by
  cases hc : cmp a b <;> simp_all

theorem pickLo_le_left (lo lo' : β) : (cmp (pickLo cmp lo lo') lo).isLE := by
  rw [pickLo]
  split
  · rename_i h
    rw [h]
    rfl
  · rw [@ReflCmp.compare_self _ cmp _ _]
    rfl

theorem pickLo_le_right (lo lo' : β) : (cmp (pickLo cmp lo lo') lo').isLE := by
  rw [pickLo]
  split
  · rw [@ReflCmp.compare_self _ cmp _ _]
    rfl
  · rename_i h
    exact isLE_of_not_lt h

theorem le_pickHi_left (hi hi' : β) : (cmp hi (pickHi cmp hi hi')).isLE := by
  rw [pickHi]
  split
  · rename_i h
    rw [OrientedCmp.gt_iff_lt.mp h]
    rfl
  · rw [@ReflCmp.compare_self _ cmp _ _]
    rfl

theorem le_pickHi_right (hi hi' : β) : (cmp hi' (pickHi cmp hi hi')).isLE := by
  rw [pickHi]
  split
  · rw [@ReflCmp.compare_self _ cmp _ _]
    rfl
  · rename_i h
    exact isLE_of_not_gt h

/-- One value. -/
theorem spans_singleton (v : β) : Spans cmp [v] v v := by
  have hv : cmp v v = .eq := ReflCmp.compare_self
  refine ⟨⟨?_, ?_⟩, ⟨v, by simp, hv⟩, ⟨v, by simp, hv⟩⟩
  · intro u hu
    rw [List.mem_singleton.mp hu, hv]
    rfl
  · intro u hu
    rw [List.mem_singleton.mp hu, hv]
    rfl

/-- **The bounds of two lists merge to those of both.** -/
theorem Spans.merge (h : Spans cmp vs lo hi) (h' : Spans cmp ws lo' hi') :
    Spans cmp (vs ++ ws) (pickLo cmp lo lo') (pickHi cmp hi hi') := by
  refine ⟨⟨fun v hv => ?_, fun v hv => ?_⟩, ?_, ?_⟩
  · rcases List.mem_append.mp hv with hv | hv
    · exact TransCmp.isLE_trans (pickLo_le_left lo lo') (h.lower v hv)
    · exact TransCmp.isLE_trans (pickLo_le_right lo lo') (h'.lower v hv)
  · rcases List.mem_append.mp hv with hv | hv
    · exact TransCmp.isLE_trans (h.upper v hv) (le_pickHi_left hi hi')
    · exact TransCmp.isLE_trans (h'.upper v hv) (le_pickHi_right hi hi')
  · rw [pickLo]
    split
    · obtain ⟨v, hv, heq⟩ := h'.lo_mem
      exact ⟨v, List.mem_append_right _ hv, heq⟩
    · obtain ⟨v, hv, heq⟩ := h.lo_mem
      exact ⟨v, List.mem_append_left _ hv, heq⟩
  · rw [pickHi]
    split
    · obtain ⟨v, hv, heq⟩ := h'.hi_mem
      exact ⟨v, List.mem_append_right _ hv, heq⟩
    · obtain ⟨v, hv, heq⟩ := h.hi_mem
      exact ⟨v, List.mem_append_left _ hv, heq⟩

theorem spans_foldl (vs : List β) {ws : List β} {b : β × β} (h : Spans cmp ws b.1 b.2) :
    let r := vs.foldl (fun b u => (pickLo cmp b.1 u, pickHi cmp b.2 u)) b
    Spans cmp (ws ++ vs) r.1 r.2 := by
  induction vs generalizing ws b with
  | nil => simpa using h
  | cons v vs ih =>
    have h' := ih (b := (pickLo cmp b.1 v, pickHi cmp b.2 v)) (h.merge (spans_singleton v))
    rwa [List.append_assoc] at h'

/-- **Going through a list finds its bounds.** -/
theorem spans_ofList (v : β) (vs : List β) :
    Spans cmp (v :: vs) (ofList cmp v vs).1 (ofList cmp v vs).2 :=
  spans_foldl (b := (v, v)) vs (spans_singleton v)

omit [TransCmp cmp] in
theorem ofList_mem (cmp : β → β → Ordering) (v : β) (vs : List β) :
    (ofList cmp v vs).1 ∈ v :: vs ∧ (ofList cmp v vs).2 ∈ v :: vs := by
  have hgen : ∀ (ws : List β) (b : β × β), b.1 ∈ v :: vs → b.2 ∈ v :: vs → (∀ u ∈ ws, u ∈ vs) →
      (ws.foldl (fun b u => (pickLo cmp b.1 u, pickHi cmp b.2 u)) b).1 ∈ v :: vs ∧
      (ws.foldl (fun b u => (pickLo cmp b.1 u, pickHi cmp b.2 u)) b).2 ∈ v :: vs := by
    intro ws
    induction ws with
    | nil => exact fun b h1 h2 _ => ⟨h1, h2⟩
    | cons u ws ih =>
      intro b h1 h2 hws
      have hu : u ∈ v :: vs := List.mem_cons_of_mem v (hws u List.mem_cons_self)
      refine ih _ ?_ ?_ fun w hw => hws w (List.mem_cons_of_mem u hw)
      · simp only [pickLo]
        split
        · exact hu
        · exact h1
      · simp only [pickHi]
        split
        · exact hu
        · exact h2
  exact hgen vs (v, v) List.mem_cons_self List.mem_cons_self fun u hu => hu

omit [TransCmp cmp] in
/-- The order of the values does not matter. -/
theorem Spans.of_mem_iff (h : Spans cmp vs lo hi) (hiff : ∀ v, v ∈ ws ↔ v ∈ vs) :
    Spans cmp ws lo hi := by
  refine ⟨⟨fun v hv => h.lower v ((hiff v).mp hv), fun v hv => h.upper v ((hiff v).mp hv)⟩, ?_, ?_⟩
  · obtain ⟨v, hv, heq⟩ := h.lo_mem
    exact ⟨v, (hiff v).mpr hv, heq⟩
  · obtain ⟨v, hv, heq⟩ := h.hi_mem
    exact ⟨v, (hiff v).mpr hv, heq⟩

/-- Bounds further out still cover. -/
theorem Covers.widen (h : Covers cmp vs lo hi) (hlo : (cmp lo' lo).isLE) (hhi : (cmp hi hi').isLE) :
    Covers cmp vs lo' hi' :=
  ⟨fun v hv => TransCmp.isLE_trans hlo (h.lower v hv),
    fun v hv => TransCmp.isLE_trans (h.upper v hv) hhi⟩

/-! ## Bounds kept while values come in -/

/-- The lower of a value and the bound there is, if there is one. -/
def keepLo (cmp : β → β → Ordering) : Option β → β → β
  | none, v => v
  | some lo, v => pickLo cmp lo v

/-- The higher of a value and the bound there is, if there is one. -/
def keepHi (cmp : β → β → Ordering) : Option β → β → β
  | none, v => v
  | some hi, v => pickHi cmp hi v

/-- The bounds of the values so far, each of them one of the values. -/
inductive Tracks (cmp : β → β → Ordering) : List β → Option β → Option β → Prop
  | empty : Tracks cmp [] none none
  | bounds {vs : List β} {lo hi : β} (spans : Spans cmp vs lo hi) (lo_mem : lo ∈ vs)
    (hi_mem : hi ∈ vs) : Tracks cmp vs (some lo) (some hi)

omit [TransCmp cmp] in
theorem Tracks.mem {mlo mhi : Option β} (h : Tracks cmp vs mlo mhi) :
    (∀ m, mlo = some m → m ∈ vs) ∧ ∀ m, mhi = some m → m ∈ vs := by
  cases h with
  | empty => exact ⟨fun m hm => (nomatch hm), fun m hm => (nomatch hm)⟩
  | bounds _ hlo hhi =>
    exact ⟨fun m hm => Option.some.inj hm ▸ hlo, fun m hm => Option.some.inj hm ▸ hhi⟩

omit [TransCmp cmp] in
theorem Tracks.lower {mlo mhi : Option β} (h : Tracks cmp vs mlo mhi) :
    ∀ m, mlo = some m → ∀ v ∈ vs, (cmp m v).isLE := by
  cases h with
  | empty => exact fun m hm => (nomatch hm)
  | bounds spans => exact fun m hm => Option.some.inj hm ▸ spans.lower

omit [TransCmp cmp] in
theorem Tracks.upper {mlo mhi : Option β} (h : Tracks cmp vs mlo mhi) :
    ∀ m, mhi = some m → ∀ v ∈ vs, (cmp v m).isLE := by
  cases h with
  | empty => exact fun m hm => (nomatch hm)
  | bounds spans => exact fun m hm => Option.some.inj hm ▸ spans.upper

omit [TransCmp cmp] in
/-- Where there is a value there are bounds. -/
theorem Tracks.bounds_of_mem {mlo mhi : Option β} (h : Tracks cmp vs mlo mhi) {v : β}
    (hv : v ∈ vs) : ∃ lo hi, mlo = some lo ∧ mhi = some hi := by
  cases h with
  | empty => exact absurd hv List.not_mem_nil
  | bounds => exact ⟨_, _, rfl, rfl⟩

omit [TransCmp cmp] in
theorem pickLo_mem (hlo : lo ∈ vs) (v : β) : pickLo cmp lo v ∈ vs ++ [v] := by
  rw [pickLo]
  split
  · exact List.mem_append_right _ List.mem_cons_self
  · exact List.mem_append_left _ hlo

omit [TransCmp cmp] in
theorem pickHi_mem (hhi : hi ∈ vs) (v : β) : pickHi cmp hi v ∈ vs ++ [v] := by
  rw [pickHi]
  split
  · exact List.mem_append_right _ List.mem_cons_self
  · exact List.mem_append_left _ hhi

/-- **A further value is tracked.** -/
theorem Tracks.add {mlo mhi : Option β} (h : Tracks cmp vs mlo mhi) (v : β) :
    Tracks cmp (vs ++ [v]) (some (keepLo cmp mlo v)) (some (keepHi cmp mhi v)) := by
  cases h with
  | empty => exact .bounds (spans_singleton v) List.mem_cons_self List.mem_cons_self
  | bounds spans lo_mem hi_mem =>
    exact .bounds (spans.merge (spans_singleton v)) (pickLo_mem lo_mem v) (pickHi_mem hi_mem v)

end Bounds
