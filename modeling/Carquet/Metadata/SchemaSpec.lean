import Carquet.Lib.Preorder
import Carquet.Metadata.Schema

/-!
# When a reader rebuilds the schema that was written

The footer lists the elements in the order they were added; a reader takes them for a preorder.
The tree it rebuilds is `Preorder.Reads` of the child counts, so the columns come back exactly
when the elements were added depth first (`buildSchema_columns_iff`).
-/

namespace Carquet

open Preorder

/-! ## Levels -/

theorem addLevels_comm (a b : Option Repetition) (levels : Int × Int) :
    addLevels a (addLevels b levels) = addLevels b (addLevels a levels) := by
  cases a with
  | none => rfl
  | some a =>
    cases b with
    | none => rfl
    | some b => cases a <;> cases b <;> rfl

/-- The levels of the elements `js` together. -/
def levelsAlong (repetition : Nat → Option Repetition) (js : List Nat) (levels : Int × Int) :
    Int × Int := js.foldl (fun l j => addLevels (repetition j) l) levels

theorem levelsAlong_addLevels (repetition : Nat → Option Repetition) (js : List Nat)
    (a : Option Repetition) (levels : Int × Int) :
    levelsAlong repetition js (addLevels a levels) = addLevels a (levelsAlong repetition js levels) := by
  induction js generalizing levels with
  | nil => rfl
  | cons j js ih =>
    change levelsAlong repetition js (addLevels (repetition j) (addLevels a levels)) = _
    rw [addLevels_comm, ih]
    rfl

theorem levelsAlong_congr {r r' : Nat → Option Repetition} {js : List Nat} (h : ∀ j ∈ js, r j = r' j)
    (levels : Int × Int) : levelsAlong r js levels = levelsAlong r' js levels := by
  induction js generalizing levels with
  | nil => rfl
  | cons j js ih =>
    change levelsAlong r js (addLevels (r j) levels) = levelsAlong r' js (addLevels (r' j) levels)
    rw [h j List.mem_cons_self, ih fun i hi => h i (List.mem_cons_of_mem j hi)]

/-- Definition and repetition level of an element whose ancestors are given by `q`. -/
def levelsOf (repetition : Nat → Option Repetition) (q : Nat → Nat) (i : Nat) : Int × Int :=
  levelsAlong repetition (pathUp q i i) (0, 0)

theorem levelsOf_pos {repetition : Nat → Option Repetition} {q : Nat → Nat}
    (hq : ∀ k, 0 < k → q k < k) {i : Nat} (hi : 0 < i) :
    levelsOf repetition q i = addLevels (repetition i) (levelsOf repetition q (q i)) := by
  rw [levelsOf, pathUp_pos hq hi, levelsOf, ← levelsAlong_addLevels]
  rfl

theorem mem_pathUp_le {q : Nat → Nat} (hq : ∀ k, 0 < k → q k < k) {fuel i j : Nat}
    (h : j ∈ pathUp q fuel i) : j ≤ i := by
  induction fuel generalizing i with
  | zero => exact absurd h List.not_mem_nil
  | succ fuel ih =>
    rw [pathUp] at h
    split at h
    · exact absurd h List.not_mem_nil
    · rename_i hi
      rcases List.mem_cons.mp h with rfl | h
      · exact Nat.le_refl _
      · have := hq i (Nat.pos_of_ne_zero hi)
        have := ih h
        omega

theorem levelsOf_congr {r r' : Nat → Option Repetition} {p q : Nat → Nat}
    (hp : ∀ k, 0 < k → p k < k) (hq : ∀ k, 0 < k → q k < k) {k i : Nat}
    (h : ∀ m, 0 < m → m < k → p m = q m) (hr : ∀ m, m < k → r m = r' m) (hi : i < k) :
    levelsOf r p i = levelsOf r' q i := by
  rw [levelsOf, levelsOf, pathUp_congr hp hq h hi]
  refine levelsAlong_congr (fun j hj => hr j ?_) _
  have := mem_pathUp_le hq hj
  omega

/-! ## Schemas built by calls -/

def Schema.children (s : Schema) (i : Nat) : Nat :=
  ((s.elements[i]?).map SchemaElement.numChildren).getD 0

/-- Whether an element is a column. -/
def Schema.isColumn (s : Schema) (i : Nat) : Bool :=
  ((s.elements[i]?).bind SchemaElement.type).isSome

/-- What every sequence of calls keeps: the child counts are those of the parents, columns have
no children, and the leaf arrays list the columns with their levels. -/
structure Schema.Built (s : Schema) : Prop where
  nonempty : 0 < s.elements.length
  parents : s.parentIndices.length = s.elements.length
  tree : Tree s.elements.length s.children s.parent
  root : s.isColumn 0 = false
  childless : ∀ i, s.isColumn i = true → s.children i = 0
  leaves : s.leafIndices = (List.range s.elements.length).filter s.isColumn
  maxDef : s.maxDefLevels = s.leafIndices.map fun i => (levelsOf s.repetition s.parent i).1
  maxRep : s.maxRepLevels = s.leafIndices.map fun i => (levelsOf s.repetition s.parent i).2

theorem Schema.built_create : Schema.create.Built := by
  refine ⟨by decide, rfl, ⟨fun k hk => ?_, fun j hj => ?_⟩, rfl, fun i hi => ?_, rfl, rfl, rfl⟩
  · obtain ⟨k, rfl⟩ : ∃ k', k = k' + 1 := ⟨k - 1, by omega⟩
    cases k <;> exact Nat.succ_pos _
  · obtain rfl : j = 0 := Nat.lt_one_iff.mp hj
    rfl
  · match i with
    | 0 => exact absurd hi (by decide)
    | i + 1 => rfl

section Append

variable {s : Schema} {e : SchemaElement} {p : Nat}

theorem Schema.length_append : (s.append e p).elements.length = s.elements.length + 1 := by
  simp [Schema.append]

theorem Schema.getElem?_append (hp : p < s.elements.length) (i : Nat) :
    (s.append e p).elements[i]? = if i = s.elements.length then some e
      else if i = p then (s.elements[i]?).map fun e => { e with numChildren := e.numChildren + 1 }
      else s.elements[i]? := by
  simp only [Schema.append, List.getElem?_modify, List.getElem?_append, List.getElem?_singleton]
  rcases Nat.lt_trichotomy i s.elements.length with hi | rfl | hi
  · rw [if_pos hi, if_neg (by omega)]
    by_cases hpi : p = i
    · subst hpi
      rw [if_pos rfl]
      simp
    · rw [if_neg (Ne.symm hpi)]
      simp [hpi]
  · rw [if_neg (Nat.lt_irrefl _), if_pos rfl, Nat.sub_self, if_pos rfl]
    simp [Nat.ne_of_lt hp]
  · rw [if_neg (by omega), if_neg (by omega), if_neg (by omega), if_neg (by omega),
      List.getElem?_eq_none (by omega)]
    simp

theorem Schema.parent_append (hs : s.Built) (i : Nat) :
    (s.append e p).parent i = if i = s.elements.length then p else s.parent i := by
  simp only [Schema.parent, Schema.append, List.getD_eq_getElem?_getD, List.getElem?_append,
    List.getElem?_singleton, hs.parents]
  rcases Nat.lt_trichotomy i s.elements.length with hi | rfl | hi
  · rw [if_pos hi, if_neg (by omega)]
  · simp
  · rw [if_neg (by omega), if_neg (by omega), if_neg (by omega),
      List.getElem?_eq_none (by rw [hs.parents]; omega)]

theorem Schema.children_append (hp : p < s.elements.length) (i : Nat) :
    (s.append e p).children i = if i = s.elements.length then e.numChildren
      else s.children i + if i = p then 1 else 0 := by
  simp only [Schema.children, Schema.getElem?_append hp]
  split
  · rfl
  · split
    · rename_i hi
      subst hi
      rw [List.getElem?_eq_getElem hp]
      rfl
    · rfl

theorem Schema.isColumn_append (hp : p < s.elements.length) (i : Nat) :
    (s.append e p).isColumn i = if i = s.elements.length then e.type.isSome else s.isColumn i := by
  simp only [Schema.isColumn, Schema.getElem?_append hp]
  split
  · rfl
  · split
    · cases s.elements[i]? <;> rfl
    · rfl

theorem Schema.repetition_append (hp : p < s.elements.length) (i : Nat) :
    (s.append e p).repetition i =
      if i = s.elements.length then e.repetition else s.repetition i := by
  simp only [Schema.repetition, Schema.getElem?_append hp]
  split
  · rfl
  · split
    · cases s.elements[i]? <;> rfl
    · rfl

theorem Schema.children_of_length_le (s : Schema) {i : Nat} (hi : s.elements.length ≤ i) :
    s.children i = 0 := by
  rw [Schema.children, List.getElem?_eq_none hi]
  rfl

theorem Schema.isColumn_of_length_le (s : Schema) {i : Nat} (hi : s.elements.length ≤ i) :
    s.isColumn i = false := by
  rw [Schema.isColumn, List.getElem?_eq_none hi]
  rfl

/-- Adding one element keeps the tree. -/
theorem Schema.tree_append (hs : s.Built) (hp : p < s.elements.length) (he : e.numChildren = 0) :
    Tree (s.append e p).elements.length (s.append e p).children (s.append e p).parent := by
  refine ⟨fun k hk => ?_, fun j hj => ?_⟩
  · rw [Schema.parent_append hs]
    split
    · omega
    · exact hs.tree.lt k hk
  · have hused : used (s.append e p).parent j s.elements.length
        = used s.parent j s.elements.length :=
      used_congr fun m _ hm => by rw [Schema.parent_append hs, if_neg (by omega)]
    have hpos := hs.nonempty
    have hlast : used (s.append e p).parent j (s.elements.length + 1) =
        used s.parent j s.elements.length + if j = p then 1 else 0 := by
      rw [← hused, used, used, Nat.count_succ, Schema.parent_append hs, if_pos rfl]
      simp [hpos, eq_comm]
    rw [Schema.length_append, hlast, Schema.children_append hp]
    rw [Schema.length_append] at hj
    split
    · rename_i hj'
      subst hj'
      have hnone : used s.parent s.elements.length s.elements.length = 0 := by
        have hmono := used_mono s.parent s.elements.length
          (show s.elements.length ≤ s.elements.length + 1 by omega)
        rw [used_self hs.tree.lt] at hmono
        exact Nat.le_zero.mp hmono
      rw [he, hnone, if_neg (by omega)]
    · rw [hs.tree.count j (by omega)]

/-- Levels of elements that were there before do not change. -/
theorem Schema.levelsOf_append (hs : s.Built) (hp : p < s.elements.length)
    (he : e.numChildren = 0) {i : Nat} (hi : i < s.elements.length) :
    levelsOf (s.append e p).repetition (s.append e p).parent i
      = levelsOf s.repetition s.parent i := by
  refine levelsOf_congr (Schema.tree_append hs hp he).lt hs.tree.lt (k := s.elements.length)
    (fun m _ hm => ?_) (fun m hm => ?_) hi
  · rw [Schema.parent_append hs, if_neg (by omega)]
  · rw [Schema.repetition_append hp, if_neg (by omega)]

theorem Schema.groupIndex_eq_some {parentIndex : Int} (hs : s.Built)
    (h : s.groupIndex parentIndex = some p) : p < s.elements.length ∧ s.isColumn p = false := by
  simp only [Schema.groupIndex] at h
  generalize (if parentIndex = -1 then 0 else parentIndex) = k at h
  split at h
  · exact absurd h (by simp)
  · split at h
    · exact absurd h (by simp)
    · rename_i hrange hgroup
      obtain rfl : k.toNat = p := Option.some.inj h
      refine ⟨by omega, ?_⟩
      by_cases h0 : k = 0
      · subst h0
        exact hs.root
      · exact Bool.eq_false_iff.mpr fun hc => hgroup ⟨h0, hc⟩

end Append

theorem Schema.built_addGroup {s s' : Schema} {name : String} {r : Repetition} {parentIndex : Int}
    {i : Nat} (hs : s.Built) (h : s.addGroup name r parentIndex = some (s', i)) : s'.Built := by
  obtain ⟨p, hp, heq⟩ := Option.map_eq_some_iff.mp h
  obtain ⟨rfl, rfl⟩ := Prod.mk.inj heq
  obtain ⟨hlt, hcol⟩ := Schema.groupIndex_eq_some hs hp
  have hpos := hs.nonempty
  have hleaves : (s.append ⟨name, none, 0, some r, 0⟩ p).leafIndices =
      (List.range (s.append ⟨name, none, 0, some r, 0⟩ p).elements.length).filter
        (s.append ⟨name, none, 0, some r, 0⟩ p).isColumn := by
    rw [Schema.length_append, List.range_succ, List.filter_append]
    simp only [List.filter_cons, List.filter_nil, Schema.isColumn_append hlt, if_pos,
      Option.isSome_none, Bool.false_eq_true, if_false, List.append_nil]
    refine hs.leaves.trans (List.filter_congr fun j hj => ?_)
    rw [Schema.isColumn_append hlt, if_neg (Nat.ne_of_lt (List.mem_range.mp hj))]
  have hmem : ∀ j ∈ s.leafIndices, j < s.elements.length := fun j hj => by
    rw [hs.leaves] at hj
    exact List.mem_range.mp (List.mem_filter.mp hj).1
  refine ⟨by rw [Schema.length_append]; omega, ?_, Schema.tree_append hs hlt rfl, ?_, ?_, hleaves,
    ?_, ?_⟩
  · rw [Schema.length_append, Schema.append, List.length_append, hs.parents]
    rfl
  · rw [Schema.isColumn_append hlt, if_neg (by omega)]
    exact hs.root
  · intro j hj
    rw [Schema.isColumn_append hlt] at hj
    rw [Schema.children_append hlt]
    split at hj
    · exact absurd hj (by simp)
    · rename_i hj'
      have hne : j ≠ p := fun h => by rw [h, hcol] at hj; exact absurd hj (by simp)
      rw [if_neg hj', if_neg hne, hs.childless j hj]
  · refine hs.maxDef.trans (List.map_congr_left fun j hj => ?_)
    rw [Schema.levelsOf_append hs hlt rfl (hmem j hj)]
  · refine hs.maxRep.trans (List.map_congr_left fun j hj => ?_)
    rw [Schema.levelsOf_append hs hlt rfl (hmem j hj)]

theorem Schema.ancestorLevels_eq (s : Schema) (fuel a : Nat) (levels : Int × Int) :
    s.ancestorLevels fuel a levels = levelsAlong s.repetition (pathUp s.parent fuel a) levels := by
  induction fuel generalizing a levels with
  | zero => rfl
  | succ fuel ih =>
    rw [Schema.ancestorLevels, pathUp]
    split
    · rfl
    · exact ih _ _

theorem Schema.built_addColumn {s s' : Schema} {c : ColumnArgs} {r : Repetition} {parentIndex : Int}
    (hs : s.Built) (h : s.addColumn c r parentIndex = some s') : s'.Built := by
  rw [Schema.addColumn] at h
  split at h
  · exact absurd h (by simp)
  · obtain ⟨p, hp, rfl⟩ := Option.map_eq_some_iff.mp h
    obtain ⟨hlt, hcol⟩ := Schema.groupIndex_eq_some hs hp
    have hpos := hs.nonempty
    have htree := Schema.tree_append (e := ⟨c.name, some c.type, c.typeLength, some r, 0⟩) hs hlt rfl
    have hmem : ∀ j ∈ s.leafIndices, j < s.elements.length := fun j hj => by
      rw [hs.leaves] at hj
      exact List.mem_range.mp (List.mem_filter.mp hj).1
    -- the levels of the new column
    have hlast : (s.append ⟨c.name, some c.type, c.typeLength, some r, 0⟩ p).ancestorLevels
        s.elements.length p (addLevels (some r) (0, 0)) =
        levelsOf (s.append ⟨c.name, some c.type, c.typeLength, some r, 0⟩ p).repetition
          (s.append ⟨c.name, some c.type, c.typeLength, some r, 0⟩ p).parent s.elements.length := by
      rw [Schema.ancestorLevels_eq, pathUp_fuel htree.lt (Nat.le_of_lt hlt),
        levelsAlong_addLevels, levelsOf_pos htree.lt hpos, Schema.repetition_append hlt, if_pos rfl,
        Schema.parent_append hs s.elements.length, if_pos rfl]
      rfl
    refine ⟨?_, ?_, htree, ?_, ?_, ?_, ?_, ?_⟩
    · exact (Schema.length_append (s := s)).symm ▸ Nat.succ_pos _
    · change (s.parentIndices ++ [p]).length = _
      rw [List.length_append, hs.parents]
      exact (Schema.length_append (s := s)).symm
    · refine (Schema.isColumn_append hlt 0).trans ?_
      rw [if_neg (by omega)]
      exact hs.root
    · intro j hj
      refine (Schema.children_append hlt j).trans ?_
      have hj := (Schema.isColumn_append hlt j).symm.trans hj
      split at hj
      · rename_i hj'
        rw [if_pos hj']
      · rename_i hj'
        have hne : j ≠ p := fun h => by rw [h, hcol] at hj; exact absurd hj (by simp)
        rw [if_neg hj', if_neg hne, hs.childless j hj]
    · change s.leafIndices ++ [s.elements.length] = (List.range
        (s.append ⟨c.name, some c.type, c.typeLength, some r, 0⟩ p).elements.length).filter
          (s.append ⟨c.name, some c.type, c.typeLength, some r, 0⟩ p).isColumn
      rw [Schema.length_append, List.range_succ, List.filter_append, hs.leaves]
      congr 1
      · refine List.filter_congr fun j hj => ?_
        rw [Schema.isColumn_append hlt, if_neg (Nat.ne_of_lt (List.mem_range.mp hj))]
      · simp [Schema.isColumn_append hlt]
    · change s.maxDefLevels ++ [_] = (s.leafIndices ++ [s.elements.length]).map _
      rw [List.map_append, hs.maxDef, hlast]
      refine congrArg₂ _ (List.map_congr_left fun j hj => ?_) rfl
      exact congrArg Prod.fst (Schema.levelsOf_append hs hlt rfl (hmem j hj)).symm
    · change s.maxRepLevels ++ [_] = (s.leafIndices ++ [s.elements.length]).map _
      rw [List.map_append, hs.maxRep, hlast]
      refine congrArg₂ _ (List.map_congr_left fun j hj => ?_) rfl
      exact congrArg Prod.snd (Schema.levelsOf_append hs hlt rfl (hmem j hj)).symm

/-- **One call keeps what is built.** -/
theorem Schema.built_call {s s' : Schema} {c : SchemaCall} (hs : s.Built)
    (h : s.call c = some s') : s'.Built := by
  cases c with
  | addColumn c r p => exact Schema.built_addColumn hs h
  | addGroup n r p =>
    obtain ⟨⟨s₁, i⟩, h₁, rfl⟩ := Option.map_eq_some_iff.mp h
    exact Schema.built_addGroup hs h₁
  | addList n e r p =>
    obtain ⟨⟨s₁, i₁⟩, h₁, h⟩ := Option.bind_eq_some_iff.mp h
    obtain ⟨⟨s₂, i₂⟩, h₂, h⟩ := Option.bind_eq_some_iff.mp h
    exact Schema.built_addColumn (Schema.built_addGroup (Schema.built_addGroup hs h₁) h₂) h
  | addMap n k v r p =>
    obtain ⟨⟨s₁, i₁⟩, h₁, h⟩ := Option.bind_eq_some_iff.mp h
    obtain ⟨⟨s₂, i₂⟩, h₂, h⟩ := Option.bind_eq_some_iff.mp h
    obtain ⟨s₃, h₃, h⟩ := Option.bind_eq_some_iff.mp h
    exact Schema.built_addColumn
      (Schema.built_addColumn (Schema.built_addGroup (Schema.built_addGroup hs h₁) h₂) h₃) h
  | addVariant n r p =>
    obtain ⟨⟨s₁, i₁⟩, h₁, h⟩ := Option.bind_eq_some_iff.mp h
    obtain ⟨s₂, h₂, h⟩ := Option.bind_eq_some_iff.mp h
    exact Schema.built_addColumn (Schema.built_addColumn (Schema.built_addGroup hs h₁) h₂) h

theorem Schema.built_run {s s' : Schema} {calls : List SchemaCall} (hs : s.Built)
    (h : Schema.run calls s = some s') : s'.Built := by
  induction calls generalizing s with
  | nil => exact Option.some.inj h ▸ hs
  | cons c calls ih =>
    obtain ⟨s₁, h₁, h⟩ := Option.bind_eq_some_iff.mp h
    exact ih (Schema.built_call hs h₁) h

/-! ## The reader's traversal -/

section Traverse

variable (elements : List SchemaElement)

/-- A group whose children are being visited: its index, how many are left, its levels. -/
structure Frame where
  index : Nat
  left : Nat
  levels : Int × Int

/-- The visit of one child of `f`. -/
def visitChild (fuel : Nat) (f : Frame) (s : Nat × TraverseCtx) : Nat × TraverseCtx :=
  traverseSchema elements fuel s.1 f.index f.levels s.2

/-- What is left to do while the groups of `stack` are open, the innermost first. -/
def finish : List Frame → Nat × TraverseCtx → Nat × TraverseCtx
  | [], s => s
  | f :: stack, s => finish stack ((visitChild elements elements.length f)^[f.left] s)

variable {elements}

theorem iterate_mono {f : Nat × TraverseCtx → Nat × TraverseCtx} (hf : ∀ s, s.1 ≤ (f s).1) (k : Nat)
    (s : Nat × TraverseCtx) : s.1 ≤ (f^[k] s).1 := by
  induction k generalizing s with
  | zero => exact Nat.le_refl _
  | succ k ih =>
    rw [Function.iterate_succ_apply]
    exact Nat.le_trans (hf s) (ih (f s))

theorem traverseSchema_mono (fuel i parent : Nat) (levels : Int × Int) (ctx : TraverseCtx) :
    i ≤ (traverseSchema elements fuel i parent levels ctx).1 := by
  induction fuel generalizing i parent levels ctx with
  | zero => exact Nat.le_refl _
  | succ fuel ih =>
    rw [traverseSchema]
    split
    · exact Nat.le_refl _
    · simp only
      split
      · exact Nat.le_succ _
      · exact Nat.le_trans (Nat.le_succ i) (iterate_mono (fun s => ih s.1 _ _ s.2) _ (i + 1, _))

theorem iterate_congr {f g : Nat × TraverseCtx → Nat × TraverseCtx} {m : Nat}
    (hf : ∀ s, s.1 ≤ (f s).1) (h : ∀ s, m ≤ s.1 → f s = g s) (k : Nat) {s : Nat × TraverseCtx}
    (hs : m ≤ s.1) : f^[k] s = g^[k] s := by
  induction k generalizing s with
  | zero => rfl
  | succ k ih =>
    rw [Function.iterate_succ_apply, Function.iterate_succ_apply, ← h s hs]
    exact ih (Nat.le_trans hs (hf s))

/-- Steps beyond the elements that are left do not matter. -/
theorem traverseSchema_fuel {fuel fuel' i : Nat} (h : elements.length ≤ i + fuel)
    (h' : elements.length ≤ i + fuel') (parent : Nat) (levels : Int × Int) (ctx : TraverseCtx) :
    traverseSchema elements fuel i parent levels ctx =
      traverseSchema elements fuel' i parent levels ctx := by
  have hend (f : Nat) (hf : elements.length ≤ i) :
      traverseSchema elements f i parent levels ctx = (i, ctx) := by
    cases f with
    | zero => rfl
    | succ f => rw [traverseSchema, List.getElem?_eq_none hf]
  induction fuel generalizing fuel' i parent levels ctx with
  | zero => rw [hend 0 h, hend fuel' h]
  | succ fuel ih =>
    cases fuel' with
    | zero => rw [hend (fuel + 1) h', hend 0 h']
    | succ fuel' =>
      rw [traverseSchema, traverseSchema]
      split
      · rfl
      · simp only
        split
        · rfl
        · refine iterate_congr (m := i + 1) (fun s => traverseSchema_mono fuel s.1 _ _ s.2)
            (fun s hs => ?_) _ (Nat.le_refl _)
          refine ih (by omega) (by omega) _ _ _ fun f hf => ?_
          cases f with
          | zero => rfl
          | succ f => rw [traverseSchema, List.getElem?_eq_none hf]

/-- What the visit of element `i` under `f` leaves in the arrays. -/
def recordElement (ctx : TraverseCtx) (i : Nat) (f : Frame) (elem : SchemaElement) : TraverseCtx :=
  let ctx := { ctx with parentIndices := ctx.parentIndices.set i f.index }
  let this := addLevels elem.repetition f.levels
  if elem.numChildren = 0 then
    { ctx with
      maxDef := ctx.maxDef.set ctx.leafIdx this.1
      maxRep := ctx.maxRep.set ctx.leafIdx this.2
      leafIndices := ctx.leafIndices.set ctx.leafIdx i
      leafIdx := ctx.leafIdx + 1 }
  else ctx

/-- **The recursion takes one element at a time**: it becomes a child of the innermost group that
lacks one, and a group itself. -/
theorem finish_step {i k : Nat} {f : Frame} {stack : List Frame} {ctx : TraverseCtx}
    {elem : SchemaElement} (helem : elements[i]? = some elem) (hleft : f.left = k + 1) :
    finish elements (f :: stack) (i, ctx) =
      finish elements (⟨i, elem.numChildren, addLevels elem.repetition f.levels⟩ ::
        ⟨f.index, k, f.levels⟩ :: stack) (i + 1, recordElement ctx i f elem) := by
  have hi : i < elements.length := (List.getElem?_eq_some_iff.mp helem).1
  rw [finish, hleft, Function.iterate_succ_apply, finish, finish]
  congr 2
  obtain ⟨n, hn⟩ : ∃ n, elements.length = n + 1 := ⟨elements.length - 1, by omega⟩
  rw [visitChild, hn, traverseSchema, helem]
  simp only [recordElement]
  split
  · rename_i h0
    rw [h0]
    rfl
  · refine iterate_congr (m := i + 1) (fun s => traverseSchema_mono n s.1 _ _ s.2) (fun s hs => ?_)
      _ (Nat.le_refl _)
    exact traverseSchema_fuel (by omega) (by omega) _ _ _

/-- Nothing happens behind the last element. -/
theorem finish_end (stack : List Frame) {i : Nat} (hi : elements.length ≤ i) (ctx : TraverseCtx) :
    finish elements stack (i, ctx) = (i, ctx) := by
  have hvisit (f : Frame) : visitChild elements elements.length f (i, ctx) = (i, ctx) := by
    rw [visitChild]
    cases elements.length with
    | zero => rfl
    | succ n => rw [traverseSchema, List.getElem?_eq_none hi]
  induction stack with
  | nil => rfl
  | cons f stack ih =>
    rw [finish, Function.iterate_fixed (hvisit f), ih]

/-! ### The invariant of the traversal -/

def childrenOf (elements : List SchemaElement) (i : Nat) : Nat :=
  ((elements[i]?).map SchemaElement.numChildren).getD 0

def repetitionOf (elements : List SchemaElement) (i : Nat) : Option Repetition :=
  (elements[i]?).bind SchemaElement.repetition

def TraverseCtx.parent (ctx : TraverseCtx) (i : Nat) : Nat := ctx.parentIndices.getD i 0

/-- The childless elements between the root and `i`. -/
def leavesBelow (elements : List SchemaElement) (i : Nat) : List Nat :=
  (List.range i).filter fun j => 0 < j ∧ childrenOf elements j = 0

/-- The elements below `i` are visited: their parents are those of a depth-first reading, the
stack holds the groups that lack children, and the leaf arrays are filled. -/
structure Visiting (elements : List SchemaElement) (i : Nat) (stack : List Frame)
    (ctx : TraverseCtx) : Prop where
  parentsLength : ctx.parentIndices.length = elements.length
  future : ∀ j, i ≤ j → ctx.parent j = 0
  reads : Reads i (childrenOf elements) ctx.parent
  sorted : stack.Pairwise fun f g => g.index < f.index
  frames : ∀ f ∈ stack, f.index < i ∧
    used ctx.parent f.index i + f.left = childrenOf elements f.index ∧
    f.levels = levelsOf (repetitionOf elements) ctx.parent f.index
  opens : ∀ j, Open (childrenOf elements) ctx.parent j i → ∃ f ∈ stack, f.index = j
  leafIdx : ctx.leafIdx = (leavesBelow elements i).length
  arrays : ctx.leafIndices.length = countLeaves elements ∧
    ctx.maxDef.length = countLeaves elements ∧ ctx.maxRep.length = countLeaves elements
  leaves : ctx.leafIndices.take ctx.leafIdx = leavesBelow elements i
  maxDef : ctx.maxDef.take ctx.leafIdx =
    (leavesBelow elements i).map fun j => (levelsOf (repetitionOf elements) ctx.parent j).1
  maxRep : ctx.maxRep.take ctx.leafIdx =
    (leavesBelow elements i).map fun j => (levelsOf (repetitionOf elements) ctx.parent j).2

theorem Visiting.parent_lt {i : Nat} {stack : List Frame} {ctx : TraverseCtx}
    (h : Visiting elements i stack ctx) : ∀ k, 0 < k → ctx.parent k < k := by
  intro k hk
  rcases Nat.lt_or_ge k i with hki | hki
  · exact (h.reads k hk hki).1.1
  · rw [h.future k hki]
    exact hk

/-- A group without children left can be closed. -/
theorem Visiting.close {i : Nat} {f : Frame} {stack : List Frame} {ctx : TraverseCtx}
    (h : Visiting elements i (f :: stack) ctx) (h0 : f.left = 0) :
    Visiting elements i stack ctx := by
  refine { h with
    sorted := h.sorted.of_cons
    frames := fun g hg => h.frames g (List.mem_cons_of_mem f hg)
    opens := fun j hj => ?_ }
  obtain ⟨g, hg, rfl⟩ := h.opens j hj
  rcases List.mem_cons.mp hg with rfl | hg
  · have hused := (h.frames g List.mem_cons_self).2.1
    have := hj.2
    omega
  · exact ⟨g, hg, rfl⟩

theorem countLeaves_eq (elements : List SchemaElement) : countLeaves elements =
    ((List.range elements.length).filter fun j => childrenOf elements j = 0).length := by
  rw [countLeaves, ← List.countP_eq_length_filter]
  induction elements using List.reverseRecOn with
  | nil => rfl
  | append_singleton es e ih =>
    rw [List.countP_append, List.length_append, List.length_singleton, List.range_succ,
      List.countP_append, ih]
    congr 1
    · refine List.countP_congr fun j hj => ?_
      rw [childrenOf, childrenOf, List.getElem?_append_left (List.mem_range.mp hj)]
    · simp [childrenOf]

theorem leavesBelow_succ (elements : List SchemaElement) {i : Nat} (hi : 0 < i) :
    leavesBelow elements (i + 1) =
      leavesBelow elements i ++ if childrenOf elements i = 0 then [i] else [] := by
  rw [leavesBelow, List.range_succ, List.filter_append, List.filter_cons, List.filter_nil]
  by_cases h : childrenOf elements i = 0
  · simp [h, hi, leavesBelow]
  · simp [h, leavesBelow]

theorem length_leavesBelow_le (elements : List SchemaElement) {i : Nat} (hi : i ≤ elements.length) :
    (leavesBelow elements i).length ≤ countLeaves elements := by
  rw [countLeaves_eq, leavesBelow, ← List.countP_eq_length_filter, ← List.countP_eq_length_filter]
  have hsub : (List.range i).Sublist (List.range elements.length) := List.range_sublist.mpr hi
  refine Nat.le_trans (hsub.countP_le) (List.countP_mono_left fun j _ h => ?_)
  simp only [decide_eq_true_eq] at h ⊢
  exact h.2

theorem recordElement_parentIndices (ctx : TraverseCtx) (i : Nat) (f : Frame)
    (elem : SchemaElement) :
    (recordElement ctx i f elem).parentIndices = ctx.parentIndices.set i f.index := by
  simp only [recordElement]
  split <;> rfl

theorem recordElement_parent {ctx : TraverseCtx} {i : Nat} (f : Frame) (elem : SchemaElement)
    (hi : i < ctx.parentIndices.length) (j : Nat) :
    (recordElement ctx i f elem).parent j = if j = i then f.index else ctx.parent j := by
  rw [TraverseCtx.parent, recordElement_parentIndices, List.getD_eq_getElem?_getD,
    List.getElem?_set]
  by_cases hij : i = j
  · subst hij
    simp [hi]
  · rw [if_neg hij, if_neg (Ne.symm hij), TraverseCtx.parent, List.getD_eq_getElem?_getD]

/-- The next entry of an array that is filled from the front. -/
theorem take_set_succ {α : Type} (l : List α) {k : Nat} (hk : k < l.length) (a : α) :
    (l.set k a).take (k + 1) = l.take k ++ [a] := by
  rw [List.take_add_one, List.take_set_of_le (Nat.le_refl k)]
  simp [hk]

/-- **The visit of one element keeps the invariant.** -/
theorem Visiting.visit {i k : Nat} {f : Frame} {stack : List Frame} {ctx : TraverseCtx}
    {elem : SchemaElement} (h : Visiting elements i (f :: stack) ctx) (hi : 0 < i)
    (helem : elements[i]? = some elem) (hleft : f.left = k + 1) :
    Visiting elements (i + 1)
      (⟨i, elem.numChildren, addLevels elem.repetition f.levels⟩ :: ⟨f.index, k, f.levels⟩ :: stack)
      (recordElement ctx i f elem) := by
  have hin : i < elements.length := (List.getElem?_eq_some_iff.mp helem).1
  obtain ⟨hfi, hfused, hflevels⟩ := h.frames f List.mem_cons_self
  have hchildren : childrenOf elements i = elem.numChildren := by rw [childrenOf, helem]; rfl
  have hrep : repetitionOf elements i = elem.repetition := by rw [repetitionOf, helem]; rfl
  have hq' := recordElement_parent f elem (show i < ctx.parentIndices.length from
    h.parentsLength ▸ hin)
  have hlt := h.parent_lt
  have hlt' : ∀ m, 0 < m → (recordElement ctx i f elem).parent m < m := by
    intro m hm
    rw [hq']
    split
    · omega
    · exact hlt m hm
  have hagree : ∀ m, 0 < m → m < i → (recordElement ctx i f elem).parent m = ctx.parent m :=
    fun m _ hm => by rw [hq', if_neg (by omega)]
  have hused (j : Nat) : used (recordElement ctx i f elem).parent j (i + 1) =
      used ctx.parent j i + if f.index = j then 1 else 0 := by
    rw [← used_congr hagree, used, used, Nat.count_succ, hq', if_pos rfl]
    simp [hi]
  have hlevels : ∀ j, j < i → levelsOf (repetitionOf elements) (recordElement ctx i f elem).parent j
      = levelsOf (repetitionOf elements) ctx.parent j := fun j hj =>
    levelsOf_congr hlt' hlt hagree (fun _ _ => rfl) hj
  have hthis : levelsOf (repetitionOf elements) (recordElement ctx i f elem).parent i =
      addLevels elem.repetition f.levels := by
    rw [levelsOf_pos hlt' hi, hq', if_pos rfl, hlevels _ hfi, ← hflevels, hrep]
  have hmemLeaves : ∀ j ∈ leavesBelow elements i, j < i := fun j hj =>
    List.mem_range.mp (List.mem_filter.mp hj).1
  -- the leaf arrays
  have hfilled : (recordElement ctx i f elem).leafIdx = (leavesBelow elements (i + 1)).length ∧
      ((recordElement ctx i f elem).leafIndices.length = countLeaves elements ∧
        (recordElement ctx i f elem).maxDef.length = countLeaves elements ∧
        (recordElement ctx i f elem).maxRep.length = countLeaves elements) ∧
      (recordElement ctx i f elem).leafIndices.take (recordElement ctx i f elem).leafIdx =
        leavesBelow elements (i + 1) ∧
      (recordElement ctx i f elem).maxDef.take (recordElement ctx i f elem).leafIdx =
        (leavesBelow elements (i + 1)).map (fun j => (levelsOf (repetitionOf elements)
          (recordElement ctx i f elem).parent j).1) ∧
      (recordElement ctx i f elem).maxRep.take (recordElement ctx i f elem).leafIdx =
        (leavesBelow elements (i + 1)).map (fun j => (levelsOf (repetitionOf elements)
          (recordElement ctx i f elem).parent j).2) := by
    have hold1 : (leavesBelow elements i).map (fun j => (levelsOf (repetitionOf elements)
        (recordElement ctx i f elem).parent j).1) = ctx.maxDef.take ctx.leafIdx :=
      (List.map_congr_left fun j hj => by rw [hlevels j (hmemLeaves j hj)]).trans h.maxDef.symm
    have hold2 : (leavesBelow elements i).map (fun j => (levelsOf (repetitionOf elements)
        (recordElement ctx i f elem).parent j).2) = ctx.maxRep.take ctx.leafIdx :=
      (List.map_congr_left fun j hj => by rw [hlevels j (hmemLeaves j hj)]).trans h.maxRep.symm
    have hroom := length_leavesBelow_le elements (show i + 1 ≤ elements.length from hin)
    rw [leavesBelow_succ elements hi, hchildren, List.map_append, List.map_append,
      List.length_append, hold1, hold2]
    rw [leavesBelow_succ elements hi, hchildren, List.length_append, ← h.leafIdx] at hroom
    obtain ⟨ha1, ha2, ha3⟩ := h.arrays
    by_cases h0 : elem.numChildren = 0
    · rw [if_pos h0, List.length_singleton] at hroom
      simp only [if_pos h0, List.map_cons, List.map_nil, hthis]
      simp only [recordElement, if_pos h0, List.length_set, List.length_singleton]
      refine ⟨by rw [h.leafIdx], ⟨ha1, ha2, ha3⟩, ?_, ?_, ?_⟩
      · rw [take_set_succ _ (by omega), h.leaves]
      · rw [take_set_succ _ (by omega)]
      · rw [take_set_succ _ (by omega)]
    · simp only [if_neg h0, List.map_nil, List.append_nil, List.length_nil, Nat.add_zero]
      simp only [recordElement, if_neg h0]
      exact ⟨h.leafIdx, h.arrays, h.leaves, trivial, trivial⟩
  refine ⟨?_, fun j hj => ?_, fun l hl hli => ?_, ?_, ?_, fun j hj => ?_, hfilled.1, hfilled.2.1,
    hfilled.2.2.1, hfilled.2.2.2.1, hfilled.2.2.2.2⟩
  · rw [recordElement_parentIndices, List.length_set, h.parentsLength]
  · rw [hq', if_neg (by omega)]
    exact h.future j (by omega)
  · rcases Nat.lt_or_ge l i with hlt_i | hge
    · have hcongr (j : Nat) : used (recordElement ctx i f elem).parent j l = used ctx.parent j l :=
        used_congr fun m h0 hm => hagree m h0 (by omega)
      obtain ⟨hopen, hmax⟩ := h.reads l hl hlt_i
      rw [hagree l hl hlt_i]
      exact ⟨⟨hopen.1, by rw [hcongr]; exact hopen.2⟩,
        fun j hj => hmax j ⟨hj.1, by rw [← hcongr]; exact hj.2⟩⟩
    · obtain rfl : l = i := by omega
      rw [hq', if_pos rfl]
      refine ⟨⟨hfi, by rw [used_congr hagree]; omega⟩, fun j hj => ?_⟩
      obtain ⟨g, hg, rfl⟩ := h.opens j ⟨hj.1, by rw [← used_congr hagree]; exact hj.2⟩
      rcases List.mem_cons.mp hg with rfl | hg
      · exact Nat.le_refl _
      · exact Nat.le_of_lt (List.rel_of_pairwise_cons h.sorted hg)
  · refine List.Pairwise.cons (fun g hg => ?_) (List.Pairwise.cons (fun g hg => ?_)
      h.sorted.of_cons)
    · rcases List.mem_cons.mp hg with rfl | hg
      · exact hfi
      · exact (h.frames g (List.mem_cons_of_mem f hg)).1
    · exact List.rel_of_pairwise_cons h.sorted hg
  · intro g hg
    rcases List.mem_cons.mp hg with rfl | hg
    · refine ⟨Nat.lt_succ_self i, ?_, hthis.symm⟩
      rw [used_self hlt', Nat.zero_add, hchildren]
    · rcases List.mem_cons.mp hg with rfl | hg
      · refine ⟨Nat.lt_succ_of_lt hfi, ?_, ?_⟩
        · simp only [hused, if_true]
          omega
        · simp only [hlevels _ hfi]
          exact hflevels
      · obtain ⟨h1, h2, h3⟩ := h.frames g (List.mem_cons_of_mem f hg)
        have hne : f.index ≠ g.index := Nat.ne_of_gt (List.rel_of_pairwise_cons h.sorted hg)
        refine ⟨Nat.lt_succ_of_lt h1, ?_, ?_⟩
        · rw [hused, if_neg hne, Nat.add_zero, h2]
        · rw [hlevels _ h1, h3]
  · rcases Nat.lt_or_ge j i with hji | hji
    · have hopen : Open (childrenOf elements) ctx.parent j i := by
        refine ⟨hji, ?_⟩
        have := hj.2
        rw [hused] at this
        omega
      obtain ⟨g, hg, rfl⟩ := h.opens j hopen
      rcases List.mem_cons.mp hg with rfl | hg
      · exact ⟨_, List.mem_cons_of_mem _ List.mem_cons_self, rfl⟩
      · exact ⟨g, List.mem_cons_of_mem _ (List.mem_cons_of_mem _ hg), rfl⟩
    · have hj1 := hj.1
      obtain rfl : j = i := by omega
      exact ⟨_, List.mem_cons_self, rfl⟩

/-- A step of the traversal, with the closing of full groups. -/
theorem Visiting.step {p : Nat → Nat} (hp : Tree elements.length (childrenOf elements) p) {i : Nat}
    {stack : List Frame} {ctx : TraverseCtx} (h : Visiting elements i stack ctx) (hi : 0 < i)
    (hin : i < elements.length) : ∃ stack' ctx', finish elements stack (i, ctx) =
      finish elements stack' (i + 1, ctx') ∧ Visiting elements (i + 1) stack' ctx' := by
  induction stack with
  | nil =>
    obtain ⟨j, hj⟩ := exists_open hp h.parent_lt hi hin
    obtain ⟨f, hf, -⟩ := h.opens j hj
    exact absurd hf List.not_mem_nil
  | cons f stack ih =>
    cases hleft : f.left with
    | zero =>
      obtain ⟨stack', ctx', heq, hv⟩ := ih (h.close hleft)
      refine ⟨stack', ctx', ?_, hv⟩
      rw [← heq, finish, hleft]
      rfl
    | succ k =>
      have helem := List.getElem?_eq_getElem hin
      exact ⟨_, _, finish_step helem hleft, h.visit hi helem hleft⟩

/-- **The whole traversal.** -/
theorem Visiting.run {p : Nat → Nat} (hp : Tree elements.length (childrenOf elements) p)
    {stack : List Frame} {ctx : TraverseCtx} {i : Nat} (h : Visiting elements i stack ctx)
    (hi : 0 < i) (hin : i ≤ elements.length) : ∃ stack' ctx', finish elements stack (i, ctx) =
      (elements.length, ctx') ∧ Visiting elements elements.length stack' ctx' := by
  obtain ⟨d, hd⟩ : ∃ d, elements.length = i + d := ⟨elements.length - i, by omega⟩
  induction d generalizing i stack ctx with
  | zero =>
    obtain rfl : i = elements.length := by omega
    exact ⟨stack, ctx, finish_end stack (Nat.le_refl _) ctx, h⟩
  | succ d ih =>
    obtain ⟨stack', ctx', heq, hv⟩ := h.step hp hi (by omega)
    rw [heq]
    exact ih hv (Nat.succ_pos i) (by omega) (by omega)

/-- The zeroed arrays `build_schema` starts from. -/
def zeroedCtx (elements : List SchemaElement) : TraverseCtx :=
  ⟨List.replicate (countLeaves elements) 0, List.replicate (countLeaves elements) 0,
    List.replicate (countLeaves elements) 0, List.replicate elements.length 0, 0⟩

theorem visiting_start (elements : List SchemaElement) :
    Visiting elements 1 [⟨0, childrenOf elements 0, (0, 0)⟩] (zeroedCtx elements) := by
  have hzero (j : Nat) : (zeroedCtx elements).parent j = 0 := by
    simp only [TraverseCtx.parent, zeroedCtx, List.getD_eq_getElem?_getD, List.getElem?_replicate]
    split <;> rfl
  have hlt : ∀ k, 0 < k → (zeroedCtx elements).parent k < k := fun k hk => by rwa [hzero]
  have hleaves : leavesBelow elements 1 = [] := by simp [leavesBelow]
  refine ⟨List.length_replicate, fun j _ => hzero j, fun k h0 h1 => by omega,
    List.pairwise_singleton _ _, fun f hf => ?_, fun j hj => ?_, ?_,
    ⟨List.length_replicate, List.length_replicate, List.length_replicate⟩, ?_, ?_, ?_⟩
  · obtain rfl := List.mem_singleton.mp hf
    refine ⟨Nat.one_pos, ?_, rfl⟩
    rw [show (1 : Nat) = 0 + 1 from rfl, used_self hlt, Nat.zero_add]
  · obtain rfl : j = 0 := Nat.lt_one_iff.mp hj.1
    exact ⟨_, List.mem_singleton_self _, rfl⟩
  all_goals
    rw [hleaves]
    rfl

/-- **The tree a reader rebuilds**: the parents are those of a depth-first reading of the child
counts, the columns are the childless elements in order. -/
theorem buildSchema_reads {p : Nat → Nat} (hp : Tree elements.length (childrenOf elements) p)
    (hroot : 0 < childrenOf elements 0) :
    Reads elements.length (childrenOf elements) (buildSchema elements).parent ∧
    (∀ k, 0 < k → (buildSchema elements).parent k < k) ∧
    (buildSchema elements).leafIndices = leavesBelow elements elements.length ∧
    (buildSchema elements).maxDefLevels = (leavesBelow elements elements.length).map (fun j =>
      (levelsOf (repetitionOf elements) (buildSchema elements).parent j).1) ∧
    (buildSchema elements).maxRepLevels = (leavesBelow elements elements.length).map (fun j =>
      (levelsOf (repetitionOf elements) (buildSchema elements).parent j).2) := by
  have hlen : 2 ≤ elements.length := by
    by_contra hlt
    have h0 : 0 < elements.length := by
      by_contra hnil
      obtain rfl := List.length_eq_zero_iff.mp (Nat.eq_zero_of_not_pos hnil)
      exact absurd hroot (by decide)
    have hcount := hp.count 0 h0
    have hused := used_mono p 0 (show elements.length ≤ 0 + 1 by omega)
    rw [used_self hp.lt] at hused
    omega
  have hrun : ∃ stack ctx, buildSchema elements =
      ⟨elements, ctx.parentIndices, ctx.leafIndices, ctx.maxDef, ctx.maxRep⟩ ∧
      Visiting elements elements.length stack ctx := by
    obtain ⟨stack, ctx, heq, hv⟩ :=
      (visiting_start elements).run hp Nat.one_pos (Nat.le_of_lt hlen)
    have hcompute : computeLevels elements (zeroedCtx elements) = ctx := by
      match elements, hlen with
      | root :: e :: es, _ =>
        exact congrArg Prod.snd heq
    refine ⟨stack, ctx, ?_, hv⟩
    rw [← hcompute]
    rfl
  obtain ⟨stack, ctx, heq, hv⟩ := hrun
  have hparent : (buildSchema elements).parent = ctx.parent := by rw [heq]; rfl
  have hcount : ctx.leafIdx = countLeaves elements := by
    rw [hv.leafIdx, countLeaves_eq, leavesBelow]
    congr 1
    refine List.filter_congr fun j _ => ?_
    rcases Nat.eq_zero_or_pos j with rfl | hj
    · simp [Nat.ne_of_gt hroot]
    · simp [hj]
  obtain ⟨ha1, ha2, ha3⟩ := hv.arrays
  rw [hparent]
  refine ⟨hv.reads, hv.parent_lt, ?_, ?_, ?_⟩
  · rw [heq, ← hv.leaves, List.take_of_length_le (by omega)]
  · rw [heq, ← hv.maxDef, List.take_of_length_le (by omega)]
  · rw [heq, ← hv.maxRep, List.take_of_length_le (by omega)]

end Traverse

/-! ## The columns -/

/-- Every group, the root included, has a child. -/
def Schema.NoEmptyGroup (s : Schema) : Prop :=
  ∀ i, i < s.elements.length → s.isColumn i = false → 0 < s.children i

instance (s : Schema) : Decidable s.NoEmptyGroup :=
  inferInstanceAs (Decidable (∀ i, i < s.elements.length → s.isColumn i = false → 0 < s.children i))

theorem Schema.namesUp_eq (s : Schema) (fuel cur : Nat) : s.namesUp fuel cur =
    (pathUp s.parent fuel cur).map fun j => ((s.elements[j]?).map SchemaElement.name).getD "" := by
  induction fuel generalizing cur with
  | zero => rfl
  | succ fuel ih =>
    rw [Schema.namesUp, pathUp]
    split
    · rfl
    · rw [List.map_cons, ih]

/-- A column of a schema whose parents are `q`. -/
def leafColumn (elements : List SchemaElement) (q : Nat → Nat) (i : Nat) : LeafColumn :=
  ⟨((pathUp q i i).map fun j => ((elements[j]?).map SchemaElement.name).getD "").reverse,
    (elements[i]?).bind SchemaElement.type, (levelsOf (repetitionOf elements) q i).1,
    (levelsOf (repetitionOf elements) q i).2⟩

theorem Schema.columns_eq {s : Schema} {ls : List Nat} (hlt : ∀ k, 0 < k → s.parent k < k)
    (hleaves : s.leafIndices = ls) (hmem : ∀ i ∈ ls, i < s.elements.length)
    (hdef : s.maxDefLevels = ls.map fun i => (levelsOf (repetitionOf s.elements) s.parent i).1)
    (hrep : s.maxRepLevels = ls.map fun i => (levelsOf (repetitionOf s.elements) s.parent i).2) :
    s.columns = ls.map (leafColumn s.elements s.parent) := by
  have hzip (f : Nat → Int × Int) : ls.zip (ls.map f) = ls.map fun i => (i, f i) := by
    simpa using List.zip_map' (f := id) (g := f) (l := ls)
  rw [Schema.columns, hleaves, hdef, hrep, List.zip_map', hzip, List.map_map]
  refine List.map_congr_left fun i hi => ?_
  simp only [Function.comp_apply, leafColumn, Schema.columnPath, Schema.namesUp_eq]
  rw [pathUp_fuel hlt (Nat.le_of_lt (hmem i hi))]

/-- A schema that was built by calls and whose groups all have a child. -/
structure WrittenSchema where
  calls : List SchemaCall
  schema : Schema
  built : Schema.run calls .create = some schema
  groups : schema.NoEmptyGroup

/-- The childless elements are the columns. -/
theorem WrittenSchema.leafIndices_eq (w : WrittenSchema) :
    w.schema.leafIndices = leavesBelow w.schema.elements w.schema.elements.length := by
  have hb := Schema.built_run Schema.built_create w.built
  rw [hb.leaves, leavesBelow]
  refine List.filter_congr fun i hi => ?_
  have hi := List.mem_range.mp hi
  cases hc : w.schema.isColumn i with
  | true =>
    have hpos : 0 < i := by
      rcases Nat.eq_zero_or_pos i with rfl | h
      · rw [hb.root] at hc
        exact absurd hc (by simp)
      · exact h
    have h0 : childrenOf w.schema.elements i = 0 := hb.childless i hc
    simp [hpos, h0]
  | false =>
    have h0 : 0 < childrenOf w.schema.elements i := w.groups i hi hc
    simp [Nat.ne_of_gt h0]

/-- **When a reader rebuilds the columns that were written**: exactly when the elements were
added depth first. -/
theorem buildSchema_columns_iff (w : WrittenSchema) :
    (buildSchema (storeSchemaElements w.schema)).columns = w.schema.columns ↔
      DepthFirst w.schema.elements.length w.schema.parent := by
  have hb := Schema.built_run Schema.built_create w.built
  have hroot : 0 < childrenOf w.schema.elements 0 := w.groups 0 hb.nonempty hb.root
  have htree : Tree w.schema.elements.length (childrenOf w.schema.elements) w.schema.parent :=
    hb.tree
  obtain ⟨hreads, hlt, hleaves, hdef, hrep⟩ := buildSchema_reads htree hroot
  have hmem : ∀ i ∈ leavesBelow w.schema.elements w.schema.elements.length,
      i < w.schema.elements.length := fun i hi => List.mem_range.mp (List.mem_filter.mp hi).1
  have hreader : (buildSchema (storeSchemaElements w.schema)).columns =
      (leavesBelow w.schema.elements w.schema.elements.length).map
        (leafColumn w.schema.elements (buildSchema w.schema.elements).parent) :=
    Schema.columns_eq hlt hleaves hmem hdef hrep
  have hmemory : w.schema.columns = (leavesBelow w.schema.elements w.schema.elements.length).map
      (leafColumn w.schema.elements w.schema.parent) :=
    Schema.columns_eq htree.lt w.leafIndices_eq hmem (w.leafIndices_eq ▸ hb.maxDef)
      (w.leafIndices_eq ▸ hb.maxRep)
  rw [← reads_iff_depthFirst htree, hreader, hmemory, List.map_inj_left]
  constructor
  · intro hcols
    -- equal paths have equal lengths, so no leaf is read too deep
    have hagree : ∀ k, 0 < k → k < w.schema.elements.length →
        w.schema.parent k = (buildSchema w.schema.elements).parent k := by
      by_contra hne
      push Not at hne
      obtain ⟨j, hj0, hjn, hleaf, hdeep⟩ := exists_leaf_deeper htree hreads hlt hne
      have hpath := congrArg (fun l => l.path.length) (hcols j (List.mem_filter.mpr
        ⟨List.mem_range.mpr hjn, by simp [hj0, hleaf]⟩))
      simp only [leafColumn, List.length_reverse, List.length_map] at hpath
      rw [depth, depth] at hdeep
      omega
    intro k hk hn
    have hcongr (j : Nat) : used w.schema.parent j k = used (buildSchema w.schema.elements).parent j k :=
      used_congr fun m h0 hm => hagree m h0 (by omega)
    obtain ⟨hopen, hmax⟩ := hreads k hk hn
    rw [hagree k hk hn]
    exact ⟨⟨hopen.1, by rw [hcongr]; exact hopen.2⟩,
      fun j hj => hmax j ⟨hj.1, by rw [← hcongr]; exact hj.2⟩⟩
  · intro hp i hi
    have hagree : ∀ m, 0 < m → m < w.schema.elements.length →
        (buildSchema w.schema.elements).parent m = w.schema.parent m := fun m h0 hm =>
      hreads.unique hp h0 hm
    rw [leafColumn, leafColumn, pathUp_congr hlt htree.lt hagree (hmem i hi),
      levelsOf_congr hlt htree.lt hagree (fun _ _ => rfl) (hmem i hi)]

/-- Two groups, then a column in each, the second group's first. -/
def crossedGroups : WrittenSchema where
  calls := [.addGroup "a" .optional 0, .addGroup "b" .required 0,
    .addColumn ⟨"x", .int32, 0, true⟩ .required 2, .addColumn ⟨"y", .int64, 0, true⟩ .required 1]
  schema := (Schema.run [.addGroup "a" .optional 0, .addGroup "b" .required 0,
    .addColumn ⟨"x", .int32, 0, true⟩ .required 2,
    .addColumn ⟨"y", .int64, 0, true⟩ .required 1] .create).getD .create
  built := by decide
  groups := by decide

/-- `b.x` comes back as `a.b.x` with other levels, `a.y` as `y`. -/
theorem crossedGroups_misread :
    crossedGroups.schema.columns =
      [⟨["b", "x"], some .int32, 0, 0⟩, ⟨["a", "y"], some .int64, 1, 0⟩] ∧
    (buildSchema (storeSchemaElements crossedGroups.schema)).columns =
      [⟨["a", "b", "x"], some .int32, 1, 0⟩, ⟨["y"], some .int64, 0, 0⟩] := by
  decide

end Carquet
