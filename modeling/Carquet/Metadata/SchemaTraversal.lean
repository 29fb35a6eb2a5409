import Carquet.Metadata.Schema
import Carquet.Thrift.ParquetTypes

/-!
# The reader's walk over a schema

`build_schema` (src/reader/file_reader.c:54-232) on the elements of a footer as they are: a child
count is an `int32_t` that nothing has checked. The arrays are of the size `count_leaves` finds;
`storeAll` is a sequence of stores into one, and there is no result where a store lies outside.
The arena has room for the arrays.

`schema_traversed`: a footer that lists a tree depth first gives the tree's leaves, parents and
levels, and every footer is walked to an end, each element once, inside the arrays.
-/

namespace Carquet

/-! ## The walk -/

/-- What the walk reads of a `parquet_schema_element_t`: `num_children` and, where
`has_repetition` is set, `repetition_type`. -/
structure FooterElement where
  numChildren : Int
  repetition : Option Repetition
  deriving DecidableEq, Repr

/-- A store of one leaf (file_reader.c:127-131), at `leaf_idx`. -/
structure LeafStore where
  slot : Nat
  element : Nat
  maxDef : Int
  maxRep : Int
  deriving DecidableEq, Repr

/-- What the walk has stored so far into `parent_indices` and into the leaf arrays, in order, and
`leaf_idx`. -/
structure WalkLog where
  parents : List (Nat × Int)
  leaves : List LeafStore
  leafIdx : Nat
  deriving DecidableEq, Repr

/-- The loop over the children of a group (file_reader.c:136-139). -/
def walkChildren (walk : Nat → WalkLog → Option (Nat × WalkLog)) :
    Nat → Nat → WalkLog → Option (Nat × WalkLog)
  | 0, next, log => some (next, log)
  | n + 1, next, log => (walk next log).bind fun r => walkChildren walk n r.1 r.2

/-- `traverse_schema_recursive` (file_reader.c:85-142); the fuel is the depth of the recursion. -/
def walkSchema (elements : List FooterElement) :
    Nat → Nat → Int → Int × Int → WalkLog → Option (Nat × WalkLog)
  | 0, _, _, _, _ => none
  | fuel + 1, elementIdx, parentIdx, levels, log =>
    match elements[elementIdx]? with
    | none => some (elementIdx, log)
    | some elem =>
      let log := { log with parents := log.parents ++ [(elementIdx, parentIdx)] }
      let this := addLevels elem.repetition levels
      if elem.numChildren = 0 then
        some (elementIdx + 1, { log with
          leaves := log.leaves ++ [⟨log.leafIdx, elementIdx, this.1, this.2⟩]
          leafIdx := log.leafIdx + 1 })
      else
        walkChildren (fun next log => walkSchema elements fuel next elementIdx this log)
          elem.numChildren.toNat (elementIdx + 1) log

/-- `compute_levels` (file_reader.c:164-198). -/
def walkLevels (elements : List FooterElement) : Option WalkLog :=
  match elements with
  | [] | [_] => some ⟨[], [], 0⟩
  | root :: _ =>
    (walkChildren (fun next log => walkSchema elements elements.length next 0 (0, 0) log)
      root.numChildren.toNat 1 ⟨[(0, -1)], [], 0⟩).map Prod.snd

/-- `count_leaves` (file_reader.c:54-62). -/
def countChildless (elements : List FooterElement) : Nat :=
  elements.countP (·.numChildren = 0)

/-- Stores into an array, in order. -/
def storeAll : List Int → List (Nat × Int) → Option (List Int)
  | array, [] => some array
  | array, (slot, value) :: stores =>
    if slot < array.length then storeAll (array.set slot value) stores else none

/-- The arrays of `carquet_schema_t`. -/
structure SchemaArrays where
  parentIndices : List Int
  leafIndices : List Int
  maxDefLevels : List Int
  maxRepLevels : List Int
  deriving DecidableEq, Repr

/-- `build_schema` (file_reader.c:200-232). -/
def buildArrays (elements : List FooterElement) : Option SchemaArrays := do
  let log ← walkLevels elements
  let zeros := List.replicate (countChildless elements) 0
  let parents ← storeAll (List.replicate elements.length 0) log.parents
  let leafIndices ← storeAll zeros (log.leaves.map fun l => (l.slot, (l.element : Int)))
  let maxDef ← storeAll zeros (log.leaves.map fun l => (l.slot, l.maxDef))
  let maxRep ← storeAll zeros (log.leaves.map fun l => (l.slot, l.maxRep))
  return ⟨parents, leafIndices, maxDef, maxRep⟩

/-! ## Trees -/

mutual
/-- A node of a schema below the root; a group has a child. -/
inductive SchemaNode where
  | leaf (repetition : Option Repetition)
  | group (repetition : Option Repetition) (children : SchemaNodes)
/-- One node or more, in order. -/
inductive SchemaNodes where
  | one (node : SchemaNode)
  | more (node : SchemaNode) (nodes : SchemaNodes)
end

def SchemaNodes.count : SchemaNodes → Nat
  | .one _ => 1
  | .more _ nodes => nodes.count + 1

mutual
/-- The elements of a node and what is below it, depth first. -/
def SchemaNode.elements : SchemaNode → List FooterElement
  | .leaf r => [⟨0, r⟩]
  | .group r children => ⟨children.count, r⟩ :: children.elements
def SchemaNodes.elements : SchemaNodes → List FooterElement
  | .one node => node.elements
  | .more node nodes => node.elements ++ nodes.elements
end

/-- What a tree says of an element: its parent, the repetitions on the path to it from the root,
which has none, and whether it is a leaf. -/
structure SchemaRow where
  parent : Nat
  path : List (Option Repetition)
  isLeaf : Bool
  deriving DecidableEq, Repr

mutual
/-- The rows of a node that is element `index`, below `parent` with `path` down to that. -/
def SchemaNode.rows (index parent : Nat) (path : List (Option Repetition)) :
    SchemaNode → List SchemaRow
  | .leaf r => [⟨parent, path ++ [r], true⟩]
  | .group r children =>
    ⟨parent, path ++ [r], false⟩ :: children.rows (index + 1) index (path ++ [r])
def SchemaNodes.rows (index parent : Nat) (path : List (Option Repetition)) :
    SchemaNodes → List SchemaRow
  | .one node => node.rows index parent path
  | .more node nodes =>
    node.rows index parent path ++ nodes.rows (index + node.elements.length) parent path
end

/-- How many nodes on a path are optional or repeated. -/
def optionalOrRepeated (path : List (Option Repetition)) : Nat :=
  path.countP fun r => r = some .optional ∨ r = some .repeated

/-- How many nodes on a path are repeated. -/
def repeatedOnPath (path : List (Option Repetition)) : Nat := path.countP (· = some .repeated)

/-- The leaves among rows numbered from `index`, with their numbers. -/
def leafRows : Nat → List SchemaRow → List (Nat × SchemaRow)
  | _, [] => []
  | index, row :: rows =>
    if row.isLeaf then (index, row) :: leafRows (index + 1) rows else leafRows (index + 1) rows

/-! ## Every footer -/

/-- How many elements from `a` up to `b` have no children. -/
def childlessIn (elements : List FooterElement) (a b : Nat) : Nat :=
  ((elements.drop a).take (b - a)).countP (·.numChildren = 0)

/-- What every part of the walk does: it goes on from `start` to `next`, stores a parent for each
element between in order, and one leaf after the other, as many as are childless. -/
structure Walked (elements : List FooterElement) (start : Nat) (log : WalkLog) (next : Nat)
    (log' : WalkLog) : Prop where
  le : start ≤ next
  inside : next ≤ max start elements.length
  parents : ∃ stores, log'.parents = log.parents ++ stores ∧
    stores.map Prod.fst = List.range' start (next - start)
  leaves : ∃ stores, log'.leaves = log.leaves ++ stores ∧
    stores.map LeafStore.slot = List.range' log.leafIdx (childlessIn elements start next)
  leafIdx : log'.leafIdx = log.leafIdx + childlessIn elements start next

section Walked

variable {elements : List FooterElement} {start mid next : Nat} {log log' log'' : WalkLog}

theorem childlessIn_self (elements : List FooterElement) (a : Nat) :
    childlessIn elements a a = 0 := by simp [childlessIn]

theorem childlessIn_add (elements : List FooterElement) {a b c : Nat} (hab : a ≤ b) (hbc : b ≤ c) :
    childlessIn elements a c = childlessIn elements a b + childlessIn elements b c := by
  have hsplit : c - a = (b - a) + (c - b) := by omega
  have hdrop : a + (b - a) = b := by omega
  rw [childlessIn, hsplit, List.take_add, List.countP_append, List.drop_drop, hdrop]
  rfl

theorem Walked.refl (elements : List FooterElement) (start : Nat) (log : WalkLog) :
    Walked elements start log start log :=
  ⟨Nat.le_refl _, Nat.le_max_left _ _, ⟨[], by simp, by simp⟩,
    ⟨[], by simp, by simp [childlessIn_self]⟩, by simp [childlessIn_self]⟩

theorem Walked.trans (h : Walked elements start log mid log')
    (h' : Walked elements mid log' next log'') : Walked elements start log next log'' := by
  obtain ⟨hle, hin, ⟨ps, hps, hpos⟩, ⟨ls, hls, hslots⟩, hidx⟩ := h
  obtain ⟨hle', hin', ⟨ps', hps', hpos'⟩, ⟨ls', hls', hslots'⟩, hidx'⟩ := h'
  have hcount := childlessIn_add elements hle hle'
  refine ⟨by omega, by omega, ⟨ps ++ ps', ?_, ?_⟩, ⟨ls ++ ls', ?_, ?_⟩, by omega⟩
  · rw [hps', hps, List.append_assoc]
  · have hlen : next - start = (mid - start) + (next - mid) := by omega
    have hfrom : start + (mid - start) = mid := by omega
    rw [List.map_append, hpos, hpos', hlen, ← List.range'_append_1, hfrom]
  · rw [hls', hls, List.append_assoc]
  · rw [List.map_append, hslots, hslots', hcount, ← List.range'_append_1, hidx]

/-- The loop over children, when each turn of it is such a part. -/
theorem walkChildren_walked {walk : Nat → WalkLog → Option (Nat × WalkLog)} (bound : Nat)
    (hwalk : ∀ start log, bound ≤ start →
      ∃ next log', walk start log = some (next, log') ∧ Walked elements start log next log')
    (n : Nat) (hstart : bound ≤ start) (log : WalkLog) :
    ∃ next log', walkChildren walk n start log = some (next, log') ∧
      Walked elements start log next log' := by
  induction n generalizing start log with
  | zero => exact ⟨start, log, rfl, Walked.refl elements start log⟩
  | succ n ih =>
    obtain ⟨mid, log₁, hone, hwalked⟩ := hwalk start log hstart
    obtain ⟨next, log₂, hmore, hrest⟩ := ih (Nat.le_trans hstart hwalked.le) log₁
    refine ⟨next, log₂, ?_, hwalked.trans hrest⟩
    rw [walkChildren, hone]
    exact hmore

/-- The element at `start` itself. -/
theorem walked_element {elem : FooterElement} (helem : elements[start]? = some elem)
    (log : WalkLog) (parentIdx : Int) (levels : Int × Int) :
    Walked elements start log (start + 1)
      (if elem.numChildren = 0 then
        ⟨log.parents ++ [(start, parentIdx)],
          log.leaves ++ [⟨log.leafIdx, start, levels.1, levels.2⟩], log.leafIdx + 1⟩
      else ⟨log.parents ++ [(start, parentIdx)], log.leaves, log.leafIdx⟩) := by
  obtain ⟨hlt, hget⟩ := List.getElem?_eq_some_iff.mp helem
  have hone : start + 1 - start = 1 := by omega
  have hcount : childlessIn elements start (start + 1) = if elem.numChildren = 0 then 1 else 0 := by
    rw [childlessIn, hone, List.drop_eq_getElem_cons hlt, hget]
    simp [List.countP_cons]
  refine ⟨Nat.le_succ start, by omega, ⟨[(start, parentIdx)], ?_, by simp [hone]⟩, ?_, ?_⟩
  · split <;> rfl
  · rw [hcount]
    split
    · exact ⟨[⟨log.leafIdx, start, levels.1, levels.2⟩], rfl, rfl⟩
    · exact ⟨[], by simp, rfl⟩
  · rw [hcount]
    split <;> rfl

/-- **The walk ends, whatever the child counts**: fuel for the elements that are left is enough. -/
theorem walkSchema_walked {fuel : Nat} (hfuel : elements.length - start < fuel) (parentIdx : Int)
    (levels : Int × Int) (log : WalkLog) :
    ∃ next log', walkSchema elements fuel start parentIdx levels log = some (next, log') ∧
      Walked elements start log next log' := by
  induction fuel generalizing start parentIdx levels log with
  | zero => omega
  | succ fuel ih =>
    rw [walkSchema]
    cases helem : elements[start]? with
    | none => exact ⟨start, log, rfl, Walked.refl elements start log⟩
    | some elem =>
      have hlt : start < elements.length := (List.getElem?_eq_some_iff.mp helem).1
      have hone := walked_element helem log parentIdx (addLevels elem.repetition levels)
      dsimp only
      by_cases hleaf : elem.numChildren = 0
      · rw [if_pos hleaf] at hone ⊢
        exact ⟨_, _, rfl, hone⟩
      · rw [if_neg hleaf] at hone ⊢
        obtain ⟨next, log', hchildren, hwalked⟩ := walkChildren_walked (start + 1)
          (fun from' log' hfrom => ih (by omega) start (addLevels elem.repetition levels) log')
          elem.numChildren.toNat (Nat.le_refl (start + 1))
          ⟨log.parents ++ [(start, parentIdx)], log.leaves, log.leafIdx⟩
        exact ⟨next, log', hchildren, hone.trans hwalked⟩

/-- The whole walk: the root and every element the child counts lead to, each once and in order. -/
theorem walkLevels_walked (elements : List FooterElement) :
    ∃ log next, walkLevels elements = some log ∧ next ≤ elements.length ∧
      log.parents.map Prod.fst = List.range' 0 next ∧
      log.leaves.map LeafStore.slot = List.range' 0 (childlessIn elements 1 next) := by
  match elements with
  | [] => exact ⟨_, 0, rfl, Nat.le_refl _, rfl, rfl⟩
  | [_] => exact ⟨_, 0, rfl, Nat.zero_le _, rfl, rfl⟩
  | root :: second :: rest =>
    obtain ⟨next, log, hwalk, hle, hin, ⟨ps, hps, hpos⟩, ⟨ls, hls, hslots⟩, -⟩ :=
      @walkChildren_walked (root :: second :: rest) 1
        (fun next log => walkSchema (root :: second :: rest) (root :: second :: rest).length next 0
          (0, 0) log) 1
        (fun start log hstart => walkSchema_walked (by rw [List.length_cons]; omega) 0 (0, 0) log)
        root.numChildren.toNat (Nat.le_refl 1) ⟨[(0, -1)], [], 0⟩
    refine ⟨log, next, ?_, ?_, ?_, ?_⟩
    · rw [walkLevels, hwalk]
      · rfl
      · simp
    · rw [List.length_cons, List.length_cons] at hin ⊢
      omega
    · have hsplit : next = 1 + (next - 1) := by omega
      rw [hps, List.map_append, hpos]
      conv_rhs => rw [hsplit, ← List.range'_append_1]
      rfl
    · rw [hls]
      exact hslots

theorem childlessIn_le (elements : List FooterElement) (a b : Nat) :
    childlessIn elements a b ≤ countChildless elements :=
  List.Sublist.countP_le ((List.take_sublist _ _).trans (List.drop_sublist _ _))

/-- Stores inside an array go through. -/
theorem storeAll_inside {array : List Int} {stores : List (Nat × Int)}
    (h : ∀ slot ∈ stores.map Prod.fst, slot < array.length) :
    ∃ result, storeAll array stores = some result := by
  induction stores generalizing array with
  | nil => exact ⟨array, rfl⟩
  | cons store stores ih =>
    obtain ⟨slot, value⟩ := store
    have hslot : slot < array.length := h slot (by simp)
    rw [storeAll, if_pos hslot]
    refine ih fun s hs => ?_
    rw [List.length_set]
    exact h s (List.mem_cons_of_mem _ hs)

/-- Every footer is walked inside the arrays. -/
theorem buildArrays_isSome (elements : List FooterElement) :
    (buildArrays elements).isSome = true := by
  obtain ⟨log, next, hwalk, hle, hparents, hslots⟩ := walkLevels_walked elements
  have hleaves (value : LeafStore → Int) :
      ∃ result, storeAll (List.replicate (countChildless elements) 0)
        (log.leaves.map fun l => (l.slot, value l)) = some result := by
    refine storeAll_inside fun slot hslot => ?_
    rw [List.map_map] at hslot
    have hmem : slot ∈ log.leaves.map LeafStore.slot := hslot
    rw [hslots, List.mem_range'_1] at hmem
    have hcount := childlessIn_le elements 1 next
    rw [List.length_replicate]
    omega
  obtain ⟨parents, hstore⟩ : ∃ result,
      storeAll (List.replicate elements.length 0) log.parents = some result := by
    refine storeAll_inside fun slot hslot => ?_
    rw [hparents, List.mem_range'_1] at hslot
    rw [List.length_replicate]
    omega
  obtain ⟨leafIndices, hleaf⟩ := hleaves fun l => l.element
  obtain ⟨maxDef, hdef⟩ := hleaves LeafStore.maxDef
  obtain ⟨maxRep, hrep⟩ := hleaves LeafStore.maxRep
  simp [buildArrays, hwalk, hstore, hleaf, hdef, hrep]

end Walked

/-! ## Trees listed depth first -/

/-- The levels a path gives, in the `int16_t` they are kept in. -/
def levelsOn (path : List (Option Repetition)) : Int × Int :=
  (toI16 (optionalOrRepeated path), toI16 (repeatedOnPath path))

theorem addLevels_levelsOn (r : Option Repetition) (path : List (Option Repetition)) :
    addLevels r (levelsOn path) = levelsOn (path ++ [r]) := by
  have hnext (n : Nat) : toI16 (toI16 n + 1) = toI16 ((n + 1 : Nat) : Int) := by
    unfold toI16
    omega
  unfold levelsOn optionalOrRepeated repeatedOnPath
  simp only [List.countP_append, List.countP_singleton]
  cases r with
  | none => simp [addLevels]
  | some r => cases r <;> simp [addLevels, hnext]

/-- The stores of the parents of rows numbered from `index`. -/
def rowStores : Nat → List SchemaRow → List (Nat × Int)
  | _, [] => []
  | index, row :: rows => (index, (row.parent : Int)) :: rowStores (index + 1) rows

/-- The stores of these leaves from `slot` on. -/
def leafStores : Nat → List (Nat × SchemaRow) → List LeafStore
  | _, [] => []
  | slot, (element, row) :: leaves =>
    ⟨slot, element, (levelsOn row.path).1, (levelsOn row.path).2⟩ :: leafStores (slot + 1) leaves

theorem rowStores_append (index : Nat) (rows rows' : List SchemaRow) :
    rowStores index (rows ++ rows') =
      rowStores index rows ++ rowStores (index + rows.length) rows' := by
  induction rows generalizing index with
  | nil => rfl
  | cons row rows ih =>
    have hadd : index + (rows.length + 1) = index + 1 + rows.length := by omega
    simp only [List.cons_append, rowStores, List.length_cons, ih, hadd]

theorem leafStores_append (slot : Nat) (leaves leaves' : List (Nat × SchemaRow)) :
    leafStores slot (leaves ++ leaves') =
      leafStores slot leaves ++ leafStores (slot + leaves.length) leaves' := by
  induction leaves generalizing slot with
  | nil => rfl
  | cons leaf leaves ih =>
    have hadd : slot + (leaves.length + 1) = slot + 1 + leaves.length := by omega
    simp only [List.cons_append, leafStores, List.length_cons, ih, hadd]

theorem leafRows_append (index : Nat) (rows rows' : List SchemaRow) :
    leafRows index (rows ++ rows') = leafRows index rows ++ leafRows (index + rows.length) rows' := by
  induction rows generalizing index with
  | nil => rfl
  | cons row rows ih =>
    have hadd : index + (rows.length + 1) = index + 1 + rows.length := by omega
    simp only [List.cons_append, leafRows, List.length_cons, ih, hadd]
    split <;> rfl

/-- The log after the stores of these rows. -/
def WalkLog.push (log : WalkLog) (index : Nat) (rows : List SchemaRow) : WalkLog :=
  ⟨log.parents ++ rowStores index rows, log.leaves ++ leafStores log.leafIdx (leafRows index rows),
    log.leafIdx + (leafRows index rows).length⟩

theorem WalkLog.push_append (log : WalkLog) (index : Nat) (rows rows' : List SchemaRow) :
    log.push index (rows ++ rows') = (log.push index rows).push (index + rows.length) rows' := by
  simp only [WalkLog.push, rowStores_append, leafRows_append, leafStores_append, List.append_assoc,
    List.length_append, Nat.add_assoc]

mutual
theorem SchemaNode.length_rows (index parent : Nat) (path : List (Option Repetition)) :
    ∀ node : SchemaNode, (node.rows index parent path).length = node.elements.length
  | .leaf _ => rfl
  | .group r children => by
    rw [SchemaNode.rows, SchemaNode.elements, List.length_cons, List.length_cons,
      SchemaNodes.length_rows (index + 1) index (path ++ [r]) children]
theorem SchemaNodes.length_rows (index parent : Nat) (path : List (Option Repetition)) :
    ∀ nodes : SchemaNodes, (nodes.rows index parent path).length = nodes.elements.length
  | .one node => by
    rw [SchemaNodes.rows, SchemaNodes.elements, SchemaNode.length_rows index parent path node]
  | .more node nodes => by
    rw [SchemaNodes.rows, SchemaNodes.elements, List.length_append, List.length_append,
      SchemaNode.length_rows index parent path node,
      SchemaNodes.length_rows (index + node.elements.length) parent path nodes]
end

theorem SchemaNodes.count_pos (nodes : SchemaNodes) : 0 < nodes.count := by
  cases nodes <;> simp [SchemaNodes.count]

theorem getElem?_of_drop {elements rest : List FooterElement} {elem : FooterElement} {start : Nat}
    (h : elements.drop start = elem :: rest) :
    start < elements.length ∧ elements[start]? = some elem ∧ elements.drop (start + 1) = rest := by
  have hlen := congrArg List.length h
  rw [List.length_drop, List.length_cons] at hlen
  refine ⟨by omega, ?_, ?_⟩
  · have hget : (elements.drop start)[0]? = some elem := by rw [h]; rfl
    rwa [List.getElem?_drop, Nat.add_zero] at hget
  · rw [← List.drop_drop, h]
    rfl

mutual
/-- The walk over a node that stands at `start`, depth first. -/
theorem walkSchema_node {elements rest : List FooterElement} {start fuel : Nat}
    (parent : Nat) (path : List (Option Repetition)) (log : WalkLog) :
    ∀ node : SchemaNode, elements.drop start = node.elements ++ rest →
      elements.length - start < fuel →
      walkSchema elements fuel start parent (levelsOn path) log =
        some (start + node.elements.length, log.push start (node.rows start parent path))
  | .leaf r, hdrop, hfuel => by
    obtain ⟨fuel, rfl⟩ : ∃ f, fuel = f + 1 := ⟨fuel - 1, by omega⟩
    obtain ⟨-, helem, -⟩ := getElem?_of_drop hdrop
    rw [walkSchema, helem]
    simp [addLevels_levelsOn, SchemaNode.elements, SchemaNode.rows, WalkLog.push, rowStores,
      leafRows, leafStores]
  | .group r children, hdrop, hfuel => by
    obtain ⟨fuel, rfl⟩ : ∃ f, fuel = f + 1 := ⟨fuel - 1, by omega⟩
    obtain ⟨hlt, helem, hrest⟩ := getElem?_of_drop hdrop
    have hcount := children.count_pos
    rw [walkSchema, helem]
    dsimp only
    rw [if_neg (by omega), Int.toNat_natCast, addLevels_levelsOn,
      walkChildren_nodes start (path ++ [r]) _ children hrest (by omega)]
    have hlen : start + 1 + children.elements.length =
        start + (SchemaNode.group r children).elements.length := by
      rw [SchemaNode.elements, List.length_cons]
      omega
    rw [hlen, SchemaNode.rows]
    simp [WalkLog.push, rowStores, leafRows]
/-- The loop over nodes that stand one after the other. -/
theorem walkChildren_nodes {elements rest : List FooterElement} {start fuel : Nat}
    (parent : Nat) (path : List (Option Repetition)) (log : WalkLog) :
    ∀ nodes : SchemaNodes, elements.drop start = nodes.elements ++ rest →
      elements.length - start < fuel →
      walkChildren (fun next log => walkSchema elements fuel next parent (levelsOn path) log)
          nodes.count start log =
        some (start + nodes.elements.length, log.push start (nodes.rows start parent path))
  | .one node, hdrop, hfuel => by
    rw [SchemaNodes.count, walkChildren, walkSchema_node parent path log node hdrop hfuel]
    rfl
  | .more node nodes, hdrop, hfuel => by
    rw [SchemaNodes.elements, List.append_assoc] at hdrop
    have hnext : elements.drop (start + node.elements.length) = nodes.elements ++ rest := by
      rw [← List.drop_drop, hdrop, List.drop_left]
    rw [SchemaNodes.count, walkChildren, walkSchema_node parent path log node hdrop hfuel,
      Option.bind_some, walkChildren_nodes parent path _ nodes hnext (by omega), SchemaNodes.rows, WalkLog.push_append,
      SchemaNode.length_rows, SchemaNodes.elements, List.length_append, Nat.add_assoc]
end

/-! ## The arrays of a tree -/

/-- Stores one after the other fill the array in. -/
theorem storeAll_fill (done old : List Int) (stores : List (Nat × Int))
    (hslots : stores.map Prod.fst = List.range' done.length stores.length)
    (hroom : stores.length = old.length) :
    storeAll (done ++ old) stores = some (done ++ stores.map Prod.snd) := by
  induction stores generalizing done old with
  | nil =>
    have hnil : old = [] := List.length_eq_zero_iff.mp hroom.symm
    rw [hnil]
    rfl
  | cons store stores ih =>
    obtain ⟨slot, value⟩ := store
    rw [List.map_cons, List.length_cons, List.range'_succ, List.cons.injEq] at hslots
    obtain ⟨rfl, hslots⟩ := hslots
    cases old with
    | nil => exact absurd hroom (by simp)
    | cons o old =>
      have hset : (done ++ o :: old).set done.length value = (done ++ [value]) ++ old := by
        rw [List.set_append_right _ _ (Nat.le_refl _), Nat.sub_self]
        simp
      rw [storeAll, if_pos (by simp), hset, ih (done ++ [value]) old (by simpa using hslots) (by simpa using hroom)]
      simp

theorem map_fst_rowStores (index : Nat) (rows : List SchemaRow) :
    (rowStores index rows).map Prod.fst = List.range' index rows.length := by
  induction rows generalizing index with
  | nil => rfl
  | cons row rows ih => rw [rowStores, List.map_cons, ih, List.length_cons, List.range'_succ]

theorem map_snd_rowStores (index : Nat) (rows : List SchemaRow) :
    (rowStores index rows).map Prod.snd = rows.map fun row => (row.parent : Int) := by
  induction rows generalizing index with
  | nil => rfl
  | cons row rows ih => rw [rowStores, List.map_cons, ih, List.map_cons]

@[simp] theorem length_rowStores (index : Nat) (rows : List SchemaRow) :
    (rowStores index rows).length = rows.length := by
  rw [← List.length_map Prod.fst, map_fst_rowStores, List.length_range']

/-- One of the leaf arrays. -/
theorem map_leafStores (slot : Nat) (leaves : List (Nat × SchemaRow)) (value : LeafStore → Int)
    (value' : Nat → SchemaRow → Int) (hvalue : ∀ slot element row,
      value ⟨slot, element, (levelsOn row.path).1, (levelsOn row.path).2⟩ = value' element row) :
    ((leafStores slot leaves).map fun l => (l.slot, value l)).map Prod.fst =
        List.range' slot leaves.length ∧
      ((leafStores slot leaves).map fun l => (l.slot, value l)).map Prod.snd =
        leaves.map fun l => value' l.1 l.2 := by
  induction leaves generalizing slot with
  | nil => exact ⟨rfl, rfl⟩
  | cons leaf leaves ih =>
    obtain ⟨hslots, hvalues⟩ := ih (slot + 1)
    rw [leafStores, List.map_cons, List.map_cons, List.map_cons, List.map_cons, hslots, hvalues,
      List.length_cons, List.range'_succ, hvalue]
    exact ⟨rfl, rfl⟩

theorem storeAll_leaves (leaves : List (Nat × SchemaRow)) (value : LeafStore → Int)
    (value' : Nat → SchemaRow → Int) (hvalue : ∀ slot element row,
      value ⟨slot, element, (levelsOn row.path).1, (levelsOn row.path).2⟩ = value' element row) :
    storeAll (List.replicate leaves.length 0)
        ((leafStores 0 leaves).map fun l => (l.slot, value l)) =
      some (leaves.map fun l => value' l.1 l.2) := by
  obtain ⟨hslots, hvalues⟩ := map_leafStores 0 leaves value value' hvalue
  have hlen : ((leafStores 0 leaves).map fun l => (l.slot, value l)).length = leaves.length := by
    rw [← List.length_map Prod.fst, hslots, List.length_range']
  have hfill := storeAll_fill [] (List.replicate leaves.length 0) _
    (hslots.trans (by rw [hlen]; rfl)) (hlen.trans List.length_replicate.symm)
  rw [List.nil_append, List.nil_append, hvalues] at hfill
  exact hfill

mutual
theorem SchemaNode.length_leafRows (index parent : Nat) (path : List (Option Repetition)) :
    ∀ node : SchemaNode,
      (leafRows index (node.rows index parent path)).length = countChildless node.elements
  | .leaf _ => rfl
  | .group r children => by
    have hcount := children.count_pos
    rw [SchemaNode.rows, leafRows, if_neg (by simp),
      SchemaNodes.length_leafRows (index + 1) index (path ++ [r]) children, SchemaNode.elements,
      countChildless, countChildless, List.countP_cons_of_neg (by simp; omega)]
theorem SchemaNodes.length_leafRows (index parent : Nat) (path : List (Option Repetition)) :
    ∀ nodes : SchemaNodes,
      (leafRows index (nodes.rows index parent path)).length = countChildless nodes.elements
  | .one node => SchemaNode.length_leafRows index parent path node
  | .more node nodes => by
    rw [SchemaNodes.rows, leafRows_append, List.length_append, SchemaNode.length_rows,
      SchemaNode.length_leafRows index parent path node,
      SchemaNodes.length_leafRows (index + node.elements.length) parent path nodes,
      SchemaNodes.elements, countChildless, countChildless, countChildless, List.countP_append]
end

theorem SchemaNodes.elements_ne_nil : ∀ nodes : SchemaNodes, nodes.elements ≠ []
  | .one (.leaf _) | .one (.group _ _) => List.cons_ne_nil _ _
  | .more (.leaf _) _ | .more (.group _ _) _ => List.cons_ne_nil _ _

/-- The elements of a schema with these nodes below the root. -/
def schemaElements (root : Option Repetition) (nodes : SchemaNodes) : List FooterElement :=
  ⟨nodes.count, root⟩ :: nodes.elements

theorem walkLevels_tree (root : Option Repetition) (nodes : SchemaNodes) :
    walkLevels (schemaElements root nodes) =
      some ((⟨[(0, -1)], [], 0⟩ : WalkLog).push 1 (nodes.rows 1 0 [])) := by
  have hdrop : (schemaElements root nodes).drop 1 = nodes.elements ++ [] := by
    rw [List.append_nil]
    rfl
  have hwalk := @walkChildren_nodes (schemaElements root nodes) [] 1
    (schemaElements root nodes).length 0 [] ⟨[(0, -1)], [], 0⟩ nodes hdrop (by simp [schemaElements])
  obtain ⟨second, rest, hnodes⟩ := List.exists_cons_of_ne_nil nodes.elements_ne_nil
  rw [schemaElements] at hwalk ⊢
  rw [hnodes] at hwalk ⊢
  simp only [walkLevels, Int.toNat_natCast]
  exact congrArg (Option.map Prod.snd) hwalk

/-- The arrays built of a tree listed depth first. -/
theorem buildArrays_tree (root : Option Repetition) (nodes : SchemaNodes) :
    let rows := nodes.rows 1 0 []
    let leaves := leafRows 1 rows
    buildArrays (schemaElements root nodes) = some
      { parentIndices := -1 :: rows.map fun row => (row.parent : Int)
        leafIndices := leaves.map fun l => (l.1 : Int)
        maxDefLevels := leaves.map fun l => toI16 (optionalOrRepeated l.2.path)
        maxRepLevels := leaves.map fun l => toI16 (repeatedOnPath l.2.path) } := by
  intro rows leaves
  have hcount : countChildless (schemaElements root nodes) = leaves.length := by
    have hpos := nodes.count_pos
    rw [schemaElements, countChildless, List.countP_cons_of_neg (by simp; omega)]
    exact (SchemaNodes.length_leafRows 1 0 [] nodes).symm
  have hlen : (schemaElements root nodes).length = rows.length + 1 := by
    rw [schemaElements, List.length_cons, SchemaNodes.length_rows]
  have hparents : storeAll (List.replicate (schemaElements root nodes).length 0)
      ((0, -1) :: rowStores 1 rows) = some (-1 :: rows.map fun row => (row.parent : Int)) := by
    have hfill := storeAll_fill [] (List.replicate (rows.length + 1) 0)
      ((0, -1) :: rowStores 1 rows) (by
        rw [List.map_cons, map_fst_rowStores, List.length_cons, length_rowStores, List.range'_succ]
        rfl) (by simp)
    rw [hlen]
    rw [List.nil_append, List.nil_append, List.map_cons, map_snd_rowStores] at hfill
    exact hfill
  have hindices := storeAll_leaves leaves (fun l => l.element) (fun element _ => element)
    fun _ _ _ => rfl
  have hdef := storeAll_leaves leaves LeafStore.maxDef
    (fun _ row => toI16 (optionalOrRepeated row.path)) fun _ _ _ => rfl
  have hrep := storeAll_leaves leaves LeafStore.maxRep
    (fun _ row => toI16 (repeatedOnPath row.path)) fun _ _ _ => rfl
  have hwalk : walkLevels (schemaElements root nodes) = some
      ⟨(0, -1) :: rowStores 1 rows, leafStores 0 leaves, 0 + leaves.length⟩ :=
    walkLevels_tree root nodes
  simp only [buildArrays, hwalk, hcount, hparents, hindices, hdef, hrep, Option.bind_eq_bind,
    Option.bind_some, Option.pure_def]

/-! ## The walk over elements that were added -/

/-- The element as a footer has it. -/
def SchemaElement.toFooter (e : SchemaElement) : FooterElement := ⟨e.numChildren, e.repetition⟩

/-- The arrays with the stores of a log made. -/
def WalkLog.apply (log : WalkLog) (ctx : TraverseCtx) : TraverseCtx where
  maxDef := log.leaves.foldl (fun array l => array.set l.slot l.maxDef) ctx.maxDef
  maxRep := log.leaves.foldl (fun array l => array.set l.slot l.maxRep) ctx.maxRep
  leafIndices := log.leaves.foldl (fun array l => array.set l.slot l.element) ctx.leafIndices
  parentIndices := log.parents.foldl (fun array p => array.set p.1 p.2.toNat) ctx.parentIndices
  leafIdx := log.leafIdx

/-- The two loops over children agree when their turns do. -/
theorem iterate_walk {walk : Nat → WalkLog → Option (Nat × WalkLog)}
    (visit : Nat × TraverseCtx → Nat × TraverseCtx) (ctx : TraverseCtx)
    (hturn : ∀ {start log next log'}, walk start log = some (next, log') →
      visit (start, log.apply ctx) = (next, log'.apply ctx))
    (n : Nat) {start next : Nat} {log log' : WalkLog}
    (h : walkChildren walk n start log = some (next, log')) :
    visit^[n] (start, log.apply ctx) = (next, log'.apply ctx) := by
  induction n generalizing start log with
  | zero =>
    cases h
    rfl
  | succ n ih =>
    rw [walkChildren, Option.bind_eq_some_iff] at h
    obtain ⟨⟨mid, log₁⟩, hone, hmore⟩ := h
    rw [Function.iterate_succ_apply, hturn hone]
    exact ih hmore

theorem traverseSchema_walk {elements : List SchemaElement} {ctx : TraverseCtx}
    {fuel start parent next : Nat} {levels : Int × Int} {log log' : WalkLog}
    (h : walkSchema (elements.map SchemaElement.toFooter) fuel start parent levels log =
      some (next, log')) :
    traverseSchema elements fuel start parent levels (log.apply ctx) = (next, log'.apply ctx) := by
  induction fuel generalizing start parent next levels log log' with
  | zero => cases h
  | succ fuel ih =>
    rw [walkSchema, List.getElem?_map] at h
    rw [traverseSchema]
    cases helem : elements[start]? with
    | none =>
      rw [helem] at h
      cases h
      rfl
    | some elem =>
      rw [helem] at h
      dsimp only [Option.map_some, SchemaElement.toFooter] at h ⊢
      by_cases hleaf : elem.numChildren = 0
      · rw [if_pos (by omega), Option.some.injEq, Prod.mk.injEq] at h
        obtain ⟨rfl, rfl⟩ := h
        rw [if_pos hleaf]
        simp [WalkLog.apply]
      · rw [if_neg (by omega), Int.toNat_natCast] at h
        rw [if_neg hleaf]
        have hrest := iterate_walk
          (fun s => traverseSchema elements fuel s.1 start (addLevels elem.repetition levels) s.2)
          ctx (fun hone => ih hone) elem.numChildren h
        simpa [WalkLog.apply] using hrest

/-- The arrays a reader starts from are zeroed, so the store of the root's parent does not show. -/
theorem computeLevels_walk {elements : List SchemaElement} {ctx : TraverseCtx} {log : WalkLog}
    (hidx : ctx.leafIdx = 0) (hzero : ctx.parentIndices.set 0 0 = ctx.parentIndices)
    (h : walkLevels (elements.map SchemaElement.toFooter) = some log) :
    computeLevels elements ctx = log.apply ctx := by
  match elements with
  | [] | [_] =>
    cases h
    obtain ⟨_, _, _, _, _⟩ := ctx
    cases hidx
    rfl
  | root :: second :: rest =>
    simp only [List.map_cons, walkLevels, SchemaElement.toFooter, Int.toNat_natCast,
      Option.map_eq_some_iff] at h
    obtain ⟨⟨next, log'⟩, hwalk, rfl⟩ := h
    have hstart : (⟨[(0, -1)], [], 0⟩ : WalkLog).apply ctx = ctx := by
      obtain ⟨_, _, _, _, _⟩ := ctx
      cases hidx
      simp only [WalkLog.apply, List.foldl_cons, List.foldl_nil]
      exact congrArg (TraverseCtx.mk _ _ _ · _) hzero
    have hwalk' : walkChildren (fun next log => walkSchema
        ((root :: second :: rest).map SchemaElement.toFooter) (root :: second :: rest).length next
          ((0 : Nat) : Int) (0, 0) log) root.numChildren 1 ⟨[(0, -1)], [], 0⟩ = some (next, log') := by
      simpa [SchemaElement.toFooter] using hwalk
    have hchildren := iterate_walk
      (fun s => traverseSchema (root :: second :: rest) (root :: second :: rest).length
        s.1 0 (0, 0) s.2) ctx (fun hone => traverseSchema_walk hone) _ hwalk'
    rw [hstart] at hchildren
    rw [computeLevels, hchildren]
    simp

theorem map_storeAll {α : Type} (f : Int → α) {array result : List Int}
    {stores : List (Nat × Int)} (h : storeAll array stores = some result) :
    result.map f = stores.foldl (fun array s => array.set s.1 (f s.2)) (array.map f) := by
  induction stores generalizing array with
  | nil =>
    cases h
    rfl
  | cons store stores ih =>
    rw [storeAll] at h
    split at h
    · rw [ih h, List.map_set]
      rfl
    · cases h

/-- What a reader rebuilds of elements that were added is what is built of them in a footer; the
root's parent is -1 there. -/
theorem buildSchema_eq_buildArrays (elements : List SchemaElement) :
    ∃ arrays, buildArrays (elements.map SchemaElement.toFooter) = some arrays ∧
      buildSchema elements =
        ⟨elements, arrays.parentIndices.map Int.toNat, arrays.leafIndices.map Int.toNat,
          arrays.maxDefLevels, arrays.maxRepLevels⟩ := by
  obtain ⟨arrays, harrays⟩ := Option.isSome_iff_exists.mp
    (buildArrays_isSome (elements.map SchemaElement.toFooter))
  refine ⟨arrays, harrays, ?_⟩
  have hcount : countChildless (elements.map SchemaElement.toFooter) = countLeaves elements := by
    rw [countChildless, countLeaves, List.countP_map]
    exact List.countP_congr fun e _ => by simp [SchemaElement.toFooter]
  simp only [buildArrays, hcount, Option.bind_eq_bind, Option.bind_eq_some_iff, Option.pure_def,
    Option.some.injEq, List.length_map] at harrays
  obtain ⟨log, hwalk, parents, hparents, leafIndices, hleaf, maxDef, hdef, maxRep, hrep, rfl⟩ :=
    harrays
  have hzero : (List.replicate elements.length 0).set 0 0 = List.replicate elements.length 0 := by
    cases elements <;> simp [List.replicate_succ]
  have hlevels := @computeLevels_walk elements ⟨List.replicate (countLeaves elements) 0,
    List.replicate (countLeaves elements) 0, List.replicate (countLeaves elements) 0,
    List.replicate elements.length 0, 0⟩ log rfl hzero hwalk
  have hparents := map_storeAll Int.toNat hparents
  have hleaf := map_storeAll Int.toNat hleaf
  have hdef := map_storeAll id hdef
  have hrep := map_storeAll id hrep
  simp only [List.map_replicate, Int.toNat_zero, id, List.map_id, List.foldl_map,
    Int.toNat_natCast] at hparents hleaf hdef hrep
  rw [buildSchema, hlevels, WalkLog.apply]
  simp only [hparents, hleaf, hdef, hrep]

/-! ## Both halves -/

mutual
theorem SchemaNode.length_path_le (index parent : Nat) (path : List (Option Repetition)) :
    ∀ node : SchemaNode, ∀ row ∈ node.rows index parent path,
      row.path.length ≤ path.length + node.elements.length
  | .leaf _, row, hrow => by
    rw [SchemaNode.rows, List.mem_singleton] at hrow
    rw [hrow, SchemaNode.elements, List.length_append]
    simp
  | .group r children, row, hrow => by
    rw [SchemaNode.rows, List.mem_cons] at hrow
    rw [SchemaNode.elements, List.length_cons]
    rcases hrow with rfl | hrow
    · simp only [List.length_append, List.length_singleton]
      omega
    · have hle := SchemaNodes.length_path_le (index + 1) index (path ++ [r]) children row hrow
      rw [List.length_append, List.length_singleton] at hle
      omega
theorem SchemaNodes.length_path_le (index parent : Nat) (path : List (Option Repetition)) :
    ∀ nodes : SchemaNodes, ∀ row ∈ nodes.rows index parent path,
      row.path.length ≤ path.length + nodes.elements.length
  | .one node, row, hrow => SchemaNode.length_path_le index parent path node row hrow
  | .more node nodes, row, hrow => by
    rw [SchemaNodes.rows, List.mem_append] at hrow
    rw [SchemaNodes.elements, List.length_append]
    rcases hrow with hrow | hrow
    · have hle := SchemaNode.length_path_le index parent path node row hrow
      omega
    · have hle := SchemaNodes.length_path_le (index + node.elements.length) parent path nodes row
        hrow
      omega
end

theorem mem_of_mem_leafRows {index : Nat} {rows : List SchemaRow} {l : Nat × SchemaRow}
    (h : l ∈ leafRows index rows) : l.2 ∈ rows := by
  induction rows generalizing index with
  | nil => exact absurd h List.not_mem_nil
  | cons row rows ih =>
    rw [leafRows] at h
    split at h
    · rcases List.mem_cons.mp h with rfl | h
      · exact List.mem_cons_self
      · exact List.mem_cons_of_mem _ (ih h)
    · exact List.mem_cons_of_mem _ (ih h)

/-- No level overflows its `int16_t` in a footer that is parsed: it has `maxSchemaElements` at
most. -/
theorem levels_exact {root : Option Repetition} {nodes : SchemaNodes}
    (hsize : (schemaElements root nodes).length ≤ Parquet.maxSchemaElements) {l : Nat × SchemaRow}
    (hl : l ∈ leafRows 1 (nodes.rows 1 0 [])) :
    toI16 (optionalOrRepeated l.2.path) = optionalOrRepeated l.2.path ∧
      toI16 (repeatedOnPath l.2.path) = repeatedOnPath l.2.path := by
  have hpath := SchemaNodes.length_path_le 1 0 [] nodes l.2 (mem_of_mem_leafRows hl)
  have hdef : optionalOrRepeated l.2.path ≤ l.2.path.length := List.countP_le_length
  have hrep : repeatedOnPath l.2.path ≤ l.2.path.length := List.countP_le_length
  rw [schemaElements, List.length_cons, Parquet.maxSchemaElements] at hsize
  rw [List.length_nil, Nat.zero_add] at hpath
  exact ⟨toI16_of_range (by omega) (by omega), toI16_of_range (by omega) (by omega)⟩

/-- **What is built of a tree's elements is the tree**: parents, leaves in order and their levels,
as many as the optional or repeated nodes on the path. **And whatever the elements**, the walk
ends, comes to each at most once and stores each leaf in a slot of its own inside the arrays. -/
theorem schema_traversed :
    (∀ (root : Option Repetition) (nodes : SchemaNodes),
      let rows := nodes.rows 1 0 []
      let leaves := leafRows 1 rows
      buildArrays (schemaElements root nodes) = some
          { parentIndices := -1 :: rows.map fun row => (row.parent : Int)
            leafIndices := leaves.map fun l => (l.1 : Int)
            maxDefLevels := leaves.map fun l => toI16 (optionalOrRepeated l.2.path)
            maxRepLevels := leaves.map fun l => toI16 (repeatedOnPath l.2.path) } ∧
        ((schemaElements root nodes).length ≤ Parquet.maxSchemaElements → ∀ l ∈ leaves,
          toI16 (optionalOrRepeated l.2.path) = optionalOrRepeated l.2.path ∧
            toI16 (repeatedOnPath l.2.path) = repeatedOnPath l.2.path)) ∧
      ∀ elements : List FooterElement,
        (buildArrays elements).isSome = true ∧
          ∃ log, walkLevels elements = some log ∧
            (log.parents.map Prod.fst).Nodup ∧ (∀ p ∈ log.parents, p.1 < elements.length) ∧
            (log.leaves.map LeafStore.slot).Nodup ∧
            ∀ l ∈ log.leaves, l.slot < countChildless elements := by
  refine ⟨fun root nodes => ⟨buildArrays_tree root nodes, fun hsize l hl => levels_exact hsize hl⟩,
    fun elements => ⟨buildArrays_isSome elements, ?_⟩⟩
  obtain ⟨log, next, hwalk, hle, hparents, hslots⟩ := walkLevels_walked elements
  refine ⟨log, hwalk, ?_, fun p hp => ?_, ?_, fun l hl => ?_⟩
  · rw [hparents]
    exact List.nodup_range'
  · have hmem : p.1 ∈ log.parents.map Prod.fst := List.mem_map_of_mem hp
    rw [hparents, List.mem_range'_1] at hmem
    omega
  · rw [hslots]
    exact List.nodup_range'
  · have hmem : l.slot ∈ log.leaves.map LeafStore.slot := List.mem_map_of_mem hl
    rw [hslots, List.mem_range'_1] at hmem
    have hcount := childlessIn_le elements 1 next
    omega

end Carquet
