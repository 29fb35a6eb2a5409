import Carquet.Core.Types
import Mathlib.Logic.Function.Iterate

/-!
# Schemas

A schema in memory and the one a reader rebuilds from a footer.

* `Schema.addColumn`, `Schema.addGroup`, `Schema.addList`, `Schema.addMap`, `Schema.addVariant` —
  `carquet_schema_add_column`, … (src/metadata/schema.c:290-416, 438-467, 634-712).
* `Schema.columnPath` — the path of a leaf, by its parents (file_writer.c:586-636).
* `storeSchemaElements` — `store_schema_elements` (file_writer.c:543-590): the footer's elements.
* `traverseSchema`, `buildSchema` — `traverse_schema_recursive`, `compute_levels` and
  `build_schema` (src/reader/file_reader.c:53-232).

Logical types decide only whether a column is taken (`validate_column_logical_type`), which is
given with the call. Array growth does not fail.
-/

namespace Carquet

/-- `carquet_field_repetition_t`. -/
inductive Repetition where
  | required | optional | repeated
  deriving DecidableEq, Repr

/-- `parquet_schema_element_t`; a group has no type. -/
structure SchemaElement where
  name : String
  type : Option PhysicalType
  typeLength : Int
  repetition : Option Repetition
  numChildren : Nat
  deriving DecidableEq, Repr

/-- `carquet_schema_t`. The root's parent index is -1 in the code and never followed. -/
structure Schema where
  elements : List SchemaElement
  parentIndices : List Nat
  leafIndices : List Nat
  maxDefLevels : List Int
  maxRepLevels : List Int
  deriving DecidableEq, Repr

/-- `carquet_schema_create` (schema.c:22-82). -/
def Schema.create : Schema := ⟨[⟨"schema", none, 0, none, 0⟩], [0], [], [], []⟩

def Schema.parent (s : Schema) (i : Nat) : Nat := s.parentIndices.getD i 0

/-! ## Levels -/

/-- What an element adds to the definition and repetition level; both are `int16_t`. -/
def addLevels (repetition : Option Repetition) (levels : Int × Int) : Int × Int :=
  match repetition with
  | some .optional => (toI16 (levels.1 + 1), levels.2)
  | some .repeated => (toI16 (levels.1 + 1), toI16 (levels.2 + 1))
  | _ => levels

def Schema.repetition (s : Schema) (i : Nat) : Option Repetition :=
  (s.elements[i]?).bind SchemaElement.repetition

/-- The walk over the ancestors (schema.c:345-356); an element comes after its parent, so the
number of elements bounds its steps. -/
def Schema.ancestorLevels (s : Schema) : Nat → Nat → Int × Int → Int × Int
  | 0, _, levels => levels
  | fuel + 1, ancestor, levels =>
    if ancestor = 0 then levels
    else s.ancestorLevels fuel (s.parent ancestor) (addLevels (s.repetition ancestor) levels)

/-! ## Adding elements -/

/-- The check of `parent_index` (schema.c:310-320, 378-387). -/
def Schema.groupIndex (s : Schema) (parentIndex : Int) : Option Nat :=
  let p := if parentIndex = -1 then 0 else parentIndex
  if p < 0 ∨ (s.elements.length : Int) ≤ p then none
  else if p ≠ 0 ∧ ((s.elements[p.toNat]?).bind SchemaElement.type).isSome then none
  else some p.toNat

/-- A new element at the end, counted as a child of `p`. -/
def Schema.append (s : Schema) (e : SchemaElement) (p : Nat) : Schema :=
  { s with
    elements := (s.elements ++ [e]).modify p fun e => { e with numChildren := e.numChildren + 1 }
    parentIndices := s.parentIndices ++ [p] }

/-- A column as it is passed: `logicalOk` is the outcome of `validate_column_logical_type`
(schema.c:175-288). -/
structure ColumnArgs where
  name : String
  type : PhysicalType
  typeLength : Int
  logicalOk : Bool
  deriving DecidableEq, Repr

/-- `carquet_schema_add_column` (schema.c:290-363); `none` stands for a status other than OK. -/
def Schema.addColumn (s : Schema) (c : ColumnArgs) (repetition : Repetition)
    (parentIndex : Int) : Option Schema :=
  if !c.logicalOk then none
  else
    (s.groupIndex parentIndex).map fun p =>
      let s' := s.append ⟨c.name, some c.type, c.typeLength, some repetition, 0⟩ p
      let levels := s'.ancestorLevels s.elements.length p (addLevels (some repetition) (0, 0))
      { s' with
        leafIndices := s'.leafIndices ++ [s.elements.length]
        maxDefLevels := s'.maxDefLevels ++ [levels.1]
        maxRepLevels := s'.maxRepLevels ++ [levels.2] }

/-- `carquet_schema_add_group` (schema.c:365-416), with the new element's index. -/
def Schema.addGroup (s : Schema) (name : String) (repetition : Repetition)
    (parentIndex : Int) : Option (Schema × Nat) :=
  (s.groupIndex parentIndex).map fun p =>
    (s.append ⟨name, none, 0, some repetition, 0⟩ p, s.elements.length)

/-- `carquet_schema_add_list` (schema.c:634-670). -/
def Schema.addList (s : Schema) (name : String) (element : ColumnArgs) (repetition : Repetition)
    (parentIndex : Int) : Option Schema := do
  let (s, outer) ← s.addGroup name repetition parentIndex
  let (s, inner) ← s.addGroup "list" .repeated outer
  s.addColumn { element with name := "element" } .optional inner

/-- `carquet_schema_add_map` (schema.c:672-712). -/
def Schema.addMap (s : Schema) (name : String) (key value : ColumnArgs) (repetition : Repetition)
    (parentIndex : Int) : Option Schema := do
  let (s, outer) ← s.addGroup name repetition parentIndex
  let (s, kv) ← s.addGroup "key_value" .repeated outer
  let s ← s.addColumn { key with name := "key" } .required kv
  s.addColumn { value with name := "value" } .optional kv

/-- `carquet_schema_add_variant` (schema.c:438-467). -/
def Schema.addVariant (s : Schema) (name : String) (repetition : Repetition)
    (parentIndex : Int) : Option Schema := do
  let (s, outer) ← s.addGroup name repetition parentIndex
  let s ← s.addColumn ⟨"metadata", .byteArray, 0, true⟩ .required outer
  s.addColumn ⟨"value", .byteArray, 0, true⟩ .required outer

/-- A call that adds to a schema. -/
inductive SchemaCall where
  | addColumn (column : ColumnArgs) (repetition : Repetition) (parentIndex : Int)
  | addGroup (name : String) (repetition : Repetition) (parentIndex : Int)
  | addList (name : String) (element : ColumnArgs) (repetition : Repetition) (parentIndex : Int)
  | addMap (name : String) (key value : ColumnArgs) (repetition : Repetition) (parentIndex : Int)
  | addVariant (name : String) (repetition : Repetition) (parentIndex : Int)
  deriving DecidableEq, Repr

def Schema.call (s : Schema) : SchemaCall → Option Schema
  | .addColumn c r p => s.addColumn c r p
  | .addGroup n r p => (s.addGroup n r p).map Prod.fst
  | .addList n e r p => s.addList n e r p
  | .addMap n k v r p => s.addMap n k v r p
  | .addVariant n r p => s.addVariant n r p

/-- The schema after a sequence of calls that all succeed. -/
def Schema.run : List SchemaCall → Schema → Option Schema
  | [], s => some s
  | c :: cs, s => (s.call c).bind (Schema.run cs)

/-! ## Columns -/

/-- A leaf column: `path_in_schema`, physical type, levels. -/
structure LeafColumn where
  path : List String
  type : Option PhysicalType
  maxDefLevel : Int
  maxRepLevel : Int
  deriving DecidableEq, Repr

/-- The names from an element up to, and without, the root (file_writer.c:618-631). -/
def Schema.namesUp (s : Schema) : Nat → Nat → List String
  | 0, _ => []
  | fuel + 1, cur =>
    if cur = 0 then []
    else ((s.elements[cur]?).map SchemaElement.name).getD "" :: s.namesUp fuel (s.parent cur)

def Schema.columnPath (s : Schema) (elemIdx : Nat) : List String :=
  (s.namesUp s.elements.length elemIdx).reverse

/-- The columns of a schema in their order. -/
def Schema.columns (s : Schema) : List LeafColumn :=
  (s.leafIndices.zip (s.maxDefLevels.zip s.maxRepLevels)).map fun l =>
    ⟨s.columnPath l.1, (s.elements[l.1]?).bind SchemaElement.type, l.2.1, l.2.2⟩

/-! ## What the reader makes of the elements -/

/-- `store_schema_elements` (file_writer.c:543-590) copies the elements in their order; time
units are not modelled. -/
def storeSchemaElements (s : Schema) : List SchemaElement := s.elements

/-- `count_leaves` (file_reader.c:53-61). -/
def countLeaves (elements : List SchemaElement) : Nat := elements.countP (·.numChildren = 0)

/-- `schema_traverse_ctx_t` (file_reader.c:66-74), its arrays. -/
structure TraverseCtx where
  maxDef : List Int
  maxRep : List Int
  leafIndices : List Nat
  parentIndices : List Nat
  leafIdx : Nat
  deriving DecidableEq, Repr

/-- `traverse_schema_recursive` (file_reader.c:85-143): the next element's index and the arrays.
Each level of the recursion starts at a later element, so the number of elements bounds it. -/
def traverseSchema (elements : List SchemaElement) :
    Nat → Nat → Nat → Int × Int → TraverseCtx → Nat × TraverseCtx
  | 0, elementIdx, _, _, ctx => (elementIdx, ctx)
  | fuel + 1, elementIdx, parentIdx, levels, ctx =>
    match elements[elementIdx]? with
    | none => (elementIdx, ctx)
    | some elem =>
      let ctx := { ctx with parentIndices := ctx.parentIndices.set elementIdx parentIdx }
      let this := addLevels elem.repetition levels
      if elem.numChildren = 0 then
        (elementIdx + 1, { ctx with
          maxDef := ctx.maxDef.set ctx.leafIdx this.1
          maxRep := ctx.maxRep.set ctx.leafIdx this.2
          leafIndices := ctx.leafIndices.set ctx.leafIdx elementIdx
          leafIdx := ctx.leafIdx + 1 })
      else
        (fun s => traverseSchema elements fuel s.1 elementIdx this s.2)^[elem.numChildren]
          (elementIdx + 1, ctx)

/-- `compute_levels` (file_reader.c:165-202) on zeroed arrays. -/
def computeLevels (elements : List SchemaElement) (ctx : TraverseCtx) : TraverseCtx :=
  match elements with
  | [] | [_] => ctx
  | root :: _ =>
    ((fun s => traverseSchema elements elements.length s.1 0 (0, 0) s.2)^[root.numChildren]
      (1, ctx)).2

/-- `build_schema` (file_reader.c:204-232). -/
def buildSchema (elements : List SchemaElement) : Schema :=
  let numLeaves := countLeaves elements
  let ctx := computeLevels elements
    ⟨List.replicate numLeaves 0, List.replicate numLeaves 0, List.replicate numLeaves 0,
      List.replicate elements.length 0, 0⟩
  ⟨elements, ctx.parentIndices, ctx.leafIndices, ctx.maxDef, ctx.maxRep⟩

end Carquet
