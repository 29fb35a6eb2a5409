import Carquet.Metadata.Schema
import Carquet.Thrift.ParquetTypes

/-!
# Building a schema, step by step (`src/metadata/schema.c:98-416, 440-464, 634-718`)

The calls that add to a schema as they change it, with the allocations they make: the check of a
column's logical type, `schema_ensure_capacity` and its five reallocations, and the composite
builders `carquet_schema_add_list`, `_add_map` and `_add_variant`, which insert groups and columns
one after the other and return -1 from where they stand when one of these is refused.

A column or a group is refused before anything is changed. A composite builder checks the logical
types only when its groups are already there, so its failure leaves the schema as it was exactly
when its first group is the insertion refused.
-/

namespace Carquet

/-! ## The check of a logical type -/

/-- The nearest `double` of an integer, as an integer: ties go to the even significand. -/
def roundToDouble (n : Nat) : Nat :=
  let k := n.log2 - 52
  let q := n / 2 ^ k
  let r := 2 * (n % 2 ^ k)
  if 2 ^ k < r ∨ (2 ^ k = r ∧ q % 2 = 1) then (q + 1) * 2 ^ k else q * 2 ^ k

/-- `decimal_max_precision_for_fixed_len` (schema.c:155-162); the constant 0.3010299956639812 is
`5422874305198591 / 2 ^ 54`, and `bits` is exact. -/
def decimalMaxPrecisionForFixedLen (typeLength : Int) : Int :=
  if typeLength ≤ 0 then 0
  else roundToDouble ((typeLength * 8 - 1).toNat * 5422874305198591) / 2 ^ 54

/-- `validate_column_logical_type` (schema.c:175-288). -/
def validateColumnLogicalType (physicalType : PhysicalType)
    (logicalType : Option Parquet.LogicalType) (typeLength : Int) : Status :=
  match logicalType with
  | none => .ok
  | some lt =>
    match lt.id with
    | .unknown => .ok
    | .string | .enum | .json | .bson | .geometry | .geography => check (physicalType = .byteArray)
    | .date => check (physicalType = .int32)
    | .time =>
      match lt.time.unit with
      | .millis => check (physicalType = .int32)
      | .micros | .nanos => check (physicalType = .int64)
    | .timestamp => check (physicalType = .int64)
    | .integer =>
      if lt.integer.bitWidth = 8 ∨ lt.integer.bitWidth = 16 ∨ lt.integer.bitWidth = 32 then
        check (physicalType = .int32)
      else if lt.integer.bitWidth = 64 then check (physicalType = .int64)
      else .invalidArgument
    | .decimal =>
      let precision := lt.decimal.precision.toInt
      let scale := lt.decimal.scale.toInt
      if precision ≤ 0 ∨ scale < 0 ∨ scale > precision then .invalidArgument
      else
        match physicalType with
        | .int32 => check (precision ≤ 9)
        | .int64 => check (precision ≤ 18)
        | .byteArray => .ok
        | .fixedLenByteArray => check (precision ≤ decimalMaxPrecisionForFixedLen typeLength)
        | _ => .invalidArgument
    | .uuid => check (physicalType = .fixedLenByteArray ∧ typeLength = 16)
    | .float16 => check (physicalType = .fixedLenByteArray ∧ typeLength = 2)
    | .interval => check (physicalType = .fixedLenByteArray ∧ typeLength = 12)
    | .null => .ok
    | .map | .list | .variant => .invalidArgument
where
  check (p : Prop) [Decidable p] : Status := if p then .ok else .invalidArgument

/-! ## The schema in memory -/

/-- `parquet_schema_element_t`, the members the builders set; a name is NULL when it could not be
copied. -/
structure BuilderElement where
  name : Option String
  type : Option PhysicalType
  typeLength : Int
  repetition : Option Repetition
  numChildren : Nat
  logicalType : Option Parquet.LogicalType
  deriving DecidableEq, Repr

/-- What a `carquet_schema_t` says: its arrays up to their counts. -/
structure BuilderArrays where
  elements : List BuilderElement
  parentIndices : List Int
  leafIndices : List Nat
  maxDefLevels : List Int
  maxRepLevels : List Int
  deriving DecidableEq, Repr

/-- A schema being built: its arrays, the room they have, and the outcomes of the allocations to
come. -/
structure SchemaBuilder where
  arrays : BuilderArrays
  capacity : Nat
  heap : List Bool
  deriving DecidableEq, Repr

/-- `carquet_schema_create` (schema.c:24-82), every allocation granted. -/
def SchemaBuilder.create (heap : List Bool) : SchemaBuilder where
  arrays := ⟨[⟨some "schema", none, 0, none, 0, none⟩], [-1], [], [], []⟩
  capacity := 64
  heap := heap

/-! ## Room for an element -/

/-- `while (new_capacity < required) new_capacity *= SCHEMA_GROWTH_FACTOR`. -/
def doubleCapacity (required : Nat) : Nat → Nat → Nat
  | 0, capacity => capacity
  | fuel + 1, capacity =>
    if capacity < required then doubleCapacity required fuel (capacity * 2) else capacity

/-- Reallocations one after the other, up to the first that is refused. -/
def reallocs : Nat → List Bool → Bool × List Bool
  | 0, heap => (true, heap)
  | n + 1, heap => if heap.headD true then reallocs n heap.tail else (false, heap.tail)

/-- `schema_ensure_capacity` (schema.c:98-144): the capacity afterwards, `none` when one of the
five arrays could not grow. What the arrays hold is not touched. -/
def ensureCapacity (capacity required : Nat) (heap : List Bool) : Option Nat × List Bool :=
  if required ≤ capacity then (some capacity, heap)
  else
    match reallocs 5 heap with
    | (true, heap) => (some (doubleCapacity required required capacity), heap)
    | (false, heap) => (none, heap)

/-! ## Columns and groups -/

/-- The check of `parent_index` (schema.c:307-317, 381-390). -/
def BuilderArrays.groupIndex (a : BuilderArrays) (parentIndex : Int) : Option Nat :=
  let p := if parentIndex = -1 then 0 else parentIndex
  if p < 0 ∨ (a.elements.length : Int) ≤ p then none
  else if p ≠ 0 ∧ ((a.elements[p.toNat]?).bind BuilderElement.type).isSome then none
  else some p.toNat

/-- A new element at the end, counted as a child of `p` (schema.c:325-343, 397-409). -/
def BuilderArrays.append (a : BuilderArrays) (e : BuilderElement) (p : Nat) : BuilderArrays :=
  { a with
    elements := (a.elements ++ [e]).modify p fun e => { e with numChildren := e.numChildren + 1 }
    parentIndices := a.parentIndices ++ [(p : Int)] }

/-- The walk over the ancestors (schema.c:356-366); an element comes after its parent, so the
number of elements bounds its steps. -/
def BuilderArrays.ancestorLevels (a : BuilderArrays) : Nat → Int → Int × Int → Int × Int
  | 0, _, levels => levels
  | fuel + 1, ancestor, levels =>
    if ancestor > 0 then
      a.ancestorLevels fuel (a.parentIndices.getD ancestor.toNat 0)
        (addLevels ((a.elements[ancestor.toNat]?).bind BuilderElement.repetition) levels)
    else levels

/-- The new element `index` tracked as a leaf (schema.c:368-372). -/
def BuilderArrays.trackLeaf (a : BuilderArrays) (index : Nat) (levels : Int × Int) : BuilderArrays :=
  { a with
    leafIndices := a.leafIndices ++ [index]
    maxDefLevels := a.maxDefLevels ++ [levels.1]
    maxRepLevels := a.maxRepLevels ++ [levels.2] }

/-- A column's type as it is passed. -/
structure ColumnSpec where
  type : PhysicalType
  logicalType : Option Parquet.LogicalType
  typeLength : Int
  deriving DecidableEq, Repr

def ColumnSpec.validate (c : ColumnSpec) : Status :=
  validateColumnLogicalType c.type c.logicalType c.typeLength

namespace SchemaBuilder

/-- `schema_ensure_capacity(schema, schema->num_elements + 1)`. -/
def reserve (s : SchemaBuilder) : Bool × SchemaBuilder :=
  match ensureCapacity s.capacity (s.arrays.elements.length + 1) s.heap with
  | (some capacity, heap) => (true, { s with capacity, heap })
  | (none, heap) => (false, { s with heap })

/-- `carquet_arena_strdup`. -/
def strdup (s : SchemaBuilder) (name : String) : Option String × SchemaBuilder :=
  (if s.heap.headD true then some name else none, { s with heap := s.heap.tail })

/-- `carquet_schema_add_column` (schema.c:290-375). -/
def addColumn (s : SchemaBuilder) (name : String) (c : ColumnSpec) (repetition : Repetition)
    (parentIndex : Int) : Status × SchemaBuilder :=
  if c.validate ≠ .ok then (c.validate, s)
  else
    match s.arrays.groupIndex parentIndex with
    | none => (.invalidArgument, s)
    | some p =>
      match s.reserve with
      | (false, s) => (.outOfMemory, s)
      | (true, s) =>
        let (name, s) := s.strdup name
        let index := s.arrays.elements.length
        let arrays :=
          s.arrays.append ⟨name, some c.type, c.typeLength, some repetition, 0, c.logicalType⟩ p
        let levels := arrays.ancestorLevels index p (addLevels (some repetition) (0, 0))
        (.ok, { s with arrays := arrays.trackLeaf index levels })

/-- `carquet_schema_add_group` (schema.c:378-416): the new element's index, `none` for -1. -/
def addGroup (s : SchemaBuilder) (name : String) (repetition : Repetition) (parentIndex : Int) :
    Option Nat × SchemaBuilder :=
  match s.arrays.groupIndex parentIndex with
  | none => (none, s)
  | some p =>
    match s.reserve with
    | (false, s) => (none, s)
    | (true, s) =>
      let (name, s) := s.strdup name
      let index := s.arrays.elements.length
      (some index,
        { s with arrays := s.arrays.append ⟨name, none, 0, some repetition, 0, none⟩ p })

/-- `elements[outer].has_logical_type = true; elements[outer].logical_type.id = …`, in the zeroed
element. -/
def annotate (s : SchemaBuilder) (outer : Nat) (lt : Parquet.LogicalType) : SchemaBuilder :=
  { s with arrays := { s.arrays with
      elements := s.arrays.elements.modify outer fun e => { e with logicalType := some lt } } }

/-! ## Composite builders -/

/-- `carquet_schema_add_variant` (schema.c:440-464). -/
def addVariant (s : SchemaBuilder) (name : String) (repetition : Repetition) (parentIndex : Int) :
    Option Nat × SchemaBuilder :=
  match s.addGroup name repetition parentIndex with
  | (none, s) => (none, s)
  | (some outer, s) =>
    let s := s.annotate outer { Parquet.LogicalType.zero with id := .variant, variantVersion := 1 }
    let (status, s) := s.addColumn "metadata" ⟨.byteArray, none, 0⟩ .required outer
    if status ≠ .ok then (none, s)
    else
      let (status, s) := s.addColumn "value" ⟨.byteArray, none, 0⟩ .required outer
      if status ≠ .ok then (none, s) else (some outer, s)

/-- `carquet_schema_add_list` (schema.c:634-670). -/
def addList (s : SchemaBuilder) (name : String) (element : ColumnSpec) (repetition : Repetition)
    (parentIndex : Int) : Option Nat × SchemaBuilder :=
  match s.addGroup name repetition parentIndex with
  | (none, s) => (none, s)
  | (some outer, s) =>
    let s := s.annotate outer { Parquet.LogicalType.zero with id := .list }
    match s.addGroup "list" .repeated outer with
    | (none, s) => (none, s)
    | (some inner, s) =>
      let (status, s) := s.addColumn "element" element .optional inner
      if status ≠ .ok then (none, s) else (some outer, s)

/-- `carquet_schema_add_map` (schema.c:672-718). -/
def addMap (s : SchemaBuilder) (name : String) (key value : ColumnSpec) (repetition : Repetition)
    (parentIndex : Int) : Option Nat × SchemaBuilder :=
  match s.addGroup name repetition parentIndex with
  | (none, s) => (none, s)
  | (some outer, s) =>
    let s := s.annotate outer { Parquet.LogicalType.zero with id := .map }
    match s.addGroup "key_value" .repeated outer with
    | (none, s) => (none, s)
    | (some kv, s) =>
      let (status, s) := s.addColumn "key" key .required kv
      if status ≠ .ok then (none, s)
      else
        let (status, s) := s.addColumn "value" value .optional kv
        if status ≠ .ok then (none, s) else (some outer, s)

end SchemaBuilder

/-- A call that adds to a schema. -/
inductive BuilderCall where
  | addColumn (name : String) (column : ColumnSpec) (repetition : Repetition) (parentIndex : Int)
  | addGroup (name : String) (repetition : Repetition) (parentIndex : Int)
  | addList (name : String) (element : ColumnSpec) (repetition : Repetition) (parentIndex : Int)
  | addMap (name : String) (key value : ColumnSpec) (repetition : Repetition) (parentIndex : Int)
  | addVariant (name : String) (repetition : Repetition) (parentIndex : Int)
  deriving DecidableEq, Repr

/-- Whether the call reports success, and the schema it leaves. -/
def SchemaBuilder.call (s : SchemaBuilder) : BuilderCall → Bool × SchemaBuilder
  | .addColumn n c r p => ((s.addColumn n c r p).1 = .ok, (s.addColumn n c r p).2)
  | .addGroup n r p => ((s.addGroup n r p).1.isSome, (s.addGroup n r p).2)
  | .addList n e r p => ((s.addList n e r p).1.isSome, (s.addList n e r p).2)
  | .addMap n k v r p => ((s.addMap n k v r p).1.isSome, (s.addMap n k v r p).2)
  | .addVariant n r p => ((s.addVariant n r p).1.isSome, (s.addVariant n r p).2)

/-! ## What one insertion does -/

/-- `k` insertions in a row find room: each reserves it, then copies its name. -/
def roomFor : Nat → Nat → Nat → List Bool → Bool
  | 0, _, _, _ => true
  | k + 1, elements, capacity, heap =>
    match ensureCapacity capacity (elements + 1) heap with
    | (some capacity, heap) => roomFor k (elements + 1) capacity heap.tail
    | (none, _) => false

theorem roomFor_succ_of_not {elements capacity : Nat} {heap : List Bool}
    (h : roomFor 1 elements capacity heap = false) (k : Nat) :
    roomFor (k + 1) elements capacity heap = false := by
  rw [roomFor] at h ⊢
  split at h <;> simp_all [roomFor]

namespace SchemaBuilder

variable {s s' : SchemaBuilder}

def size (s : SchemaBuilder) : Nat := s.arrays.elements.length

def hasRoom (s : SchemaBuilder) (k : Nat) : Prop :=
  roomFor k s.size s.capacity s.heap = true

theorem hasRoom_succ_of_not (h : ¬ s.hasRoom 1) (k : Nat) : ¬ s.hasRoom (k + 1) := by
  unfold hasRoom at h ⊢
  rw [roomFor_succ_of_not (by simpa using h)]
  exact Bool.false_ne_true

/-- `s'` has one element more than `s`, the room that is left, and the groups `s` had. -/
structure Inserted (s s' : SchemaBuilder) : Prop where
  size : s'.size = s.size + 1
  room : ∀ k, s'.hasRoom k ↔ s.hasRoom (k + 1)
  groups : ∀ (q : Int) (i : Nat), s.arrays.groupIndex q = some i →
    s'.arrays.groupIndex q = some i

/-- A parent index is taken or refused by the number of the elements and their types. -/
theorem groupIndex_mono {a a' : BuilderArrays} (hlen : a.elements.length ≤ a'.elements.length)
    (htype : ∀ i < a.elements.length, (a'.elements[i]?).bind BuilderElement.type =
      (a.elements[i]?).bind BuilderElement.type) {q : Int} {i : Nat}
    (h : a.groupIndex q = some i) : a'.groupIndex q = some i := by
  unfold BuilderArrays.groupIndex at h ⊢
  simp only at h ⊢
  generalize (if q = -1 then 0 else q) = p at h ⊢
  split at h
  · cases h
  next hrange =>
    rw [not_or] at hrange
    rw [if_neg (by omega), htype p.toNat (by omega)]
    exact h

theorem length_append (a : BuilderArrays) (e : BuilderElement) (p : Nat) :
    (a.append e p).elements.length = a.elements.length + 1 := by
  simp [BuilderArrays.append]

theorem type_append (a : BuilderArrays) (e : BuilderElement) (p i : Nat) :
    ((a.append e p).elements[i]?).bind BuilderElement.type =
      ((a.elements ++ [e])[i]?).bind BuilderElement.type := by
  rw [BuilderArrays.append, List.getElem?_modify]
  by_cases hp : p = i
  · simp only [if_pos hp]
    cases (a.elements ++ [e])[i]? <;> rfl
  · simp only [if_neg hp]
    cases (a.elements ++ [e])[i]? <;> rfl

theorem groupIndex_append {a : BuilderArrays} (e : BuilderElement) (p : Nat) {q : Int} {i : Nat}
    (h : a.groupIndex q = some i) : (a.append e p).groupIndex q = some i := by
  refine groupIndex_mono (by rw [length_append]; omega) (fun j hj => ?_) h
  rw [type_append, List.getElem?_append_left hj]

/-- A group just added can be a parent. -/
theorem groupIndex_append_self (a : BuilderArrays) {e : BuilderElement} (p : Nat)
    (he : e.type = none) :
    (a.append e p).groupIndex a.elements.length = some a.elements.length := by
  have hnew : ((a.append e p).elements[a.elements.length]?).bind BuilderElement.type = none := by
    rw [type_append, List.getElem?_append_right (Nat.le_refl _), Nat.sub_self]
    exact he
  unfold BuilderArrays.groupIndex
  simp only
  rw [if_neg (show ¬ ((a.elements.length : Int) = -1) by omega),
    if_neg (by rw [length_append]; omega), Int.toNat_natCast, hnew]
  simp

theorem reserve_of_room (h : s.hasRoom 1) :
    ∃ capacity heap, s.reserve = (true, { s with capacity, heap }) ∧
      ensureCapacity s.capacity (s.size + 1) s.heap = (some capacity, heap) := by
  unfold hasRoom at h
  rw [roomFor] at h
  unfold reserve
  split at h
  next capacity heap heq =>
    exact ⟨capacity, heap, by rw [show s.arrays.elements.length = s.size from rfl, heq], heq⟩
  · cases h

theorem reserve_of_no_room (h : ¬ s.hasRoom 1) :
    ∃ heap, s.reserve = (false, { s with heap }) := by
  unfold hasRoom at h
  rw [roomFor] at h
  unfold reserve
  split at h
  · exact absurd rfl h
  next heap heq => exact ⟨heap, by rw [show s.arrays.elements.length = s.size from rfl, heq]⟩

/-- An element that reserved its room and copied its name is an insertion. -/
theorem inserted_of_append {capacity p : Nat} {heap : List Bool} {e : BuilderElement}
    {arrays : BuilderArrays}
    (hroom : ensureCapacity s.capacity (s.size + 1) s.heap = (some capacity, heap))
    (helems : arrays.elements = (s.arrays.append e p).elements) :
    Inserted s ⟨arrays, capacity, heap.tail⟩ where
  size := by
    unfold size
    rw [helems, length_append]
  room k := by
    have hsize : (⟨arrays, capacity, heap.tail⟩ : SchemaBuilder).size = s.size + 1 := by
      unfold size
      rw [helems, length_append]
    unfold hasRoom
    rw [hsize, roomFor, hroom]
  groups q i h := by
    have h := groupIndex_append e p h
    unfold BuilderArrays.groupIndex at h ⊢
    rw [helems]
    exact h

/-! ## The two primitive calls -/

/-- Whether `carquet_schema_add_group` refuses this parent, or finds no room. -/
def GroupRefused (s : SchemaBuilder) (parentIndex : Int) : Prop :=
  s.arrays.groupIndex parentIndex = none ∨ ¬ s.hasRoom 1

theorem addGroup_refused (name : String) (r : Repetition) {p : Int} (h : s.GroupRefused p) :
    ∃ s', s.addGroup name r p = (none, s') ∧ s'.arrays = s.arrays := by
  unfold addGroup
  cases hp : s.arrays.groupIndex p with
  | none => exact ⟨s, rfl, rfl⟩
  | some i =>
    have hroom : ¬ s.hasRoom 1 := h.resolve_left (by simp [hp])
    obtain ⟨heap, hres⟩ := reserve_of_no_room hroom
    exact ⟨{ s with heap }, by simp only [hres], rfl⟩

theorem addGroup_done (name : String) (r : Repetition) {p : Int} (h : ¬ s.GroupRefused p) :
    ∃ s', s.addGroup name r p = (some s.size, s') ∧ Inserted s s' ∧
      s'.arrays.groupIndex s.size = some s.size := by
  unfold GroupRefused at h
  rw [not_or, not_not] at h
  obtain ⟨hp, hroom⟩ := h
  obtain ⟨i, hi⟩ := Option.ne_none_iff_exists'.1 hp
  obtain ⟨capacity, heap, hres, hens⟩ := reserve_of_room hroom
  unfold addGroup
  simp only [hi, hres, strdup]
  exact ⟨_, rfl, inserted_of_append hens rfl, groupIndex_append_self s.arrays i rfl⟩

/-- Whether `carquet_schema_add_column` refuses this column below a group. -/
def ColumnRefused (s : SchemaBuilder) (c : ColumnSpec) : Prop :=
  ¬ (c.validate = .ok ∧ s.hasRoom 1)

theorem addColumn_refused (name : String) (r : Repetition) {c : ColumnSpec} {p : Int}
    (h : s.arrays.groupIndex p = none ∨ s.ColumnRefused c) :
    ∃ e s', e ≠ .ok ∧ s.addColumn name c r p = (e, s') ∧ s'.arrays = s.arrays := by
  unfold addColumn
  by_cases hv : c.validate = .ok
  · rw [if_neg (by simp [hv])]
    cases hp : s.arrays.groupIndex p with
    | none => exact ⟨.invalidArgument, s, by decide, rfl, rfl⟩
    | some i =>
      have href : s.ColumnRefused c := h.resolve_left (by simp [hp])
      have hroom : ¬ s.hasRoom 1 := fun hroom => href ⟨hv, hroom⟩
      obtain ⟨heap, hres⟩ := reserve_of_no_room hroom
      exact ⟨.outOfMemory, { s with heap }, by decide, by simp only [hres], rfl⟩
  · rw [if_pos hv]
    exact ⟨c.validate, s, hv, rfl, rfl⟩

theorem addColumn_done (name : String) (r : Repetition) {c : ColumnSpec} {p : Int} {i : Nat}
    (hp : s.arrays.groupIndex p = some i) (h : ¬ s.ColumnRefused c) :
    ∃ s', s.addColumn name c r p = (.ok, s') ∧ Inserted s s' := by
  unfold ColumnRefused at h
  rw [not_not] at h
  obtain ⟨hv, hroom⟩ := h
  obtain ⟨capacity, heap, hres, hens⟩ := reserve_of_room hroom
  unfold addColumn
  rw [if_neg (by simp [hv])]
  simp only [hp, hres, strdup]
  exact ⟨_, rfl, inserted_of_append hens rfl⟩

/-- Annotating a group is no insertion and hides no group. -/
theorem annotate_keeps (h : Inserted s s') (outer : Nat) (lt : Parquet.LogicalType) :
    Inserted s (s'.annotate outer lt) ∧
      ∀ q i, s'.arrays.groupIndex q = some i →
        (s'.annotate outer lt).arrays.groupIndex q = some i := by
  have hsize : (s'.annotate outer lt).size = s'.size := by simp [size, annotate]
  have hgroups : ∀ q i, s'.arrays.groupIndex q = some i →
      (s'.annotate outer lt).arrays.groupIndex q = some i := by
    intro q i hq
    refine groupIndex_mono (by simp [annotate]) (fun j _ => ?_) hq
    simp only [annotate, List.getElem?_modify]
    by_cases hj : outer = j
    · simp only [if_pos hj]
      cases s'.arrays.elements[j]? <;> rfl
    · simp only [if_neg hj]
      cases s'.arrays.elements[j]? <;> rfl
  refine ⟨⟨hsize.trans h.size, fun k => ?_, fun q i hq => hgroups q i (h.groups q i hq)⟩, hgroups⟩
  rw [← h.room k]
  unfold hasRoom
  rw [hsize]
  rfl

/-! ## The composite builders -/

/-- A composite builder's outcome: refused as its first group is, or else with that group in the
schema, and then a success if `good`. -/
def Composite (s : SchemaBuilder) (p : Int) (good : Prop) (out : Option Nat × SchemaBuilder) :
    Prop :=
  (s.GroupRefused p → out.1 = none ∧ out.2.arrays = s.arrays) ∧
    (¬ s.GroupRefused p → s.size < out.2.size ∧ (out.1.isSome ↔ good))

/-- When a composite builder leaves the schema alone unless it succeeds. -/
theorem Composite.atomic_iff {p : Int} {good : Prop} {out : Option Nat × SchemaBuilder}
    (h : s.Composite p good out) :
    (out.1.isSome = false → out.2.arrays = s.arrays) ↔ s.GroupRefused p ∨ good := by
  by_cases href : s.GroupRefused p
  · exact ⟨fun _ => .inl href, fun _ _ => (h.1 href).2⟩
  · obtain ⟨hsize, hgood⟩ := h.2 href
    constructor
    · intro hkeep
      refine .inr (hgood.1 ?_)
      by_contra hfail
      have harr := hkeep (by simpa using hfail)
      unfold size at hsize
      rw [harr] at hsize
      omega
    · rintro (hr | hg)
      · exact absurd hr href
      · intro hfail
        rw [hgood.2 hg] at hfail
        cases hfail

theorem size_of_arrays (h : s'.arrays = s.arrays) : s'.size = s.size := by
  unfold size
  rw [h]

/-- A column below a group of the schema: refused, or inserted. -/
theorem addColumn_cases (name : String) (r : Repetition) {c : ColumnSpec} {p : Int} {i : Nat}
    (hp : s.arrays.groupIndex p = some i) :
    (¬ (c.validate = .ok ∧ s.hasRoom 1) ∧
      ∃ e s', e ≠ .ok ∧ s.addColumn name c r p = (e, s') ∧ s'.size = s.size) ∨
    ((c.validate = .ok ∧ s.hasRoom 1) ∧
      ∃ s', s.addColumn name c r p = (.ok, s') ∧ Inserted s s') := by
  by_cases href : s.ColumnRefused c
  · obtain ⟨e, s', he, hrun, harr⟩ := addColumn_refused name r (p := p) (.inr href)
    exact .inl ⟨href, e, s', he, hrun, size_of_arrays harr⟩
  · obtain ⟨s', hrun, hins⟩ := addColumn_done name r hp href
    exact .inr ⟨not_not.1 href, s', hrun, hins⟩

/-- A group below a group of the schema: refused, or inserted and a group itself. -/
theorem addGroup_cases (name : String) (r : Repetition) {p : Int} {i : Nat}
    (hp : s.arrays.groupIndex p = some i) :
    (¬ s.hasRoom 1 ∧ ∃ s', s.addGroup name r p = (none, s') ∧ s'.size = s.size) ∨
    (s.hasRoom 1 ∧ ∃ s', s.addGroup name r p = (some s.size, s') ∧ Inserted s s' ∧
      s'.arrays.groupIndex s.size = some s.size) := by
  by_cases href : s.GroupRefused p
  · obtain ⟨s', hrun, harr⟩ := addGroup_refused name r href
    exact .inl ⟨href.resolve_left (by simp [hp]), s', hrun, size_of_arrays harr⟩
  · exact .inr ⟨not_not.1 (not_or.1 href).2, addGroup_done name r href⟩

/-- The first steps of a composite builder: its group, then the annotation. -/
theorem outer_cases (name : String) (r : Repetition) (p : Int) (lt : Parquet.LogicalType) :
    (s.GroupRefused p ∧ ∃ s', s.addGroup name r p = (none, s') ∧ s'.arrays = s.arrays) ∨
    (¬ s.GroupRefused p ∧ ∃ s', s.addGroup name r p = (some s.size, s') ∧
      Inserted s (s'.annotate s.size lt) ∧
      (s'.annotate s.size lt).arrays.groupIndex s.size = some s.size) := by
  by_cases href : s.GroupRefused p
  · exact .inl ⟨href, addGroup_refused name r href⟩
  · obtain ⟨s', hrun, hins, hgroup⟩ := addGroup_done name r href
    obtain ⟨hins, hkeep⟩ := annotate_keeps hins s.size lt
    exact .inr ⟨href, s', hrun, hins, hkeep _ _ hgroup⟩

theorem Composite.of_refused {p : Int} {good : Prop} {out : Option Nat × SchemaBuilder}
    (href : s.GroupRefused p) (h1 : out.1 = none) (h2 : out.2.arrays = s.arrays) :
    s.Composite p good out :=
  ⟨fun _ => ⟨h1, h2⟩, fun h => absurd href h⟩

theorem Composite.of_size {p : Int} {good : Prop} {out : Option Nat × SchemaBuilder}
    (href : ¬ s.GroupRefused p) (h1 : s.size < out.2.size) (h2 : out.1.isSome ↔ good) :
    s.Composite p good out :=
  ⟨fun h => absurd h href, fun _ => ⟨h1, h2⟩⟩

theorem addList_composite (name : String) (element : ColumnSpec) (r : Repetition) (p : Int) :
    s.Composite p (element.validate = .ok ∧ s.hasRoom 3) (s.addList name element r p) := by
  unfold addList
  obtain ⟨href, s1, h1, harr⟩ | ⟨href, s1, h1, hins1, hgroup1⟩ :=
    outer_cases (s := s) name r p { Parquet.LogicalType.zero with id := .list }
  · rw [h1]
    exact .of_refused href rfl harr
  · simp only [h1]
    generalize s1.annotate s.size { Parquet.LogicalType.zero with id := .list } = t1 at *
    have hsize1 := hins1.size
    have hroom2 := hins1.room 2
    obtain ⟨hno, s2, h2, hsize2⟩ | ⟨hyes, s2, h2, hins2, hgroup2⟩ :=
      addGroup_cases "list" .repeated hgroup1
    · have hroom : ¬ s.hasRoom 3 := fun h => hasRoom_succ_of_not hno 1 (hroom2.2 h)
      simp only [h2]
      exact .of_size href (by simp only; omega) (by simp [hroom])
    · have hsize2 := hins2.size
      have hroom3 : s2.hasRoom 1 ↔ s.hasRoom 3 := (hins2.room 1).trans hroom2
      obtain ⟨hno, e, s3, he, h3, hsize3⟩ | ⟨hok, s3, h3, hins3⟩ :=
        addColumn_cases (c := element) "element" .optional hgroup2
      · simp only [h2, h3, if_pos he]
        exact .of_size href (by simp only; omega) (by simpa [← hroom3] using hno)
      · have hsize3 := hins3.size
        simp only [h2, h3]
        exact .of_size href (by simp; omega) (by simpa [← hroom3] using hok)

theorem addMap_composite (name : String) (key value : ColumnSpec) (r : Repetition) (p : Int) :
    s.Composite p ((key.validate = .ok ∧ value.validate = .ok) ∧ s.hasRoom 4)
      (s.addMap name key value r p) := by
  unfold addMap
  obtain ⟨href, s1, h1, harr⟩ | ⟨href, s1, h1, hins1, hgroup1⟩ :=
    outer_cases (s := s) name r p { Parquet.LogicalType.zero with id := .map }
  · rw [h1]
    exact .of_refused href rfl harr
  · simp only [h1]
    generalize s1.annotate s.size { Parquet.LogicalType.zero with id := .map } = t1 at *
    have hsize1 := hins1.size
    have hroom2 := hins1.room 3
    obtain ⟨hno, s2, h2, hsize2⟩ | ⟨hyes, s2, h2, hins2, hgroup2⟩ :=
      addGroup_cases "key_value" .repeated hgroup1
    · have hroom : ¬ s.hasRoom 4 := fun h => hasRoom_succ_of_not hno 2 (hroom2.2 h)
      simp only [h2]
      exact .of_size href (by simp only; omega) (by simp [hroom])
    · have hsize2 := hins2.size
      have hroom3 : s2.hasRoom 2 ↔ s.hasRoom 4 := (hins2.room 2).trans hroom2
      obtain ⟨hno, e, s3, he, h3, hsize3⟩ | ⟨hok, s3, h3, hins3⟩ :=
        addColumn_cases (c := key) "key" .required hgroup2
      · have hbad : ¬ ((key.validate = .ok ∧ value.validate = .ok) ∧ s.hasRoom 4) := by
          rintro ⟨⟨hk, -⟩, hroom⟩
          exact hno ⟨hk, by_contra fun h => hasRoom_succ_of_not h 1 (hroom3.2 hroom)⟩
        simp only [h2, h3, if_pos he]
        exact .of_size href (by simp only; omega) (by simp [hbad])
      · have hsize3 := hins3.size
        have hroom4 : s3.hasRoom 1 ↔ s.hasRoom 4 := (hins3.room 1).trans hroom3
        have hgroup3 := hins3.groups _ _ hgroup2
        obtain ⟨hno, e, s4, he, h4, hsize4⟩ | ⟨hok4, s4, h4, hins4⟩ :=
          addColumn_cases (c := value) "value" .optional hgroup3
        · have hbad : ¬ ((key.validate = .ok ∧ value.validate = .ok) ∧ s.hasRoom 4) := by
            rintro ⟨⟨-, hv⟩, hroom⟩
            exact hno ⟨hv, hroom4.2 hroom⟩
          simp only [h2, h3, h4, ne_eq, not_true_eq_false, if_false, if_pos he]
          exact .of_size href (by simp only; omega) (by simp [hbad])
        · have hsize4 := hins4.size
          simp only [h2, h3, h4, ne_eq, not_true_eq_false, if_false]
          exact .of_size href (by simp only; omega)
            (by simp [hok.1, hok4.1, hroom4.1 hok4.2])

theorem addVariant_composite (name : String) (r : Repetition) (p : Int) :
    s.Composite p (s.hasRoom 3) (s.addVariant name r p) := by
  unfold addVariant
  obtain ⟨href, s1, h1, harr⟩ | ⟨href, s1, h1, hins1, hgroup1⟩ := outer_cases (s := s) name r p
    { Parquet.LogicalType.zero with id := .variant, variantVersion := 1 }
  · rw [h1]
    exact .of_refused href rfl harr
  · simp only [h1]
    generalize s1.annotate s.size
      { Parquet.LogicalType.zero with id := .variant, variantVersion := 1 } = t1 at *
    have hsize1 := hins1.size
    have hroom2 := hins1.room 2
    have hvalid : (⟨.byteArray, none, 0⟩ : ColumnSpec).validate = .ok := rfl
    obtain ⟨hno, e, s2, he, h2, hsize2⟩ | ⟨hok, s2, h2, hins2⟩ :=
      addColumn_cases (c := ⟨.byteArray, none, 0⟩) "metadata" .required hgroup1
    · have hroom : ¬ s.hasRoom 3 := fun h =>
        hno ⟨hvalid, by_contra fun h1 => hasRoom_succ_of_not h1 1 (hroom2.2 h)⟩
      simp only [h2, if_pos he]
      exact .of_size href (by simp only; omega) (by simp [hroom])
    · have hsize2 := hins2.size
      have hroom3 : s2.hasRoom 1 ↔ s.hasRoom 3 := (hins2.room 1).trans hroom2
      have hgroup2 := hins2.groups _ _ hgroup1
      obtain ⟨hno, e, s3, he, h3, hsize3⟩ | ⟨hok3, s3, h3, hins3⟩ :=
        addColumn_cases (c := ⟨.byteArray, none, 0⟩) "value" .required hgroup2
      · have hroom : ¬ s.hasRoom 3 := fun h => hno ⟨hvalid, hroom3.2 h⟩
        simp only [h2, h3, ne_eq, not_true_eq_false, if_false, if_pos he]
        exact .of_size href (by simp only; omega) (by simp [hroom])
      · have hsize3 := hins3.size
        simp only [h2, h3, ne_eq, not_true_eq_false, if_false]
        exact .of_size href (by simp only; omega) (by simp [hroom3.1 hok3.2])

/-! ## Main result -/

/-- The state and the arguments from which a call is atomic. A composite builder is when its
first group is refused, or when every column's logical type fits its physical type and there is
room for every element it inserts. -/
def Atomic (s : SchemaBuilder) : BuilderCall → Prop
  | .addColumn _ _ _ _ => True
  | .addGroup _ _ _ => True
  | .addList _ element _ p => s.GroupRefused p ∨ (element.validate = .ok ∧ s.hasRoom 3)
  | .addMap _ key value _ p =>
    s.GroupRefused p ∨ ((key.validate = .ok ∧ value.validate = .ok) ∧ s.hasRoom 4)
  | .addVariant _ _ p => s.GroupRefused p ∨ s.hasRoom 3

/-- **When a failed call leaves the schema alone.** For every schema, whatever allocations are
granted: adding a column or a group that fails changes nothing; adding a list, a map or a variant
changes nothing on failure exactly when it cannot fail after its first group. -/
theorem call_atomic_iff (s : SchemaBuilder) (c : BuilderCall) :
    ((s.call c).1 = false → (s.call c).2.arrays = s.arrays) ↔ s.Atomic c := by
  cases c with
  | addColumn name c r p =>
    refine iff_of_true ?_ trivial
    intro hfail
    by_cases h : s.arrays.groupIndex p = none ∨ s.ColumnRefused c
    · obtain ⟨e, s', -, hrun, harr⟩ := addColumn_refused name r h
      rw [call, hrun]
      exact harr
    · rw [not_or] at h
      obtain ⟨i, hi⟩ := Option.ne_none_iff_exists'.1 h.1
      obtain ⟨s', hrun, -⟩ := addColumn_done name r hi h.2
      rw [call, hrun] at hfail
      simp at hfail
  | addGroup name r p =>
    refine iff_of_true ?_ trivial
    intro hfail
    by_cases h : s.GroupRefused p
    · obtain ⟨s', hrun, harr⟩ := addGroup_refused name r h
      rw [call, hrun]
      exact harr
    · obtain ⟨s', hrun, -⟩ := addGroup_done name r h
      rw [call, hrun] at hfail
      cases hfail
  | addList name element r p => exact (addList_composite name element r p).atomic_iff
  | addMap name key value r p => exact (addMap_composite name key value r p).atomic_iff
  | addVariant name r p => exact (addVariant_composite name r p).atomic_iff

/-- A list of INT32 elements annotated as strings is refused, and its two groups stay. -/
theorem addList_leaves_groups :
    ¬ ∀ c : BuilderCall, ((create []).call c).1 = false →
      ((create []).call c).2.arrays = (create []).arrays := by
  intro h
  have hbad := h (.addList "tags"
    ⟨.int32, some { Parquet.LogicalType.zero with id := .string }, 0⟩ .optional 0) (by decide)
  revert hbad
  decide

end SchemaBuilder

/-! ## The builders of a schema that cannot run out of memory -/

/-- The element without its logical type. -/
def BuilderElement.forget (e : BuilderElement) : SchemaElement :=
  ⟨e.name.getD "", e.type, e.typeLength, e.repetition, e.numChildren⟩

/-- The schema without logical types; the root's parent index becomes 0. -/
def BuilderArrays.forget (a : BuilderArrays) : Schema where
  elements := a.elements.map BuilderElement.forget
  parentIndices := a.parentIndices.map Int.toNat
  leafIndices := a.leafIndices
  maxDefLevels := a.maxDefLevels
  maxRepLevels := a.maxRepLevels

def ColumnSpec.args (c : ColumnSpec) (name : String) : ColumnArgs :=
  ⟨name, c.type, c.typeLength, c.validate = .ok⟩

def BuilderCall.forget : BuilderCall → SchemaCall
  | .addColumn n c r p => .addColumn (c.args n) r p
  | .addGroup n r p => .addGroup n r p
  | .addList n e r p => .addList n (e.args "element") r p
  | .addMap n k v r p => .addMap n (k.args "key") (v.args "value") r p
  | .addVariant n r p => .addVariant n r p

namespace BuilderArrays

variable (a : BuilderArrays)

theorem forget_getElem? (i : Nat) :
    a.forget.elements[i]? = (a.elements[i]?).map BuilderElement.forget := by
  simp [forget]

theorem forget_groupIndex (p : Int) : a.forget.groupIndex p = a.groupIndex p := by
  have htype : ∀ i : Nat, (a.forget.elements[i]?).bind SchemaElement.type =
      (a.elements[i]?).bind BuilderElement.type := by
    intro i
    rw [forget_getElem?]
    cases a.elements[i]? <;> rfl
  have hlen : a.forget.elements.length = a.elements.length := by simp [forget]
  unfold Schema.groupIndex groupIndex
  simp only [htype, hlen]

theorem forget_append (e : BuilderElement) (p : Nat) :
    (a.append e p).forget = a.forget.append e.forget p := by
  unfold append Schema.append
  simp only [forget, List.map_append, List.map_cons, List.map_nil, Int.toNat_natCast,
    Schema.mk.injEq, and_true]
  rw [← List.map_singleton, ← List.map_append]
  apply List.ext_getElem?
  intro j
  simp only [List.getElem?_map, List.getElem?_modify]
  by_cases hj : p = j
  · simp only [if_pos hj]
    cases (a.elements ++ [e])[j]? <;> rfl
  · simp only [if_neg hj]
    cases (a.elements ++ [e])[j]? <;> rfl

theorem forget_trackLeaf (i : Nat) (levels : Int × Int) :
    (a.trackLeaf i levels).forget =
      { a.forget with
        leafIndices := a.forget.leafIndices ++ [i]
        maxDefLevels := a.forget.maxDefLevels ++ [levels.1]
        maxRepLevels := a.forget.maxRepLevels ++ [levels.2] } := rfl

theorem forget_ancestorLevels (fuel p : Nat) (levels : Int × Int) :
    a.forget.ancestorLevels fuel p levels = a.ancestorLevels fuel p levels := by
  have hstep : ∀ (fuel : Nat) (q : Int) (levels : Int × Int),
      a.forget.ancestorLevels fuel q.toNat levels = a.ancestorLevels fuel q levels := by
    intro fuel
    induction fuel with
    | zero => intros; rfl
    | succ fuel ih =>
      intro q levels
      rw [Schema.ancestorLevels, ancestorLevels]
      by_cases hq : q > 0
      · have hparent : a.forget.parent q.toNat = (a.parentIndices.getD q.toNat 0).toNat := by
          simp only [Schema.parent, forget, List.getD_eq_getElem?_getD, List.getElem?_map]
          cases a.parentIndices[q.toNat]? <;> rfl
        have hrep : a.forget.repetition q.toNat =
            (a.elements[q.toNat]?).bind BuilderElement.repetition := by
          rw [Schema.repetition, forget_getElem?]
          cases a.elements[q.toNat]? <;> rfl
        rw [if_neg (by omega), if_pos hq, hparent, hrep, ih]
      · rw [if_pos (by omega), if_neg hq]
  exact hstep fuel p levels

end BuilderArrays

namespace SchemaBuilder

/-- No allocation to come is refused. -/
def Granted (s : SchemaBuilder) : Prop := ∀ granted ∈ s.heap, granted = true

theorem headD_of_granted {heap : List Bool} (h : ∀ granted ∈ heap, granted = true) :
    heap.headD true = true ∧ ∀ granted ∈ heap.tail, granted = true := by
  cases heap with
  | nil => exact ⟨rfl, by simp⟩
  | cons b heap => exact ⟨h b (by simp), fun c hc => h c (List.mem_cons_of_mem _ hc)⟩

theorem reallocs_of_granted (n : Nat) {heap : List Bool} (h : ∀ granted ∈ heap, granted = true) :
    (reallocs n heap).1 = true ∧ ∀ granted ∈ (reallocs n heap).2, granted = true := by
  induction n generalizing heap with
  | zero => exact ⟨rfl, h⟩
  | succ n ih =>
    obtain ⟨hhead, htail⟩ := headD_of_granted h
    rw [reallocs, if_pos hhead]
    exact ih htail

theorem reserve_of_granted {s : SchemaBuilder} (h : s.Granted) :
    ∃ s', s.reserve = (true, s') ∧ s'.arrays = s.arrays ∧ s'.Granted := by
  unfold reserve ensureCapacity
  split
  next capacity heap heq =>
    refine ⟨_, rfl, rfl, ?_⟩
    split at heq
    · simp only [Prod.mk.injEq] at heq
      rw [← heq.2]
      exact h
    · have hre := reallocs_of_granted 5 h
      split at heq
      next heap' hrun =>
        simp only [Prod.mk.injEq] at heq
        rw [hrun] at hre
        rw [← heq.2]
        exact hre.2
      · simp at heq
  next heap heq =>
    exfalso
    split at heq
    · simp at heq
    · have hre := reallocs_of_granted 5 h
      split at heq
      · simp at heq
      next heap' hrun =>
        rw [hrun] at hre
        simp at hre

variable {s : SchemaBuilder}

/-- With memory for everything, adding a group is `Schema.addGroup`. -/
theorem addGroup_refines (h : s.Granted) (name : String) (r : Repetition) (p : Int) :
    ∃ out s', s.addGroup name r p = (out, s') ∧ s'.Granted ∧
      s.arrays.forget.addGroup name r p = out.map fun i => (s'.arrays.forget, i) := by
  unfold addGroup Schema.addGroup
  rw [BuilderArrays.forget_groupIndex]
  cases s.arrays.groupIndex p with
  | none => exact ⟨none, s, rfl, h, rfl⟩
  | some i =>
    obtain ⟨s', hres, harr, hgranted⟩ := reserve_of_granted h
    obtain ⟨hhead, htail⟩ := headD_of_granted hgranted
    have hlen : s.arrays.forget.elements.length = s.arrays.elements.length := by
      simp [BuilderArrays.forget]
    simp only [hres, strdup, Option.map_some, harr, hhead, hlen, if_true]
    refine ⟨_, _, rfl, htail, ?_⟩
    rw [Option.map_some, BuilderArrays.forget_append]
    rfl

/-- With memory for everything, adding a column is `Schema.addColumn`. -/
theorem addColumn_refines (h : s.Granted) (name : String) (c : ColumnSpec) (r : Repetition)
    (p : Int) :
    ∃ status s', s.addColumn name c r p = (status, s') ∧ s'.Granted ∧
      s.arrays.forget.addColumn (c.args name) r p =
        if status = .ok then some s'.arrays.forget else none := by
  unfold addColumn Schema.addColumn
  by_cases hv : c.validate = .ok
  · rw [BuilderArrays.forget_groupIndex]
    simp only [ColumnSpec.args, hv, decide_true, Bool.not_true, Bool.false_eq_true, if_false, ne_eq,
      not_true_eq_false]
    cases s.arrays.groupIndex p with
    | none => exact ⟨_, s, rfl, h, rfl⟩
    | some i =>
      obtain ⟨s', hres, harr, hgranted⟩ := reserve_of_granted h
      obtain ⟨hhead, htail⟩ := headD_of_granted hgranted
      have hlen : s.arrays.forget.elements.length = s.arrays.elements.length := by
        simp [BuilderArrays.forget]
      simp only [hres, strdup, Option.map_some, hhead, if_true, hlen, harr]
      refine ⟨_, _, rfl, htail, ?_⟩
      rw [if_pos rfl]
      refine congrArg some ?_
      have happ := BuilderArrays.forget_append s.arrays
        ⟨some name, some c.type, c.typeLength, some r, 0, c.logicalType⟩ i
      rw [← BuilderArrays.forget_ancestorLevels, BuilderArrays.forget_trackLeaf, happ]
      rfl
  · refine ⟨c.validate, s, if_pos hv, h, ?_⟩
    rw [if_pos (by simp [ColumnSpec.args, hv]), if_neg hv]

theorem forget_annotate (s : SchemaBuilder) (outer : Nat) (lt : Parquet.LogicalType) :
    (s.annotate outer lt).arrays.forget = s.arrays.forget := by
  simp only [annotate, BuilderArrays.forget, Schema.mk.injEq, and_true]
  apply List.ext_getElem?
  intro j
  simp only [List.getElem?_map, List.getElem?_modify]
  by_cases hj : outer = j
  · simp only [if_pos hj]
    cases s.arrays.elements[j]? <;> rfl
  · simp only [if_neg hj]
    cases s.arrays.elements[j]? <;> rfl

theorem addList_refines (h : s.Granted) (name : String) (element : ColumnSpec) (r : Repetition)
    (p : Int) :
    ∃ out s', s.addList name element r p = (out, s') ∧
      s.arrays.forget.addList name (element.args "element") r p =
        out.map fun _ => s'.arrays.forget := by
  obtain ⟨out, s1, hrun, hgranted, hgroup⟩ := addGroup_refines h name r p
  simp only [Schema.addList, addList, hrun, hgroup, Option.bind_eq_bind]
  cases out with
  | none => exact ⟨none, s1, rfl, rfl⟩
  | some outer =>
    simp only [Option.map_some, Option.bind_some]
    rw [← forget_annotate s1 outer { Parquet.LogicalType.zero with id := .list }]
    have hgranted : (s1.annotate outer { Parquet.LogicalType.zero with id := .list }).Granted :=
      hgranted
    generalize s1.annotate outer { Parquet.LogicalType.zero with id := .list } = t1 at *
    obtain ⟨out, s2, hrun2, hgranted2, hgroup2⟩ :=
      addGroup_refines hgranted "list" .repeated outer
    simp only [hrun2, hgroup2]
    cases out with
    | none => exact ⟨none, s2, rfl, rfl⟩
    | some inner =>
      obtain ⟨status, s3, hrun3, -, hcol⟩ :=
        addColumn_refines hgranted2 "element" element .optional inner
      simp only [Option.map_some, Option.bind_some, hrun3]
      by_cases hok : status = .ok
      · refine ⟨some outer, s3, if_neg (by simp [hok]), ?_⟩
        rw [if_pos hok] at hcol
        exact hcol
      · refine ⟨none, s3, if_pos hok, ?_⟩
        rw [if_neg hok] at hcol
        exact hcol

theorem addMap_refines (h : s.Granted) (name : String) (key value : ColumnSpec) (r : Repetition)
    (p : Int) :
    ∃ out s', s.addMap name key value r p = (out, s') ∧
      s.arrays.forget.addMap name (key.args "key") (value.args "value") r p =
        out.map fun _ => s'.arrays.forget := by
  obtain ⟨out, s1, hrun, hgranted, hgroup⟩ := addGroup_refines h name r p
  simp only [Schema.addMap, addMap, hrun, hgroup, Option.bind_eq_bind]
  cases out with
  | none => exact ⟨none, s1, rfl, rfl⟩
  | some outer =>
    simp only [Option.map_some, Option.bind_some]
    rw [← forget_annotate s1 outer { Parquet.LogicalType.zero with id := .map }]
    have hgranted : (s1.annotate outer { Parquet.LogicalType.zero with id := .map }).Granted :=
      hgranted
    generalize s1.annotate outer { Parquet.LogicalType.zero with id := .map } = t1 at *
    obtain ⟨out, s2, hrun2, hgranted2, hgroup2⟩ :=
      addGroup_refines hgranted "key_value" .repeated outer
    simp only [hrun2, hgroup2]
    cases out with
    | none => exact ⟨none, s2, rfl, rfl⟩
    | some kv =>
      obtain ⟨status, s3, hrun3, hgranted3, hkey⟩ :=
        addColumn_refines hgranted2 "key" key .required kv
      simp only [Option.map_some, Option.bind_some, hrun3]
      by_cases hok : status = .ok
      · obtain ⟨status4, s4, hrun4, -, hvalue⟩ :=
          addColumn_refines hgranted3 "value" value .optional kv
        rw [if_pos hok] at hkey
        rw [if_neg (show ¬ status ≠ .ok by simp [hok]), hrun4]
        have hbind : ∀ f : Schema → Option Schema,
            ((s2.arrays.forget.addColumn (key.args "key") .required kv).bind f) =
              f s3.arrays.forget := fun f => by rw [hkey]; rfl
        by_cases hok4 : status4 = .ok
        · rw [if_pos hok4] at hvalue
          exact ⟨some outer, s4, if_neg (by simp [hok4]), (hbind _).trans hvalue⟩
        · rw [if_neg hok4] at hvalue
          exact ⟨none, s4, if_pos hok4, (hbind _).trans hvalue⟩
      · rw [if_neg hok] at hkey
        refine ⟨none, s3, if_pos hok, ?_⟩
        exact congrArg (Option.bind · _) hkey

theorem addVariant_refines (h : s.Granted) (name : String) (r : Repetition) (p : Int) :
    ∃ out s', s.addVariant name r p = (out, s') ∧
      s.arrays.forget.addVariant name r p = out.map fun _ => s'.arrays.forget := by
  obtain ⟨out, s1, hrun, hgranted, hgroup⟩ := addGroup_refines h name r p
  simp only [Schema.addVariant, addVariant, hrun, hgroup, Option.bind_eq_bind]
  cases out with
  | none => exact ⟨none, s1, rfl, rfl⟩
  | some outer =>
    simp only [Option.map_some, Option.bind_some]
    rw [← forget_annotate s1 outer
      { Parquet.LogicalType.zero with id := .variant, variantVersion := 1 }]
    have hgranted : (s1.annotate outer
        { Parquet.LogicalType.zero with id := .variant, variantVersion := 1 }).Granted := hgranted
    generalize s1.annotate outer
      { Parquet.LogicalType.zero with id := .variant, variantVersion := 1 } = t1 at *
    have hargs : ∀ n, (⟨.byteArray, none, 0⟩ : ColumnSpec).args n = ⟨n, .byteArray, 0, true⟩ :=
      fun _ => rfl
    obtain ⟨status, s2, hrun2, hgranted2, hmeta⟩ :=
      addColumn_refines hgranted "metadata" ⟨.byteArray, none, 0⟩ .required outer
    rw [hargs] at hmeta
    rw [hrun2, hmeta]
    by_cases hok : status = .ok
    · obtain ⟨status3, s3, hrun3, -, hvalue⟩ :=
        addColumn_refines hgranted2 "value" ⟨.byteArray, none, 0⟩ .required outer
      rw [hargs] at hvalue
      rw [if_neg (show ¬ status ≠ .ok by simp [hok]), hrun3, if_pos hok, Option.bind_some, hvalue]
      by_cases hok3 : status3 = .ok
      · exact ⟨some outer, s3, if_neg (by simp [hok3]), if_pos hok3⟩
      · exact ⟨none, s3, if_pos hok3, if_neg hok3⟩
    · rw [if_pos hok, if_neg hok]
      exact ⟨none, s2, rfl, rfl⟩

/-- **With memory for everything, the calls are those of `Schema`.** A call succeeds exactly when
its counterpart does, and the schemas agree. -/
theorem call_refines (h : s.Granted) (c : BuilderCall) :
    ∃ ok s', s.call c = (ok, s') ∧
      s.arrays.forget.call c.forget = if ok then some s'.arrays.forget else none := by
  cases c with
  | addColumn name c r p =>
    obtain ⟨status, s', hrun, -, hcol⟩ := addColumn_refines h name c r p
    refine ⟨status = .ok, s', by rw [call, hrun], hcol.trans ?_⟩
    by_cases hok : status = .ok <;> simp [hok]
  | addGroup name r p =>
    obtain ⟨out, s', hrun, -, hgroup⟩ := addGroup_refines h name r p
    refine ⟨out.isSome, s', by rw [call, hrun], ?_⟩
    rw [BuilderCall.forget, Schema.call, hgroup]
    cases out <;> rfl
  | addList name element r p =>
    obtain ⟨out, s', hrun, hlist⟩ := addList_refines h name element r p
    refine ⟨out.isSome, s', by rw [call, hrun], hlist.trans ?_⟩
    cases out <;> rfl
  | addMap name key value r p =>
    obtain ⟨out, s', hrun, hmap⟩ := addMap_refines h name key value r p
    refine ⟨out.isSome, s', by rw [call, hrun], hmap.trans ?_⟩
    cases out <;> rfl
  | addVariant name r p =>
    obtain ⟨out, s', hrun, hvariant⟩ := addVariant_refines h name r p
    refine ⟨out.isSome, s', by rw [call, hrun], hvariant.trans ?_⟩
    cases out <;> rfl

end SchemaBuilder

end Carquet
