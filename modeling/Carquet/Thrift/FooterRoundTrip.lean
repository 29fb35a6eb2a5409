import Mathlib.Data.List.TakeWhile
import Carquet.Thrift.ParquetParse
import Carquet.Thrift.ParquetWrite

/-!
# A footer reads back

`parquet_parse_file_metadata` on what `parquet_write_file_metadata` writes
(`src/thrift/parquet_types.c`). The writer is not the inverse of the parser: a column's key-value
pairs and encoding statistics are not written, a negative length or count of children is not, a
converted type is written in front of every logical type that has one, and the parser makes a
logical type of a converted type that stands alone. `stored` says of each structure what is left of
it; for a footer within the parser's limits (`Fits`) that is what the parser returns
(`parseFileMetadata_writeFileMetadata`).
-/

namespace Carquet

namespace Parquet

open Decoder

/-! ## Footers within the limits -/

/-- Bytes whose length is an `int32_t`. -/
def ShortBytes (bytes : Option Bytes) : Prop := ∀ v, bytes = some v → v.length < 2147483648

/-- A string whose length is an `int32_t`. -/
def ShortString (s : Option CString) : Prop := ∀ v, s = some v → v.1.length < 2147483648

structure Statistics.Fits (s : Statistics) : Prop where
  maxDeprecated : ShortBytes s.maxDeprecated
  minDeprecated : ShortBytes s.minDeprecated
  maxValue : ShortBytes s.maxValue
  minValue : ShortBytes s.minValue

/-- The arrays of a coordinate reference system have room for its terminator. -/
structure LogicalType.Fits (lt : LogicalType) : Prop where
  geometryCrs : lt.geometryCrs.1.length < geospatialCrsMax
  geographyCrs : lt.geography.crs.1.length < geospatialCrsMax

structure SchemaElement.Fits (e : SchemaElement) : Prop where
  name : ShortString e.name
  logicalType : ∀ lt, e.logicalType = some lt → lt.Fits

structure GeospatialStatistics.Fits (g : GeospatialStatistics) : Prop where
  count : g.numTypes = g.types.length
  limit : g.types.length ≤ geoMaxTypes

structure ColumnMetadata.Fits (m : ColumnMetadata) : Prop where
  encodingsCount : m.numEncodings = m.encodings.length
  encodingsLimit : m.encodings.length ≤ maxEncodings
  pathCount : m.pathLen = m.pathInSchema.length
  pathLimit : m.pathInSchema.length ≤ maxPathElements
  path : ∀ s ∈ m.pathInSchema, s.1.length < 2147483648
  statistics : ∀ s, m.statistics = some s → s.Fits
  geospatialStatistics : ∀ g, m.geospatialStatistics = some g → g.Fits

structure ColumnChunk.Fits (c : ColumnChunk) : Prop where
  filePath : ShortString c.filePath
  metadata : ∀ m, c.metadata = some m → m.Fits

structure RowGroup.Fits (rg : RowGroup) : Prop where
  columnsCount : rg.numColumns = rg.columns.length
  columnsLimit : rg.columns.length ≤ maxColumnsPerRg
  columns : ∀ c ∈ rg.columns, c.Fits
  sortingCount : rg.numSortingColumns = rg.sortingColumns.length
  sortingLimit : rg.sortingColumns.length ≤ maxColumnsPerRg

structure KeyValue.Fits (kv : KeyValue) : Prop where
  key : ShortString kv.key
  value : ShortString kv.value

/-- A footer whose counts are those of its arrays and within the limits of the parser. -/
structure FileMetadata.Fits (m : FileMetadata) : Prop where
  schemaCount : m.numSchemaElements = m.schema.length
  schemaLimit : m.schema.length ≤ maxSchemaElements
  schema : ∀ e ∈ m.schema, e.Fits
  rowGroupsCount : m.numRowGroups = m.rowGroups.length
  rowGroupsLimit : m.rowGroups.length ≤ maxRowGroups
  rowGroups : ∀ rg ∈ m.rowGroups, rg.Fits
  keyValueCount : m.numKeyValue = m.keyValueMetadata.length
  keyValueLimit : m.keyValueMetadata.length ≤ maxKeyValuePairs
  keyValueMetadata : ∀ kv ∈ m.keyValueMetadata, kv.Fits
  createdBy : ShortString m.createdBy
  columnOrdersLimit : m.numColumnOrders ≤ maxColumnsPerRg

/-! ## What is left of it -/

/-- Bounds without bytes are not written. -/
def Statistics.stored (s : Statistics) : Statistics :=
  { s with
    maxDeprecated := nonEmpty s.maxDeprecated
    minDeprecated := nonEmpty s.minDeprecated
    maxValue := nonEmpty s.maxValue
    minValue := nonEmpty s.minValue }

/-- The parameters of the type itself are written, those of the others are not. -/
def LogicalType.stored (lt : LogicalType) : LogicalType :=
  let z := { LogicalType.zero with id := lt.id }
  match lt.id with
  | .decimal => { z with decimal := lt.decimal }
  | .time => { z with time := lt.time }
  | .timestamp => { z with timestamp := lt.timestamp }
  | .integer => { z with integer := lt.integer }
  | .variant => { z with variantVersion := if 0 < lt.variantVersion then lt.variantVersion else 1 }
  | .geometry => { z with geometryCrs := lt.geometryCrs }
  | .geography => { z with geography :=
      { crs := lt.geography.crs
        algorithm := if lt.geography.hasAlgorithm then lt.geography.algorithm else 0
        hasAlgorithm := lt.geography.hasAlgorithm } }
  | _ => z

/-- A compatible element as its parser builds it, before a converted type is looked at. -/
def SchemaElement.fields (e : SchemaElement) : SchemaElement where
  type := e.type
  typeLength := if 0 < e.typeLength then e.typeLength else 0
  repetitionType := e.repetitionType
  name := e.name
  numChildren := if 0 < e.numChildren then e.numChildren else 0
  convertedType := e.convertedType
  scale := e.scale
  precision := e.precision
  fieldId := e.fieldId
  logicalType := (e.logicalType.filter fun lt => lt.id ≠ .unknown).map LogicalType.stored

def SchemaElement.stored (e : SchemaElement) : SchemaElement :=
  (schemaElementWithLogicalCompat e).fields.withLogicalType

/-- A bounding box is written where there is a valid one, and in the dimensions it has. -/
def GeospatialStatistics.stored (g : GeospatialStatistics) : GeospatialStatistics :=
  if g.valid then
    { g with
      zmin := if g.hasZ then g.zmin else .zero
      zmax := if g.hasZ then g.zmax else .zero
      mmin := if g.hasM then g.mmin else .zero
      mmax := if g.hasM then g.mmax else .zero }
  else { GeospatialStatistics.zero with types := g.types, numTypes := g.numTypes }

def ColumnMetadata.stored (m : ColumnMetadata) : ColumnMetadata :=
  { m with
    keyValueMetadata := []
    numKeyValue := 0
    statistics := m.statistics.map Statistics.stored
    encodingStats := []
    numEncodingStats := 0
    geospatialStatistics := m.geospatialStatistics.map GeospatialStatistics.stored }

def ColumnChunk.stored (c : ColumnChunk) : ColumnChunk :=
  { c with metadata := c.metadata.map ColumnMetadata.stored }

def RowGroup.stored (rg : RowGroup) : RowGroup :=
  { rg with columns := rg.columns.map ColumnChunk.stored }

/-- A key that is null is read as an empty one. -/
def KeyValue.stored (kv : KeyValue) : KeyValue := { kv with key := some (kv.key.getD .empty) }

def FileMetadata.stored (m : FileMetadata) : FileMetadata :=
  { m with
    schema := m.schema.map SchemaElement.stored
    rowGroups := m.rowGroups.map RowGroup.stored
    keyValueMetadata := m.keyValueMetadata.map KeyValue.stored }

/-! ## Fields -/

section

variable {σ : Type} {handle : Int → ThriftType → σ → Decoder → Option (σ × Decoder)} {n : Nat}
  {s : σ} {id : Int}

theorem storing_eq {α : Type} (set : α → σ) (r : α × Decoder) :
    storing set r = some (set r.1, r.2) := by
  unfold storing
  rfl

/-- A copy of a string is the string. -/
theorem ofBytes_val (s : CString) : CString.ofBytes s.1 = s := by
  apply Subtype.ext
  show s.1.takeWhile _ = s.1
  rw [List.takeWhile_eq_self_iff]
  intro b hb
  exact decide_eq_true fun h => s.2 (h ▸ hb)

/-- What is kept of a binary, by a function of its own or by the body. -/
theorem storing_binary {α : Type} (set : α → σ) (keep : Option Bytes → α)
    (r : Option Bytes × Decoder) :
    storing set (keep r.1, r.2) = storing (fun data => set (keep data)) r := by
  unfold storing
  rfl

theorem carries_string {v : CString} (set : σ → CString → σ) (hv : v.1.length < 2147483648)
    (hhandle : ∀ d : Decoder, d.status = .ok →
      handle id .binary s d = storing (set s) (arenaStrdup d))
    (hid : -32768 ≤ id ∧ id < 32768) : Carries (writeStringField id v) handle n s (set s v) := by
  have h := @Carries.binary σ handle n s id v.1
    (fun data => set s (.ofBytes (data.getD []))) hv
    (fun d hd => (hhandle d hd).trans
      (storing_binary (set s) (fun data => .ofBytes (data.getD [])) d.readBinary)) hid
  rwa [Option.getD_some, ofBytes_val] at h

theorem carries_optString {v : Option CString} (set : σ → Option CString → σ)
    (hnone : set s none = s) (hv : ShortString v)
    (hhandle : ∀ d : Decoder, d.status = .ok →
      handle id .binary s d = storing (fun x => set s (some x)) (arenaStrdup d))
    (hid : -32768 ≤ id ∧ id < 32768) :
    Carries (writeSome v (writeStringField id)) handle n s (set s v) :=
  .whenSome set hnone fun a ha => carries_string (fun s x => set s (some x)) (hv a ha) hhandle hid

/-- A bound, which has bytes if it is written. -/
theorem carries_bound {v : Option Bytes} (set : σ → Option Bytes → σ) (hnone : set s none = s)
    (hv : ShortBytes v)
    (hhandle : ∀ d : Decoder, d.status = .ok →
      handle id .binary s d = storing (set s) (arenaBindup d))
    (hid : -32768 ≤ id ∧ id < 32768) :
    Carries (writeSome (nonEmpty v) (writeBinaryField id)) handle n s (set s (nonEmpty v)) := by
  refine .whenSome set hnone fun a ha => ?_
  obtain ⟨hva, hpos⟩ := Option.filter_eq_some_iff.mp ha
  have h := @Carries.binary σ handle n s id a
    (fun data => set s (data.filter fun x => 0 < x.length)) (hv a hva)
    (fun d hd => (hhandle d hd).trans
      (storing_binary (set s) (fun data => data.filter fun x => 0 < x.length) d.readBinary)) hid
  rwa [Option.filter_some, if_pos hpos] at h

theorem readDoubleBits_bytes (v : Double) (rest : Bytes) (ids : List Int) (p b : Bool) :
    readDoubleBits ⟨v.1 ++ rest, ids, p, b, .ok⟩ = (v, ⟨rest, ids, p, b, .ok⟩) := by
  have hlen := v.2
  have hread : Decoder.readDouble ⟨v.1 ++ rest, ids, p, b, .ok⟩ = (v.1, ⟨rest, ids, p, b, .ok⟩) := by
    rw [Decoder.readDouble, if_neg (by simp only [List.length_append]; omega)]
    simp only [List.take_left' hlen, List.drop_left' hlen]
  refine Prod.ext (Subtype.ext (congrArg Prod.fst hread)) ?_
  show (Decoder.readDouble _).2 = _
  rw [hread]

theorem carries_double {v : Double} (set : σ → Double → σ)
    (hhandle : ∀ d : Decoder, d.status = .ok →
      handle id .double s d = storing (set s) (readDoubleBits d))
    (hid : -32768 ≤ id ∧ id < 32768) : Carries (writeDoubleField id v) handle n s (set s v) := by
  refine .field (fun _ => rfl) (fun ids p b rest _ => ⟨p, b, ?_⟩) rfl hid
  rw [hhandle _ rfl]
  show storing (set s) (readDoubleBits ⟨v.1 ++ rest, ids, p, b, .ok⟩) = _
  rw [readDoubleBits_bytes, storing_eq]

/-- A number that is left out where it is zero. -/
theorem carries_nonzero {v : Int32} (set : σ → Int32 → σ) (hzero : set s 0 = s)
    (hhandle : ∀ d : Decoder, d.status = .ok →
      handle id .i32 s d = storing (fun x => set s (.ofInt x)) d.readI32)
    (hid : -32768 ≤ id ∧ id < 32768) :
    Carries (writeIf (v ≠ 0) (writeI32Field id v)) handle n s (set s v) :=
  .ite (fun _ => .i32 set hhandle hid) fun h => by rw [Decidable.not_not.mp h, hzero]

variable {α β : Type} {write : β → Encoder → Encoder} {read : Decoder → Option (α × Decoder)}
  {elemType : ThriftType} {limit count : Nat} {status : Status} {vs : List β} {val : β → α}

/-- An array within the limit of its count. -/
theorem carries_counted (set : σ → List α → Nat → σ)
    (h : ∀ v ∈ vs, Conveys (write v) read n (val v)) (hcount : count = vs.length)
    (hlimit : vs.length ≤ limit) (hmax : limit < 2147483648)
    (htype : ∀ code, elemType ≠ .unknown code)
    (hhandle : ∀ d : Decoder, d.status = .ok →
      handle id .list s d = readCounted limit status read (set s) s d)
    (hid : -32768 ≤ id ∧ id < 32768) :
    Carries (writeListField id elemType count write vs) handle n s (set s (vs.map val) count) := by
  refine .list set h hcount hlimit hmax htype (fun d hd _ hle => ?_) hid
  rw [hhandle d hd, readCounted]
  exact if_neg (Nat.not_lt.mpr hle)

/-- An array that is left out where it is empty. -/
theorem carries_nonempty (set : σ → List α → Nat → σ) (hempty : set s [] 0 = s)
    (h : ∀ v ∈ vs, Conveys (write v) read n (val v)) (hcount : count = vs.length)
    (hlimit : vs.length ≤ limit) (hmax : limit < 2147483648)
    (htype : ∀ code, elemType ≠ .unknown code)
    (hhandle : ∀ d : Decoder, d.status = .ok →
      handle id .list s d = readCounted limit status read (set s) s d)
    (hid : -32768 ≤ id ∧ id < 32768) :
    Carries (writeIf (0 < count) (writeListField id elemType count write vs)) handle n s
      (set s (vs.map val) count) := by
  refine .ite (fun _ => carries_counted set h hcount hlimit hmax htype hhandle hid) fun hzero => ?_
  have hcount0 : count = 0 := by omega
  have hnil : vs = [] := List.eq_nil_of_length_eq_zero (by omega)
  rw [hcount0, hnil, List.map_nil, hempty]

/-- An array of cells that are read as they are. -/
theorem carries_cells {write : α → Encoder → Encoder} {vs : List α} (set : σ → List α → Nat → σ)
    (h : ∀ v ∈ vs, Conveys (write v) read n v) (hcount : count = vs.length)
    (hlimit : vs.length ≤ limit) (hmax : limit < 2147483648)
    (htype : ∀ code, elemType ≠ .unknown code)
    (hhandle : ∀ d : Decoder, d.status = .ok →
      handle id .list s d = readCounted limit status read (set s) s d)
    (hid : -32768 ≤ id ∧ id < 32768) :
    Carries (writeListField id elemType count write vs) handle n s (set s vs count) := by
  have hlist := carries_counted set h hcount hlimit hmax htype hhandle hid
  rwa [List.map_id'] at hlist

/-- Such an array, left out where it is empty. -/
theorem carries_nonemptyCells {write : α → Encoder → Encoder} {vs : List α}
    (set : σ → List α → Nat → σ) (hempty : set s [] 0 = s)
    (h : ∀ v ∈ vs, Conveys (write v) read n v) (hcount : count = vs.length)
    (hlimit : vs.length ≤ limit) (hmax : limit < 2147483648)
    (htype : ∀ code, elemType ≠ .unknown code)
    (hhandle : ∀ d : Decoder, d.status = .ok →
      handle id .list s d = readCounted limit status read (set s) s d)
    (hid : -32768 ≤ id ∧ id < 32768) :
    Carries (writeIf (0 < count) (writeListField id elemType count write vs)) handle n s
      (set s vs count) := by
  have hlist := carries_nonempty set hempty h hcount hlimit hmax htype hhandle hid
  rwa [List.map_id'] at hlist

theorem conveys_string {v : CString} (hv : v.1.length < 2147483648) :
    Conveys (writeString v) (fun d => some (arenaStrdup d)) n v := by
  have h := Conveys.binary (n := n) hv fun data => CString.ofBytes (data.getD [])
  rwa [Option.getD_some, ofBytes_val] at h

end

/-! ## Statistics and logical types -/

theorem conveys_statistics {s : Statistics} (h : s.Fits) :
    Conveys (writeStatistics s) parseStatistics 1 s.stored :=
  .struct <|
    .cons (carries_bound (fun s v => { s with maxDeprecated := v }) rfl h.maxDeprecated
      (fun _ _ => rfl) (by decide)) <|
    .cons (carries_bound (fun s v => { s with minDeprecated := v }) rfl h.minDeprecated
      (fun _ _ => rfl) (by decide)) <|
    .cons (.optI64 (fun s v => { s with nullCount := v }) rfl (fun _ _ => rfl) (by decide)) <|
    .cons (.optI64 (fun s v => { s with distinctCount := v }) rfl (fun _ _ => rfl) (by decide)) <|
    .cons (carries_bound (fun s v => { s with maxValue := v }) rfl h.maxValue
      (fun _ _ => rfl) (by decide)) <|
    .cons (carries_bound (fun s v => { s with minValue := v }) rfl h.minValue
      (fun _ _ => rfl) (by decide)) <|
    .cons (.optBool (fun s v => { s with isMaxValueExact := v }) rfl (fun _ _ _ => rfl)
      (by decide)) <|
    .cons (.optBool (fun s v => { s with isMinValueExact := v }) rfl (fun _ _ _ => rfl)
      (by decide)) .nil

theorem conveys_decimal (p q : DecimalParams) :
    Conveys (writeDecimal p) (fun d => d.readStruct decimalField q) 1 p :=
  .struct <|
    .cons (.i32 (fun p v => { p with scale := v }) (fun _ _ => rfl) (by decide)) <|
    .cons (.i32 (fun p v => { p with precision := v }) (fun _ _ => rfl) (by decide)) .nil

theorem conveys_timeUnit (unit : TimeUnit) (u : TimeUnit) :
    Conveys (writeStruct [writeMarkField (timeUnitId unit)])
      (fun d => d.readStruct timeUnitField u) 2 unit := by
  refine .struct (.cons ?_ .nil)
  cases unit with
  | millis => exact .mark (Nat.le_refl 1) (fun _ _ => rfl) (by decide)
  | micros => exact .mark (Nat.le_refl 1) (fun _ _ => rfl) (by decide)
  | nanos => exact .mark (Nat.le_refl 1) (fun _ _ => rfl) (by decide)

theorem conveys_time (p q : TimeParams) :
    Conveys (writeTime p) (fun d => d.readStruct timeField q) 3 p :=
  .struct <|
    .cons (.bool (fun p v => { p with isAdjustedToUtc := v }) (fun _ _ _ => rfl) (by decide)) <|
    .cons (.value (fun p v => { p with unit := v }) (conveys_timeUnit p.unit q.unit) (fun _ _ => rfl)
      (by decide)) .nil

theorem conveys_integer (p q : IntegerParams) :
    Conveys (writeInteger p) (fun d => d.readStruct integerField q) 1 p :=
  .struct <|
    .cons (.byte (fun p v => { p with bitWidth := v }) (fun _ _ => rfl) (by decide)) <|
    .cons (.bool (fun p v => { p with isSigned := v }) (fun _ _ _ => rfl) (by decide)) .nil

theorem conveys_variant (version : Int8) :
    Conveys (writeVariant version) (fun d => d.readStruct variantField 1) 1
      (if 0 < version then version else 1) :=
  .struct (.cons (.byte (fun _ v => v) (fun _ _ => rfl) (by decide)) .nil)

/-- A coordinate reference system that fits its array is copied whole. -/
theorem carries_crs {σ : Type} {handle : Int → ThriftType → σ → Decoder → Option (σ × Decoder)}
    {n : Nat} {s : σ} {crs : CString} (set : σ → CString → σ) (get : CString)
    (hlen : crs.1.length < geospatialCrsMax) (hempty : set s .empty = s)
    (hhandle : ∀ d : Decoder, d.status = .ok →
      handle 1 .binary s d = storing (fun v => set s (copyCrs get v)) d.readBinary) :
    Carries (writeCrs crs) handle n s (set s crs) := by
  refine .ite (fun hne => ?_) fun heq => ?_
  · have hcopy : copyCrs get (some crs.1) = crs := by
      cases hcase : crs.1 with
      | nil => exact absurd (Subtype.ext hcase) hne
      | cons b bs =>
        show CString.ofBytes ((b :: bs).take _) = crs
        rw [← hcase, List.take_of_length_le (by omega), ofBytes_val]
    have h := @Carries.binary σ handle n s 1 crs.1 (fun v => set s (copyCrs get v))
      (Nat.lt_trans hlen (by decide)) hhandle (by decide)
    rwa [hcopy] at h
  · rw [Decidable.not_not.mp heq, hempty]

theorem conveys_geometry {crs : CString} (h : crs.1.length < geospatialCrsMax) :
    Conveys (writeStruct [writeCrs crs]) (fun d => d.readStruct geometryField .empty) 1 crs :=
  .struct (.cons (carries_crs (fun _ v => v) .empty h rfl fun _ _ => rfl) .nil)

theorem conveys_geography {p : GeographyParams} (h : p.crs.1.length < geospatialCrsMax) :
    Conveys (writeGeography p) (fun d => d.readStruct geographyField ⟨.empty, 0, false⟩) 1
      { crs := p.crs
        algorithm := if p.hasAlgorithm then p.algorithm else 0
        hasAlgorithm := p.hasAlgorithm } := by
  have halgorithm : Carries (writeIf (p.hasAlgorithm = true) (writeI32Field 2 p.algorithm))
      geographyField 0 ⟨p.crs, 0, false⟩
      ⟨p.crs, if p.hasAlgorithm then p.algorithm else 0, p.hasAlgorithm⟩ := by
    cases p.hasAlgorithm with
    | false => exact .ite (fun h => by cases h) fun _ => rfl
    | true =>
      exact .ite (fun _ => .i32
        (fun (p : GeographyParams) v => { p with algorithm := v, hasAlgorithm := true })
        (fun _ _ => rfl) (by decide)) fun h => absurd rfl h
  exact .struct (.cons (carries_crs (fun p v => { p with crs := v }) .empty h rfl fun _ _ => rfl)
    (.cons halgorithm .nil))

/-- A logical type but for INTERVAL, which is never written as one. -/
theorem conveys_logicalType {lt : LogicalType} (h : lt.Fits) (hid : lt.id ≠ .interval) :
    Conveys (writeLogicalType lt) parseLogicalType 5 lt.stored := by
  have hmark : ∀ (field : Int) (next : LogicalType), -32768 ≤ field ∧ field < 32768 →
      (∀ d : Decoder, d.status = .ok →
        logicalTypeField field .struct .zero d = skipping next .struct d) →
      Conveys (writeStruct [writeMarkField field]) parseLogicalType 5 next :=
    fun field next hfield hhandle => .struct (.cons (.mark (by decide) hhandle hfield) .nil)
  have hvalue : ∀ {α : Type} {write : Encoder → Encoder} {read : Decoder → Option (α × Decoder)}
      {k : Nat} {a : α} (field : Int) (set : LogicalType → α → LogicalType),
      Conveys write read k a → k ≤ 4 → -32768 ≤ field ∧ field < 32768 →
      (∀ d : Decoder, d.status = .ok →
        logicalTypeField field .struct .zero d = (read d).map fun r => (set .zero r.1, r.2)) →
      Conveys (writeStruct [writeStructField field write]) parseLogicalType 5 (set .zero a) :=
    fun field set hconv hk hfield hhandle =>
      .struct (.cons (.value set (hconv.mono hk) hhandle hfield) .nil)
  unfold writeLogicalType logicalTypeWrites LogicalType.stored
  cases hcase : lt.id with
  | unknown => exact .struct .nil
  | interval => exact absurd hcase hid
  | decimal =>
    exact hvalue 5 (fun lt v => { lt with id := .decimal, decimal := v })
      (conveys_decimal lt.decimal _) (by decide) (by decide) fun _ _ => rfl
  | time =>
    exact hvalue 7 (fun lt v => { lt with id := .time, time := v })
      (conveys_time lt.time _) (by decide) (by decide) fun _ _ => rfl
  | timestamp =>
    exact hvalue 8 (fun lt v => { lt with id := .timestamp, timestamp := v })
      (conveys_time lt.timestamp _) (by decide) (by decide) fun _ _ => rfl
  | integer =>
    exact hvalue 10 (fun lt v => { lt with id := .integer, integer := v })
      (conveys_integer lt.integer _) (by decide) (by decide) fun _ _ => rfl
  | variant =>
    exact hvalue 16 (fun lt v => { lt with id := .variant, variantVersion := v })
      (conveys_variant lt.variantVersion) (by decide) (by decide) fun _ _ => rfl
  | geometry =>
    exact hvalue 17 (fun lt v => { lt with id := .geometry, geometryCrs := v })
      (conveys_geometry h.geometryCrs) (by decide) (by decide) fun _ _ => rfl
  | geography =>
    exact hvalue 18 (fun lt v => { lt with id := .geography, geography := v })
      (conveys_geography h.geographyCrs) (by decide) (by decide) fun _ _ => rfl
  | _ => exact hmark _ _ (by decide) fun _ _ => rfl

/-! ## Schema elements -/

theorem fits_withCompat {e : SchemaElement} (h : e.Fits) : (schemaElementWithLogicalCompat e).Fits := by
  unfold schemaElementWithLogicalCompat
  cases hlt : e.logicalType with
  | none => exact h
  | some lt =>
    refine ⟨h.name, fun lt' hlt' => ?_⟩
    simp only [SchemaElement.withCompat] at hlt'
    split at hlt'
    · cases hlt'
    · rw [← Option.some.inj hlt']
      exact h.logicalType lt hlt

theorem not_interval_withCompat {e : SchemaElement} {lt : LogicalType}
    (hlt : (schemaElementWithLogicalCompat e).logicalType = some lt) : lt.id ≠ .interval := by
  unfold schemaElementWithLogicalCompat at hlt
  cases hcase : e.logicalType with
  | none => simp [hcase] at hlt
  | some lt' =>
    simp only [hcase, SchemaElement.withCompat] at hlt
    split at hlt
    · cases hlt
    · rw [← Option.some.inj hlt]
      assumption

theorem conveys_schemaElement {e : SchemaElement} (h : e.Fits) :
    Conveys (writeSchemaElement e) parseSchemaElement 6 e.stored := by
  have hfits := fits_withCompat h
  have hinterval := @not_interval_withCompat e
  suffices hfields : Conveys (writeSchemaElement e) (fun d => d.readStruct schemaElementField .zero)
      6 (schemaElementWithLogicalCompat e).fields from
    hfields.map SchemaElement.withLogicalType
  unfold writeSchemaElement
  generalize schemaElementWithLogicalCompat e = c at hfits hinterval
  exact .struct <|
    .cons (.optI32 (fun e v => { e with type := v }) rfl (fun _ _ => rfl) (by decide)) <|
    .cons (.i32If 0 (fun e v => { e with typeLength := v }) rfl (fun _ _ => rfl) (by decide)) <|
    .cons (.optI32 (fun e v => { e with repetitionType := v }) rfl (fun _ _ => rfl) (by decide)) <|
    .cons (carries_optString (fun e v => { e with name := v }) rfl hfits.name (fun _ _ => rfl)
      (by decide)) <|
    .cons (.i32If 0 (fun e v => { e with numChildren := v }) rfl (fun _ _ => rfl) (by decide)) <|
    .cons (.optI32 (fun e v => { e with convertedType := v }) rfl (fun _ _ => rfl) (by decide)) <|
    .cons (carries_nonzero (fun e v => { e with scale := v }) rfl (fun _ _ => rfl) (by decide)) <|
    .cons (carries_nonzero (fun e v => { e with precision := v }) rfl (fun _ _ => rfl) (by decide)) <|
    .cons (.optI32 (fun e v => { e with fieldId := v }) rfl (fun _ _ => rfl) (by decide)) <|
    .cons (.whenMap (fun e v => { e with logicalType := v }) LogicalType.stored rfl fun lt hlt =>
      have hsome := (Option.filter_eq_some_iff.mp hlt).1
      .value (fun (e : SchemaElement) v => { e with logicalType := some v })
        (conveys_logicalType (hfits.logicalType lt hsome) (hinterval hsome)) (fun _ _ => rfl)
        (by decide)) .nil

/-! ## Geospatial statistics -/

/-- A pair of bounds of one dimension, where there is one. -/
theorem carries_range {σ : Type} {handle : Int → ThriftType → σ → Decoder → Option (σ × Decoder)}
    {n : Nat} {s : σ} {has : Bool} {lo hi : Double} {i j : Int}
    (set : σ → Bool → Double → Double → σ) (hnone : set s false .zero .zero = s)
    (hlo : ∀ d : Decoder, d.status = .ok →
      handle i .double s d = storing (fun v => set s true v .zero) (readDoubleBits d))
    (hhi : ∀ d : Decoder, d.status = .ok → handle j .double (set s true lo .zero) d =
      storing (fun v => set s true lo v) (readDoubleBits d))
    (hi' : -32768 ≤ i ∧ i < 32768) (hj : -32768 ≤ j ∧ j < 32768) :
    Carries (writeIf (has = true) (writeFields [writeDoubleField i lo, writeDoubleField j hi]))
      handle n s (set s has (if has then lo else .zero) (if has then hi else .zero)) := by
  cases has with
  | false => exact .ite (fun h => by cases h) fun _ => hnone
  | true =>
    refine .ite (fun _ => ?_) fun h => absurd rfl h
    exact .cons (carries_double (fun s v => set s true v .zero) hlo hi')
      (.cons (carries_double (fun _ v => set s true lo v) hhi hj) .nil)

/-- A bounding box that is written is valid. -/
def GeospatialStatistics.box (g : GeospatialStatistics) : GeospatialStatistics :=
  { GeospatialStatistics.zero with
    valid := true
    xmin := g.xmin
    xmax := g.xmax
    ymin := g.ymin
    ymax := g.ymax
    hasZ := g.hasZ
    zmin := if g.hasZ then g.zmin else .zero
    zmax := if g.hasZ then g.zmax else .zero
    hasM := g.hasM
    mmin := if g.hasM then g.mmin else .zero
    mmax := if g.hasM then g.mmax else .zero }

theorem conveys_boundingBox (g : GeospatialStatistics) :
    Conveys (writeBoundingBox g) (fun d => d.readStruct boundingBoxField .zero) 1 g.box :=
  .struct <|
    .cons (carries_double (fun s v => { s with xmin := v, valid := true }) (fun _ _ => rfl)
      (by decide)) <|
    .cons (carries_double (fun s v => { s with xmax := v, valid := true }) (fun _ _ => rfl)
      (by decide)) <|
    .cons (carries_double (fun s v => { s with ymin := v, valid := true }) (fun _ _ => rfl)
      (by decide)) <|
    .cons (carries_double (fun s v => { s with ymax := v, valid := true }) (fun _ _ => rfl)
      (by decide)) <|
    .cons (carries_range (fun s has lo hi => { s with hasZ := has, zmin := lo, zmax := hi }) rfl
      (fun _ _ => rfl) (fun _ _ => rfl) (by decide) (by decide)) <|
    .cons (carries_range (fun s has lo hi => { s with hasM := has, mmin := lo, mmax := hi }) rfl
      (fun _ _ => rfl) (fun _ _ => rfl) (by decide) (by decide)) .nil

/-- The state once the codes are stored, one behind another. -/
def GeoState.storeAll (s : GeoState) (codes : List Int32) : GeoState where
  stats := { s.stats with
    types := s.stats.types ++ codes
    numTypes := s.stats.numTypes + codes.length }
  run := { s.run with stores := s.run.stores ++ List.range' s.stats.numTypes codes.length }

theorem storeAll_nil (s : GeoState) : s.storeAll [] = s := by
  simp [GeoState.storeAll]

theorem storeAll_cons (s : GeoState) (code : Int32) (codes : List Int32) :
    (s.store code).storeAll codes = s.storeAll (code :: codes) := by
  simp [GeoState.storeAll, GeoState.store, List.range'_succ, Nat.add_assoc, Nat.add_comm 1]

/-- Codes within the array are all stored. -/
theorem geoTypesLoop_bytes (codes : List Int32) (i : Nat) (h : i + codes.length ≤ geoMaxTypes)
    (s : GeoState) (rest : Bytes) (ids : List Int) (p b : Bool) :
    geoTypesLoop i codes.length s
        ⟨(codes.flatMap fun code => zigzagBytes code.toInt) ++ rest, ids, p, b, .ok⟩ =
      (s.storeAll codes, ⟨rest, ids, p, b, .ok⟩) := by
  induction codes generalizing i s with
  | nil => rw [storeAll_nil]; rfl
  | cons code codes ih =>
    rw [List.length_cons] at h
    have hread : Decoder.readI32 ⟨zigzagBytes code.toInt ++
        ((codes.flatMap fun code => zigzagBytes code.toInt) ++ rest), ids, p, b, .ok⟩ =
        (code.toInt, ⟨(codes.flatMap fun code => zigzagBytes code.toInt) ++ rest, ids, p, b, .ok⟩) :=
      readI32_bytes code.le_toInt code.toInt_lt _ .ok
    rw [List.length_cons, List.flatMap_cons, List.append_assoc, geoTypesLoop, hread,
      if_pos (by omega), Int32.ofInt_toInt, ih (i + 1) (by omega), storeAll_cons]

/-- The runs that a parser of these statistics has been through. -/
def GeospatialStatistics.run (g : GeospatialStatistics) : GeoRun :=
  ⟨[g.types.length], List.range' 0 g.types.length⟩

/-- The list of type codes. -/
theorem carries_geoTypes {g : GeospatialStatistics} (h : g.Fits) (stats : GeospatialStatistics) (n : Nat) :
    Carries (writeListField 2 .i32 g.numTypes (fun code e => e.writeInt code.toInt) g.types)
      geospatialStatisticsField n ⟨stats, [], []⟩
      (GeoState.storeAll ⟨stats, [g.types.length], []⟩ g.types) := by
  have hlimit := h.limit
  have hwrite : ∀ e : Encoder,
      writeListField 2 .i32 g.numTypes (fun code e => e.writeInt code.toInt) g.types e =
        writeBytesField .list 2 (listBeginBytes .i32 g.types.length ++
          g.types.flatMap fun code => zigzagBytes code.toInt) e := by
    intro e
    rw [writeListField, h.count, List.take_length]
    show g.types.foldl (fun (e : Encoder) code => e.append (zigzagBytes code.toInt)) _ = _
    rw [Encoder.foldl_append, Encoder.writeListBegin, Encoder.append_append, writeBytesField]
  refine .field hwrite (fun ids p b rest _ => ⟨p, b, ?_⟩) rfl (by decide)
  have hroom : g.types.length ≤
      ((g.types.flatMap fun code => zigzagBytes code.toInt) ++ rest).length := by
    rw [List.length_append]
    exact Nat.le_trans (count_le_flatMap g.types fun code => varintBytes_pos _)
      (Nat.le_add_right _ _)
  have hbegin : Decoder.readListBegin ⟨listBeginBytes .i32 g.types.length ++
      ((g.types.flatMap fun code => zigzagBytes code.toInt) ++ rest), ids, p, b, .ok⟩ =
      ((.i32, g.types.length),
        ⟨(g.types.flatMap fun code => zigzagBytes code.toInt) ++ rest, ids, p, b, .ok⟩) :=
    readListBegin_bytes (by intro code h; cases h)
      (Nat.lt_of_le_of_lt hlimit (by decide)) hroom
  simp only [pendingAfter, valueAfter, List.append_assoc, geospatialStatisticsField, hbegin]
  rw [geoTypesLoop_bytes g.types 0 (by omega)]
  rfl

theorem conveys_geospatialStatistics {g : GeospatialStatistics} (h : g.Fits) :
    Conveys (writeGeospatialStatistics g) parseGeospatialStatistics 2 ⟨g.stored, g.run⟩ := by
  have hbox : Carries (writeIf (g.valid = true) (writeStructField 1 (writeBoundingBox g)))
      geospatialStatisticsField 1 .zero ⟨if g.valid then g.box else .zero, [], []⟩ := by
    refine .ite (fun hvalid => ?_) fun hvalid => ?_
    · rw [if_pos hvalid]
      exact .value (fun (s : GeoState) v => { s with stats := v }) (conveys_boundingBox g)
        (fun _ _ => rfl) (by decide)
    · rw [if_neg hvalid]
      rfl
  have htypes := carries_geoTypes h (if g.valid then g.box else .zero) 1
  have hstored : GeoState.storeAll ⟨if g.valid then g.box else .zero, [g.types.length], []⟩
      g.types = ⟨g.stored, g.run⟩ := by
    have hcount := h.count
    cases hvalid : g.valid <;>
    simp [GeoState.storeAll, GeospatialStatistics.stored, GeospatialStatistics.run,
      GeospatialStatistics.box, GeospatialStatistics.zero, hvalid, hcount]
  rw [hstored] at htypes
  exact .struct (.cons hbox (.cons htypes .nil))

/-! ## Columns -/

/-- The column's metadata, and the runs of its geospatial statistics. -/
def ColumnMetadata.traced (m : ColumnMetadata) : Traced ColumnMetadata :=
  ⟨m.stored, m.geospatialStatistics.elim [] fun g => [g.run]⟩

/-- A column whose fields that are always written have been read. -/
def ColumnMetadata.required (m : ColumnMetadata) : ColumnMetadata :=
  { ColumnMetadata.zero with
    type := m.type
    encodings := m.encodings
    numEncodings := m.numEncodings
    pathInSchema := m.pathInSchema
    pathLen := m.pathLen
    codec := m.codec
    numValues := m.numValues
    totalUncompressedSize := m.totalUncompressedSize
    totalCompressedSize := m.totalCompressedSize
    dataPageOffset := m.dataPageOffset }

theorem carries_columnRequired {m : ColumnMetadata} (h : m.Fits) :
    Carries (writeFields (columnRequiredWrites m)) columnMetadataField 2 ⟨.zero, []⟩
      ⟨m.required, []⟩ := by
  refine .of_eq (.cons (.i32 (fun s v => s.keep { s.value with type := v }) (fun _ _ => rfl)
    (by decide)) <|
  .cons (carries_cells (fun s l n => s.keep { s.value with encodings := l, numEncodings := n })
    (fun v _ => .i32 v) h.encodingsCount h.encodingsLimit (by decide) (by intro code h; cases h)
    (fun _ _ => rfl) (by decide)) <|
  .cons (carries_cells (fun s l n => s.keep { s.value with pathInSchema := l, pathLen := n })
    (fun v hv => conveys_string (h.path v hv)) h.pathCount h.pathLimit (by decide)
    (by intro code h; cases h) (fun _ _ => rfl) (by decide)) <|
  .cons (.i32 (fun s v => s.keep { s.value with codec := v }) (fun _ _ => rfl) (by decide)) <|
  .cons (.i64 (fun s v => s.keep { s.value with numValues := v }) (fun _ _ => rfl) (by decide)) <|
  .cons (.i64 (fun s v => s.keep { s.value with totalUncompressedSize := v }) (fun _ _ => rfl)
    (by decide)) <|
  .cons (.i64 (fun s v => s.keep { s.value with totalCompressedSize := v }) (fun _ _ => rfl)
    (by decide)) <|
  .cons (.i64 (fun s v => s.keep { s.value with dataPageOffset := v }) (fun _ _ => rfl)
    (by decide)) .nil) ?_
  simp only [Traced.keep, ColumnMetadata.required, ColumnMetadata.zero]

/-- And those that may be left out, but for the geospatial statistics. -/
def ColumnMetadata.optional (m : ColumnMetadata) : ColumnMetadata :=
  { m.required with
    indexPageOffset := m.indexPageOffset
    dictionaryPageOffset := m.dictionaryPageOffset
    statistics := m.statistics.map Statistics.stored
    bloomFilterOffset := m.bloomFilterOffset
    bloomFilterLength := m.bloomFilterLength }

theorem carries_columnOptional {m : ColumnMetadata} (h : m.Fits) :
    Carries (writeFields (columnOptionalWrites m)) columnMetadataField 2 ⟨m.required, []⟩
      ⟨m.optional, []⟩ := by
  refine .of_eq (.cons (.optI64 (fun s v => s.keep { s.value with indexPageOffset := v }) rfl
    (fun _ _ => rfl) (by decide)) <|
  .cons (.optI64 (fun s v => s.keep { s.value with dictionaryPageOffset := v }) rfl
    (fun _ _ => rfl) (by decide)) <|
  .cons (.whenSome
      (fun s v => s.keep { s.value with statistics := v.map Statistics.stored }) rfl
    fun a ha => .value
      (fun (s : Traced ColumnMetadata) v => s.keep { s.value with statistics := some v })
      ((conveys_statistics (h.statistics a ha)).mono (by decide)) (fun _ _ => rfl)
      (by decide)) <|
  .cons (.optI64 (fun s v => s.keep { s.value with bloomFilterOffset := v }) rfl (fun _ _ => rfl)
    (by decide)) <|
  .cons (.optI32 (fun s v => s.keep { s.value with bloomFilterLength := v }) rfl (fun _ _ => rfl)
    (by decide)) .nil) ?_
  simp only [Traced.keep, ColumnMetadata.optional, ColumnMetadata.required, ColumnMetadata.zero]

theorem carries_geospatialStatistics {m : ColumnMetadata} (h : m.Fits) :
    Carries (writeSome m.geospatialStatistics fun g =>
        writeStructField 17 (writeGeospatialStatistics g)) columnMetadataField 2 ⟨m.optional, []⟩
      m.traced :=
  .whenSome (fun (s : Traced ColumnMetadata) v =>
      ⟨{ s.value with geospatialStatistics := v.map GeospatialStatistics.stored },
        s.runs ++ v.elim [] fun g => [g.run]⟩) rfl
    fun g hg => .of_eq (.value
      (fun (s : Traced ColumnMetadata) v =>
        ⟨{ s.value with geospatialStatistics := some v.stats }, s.runs ++ [v.run]⟩)
      (conveys_geospatialStatistics (h.geospatialStatistics g hg)) (fun _ _ => rfl) (by decide)) rfl

theorem conveys_columnMetadata {m : ColumnMetadata} (h : m.Fits) :
    Conveys (writeColumnMetadata m) parseColumnMetadata 3 m.traced :=
  .struct (.append (.append (carries_columnRequired h) (carries_columnOptional h))
    (.cons (carries_geospatialStatistics h) .nil))

/-- The chunk, and the runs of its column's geospatial statistics. -/
def ColumnChunk.traced (c : ColumnChunk) : Traced ColumnChunk :=
  ⟨c.stored, c.metadata.elim [] fun m => m.traced.runs⟩

theorem conveys_columnChunk {c : ColumnChunk} (h : c.Fits) :
    Conveys (writeColumnChunk c) parseColumnChunk 4 c.traced :=
  .struct <|
    .cons (carries_optString (fun s v => s.keep { s.value with filePath := v }) rfl h.filePath
      (fun _ _ => rfl) (by decide)) <|
    .cons (.i64 (fun s v => s.keep { s.value with fileOffset := v }) (fun _ _ => rfl)
      (by decide)) <|
    .cons (.whenSome (fun (s : Traced ColumnChunk) v => ⟨{ s.value with metadata := v.map ColumnMetadata.stored },
        s.runs ++ v.elim [] fun m => m.traced.runs⟩) rfl
      fun a ha => .value
        (fun (s : Traced ColumnChunk) v => ⟨{ s.value with metadata := some v.value }, s.runs ++ v.runs⟩)
        (conveys_columnMetadata (h.metadata a ha)) (fun _ _ => rfl) (by decide)) <|
    .cons (.optI64 (fun s v => s.keep { s.value with offsetIndexOffset := v }) rfl (fun _ _ => rfl)
      (by decide)) <|
    .cons (.optI32 (fun s v => s.keep { s.value with offsetIndexLength := v }) rfl (fun _ _ => rfl)
      (by decide)) <|
    .cons (.optI64 (fun s v => s.keep { s.value with columnIndexOffset := v }) rfl (fun _ _ => rfl)
      (by decide)) <|
    .cons (.optI32 (fun s v => s.keep { s.value with columnIndexLength := v }) rfl (fun _ _ => rfl)
      (by decide)) .nil

theorem values_traced {α β : Type} {traced : α → Traced β} {stored : α → β}
    (h : ∀ a, (traced a).value = stored a) (l : List α) :
    Traced.values (l.map traced) = l.map stored := by
  rw [Traced.values, List.map_map]
  exact List.map_congr_left fun a _ => h a

/-! ## Row groups and the file -/

theorem conveys_sortingColumn (c : SortingColumn) :
    Conveys (writeSortingColumn c) parseSortingColumn 1 c :=
  .struct <|
    .cons (.i32 (fun c v => { c with columnIdx := v }) (fun _ _ => rfl) (by decide)) <|
    .cons (.bool (fun c v => { c with descending := v }) (fun _ _ _ => rfl) (by decide)) <|
    .cons (.bool (fun c v => { c with nullsFirst := v }) (fun _ _ _ => rfl) (by decide)) .nil

/-- The row group, and the runs of its columns. -/
def RowGroup.traced (rg : RowGroup) : Traced RowGroup :=
  ⟨rg.stored, Traced.allRuns (rg.columns.map ColumnChunk.traced)⟩

theorem conveys_rowGroup {rg : RowGroup} (h : rg.Fits) :
    Conveys (writeRowGroup rg) parseRowGroup 5 rg.traced := by
  have hcolumns : Traced.values (rg.columns.map ColumnChunk.traced) =
      rg.columns.map ColumnChunk.stored := values_traced (fun _ => rfl) _
  refine .struct ?_
  rw [RowGroup.traced, RowGroup.stored, ← hcolumns]
  exact
    .cons (carries_counted (fun (s : Traced RowGroup) l n => ⟨{ s.value with columns := Traced.values l, numColumns := n },
        s.runs ++ Traced.allRuns l⟩)
      (fun c hc => conveys_columnChunk (h.columns c hc)) h.columnsCount h.columnsLimit (by decide)
      (by intro code h; cases h) (fun _ _ => rfl) (by decide)) <|
    .cons (.i64 (fun s v => s.keep { s.value with totalByteSize := v }) (fun _ _ => rfl)
      (by decide)) <|
    .cons (.i64 (fun s v => s.keep { s.value with numRows := v }) (fun _ _ => rfl) (by decide)) <|
    .cons (carries_nonemptyCells
      (fun s l n => s.keep { s.value with sortingColumns := l, numSortingColumns := n }) rfl
      (fun c _ => (conveys_sortingColumn c).mono (by decide)) h.sortingCount h.sortingLimit
      (by decide) (by intro code h; cases h) (fun _ _ => rfl) (by decide)) <|
    .cons (.optI64 (fun s v => s.keep { s.value with fileOffset := v }) rfl (fun _ _ => rfl)
      (by decide)) <|
    .cons (.optI64 (fun s v => s.keep { s.value with totalCompressedSize := v }) rfl
      (fun _ _ => rfl) (by decide)) <|
    .cons (.optI16 (fun s v => s.keep { s.value with ordinal := v }) rfl (fun _ _ => rfl)
      (by decide)) .nil

theorem conveys_keyValue {kv : KeyValue} (h : kv.Fits) :
    Conveys (writeKeyValue kv) parseKeyValue 1 kv.stored := by
  have hkey : (kv.key.getD .empty).1.length < 2147483648 := by
    cases hcase : kv.key with
    | none => decide
    | some s => exact h.key s hcase
  exact .struct <|
    .cons (carries_string (fun kv v => { kv with key := some v }) hkey (fun _ _ => rfl)
      (by decide)) <|
    .cons (carries_optString (fun kv v => { kv with value := v }) rfl h.value (fun _ _ => rfl)
      (by decide)) .nil

/-- A column order is skipped. -/
theorem conveys_columnOrder :
    Conveys writeColumnOrderTypeDefined (fun d => skipping () .struct d) 2 () := by
  refine @Conveys.skipped 2 (.struct (.cons 1 (.struct .nil) .nil)) ((), ()) ⟨trivial, trivial⟩ rfl
    (Nat.le_refl 2) _ fun buffer ids hids => ?_
  have h := writeVal_appends (.struct (.cons 1 (.struct .nil) .nil)) ((), ()) ids (by omega)
    (show 2 ≤ thriftEncoderMaxNesting - ids.length by omega)
  exact h buffer .ok

theorem carries_columnOrders {count : Nat} (h : count ≤ maxColumnsPerRg) {s : Traced FileMetadata}
    (hzero : s.keep { s.value with numColumnOrders := 0 } = s) :
    Carries (writeIf (0 < count) (writeListField 7 .struct count
        (fun _ => writeColumnOrderTypeDefined) (List.replicate count ()))) fileMetadataField 6 s
      (s.keep { s.value with numColumnOrders := count }) := by
  refine .ite (fun _ => ?_) fun hcount => ?_
  · have hlimit : (List.replicate count ()).length ≤ maxColumnsPerRg := by
      rw [List.length_replicate]
      exact h
    refine .list (fun (s : Traced FileMetadata) _ n => s.keep { s.value with numColumnOrders := n })
      (fun _ _ => conveys_columnOrder.mono (by decide)) List.length_replicate.symm hlimit (by decide)
      (by intro code h; cases h) (fun d hd helem hle => ?_) (by decide)
    rw [fileMetadataField, if_neg (not_not.mpr hd)]
    show readCounted _ _ (fun e => skipping () d.readListBegin.1.1 e) _ _ _ = _
    rw [helem, readCounted]
    exact if_neg (Nat.not_lt.mpr hle)
  · have hcount0 : count = 0 := by omega
    rw [hcount0, hzero]

/-- The metadata, and the runs of its columns. -/
def FileMetadata.traced (m : FileMetadata) : Traced FileMetadata :=
  ⟨m.stored, Traced.allRuns (m.rowGroups.map RowGroup.traced)⟩

theorem conveys_fileMetadata {m : FileMetadata} (h : m.Fits) :
    Conveys (writeFileMetadataStruct m) (fun d => d.readStruct fileMetadataField ⟨.zero, []⟩) 7
      m.traced := by
  have hgroups : Traced.values (m.rowGroups.map RowGroup.traced) =
      m.rowGroups.map RowGroup.stored := values_traced (fun _ => rfl) _
  refine .struct ?_
  rw [FileMetadata.traced, FileMetadata.stored, ← hgroups]
  exact
    .cons (.i32 (fun (s : Traced FileMetadata) v => s.keep { s.value with version := v })
      (fun _ hd => if_neg (not_not.mpr hd)) (by decide)) <|
    .cons (carries_counted
      (fun (s : Traced FileMetadata) l n => s.keep { s.value with schema := l, numSchemaElements := n })
      (fun e he => conveys_schemaElement (h.schema e he)) h.schemaCount h.schemaLimit (by decide)
      (by intro code h; cases h) (fun _ hd => if_neg (not_not.mpr hd)) (by decide)) <|
    .cons (.i64 (fun (s : Traced FileMetadata) v => s.keep { s.value with numRows := v })
      (fun _ hd => if_neg (not_not.mpr hd)) (by decide)) <|
    .cons (carries_counted
      (fun (s : Traced FileMetadata) l n => ⟨{ s.value with rowGroups := Traced.values l, numRowGroups := n },
        s.runs ++ Traced.allRuns l⟩)
      (fun rg hrg => (conveys_rowGroup (h.rowGroups rg hrg)).mono (by decide)) h.rowGroupsCount
      h.rowGroupsLimit (by decide) (by intro code h; cases h)
      (fun _ hd => if_neg (not_not.mpr hd)) (by decide)) <|
    .cons (carries_nonempty
      (fun (s : Traced FileMetadata) l n => s.keep { s.value with keyValueMetadata := l, numKeyValue := n }) rfl
      (fun kv hkv => (conveys_keyValue (h.keyValueMetadata kv hkv)).mono (by decide))
      h.keyValueCount h.keyValueLimit (by decide) (by intro code h; cases h)
      (fun _ hd => if_neg (not_not.mpr hd)) (by decide)) <|
    .cons (carries_optString (fun (s : Traced FileMetadata) v => s.keep { s.value with createdBy := v }) rfl h.createdBy
      (fun _ hd => if_neg (not_not.mpr hd)) (by decide)) <|
    .cons (carries_columnOrders h.columnOrdersLimit rfl) .nil

/-! ## The round trip -/

/-- What is left of a footer is what the bytes of its encoder are parsed to. -/
theorem parseFileMetadata_buffer {m : FileMetadata} (h : m.Fits) :
    (writeFileMetadataStruct m .init).status = .ok ∧
      parseFileMetadata (writeFileMetadataStruct m .init).buffer = .ok m.stored := by
  obtain ⟨hstatus, p, b, hread⟩ := (conveys_fileMetadata h).reads_init (by decide)
  refine ⟨hstatus, ?_⟩
  rw [parseFileMetadata, readFileMetadata, hread]
  rfl

theorem writeFileMetadata_eq {m : FileMetadata} (h : m.Fits) :
    writeFileMetadata m = .ok (writeFileMetadataStruct m .init).buffer := by
  rw [writeFileMetadata, if_pos (parseFileMetadata_buffer h).1]

theorem parseFileMetadata_of_write {m : FileMetadata} (h : m.Fits) {footer : Bytes}
    (hwrite : writeFileMetadata m = .ok footer) : parseFileMetadata footer = .ok m.stored := by
  rw [writeFileMetadata_eq h] at hwrite
  obtain rfl := Except.ok.inj hwrite
  exact (parseFileMetadata_buffer h).2

/-- An optional column of three rows, with a bound that has no bytes. -/
def int32Column : ColumnMetadata :=
  { ColumnMetadata.zero with
    type := 1
    encodings := [0, 3]
    numEncodings := 2
    pathInSchema := [.ofBytes [120]]
    pathLen := 1
    numValues := 3
    dataPageOffset := 4
    statistics := some { Statistics.zero with nullCount := some 1, minValue := some [] } }

/-- Its footer: the logical type has no converted type in front of it, and a key has no value. -/
def int32Footer : FileMetadata where
  version := 2
  schema :=
    [{ SchemaElement.zero with name := some (.ofBytes [115]), numChildren := 1 },
      { SchemaElement.zero with
        type := some 1
        repetitionType := some 1
        name := some (.ofBytes [120])
        logicalType := some { LogicalType.zero with id := .integer, integer := ⟨32, true⟩ } }]
  numSchemaElements := 2
  numRows := 3
  rowGroups :=
    [{ RowGroup.zero with
      columns := [{ ColumnChunk.zero with fileOffset := 4, metadata := some int32Column }]
      numColumns := 1
      numRows := 3
      ordinal := some 0 }]
  numRowGroups := 1
  keyValueMetadata := [⟨some (.ofBytes [107]), none⟩]
  numKeyValue := 1
  createdBy := some (.ofBytes [99])
  numColumnOrders := 1

theorem int32Column_fits : int32Column.Fits where
  encodingsCount := rfl
  encodingsLimit := by decide
  pathCount := rfl
  pathLimit := by decide
  path := List.forall_mem_singleton.mpr (by decide)
  statistics _ h := by
    obtain rfl := Option.some.inj h
    refine ⟨nofun, nofun, nofun, fun v hv => ?_⟩
    obtain rfl := Option.some.inj hv
    decide
  geospatialStatistics := nofun

theorem int32Footer_fits : int32Footer.Fits where
  schemaCount := rfl
  schemaLimit := by decide
  schema := by
    have hname : ∀ b : UInt8, ShortString (some (.ofBytes [b])) := by
      intro b v hv
      obtain rfl := Option.some.inj hv
      have hle : ([b].takeWhile (· ≠ 0)).length ≤ 1 := (List.takeWhile_sublist _).length_le
      exact Nat.lt_of_le_of_lt hle (by decide)
    refine List.forall_mem_cons.mpr
      ⟨⟨hname _, nofun⟩, List.forall_mem_singleton.mpr ⟨hname _, fun lt hlt => ?_⟩⟩
    obtain rfl := Option.some.inj hlt
    exact ⟨by decide, by decide⟩
  rowGroupsCount := rfl
  rowGroupsLimit := by decide
  rowGroups := by
    refine List.forall_mem_singleton.mpr ⟨rfl, by decide, ?_, rfl, by decide⟩
    refine List.forall_mem_singleton.mpr ⟨nofun, fun m hm => ?_⟩
    obtain rfl := Option.some.inj hm
    exact int32Column_fits
  keyValueCount := rfl
  keyValueLimit := by decide
  keyValueMetadata := by
    refine List.forall_mem_singleton.mpr ⟨fun v hv => ?_, nofun⟩
    obtain rfl := Option.some.inj hv
    decide
  createdBy v hv := by
    obtain rfl := Option.some.inj hv
    decide
  columnOrdersLimit := by decide

end Parquet

end Carquet
