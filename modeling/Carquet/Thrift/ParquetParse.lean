import Carquet.Thrift.Lists
import Carquet.Thrift.ParquetTypes

/-!
# Parsing a footer

`parquet_parse_file_metadata` and the parsers of the structures in it
(`src/thrift/parquet_types.c:26-910`). Every parser is a loop over the fields of a struct, and its
body is the `…Field` definition.

* `VALIDATE_COUNT` makes a parser return with an error in the decoder, in the middle of its struct;
  here the error ends the loop. Nothing looks at the nesting level after an error.
* `VALIDATE_COUNT_STATUS` returns `CARQUET_ERROR_INVALID_METADATA` from the whole parser; here that
  is the decoder's error.
* The one array that is not sized by the count read for it is the array of 64 type codes in a
  column's geospatial statistics. What is stored to it is kept in a `GeoRun`; a parser that went
  over such statistics has its result `Traced` with their runs. A store past the array is undefined
  in C, and goes on here as if the array did.
-/

namespace Carquet

namespace Parquet

open Decoder

/-! ## Scalars -/

/-- `arena_strdup_thrift` (parquet_types.c:68-76): no data is an empty string. -/
def arenaStrdup (d : Decoder) : CString × Decoder :=
  (.ofBytes (d.readBinary.1.getD []), d.readBinary.2)

/-- `arena_bindup_thrift` (parquet_types.c:78-84). -/
def arenaBindup (d : Decoder) : Option Bytes × Decoder :=
  (d.readBinary.1.filter fun data => 0 < data.length, d.readBinary.2)

theorem length_readDouble (d : Decoder) : d.readDouble.1.length = 8 := by
  unfold readDouble
  split
  · rfl
  · rename_i h
    simp only [List.length_take]
    omega

/-- `thrift_read_double` (thrift_decode.c:118-129). -/
def readDoubleBits (d : Decoder) : Double × Decoder :=
  (⟨d.readDouble.1, length_readDouble d⟩, d.readDouble.2)

/-! ## Counted arrays -/

/-- `thrift_read_list_begin`, the check of the count, the array of as many cells and the loop that
fills them. A count over `limit` leaves the structure and is the error `status`. -/
def readCounted {α σ : Type} (limit : Nat) (status : Status)
    (read : Decoder → Option (α × Decoder)) (set : List α → Nat → σ) (s : σ) (d : Decoder) :
    Option (σ × Decoder) :=
  let l := d.readListBegin
  if limit < l.1.2 then some (s, { l.2 with status := status })
  else (l.2.readElems read l.1.2).map fun r => (set r.1 l.1.2, r.2)

/-- A cell that is one number. -/
def readCell (d : Decoder) : Option (Int32 × Decoder) := storing Int32.ofInt d.readI32

/-! ## Statistics -/

/-- A field of `Statistics` (parquet_types.c:99-140). -/
def statisticsField (id : Int) (type : ThriftType) (s : Statistics) (d : Decoder) :
    Option (Statistics × Decoder) :=
  match id with
  | 1 => storing (fun v => { s with maxDeprecated := v }) (arenaBindup d)
  | 2 => storing (fun v => { s with minDeprecated := v }) (arenaBindup d)
  | 3 => storing (fun v => { s with nullCount := some (.ofInt v) }) d.readI64
  | 4 => storing (fun v => { s with distinctCount := some (.ofInt v) }) d.readI64
  | 5 => storing (fun v => { s with maxValue := v }) (arenaBindup d)
  | 6 => storing (fun v => { s with minValue := v }) (arenaBindup d)
  | 7 => storing (fun v => { s with isMaxValueExact := some v }) d.readBool
  | 8 => storing (fun v => { s with isMinValueExact := some v }) d.readBool
  | _ => skipping s type d

/-- `parse_statistics` (parquet_types.c:91-143). -/
def parseStatistics (d : Decoder) : Option (Statistics × Decoder) :=
  d.readStruct statisticsField .zero

/-! ## Logical types -/

/-- A field of `DecimalType` (parquet_types.c:175-179). -/
def decimalField (id : Int) (type : ThriftType) (p : DecimalParams) (d : Decoder) :
    Option (DecimalParams × Decoder) :=
  match id with
  | 1 => storing (fun v => { p with scale := .ofInt v }) d.readI32
  | 2 => storing (fun v => { p with precision := .ofInt v }) d.readI32
  | _ => skipping p type d

/-- A field of `TimeUnit`: which one it is says the unit, its value is skipped
(parquet_types.c:193-203, 214-224). -/
def timeUnitField (id : Int) (type : ThriftType) (unit : TimeUnit) (d : Decoder) :
    Option (TimeUnit × Decoder) :=
  match id with
  | 1 => skipping .millis type d
  | 2 => skipping .micros type d
  | 3 => skipping .nanos type d
  | _ => skipping unit type d

/-- A field of `TimeType` (parquet_types.c:189-207) or `TimestampType` (parquet_types.c:211-228). -/
def timeField (id : Int) (type : ThriftType) (p : TimeParams) (d : Decoder) :
    Option (TimeParams × Decoder) :=
  match id with
  | 1 => storing (fun v => { p with isAdjustedToUtc := v }) d.readBool
  | 2 => (d.readStruct timeUnitField p.unit).map fun r => ({ p with unit := r.1 }, r.2)
  | _ => skipping p type d

/-- A field of `IntType` (parquet_types.c:232-236). -/
def integerField (id : Int) (type : ThriftType) (p : IntegerParams) (d : Decoder) :
    Option (IntegerParams × Decoder) :=
  match id with
  | 1 => storing (fun v => { p with bitWidth := .ofInt v }) d.readByte
  | 2 => storing (fun v => { p with isSigned := v }) d.readBool
  | _ => skipping p type d

/-- A field of `VariantType` (parquet_types.c:260-270). -/
def variantField (id : Int) (type : ThriftType) (version : Int8) (d : Decoder) :
    Option (Int8 × Decoder) :=
  match id with
  | 1 => storing Int8.ofInt d.readByte
  | _ => skipping version type d

/-- The copy of a coordinate reference system, cut to its array; no data leaves the array
(parquet_types.c:276-284, 296-304). -/
def copyCrs (crs : CString) (data : Option Bytes) : CString :=
  match data with
  | none | some [] => crs
  | some data => .ofBytes (data.take (geospatialCrsMax - 1))

/-- A field of `GeometryType` (parquet_types.c:274-289). -/
def geometryField (id : Int) (type : ThriftType) (crs : CString) (d : Decoder) :
    Option (CString × Decoder) :=
  match id with
  | 1 => storing (copyCrs crs) d.readBinary
  | _ => skipping crs type d

/-- A field of `GeographyType` (parquet_types.c:294-313). -/
def geographyField (id : Int) (type : ThriftType) (p : GeographyParams) (d : Decoder) :
    Option (GeographyParams × Decoder) :=
  match id with
  | 1 => storing (fun v => { p with crs := copyCrs p.crs v }) d.readBinary
  | 2 => storing (fun v => { p with algorithm := .ofInt v, hasAlgorithm := true }) d.readI32
  | _ => skipping p type d

/-- A field of the union `LogicalType` (parquet_types.c:154-319). -/
def logicalTypeField (id : Int) (type : ThriftType) (lt : LogicalType) (d : Decoder) :
    Option (LogicalType × Decoder) :=
  match id with
  | 1 => skipping { lt with id := .string } type d
  | 2 => skipping { lt with id := .map } type d
  | 3 => skipping { lt with id := .list } type d
  | 4 => skipping { lt with id := .enum } type d
  | 5 => (d.readStruct decimalField lt.decimal).map
      fun r => ({ lt with id := .decimal, decimal := r.1 }, r.2)
  | 6 => skipping { lt with id := .date } type d
  | 7 => (d.readStruct timeField lt.time).map fun r => ({ lt with id := .time, time := r.1 }, r.2)
  | 8 => (d.readStruct timeField lt.timestamp).map
      fun r => ({ lt with id := .timestamp, timestamp := r.1 }, r.2)
  | 10 => (d.readStruct integerField lt.integer).map
      fun r => ({ lt with id := .integer, integer := r.1 }, r.2)
  | 11 => skipping { lt with id := .null } type d
  | 12 => skipping { lt with id := .json } type d
  | 13 => skipping { lt with id := .bson } type d
  | 14 => skipping { lt with id := .uuid } type d
  | 15 => skipping { lt with id := .float16 } type d
  | 16 => (d.readStruct variantField 1).map
      fun r => ({ lt with id := .variant, variantVersion := r.1 }, r.2)
  | 17 => (d.readStruct geometryField lt.geometryCrs).map
      fun r => ({ lt with id := .geometry, geometryCrs := r.1 }, r.2)
  | 18 => (d.readStruct geographyField lt.geography).map
      fun r => ({ lt with id := .geography, geography := r.1 }, r.2)
  | _ => skipping lt type d

/-- `parse_logical_type` (parquet_types.c:147-323). -/
def parseLogicalType (d : Decoder) : Option (LogicalType × Decoder) :=
  d.readStruct logicalTypeField .zero

/-- `logical_type_from_converted_type` (parquet_types.c:325-410); `none` when it returns `false`. -/
def logicalTypeFromConvertedType (convertedType scale precision : Int32) : Option LogicalType :=
  let lt := LogicalType.zero
  match convertedType.toInt with
  | 0 => some { lt with id := .string }
  | 1 | 2 => some { lt with id := .map }
  | 3 => some { lt with id := .list }
  | 4 => some { lt with id := .enum }
  | 5 => some { lt with id := .decimal, decimal := ⟨precision, scale⟩ }
  | 6 => some { lt with id := .date }
  | 7 => some { lt with id := .time, time := ⟨.millis, true⟩ }
  | 8 => some { lt with id := .time, time := ⟨.micros, true⟩ }
  | 9 => some { lt with id := .timestamp, timestamp := ⟨.millis, true⟩ }
  | 10 => some { lt with id := .timestamp, timestamp := ⟨.micros, true⟩ }
  | 11 => some { lt with id := .integer, integer := ⟨8, false⟩ }
  | 12 => some { lt with id := .integer, integer := ⟨16, false⟩ }
  | 13 => some { lt with id := .integer, integer := ⟨32, false⟩ }
  | 14 => some { lt with id := .integer, integer := ⟨64, false⟩ }
  | 15 => some { lt with id := .integer, integer := ⟨8, true⟩ }
  | 16 => some { lt with id := .integer, integer := ⟨16, true⟩ }
  | 17 => some { lt with id := .integer, integer := ⟨32, true⟩ }
  | 18 => some { lt with id := .integer, integer := ⟨64, true⟩ }
  | 19 => some { lt with id := .json }
  | 20 => some { lt with id := .bson }
  | 21 => some { lt with id := .interval }
  | _ => none

/-! ## Schema elements -/

/-- A field of `SchemaElement` (parquet_types.c:425-466). -/
def schemaElementField (id : Int) (type : ThriftType) (e : SchemaElement) (d : Decoder) :
    Option (SchemaElement × Decoder) :=
  match id with
  | 1 => storing (fun v => { e with type := some (.ofInt v) }) d.readI32
  | 2 => storing (fun v => { e with typeLength := .ofInt v }) d.readI32
  | 3 => storing (fun v => { e with repetitionType := some (.ofInt v) }) d.readI32
  | 4 => storing (fun v => { e with name := some v }) (arenaStrdup d)
  | 5 => storing (fun v => { e with numChildren := .ofInt v }) d.readI32
  | 6 => storing (fun v => { e with convertedType := some (.ofInt v) }) d.readI32
  | 7 => storing (fun v => { e with scale := .ofInt v }) d.readI32
  | 8 => storing (fun v => { e with precision := .ofInt v }) d.readI32
  | 9 => storing (fun v => { e with fieldId := some (.ofInt v) }) d.readI32
  | 10 => (parseLogicalType d).map fun r => ({ e with logicalType := some r.1 }, r.2)
  | _ => skipping e type d

/-- The logical type that a converted type stands for, where there is none
(parquet_types.c:470-473). -/
def SchemaElement.withLogicalType (e : SchemaElement) : SchemaElement :=
  match e.logicalType, e.convertedType with
  | none, some convertedType =>
    { e with logicalType := logicalTypeFromConvertedType convertedType e.scale e.precision }
  | _, _ => e

/-- `parse_schema_element` (parquet_types.c:417-474). -/
def parseSchemaElement (d : Decoder) : Option (SchemaElement × Decoder) :=
  (d.readStruct schemaElementField .zero).map fun r => (r.1.withLogicalType, r.2)

/-! ## Geospatial statistics -/

/-- What one geospatial statistics struct did to its array of type codes: the count of each list of
them that it holds, and the index of each store, in order. -/
structure GeoRun where
  counts : List Nat
  stores : List Nat
  deriving DecidableEq, Repr

/-- The statistics being read and their run. -/
structure GeoState where
  stats : GeospatialStatistics
  run : GeoRun

def GeoState.zero : GeoState := ⟨.zero, [], []⟩

/-- A list of type codes begins. -/
def GeoState.beginList (s : GeoState) (count : Nat) : GeoState :=
  { s with run := { s.run with counts := s.run.counts ++ [count] } }

/-- `g->types[g->num_types++] = code`. -/
def GeoState.store (s : GeoState) (code : Int32) : GeoState where
  stats := { s.stats with types := s.stats.types ++ [code], numTypes := s.stats.numTypes + 1 }
  run := { s.run with stores := s.run.stores ++ [s.stats.numTypes] }

/-- `for (; i < cnt; i++) { code = thrift_read_i32(dec); if (i < CARQUET_GEO_MAX_TYPES) .. }`, with
`cnt - i` turns left (parquet_types.c:629-634). -/
def geoTypesLoop : Nat → Nat → GeoState → Decoder → GeoState × Decoder
  | _, 0, s, d => (s, d)
  | i, n + 1, s, d =>
    let code := d.readI32
    geoTypesLoop (i + 1) n (if i < geoMaxTypes then s.store (.ofInt code.1) else s) code.2

/-- A field of `BoundingBox`: every one is read as a double (parquet_types.c:610-623). -/
def boundingBoxField (id : Int) (_ : ThriftType) (g : GeospatialStatistics) (d : Decoder) :
    Option (GeospatialStatistics × Decoder) :=
  storing (fun v =>
    match id with
    | 1 => { g with xmin := v, valid := true }
    | 2 => { g with xmax := v, valid := true }
    | 3 => { g with ymin := v, valid := true }
    | 4 => { g with ymax := v, valid := true }
    | 5 => { g with zmin := v, hasZ := true }
    | 6 => { g with zmax := v, hasZ := true }
    | 7 => { g with mmin := v, hasM := true }
    | 8 => { g with mmax := v, hasM := true }
    | _ => g) (readDoubleBits d)

/-- A field of `GeospatialStatistics` (parquet_types.c:605-638). -/
def geospatialStatisticsField (id : Int) (type : ThriftType) (s : GeoState) (d : Decoder) :
    Option (GeoState × Decoder) :=
  match id with
  | 1 => (d.readStruct boundingBoxField s.stats).map fun r => ({ s with stats := r.1 }, r.2)
  | 2 =>
    let l := d.readListBegin
    some (geoTypesLoop 0 l.1.2 (s.beginList l.1.2) l.2)
  | _ => skipping s type d

/-- `case 17` of `parse_column_metadata` (parquet_types.c:598-641). -/
def parseGeospatialStatistics (d : Decoder) : Option (GeoState × Decoder) :=
  d.readStruct geospatialStatisticsField .zero

/-- A result, and the runs of the geospatial statistics read on the way. -/
structure Traced (α : Type) where
  value : α
  runs : List GeoRun

/-- Another result after the same runs. -/
def Traced.keep {α : Type} (s : Traced α) (value : α) : Traced α := { s with value := value }

/-- The results of a loop, and all their runs. -/
def Traced.values {α : Type} (l : List (Traced α)) : List α := l.map Traced.value

def Traced.allRuns {α : Type} (l : List (Traced α)) : List GeoRun := l.flatMap Traced.runs

/-! ## Columns -/

/-- A field of `KeyValue` (parquet_types.c:542-546, 867-873). -/
def keyValueField (id : Int) (type : ThriftType) (kv : KeyValue) (d : Decoder) :
    Option (KeyValue × Decoder) :=
  match id with
  | 1 => storing (fun v => { kv with key := some v }) (arenaStrdup d)
  | 2 => storing (fun v => { kv with value := some v }) (arenaStrdup d)
  | _ => skipping kv type d

def parseKeyValue (d : Decoder) : Option (KeyValue × Decoder) :=
  d.readStruct keyValueField ⟨none, none⟩

/-- A field of `PageEncodingStats` (parquet_types.c:578-585). -/
def encodingStatsField (id : Int) (type : ThriftType) (s : PageEncodingStats) (d : Decoder) :
    Option (PageEncodingStats × Decoder) :=
  match id with
  | 1 => storing (fun v => { s with pageType := .ofInt v }) d.readI32
  | 2 => storing (fun v => { s with encoding := .ofInt v }) d.readI32
  | 3 => storing (fun v => { s with count := .ofInt v }) d.readI32
  | _ => skipping s type d

def parseEncodingStats (d : Decoder) : Option (PageEncodingStats × Decoder) :=
  d.readStruct encodingStatsField ⟨0, 0, 0⟩

/-- A field of `ColumnMetaData` (parquet_types.c:489-646). -/
def columnMetadataField (id : Int) (type : ThriftType) (s : Traced ColumnMetadata) (d : Decoder) :
    Option (Traced ColumnMetadata × Decoder) :=
  let m := s.value
  match id with
  | 1 => storing (fun v => s.keep { m with type := .ofInt v }) d.readI32
  | 2 => readCounted maxEncodings .thriftDecode readCell
      (fun l n => s.keep { m with encodings := l, numEncodings := n }) s d
  | 3 => readCounted maxPathElements .thriftDecode (fun d => some (arenaStrdup d))
      (fun l n => s.keep { m with pathInSchema := l, pathLen := n }) s d
  | 4 => storing (fun v => s.keep { m with codec := .ofInt v }) d.readI32
  | 5 => storing (fun v => s.keep { m with numValues := .ofInt v }) d.readI64
  | 6 => storing (fun v => s.keep { m with totalUncompressedSize := .ofInt v }) d.readI64
  | 7 => storing (fun v => s.keep { m with totalCompressedSize := .ofInt v }) d.readI64
  | 8 => readCounted maxKeyValuePairs .thriftDecode parseKeyValue
      (fun l n => s.keep { m with keyValueMetadata := l, numKeyValue := n }) s d
  | 9 => storing (fun v => s.keep { m with dataPageOffset := .ofInt v }) d.readI64
  | 10 => storing (fun v => s.keep { m with indexPageOffset := some (.ofInt v) }) d.readI64
  | 11 => storing (fun v => s.keep { m with dictionaryPageOffset := some (.ofInt v) }) d.readI64
  | 12 => (parseStatistics d).map fun r => (s.keep { m with statistics := some r.1 }, r.2)
  | 13 => readCounted maxEncodingStats .thriftDecode parseEncodingStats
      (fun l n => s.keep { m with encodingStats := l, numEncodingStats := n }) s d
  | 14 => storing (fun v => s.keep { m with bloomFilterOffset := some (.ofInt v) }) d.readI64
  | 15 => storing (fun v => s.keep { m with bloomFilterLength := some (.ofInt v) }) d.readI32
  | 17 => (parseGeospatialStatistics d).map fun r =>
      (⟨{ m with geospatialStatistics := some r.1.stats }, s.runs ++ [r.1.run]⟩, r.2)
  | _ => skipping s type d

/-- `parse_column_metadata` (parquet_types.c:481-649). -/
def parseColumnMetadata (d : Decoder) : Option (Traced ColumnMetadata × Decoder) :=
  d.readStruct columnMetadataField ⟨.zero, []⟩

/-- A field of `ColumnChunk` (parquet_types.c:664-696). -/
def columnChunkField (id : Int) (type : ThriftType) (s : Traced ColumnChunk) (d : Decoder) :
    Option (Traced ColumnChunk × Decoder) :=
  let c := s.value
  match id with
  | 1 => storing (fun v => s.keep { c with filePath := some v }) (arenaStrdup d)
  | 2 => storing (fun v => s.keep { c with fileOffset := .ofInt v }) d.readI64
  | 3 => (parseColumnMetadata d).map fun r =>
      (⟨{ c with metadata := some r.1.value }, s.runs ++ r.1.runs⟩, r.2)
  | 4 => storing (fun v => s.keep { c with offsetIndexOffset := some (.ofInt v) }) d.readI64
  | 5 => storing (fun v => s.keep { c with offsetIndexLength := some (.ofInt v) }) d.readI32
  | 6 => storing (fun v => s.keep { c with columnIndexOffset := some (.ofInt v) }) d.readI64
  | 7 => storing (fun v => s.keep { c with columnIndexLength := some (.ofInt v) }) d.readI32
  | _ => skipping s type d

/-- `parse_column_chunk` (parquet_types.c:656-699). -/
def parseColumnChunk (d : Decoder) : Option (Traced ColumnChunk × Decoder) :=
  d.readStruct columnChunkField ⟨.zero, []⟩

/-! ## Row groups and the file -/

/-- A field of `SortingColumn` (parquet_types.c:748-763). -/
def sortingColumnField (id : Int) (type : ThriftType) (c : SortingColumn) (d : Decoder) :
    Option (SortingColumn × Decoder) :=
  match id with
  | 1 => storing (fun v => { c with columnIdx := .ofInt v }) d.readI32
  | 2 => storing (fun v => { c with descending := v }) d.readBool
  | 3 => storing (fun v => { c with nullsFirst := v }) d.readBool
  | _ => skipping c type d

def parseSortingColumn (d : Decoder) : Option (SortingColumn × Decoder) :=
  d.readStruct sortingColumnField ⟨0, false, false⟩

/-- A field of `RowGroup` (parquet_types.c:714-783). -/
def rowGroupField (id : Int) (type : ThriftType) (s : Traced RowGroup) (d : Decoder) :
    Option (Traced RowGroup × Decoder) :=
  let rg := s.value
  match id with
  | 1 => readCounted maxColumnsPerRg .thriftDecode parseColumnChunk
      (fun l n => ⟨{ rg with columns := Traced.values l, numColumns := n },
        s.runs ++ Traced.allRuns l⟩) s d
  | 2 => storing (fun v => s.keep { rg with totalByteSize := .ofInt v }) d.readI64
  | 3 => storing (fun v => s.keep { rg with numRows := .ofInt v }) d.readI64
  | 4 => readCounted maxColumnsPerRg .thriftDecode parseSortingColumn
      (fun l n => s.keep { rg with sortingColumns := l, numSortingColumns := n }) s d
  | 5 => storing (fun v => s.keep { rg with fileOffset := some (.ofInt v) }) d.readI64
  | 6 => storing (fun v => s.keep { rg with totalCompressedSize := some (.ofInt v) }) d.readI64
  | 7 => storing (fun v => s.keep { rg with ordinal := some (.ofInt v) }) d.readI16
  | _ => skipping s type d

/-- `parse_row_group` (parquet_types.c:706-787). -/
def parseRowGroup (d : Decoder) : Option (Traced RowGroup × Decoder) :=
  d.readStruct rowGroupField ⟨.zero, []⟩

/-- A field of `FileMetaData` (parquet_types.c:816-900). -/
def fileMetadataField (id : Int) (type : ThriftType) (s : Traced FileMetadata) (d : Decoder) :
    Option (Traced FileMetadata × Decoder) :=
  if d.status ≠ .ok then some (s, d)
  else
    let m := s.value
    match id with
    | 1 => storing (fun v => s.keep { m with version := .ofInt v }) d.readI32
    | 2 => readCounted maxSchemaElements .invalidMetadata parseSchemaElement
        (fun l n => s.keep { m with schema := l, numSchemaElements := n }) s d
    | 3 => storing (fun v => s.keep { m with numRows := .ofInt v }) d.readI64
    | 4 => readCounted maxRowGroups .invalidMetadata parseRowGroup
        (fun l n => ⟨{ m with rowGroups := Traced.values l, numRowGroups := n },
          s.runs ++ Traced.allRuns l⟩) s d
    | 5 => readCounted maxKeyValuePairs .invalidMetadata parseKeyValue
        (fun l n => s.keep { m with keyValueMetadata := l, numKeyValue := n }) s d
    | 6 => storing (fun v => s.keep { m with createdBy := some v }) (arenaStrdup d)
    | 7 => readCounted maxColumnsPerRg .invalidMetadata
        (fun e => skipping () d.readListBegin.1.1 e)
        (fun _ n => s.keep { m with numColumnOrders := n }) s d
    | _ => skipping s type d

/-- The parser up to its last check: the metadata, and the decoder it ends with. -/
def readFileMetadata (data : Bytes) : Option (Traced FileMetadata × Decoder) :=
  (Decoder.init data).readStruct fileMetadataField ⟨.zero, []⟩

/-- `parquet_parse_file_metadata` (parquet_types.c:794-910). -/
def parseFileMetadata (data : Bytes) : Except Status FileMetadata :=
  match readFileMetadata data with
  | none => .error .internal
  | some (s, d) => if d.status ≠ .ok then .error d.status else .ok s.value

end Parquet

end Carquet
