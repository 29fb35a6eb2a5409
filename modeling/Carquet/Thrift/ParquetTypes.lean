import Carquet.Core.Types

/-!
# The structures of a footer

`src/thrift/parquet_types.h:48-343` and the logical types of `include/carquet/types.h:43-164`. A
`has_` flag and its field are an `Option`; an array is the list of its cells, and its `num_` member
stays a field of its own. An enumeration of the format is the `int32_t` that is read into it.
-/

namespace Carquet

namespace Parquet

/-! ## Limits -/

/-- `CARQUET_MAX_SCHEMA_ELEMENTS` (parquet_types.c:18). -/
def maxSchemaElements : Nat := 10000

/-- `CARQUET_MAX_ROW_GROUPS` (parquet_types.c:19). -/
def maxRowGroups : Nat := 100000

/-- `CARQUET_MAX_COLUMNS_PER_RG` (parquet_types.c:20). -/
def maxColumnsPerRg : Nat := 10000

/-- `CARQUET_MAX_KEY_VALUE_PAIRS` (parquet_types.c:21). -/
def maxKeyValuePairs : Nat := 10000

/-- `CARQUET_MAX_ENCODINGS` (parquet_types.c:22). -/
def maxEncodings : Nat := 100

/-- `CARQUET_MAX_PATH_ELEMENTS` (parquet_types.c:23). -/
def maxPathElements : Nat := 100

/-- `CARQUET_MAX_ENCODING_STATS` (parquet_types.c:24). -/
def maxEncodingStats : Nat := 100

/-- `CARQUET_GEO_MAX_TYPES` (parquet_types.h:131). -/
def geoMaxTypes : Nat := 64

/-- `CARQUET_GEOSPATIAL_CRS_MAX` (types.h:108). -/
def geospatialCrsMax : Nat := 128

/-! ## Scalars -/

/-- What a `char*` points to: the bytes in front of the terminator. -/
abbrev CString : Type := { bytes : Bytes // (0 : UInt8) ∉ bytes }

/-- A copy with a terminator behind it, as far as a reader of strings sees it. -/
def CString.ofBytes (data : Bytes) : CString :=
  ⟨data.takeWhile (· ≠ 0), fun h => by simpa using List.all_eq_true.mp List.all_takeWhile 0 h⟩

def CString.empty : CString := ⟨[], List.not_mem_nil⟩

/-- A `double`, as its eight bytes. -/
abbrev Double : Type := { bytes : Bytes // bytes.length = 8 }

def Double.zero : Double := ⟨List.replicate 8 0, rfl⟩

/-! ## Logical types -/

/-- `carquet_logical_type_id_t` (types.h:77-99). -/
inductive LogicalTypeId where
  | unknown | string | map | list | enum | decimal | date | time | timestamp | integer | null
  | json | bson | uuid | float16 | variant | geometry | geography | interval
  deriving DecidableEq, Repr

/-- `carquet_time_unit_t` (types.h:102-106). -/
inductive TimeUnit where
  | millis | micros | nanos
  deriving DecidableEq, Repr

structure DecimalParams where
  precision : Int32
  scale : Int32
  deriving DecidableEq, Repr

structure IntegerParams where
  bitWidth : Int8
  isSigned : Bool
  deriving DecidableEq, Repr

/-- The parameters of TIME and of TIMESTAMP. -/
structure TimeParams where
  unit : TimeUnit
  isAdjustedToUtc : Bool
  deriving DecidableEq, Repr

structure GeographyParams where
  crs : CString
  algorithm : Int32
  hasAlgorithm : Bool
  deriving DecidableEq, Repr

/-- `carquet_logical_type_t` (types.h:119-164). The members of the union are kept apart. -/
structure LogicalType where
  id : LogicalTypeId
  decimal : DecimalParams
  integer : IntegerParams
  time : TimeParams
  timestamp : TimeParams
  variantVersion : Int8
  geometryCrs : CString
  geography : GeographyParams
  deriving DecidableEq, Repr

/-- `memset(lt, 0, sizeof(*lt))`. -/
def LogicalType.zero : LogicalType where
  id := .unknown
  decimal := ⟨0, 0⟩
  integer := ⟨0, false⟩
  time := ⟨.millis, false⟩
  timestamp := ⟨.millis, false⟩
  variantVersion := 0
  geometryCrs := .empty
  geography := ⟨.empty, 0, false⟩

/-! ## Schema and columns -/

/-- `parquet_schema_element_t` (parquet_types.h:48-83). -/
structure SchemaElement where
  type : Option Int32
  typeLength : Int32
  repetitionType : Option Int32
  name : Option CString
  numChildren : Int32
  convertedType : Option Int32
  scale : Int32
  precision : Int32
  fieldId : Option Int32
  logicalType : Option LogicalType
  deriving DecidableEq, Repr

def SchemaElement.zero : SchemaElement := ⟨none, 0, none, none, 0, none, 0, 0, none, none⟩

/-- `parquet_statistics_t` (parquet_types.h:90-122); a null pointer is `none`. -/
structure Statistics where
  maxDeprecated : Option Bytes
  minDeprecated : Option Bytes
  nullCount : Option Int64
  distinctCount : Option Int64
  maxValue : Option Bytes
  minValue : Option Bytes
  isMaxValueExact : Option Bool
  isMinValueExact : Option Bool
  deriving DecidableEq, Repr

def Statistics.zero : Statistics := ⟨none, none, none, none, none, none, none, none⟩

/-- `parquet_geospatial_statistics_t` (parquet_types.h:133-145); `types` are the cells of the array
that are set. -/
structure GeospatialStatistics where
  valid : Bool
  xmin : Double
  xmax : Double
  ymin : Double
  ymax : Double
  hasZ : Bool
  zmin : Double
  zmax : Double
  hasM : Bool
  mmin : Double
  mmax : Double
  types : List Int32
  numTypes : Nat
  deriving DecidableEq, Repr

def GeospatialStatistics.zero : GeospatialStatistics :=
  ⟨false, .zero, .zero, .zero, .zero, false, .zero, .zero, false, .zero, .zero, [], 0⟩

/-- `parquet_key_value_t` (parquet_types.h:305-308). -/
structure KeyValue where
  key : Option CString
  value : Option CString
  deriving DecidableEq, Repr

/-- `parquet_page_encoding_stats_t` (parquet_types.h:153-157). -/
structure PageEncodingStats where
  pageType : Int32
  encoding : Int32
  count : Int32
  deriving DecidableEq, Repr

/-- `parquet_column_metadata_t` (parquet_types.h:164-222). -/
structure ColumnMetadata where
  type : Int32
  encodings : List Int32
  numEncodings : Nat
  pathInSchema : List CString
  pathLen : Nat
  codec : Int32
  numValues : Int64
  totalUncompressedSize : Int64
  totalCompressedSize : Int64
  keyValueMetadata : List KeyValue
  numKeyValue : Nat
  dataPageOffset : Int64
  indexPageOffset : Option Int64
  dictionaryPageOffset : Option Int64
  statistics : Option Statistics
  encodingStats : List PageEncodingStats
  numEncodingStats : Nat
  bloomFilterOffset : Option Int64
  bloomFilterLength : Option Int32
  geospatialStatistics : Option GeospatialStatistics
  deriving DecidableEq, Repr

def ColumnMetadata.zero : ColumnMetadata :=
  ⟨0, [], 0, [], 0, 0, 0, 0, 0, [], 0, 0, none, none, none, [], 0, none, none, none⟩

/-- `parquet_column_chunk_t` (parquet_types.h:229-255). -/
structure ColumnChunk where
  filePath : Option CString
  fileOffset : Int64
  metadata : Option ColumnMetadata
  offsetIndexOffset : Option Int64
  offsetIndexLength : Option Int32
  columnIndexOffset : Option Int64
  columnIndexLength : Option Int32
  deriving DecidableEq, Repr

def ColumnChunk.zero : ColumnChunk := ⟨none, 0, none, none, none, none, none⟩

/-! ## Row groups and the file -/

/-- `parquet_sorting_column_t` (parquet_types.h:263-270). -/
structure SortingColumn where
  columnIdx : Int32
  descending : Bool
  nullsFirst : Bool
  deriving DecidableEq, Repr

/-- `parquet_row_group_t` (parquet_types.h:272-298). -/
structure RowGroup where
  columns : List ColumnChunk
  numColumns : Nat
  totalByteSize : Int64
  numRows : Int64
  sortingColumns : List SortingColumn
  numSortingColumns : Nat
  fileOffset : Option Int64
  totalCompressedSize : Option Int64
  ordinal : Option Int16
  deriving DecidableEq, Repr

def RowGroup.zero : RowGroup := ⟨[], 0, 0, 0, [], 0, none, none, none⟩

/-- `parquet_file_metadata_t` (parquet_types.h:315-343). -/
structure FileMetadata where
  version : Int32
  schema : List SchemaElement
  numSchemaElements : Nat
  numRows : Int64
  rowGroups : List RowGroup
  numRowGroups : Nat
  keyValueMetadata : List KeyValue
  numKeyValue : Nat
  createdBy : Option CString
  numColumnOrders : Nat
  deriving DecidableEq, Repr

def FileMetadata.zero : FileMetadata := ⟨0, [], 0, 0, [], 0, [], 0, none, 0⟩

end Parquet

end Carquet
