import Carquet.Thrift.ParquetTypes
import Carquet.Thrift.StructWrites

/-!
# Writing a footer

`parquet_write_file_metadata` and the writers of the structures in it
(`src/thrift/parquet_types.c:1096-1801`), each the list of its writes in the order of the source.
The writer leaves out what is at its default: a length, a count of children, a scale or a precision
that is zero, a bound without bytes. It has no write for the key-value pairs and the encoding
statistics of a column.
-/

namespace Carquet

namespace Parquet

/-! ## Fields -/

/-- `thrift_write_string` (thrift_encode.c:103-109), for a string that is there. -/
def writeString (s : CString) (e : Encoder) : Encoder := e.writeBinary s.1

def writeStringField (id : Int) (s : CString) : Encoder → Encoder := writeBinaryField id s.1

/-- `thrift_write_double` (thrift_encode.c:82-86), and its header. -/
def writeDoubleField (id : Int) (v : Double) : Encoder → Encoder := writeBytesField .double id v.1

/-- A field that is an empty struct. -/
def writeMarkField (id : Int) : Encoder → Encoder := writeStructField id (writeStruct [])

/-- A pointer that is not null, to bytes that are there: `x && x_len > 0`. -/
def nonEmpty (bytes : Option Bytes) : Option Bytes := bytes.filter fun v => 0 < v.length

/-! ## Statistics -/

/-- `write_statistics` (parquet_types.c:1096-1146). -/
def writeStatistics (stats : Statistics) : Encoder → Encoder :=
  writeStruct
    [writeSome (nonEmpty stats.maxDeprecated) (writeBinaryField 1),
      writeSome (nonEmpty stats.minDeprecated) (writeBinaryField 2),
      writeSome stats.nullCount (writeI64Field 3),
      writeSome stats.distinctCount (writeI64Field 4),
      writeSome (nonEmpty stats.maxValue) (writeBinaryField 5),
      writeSome (nonEmpty stats.minValue) (writeBinaryField 6),
      writeSome stats.isMaxValueExact (writeBoolField 7),
      writeSome stats.isMinValueExact (writeBoolField 8)]

/-! ## Logical types -/

/-- The field of a `TimeUnit` that says which one it is (parquet_types.c:1203-1209, 1224-1230). -/
def timeUnitId : TimeUnit → Int
  | .millis => 1
  | .micros => 2
  | .nanos => 3

/-- `TimeType` (parquet_types.c:1195-1214) and `TimestampType` (parquet_types.c:1216-1235). -/
def writeTime (p : TimeParams) : Encoder → Encoder :=
  writeStruct
    [writeBoolField 1 p.isAdjustedToUtc,
      writeStructField 2 (writeStruct [writeMarkField (timeUnitId p.unit)])]

/-- `DecimalType` (parquet_types.c:1179-1187). -/
def writeDecimal (p : DecimalParams) : Encoder → Encoder :=
  writeStruct [writeI32Field 1 p.scale, writeI32Field 2 p.precision]

/-- `IntType` (parquet_types.c:1237-1244). -/
def writeInteger (p : IntegerParams) : Encoder → Encoder :=
  writeStruct [writeByteField 1 p.bitWidth, writeBoolField 2 p.isSigned]

/-- `VariantType` (parquet_types.c:1276-1283). -/
def writeVariant (version : Int8) : Encoder → Encoder :=
  writeStruct [writeByteField 1 (if 0 < version then version else 1)]

/-- A coordinate reference system (parquet_types.c:1288-1291, 1298-1301). -/
def writeCrs (crs : CString) : Encoder → Encoder :=
  writeIf (crs ≠ .empty) (writeStringField 1 crs)

/-- `GeographyType` (parquet_types.c:1295-1307). -/
def writeGeography (p : GeographyParams) : Encoder → Encoder :=
  writeStruct [writeCrs p.crs, writeIf (p.hasAlgorithm = true) (writeI32Field 2 p.algorithm)]

/-- The one field of a `LogicalType`, if it has one (parquet_types.c:1154-1311). -/
def logicalTypeWrites (lt : LogicalType) : List (Encoder → Encoder) :=
  match lt.id with
  | .string => [writeMarkField 1]
  | .map => [writeMarkField 2]
  | .list => [writeMarkField 3]
  | .enum => [writeMarkField 4]
  | .decimal => [writeStructField 5 (writeDecimal lt.decimal)]
  | .date => [writeMarkField 6]
  | .time => [writeStructField 7 (writeTime lt.time)]
  | .timestamp => [writeStructField 8 (writeTime lt.timestamp)]
  | .integer => [writeStructField 10 (writeInteger lt.integer)]
  | .null => [writeMarkField 11]
  | .json => [writeMarkField 12]
  | .bson => [writeMarkField 13]
  | .uuid => [writeMarkField 14]
  | .float16 => [writeMarkField 15]
  | .variant => [writeStructField 16 (writeVariant lt.variantVersion)]
  | .geometry => [writeStructField 17 (writeStruct [writeCrs lt.geometryCrs])]
  | .geography => [writeStructField 18 (writeGeography lt.geography)]
  | .unknown | .interval => []

/-- `write_logical_type` (parquet_types.c:1151-1314). -/
def writeLogicalType (lt : LogicalType) : Encoder → Encoder := writeStruct (logicalTypeWrites lt)

/-- The converted type of an integer of 8 bits with this sign; those of 16, 32 and 64 bits follow
it. -/
def convertedInteger (first : Int32) (bitWidth : Int8) : Option Int32 :=
  match bitWidth.toInt with
  | 8 => some first
  | 16 => some (first + 1)
  | 32 => some (first + 2)
  | 64 => some (first + 3)
  | _ => none

/-- The converted type of a unit where `first` is that of milliseconds. -/
def convertedTime (first : Int32) : TimeUnit → Option Int32
  | .millis => some first
  | .micros => some (first + 1)
  | .nanos => none

/-- `converted_type_from_logical_type` (parquet_types.c:1316-1389); `none` when it returns
`false`. -/
def convertedTypeFromLogicalType (lt : LogicalType) : Option Int32 :=
  match lt.id with
  | .string => some 0
  | .map => some 1
  | .list => some 3
  | .enum => some 4
  | .decimal => some 5
  | .date => some 6
  | .time => convertedTime 7 lt.time.unit
  | .timestamp => convertedTime 9 lt.timestamp.unit
  | .integer => convertedInteger (if lt.integer.isSigned then 15 else 11) lt.integer.bitWidth
  | .json => some 19
  | .bson => some 20
  | .interval => some 21
  | .unknown | .null | .uuid | .float16 | .variant | .geometry | .geography => none

/-! ## Schema elements -/

/-- What a logical type changes of its element: the converted type, and a decimal's scale and
precision. INTERVAL is a converted type only. -/
def SchemaElement.withCompat (e : SchemaElement) (lt : LogicalType) : SchemaElement :=
  { e with
    convertedType := (convertedTypeFromLogicalType lt).or e.convertedType
    scale := if lt.id = .decimal then lt.decimal.scale else e.scale
    precision := if lt.id = .decimal then lt.decimal.precision else e.precision
    logicalType := if lt.id = .interval then none else some lt }

/-- `schema_element_with_logical_compat` (parquet_types.c:1391-1417). -/
def schemaElementWithLogicalCompat (e : SchemaElement) : SchemaElement :=
  match e.logicalType with
  | none => e
  | some lt => e.withCompat lt

/-- The fields of `write_schema_element`, of an element made compatible
(parquet_types.c:1426-1488). -/
def schemaElementWrites (e : SchemaElement) : List (Encoder → Encoder) :=
  [writeSome e.type (writeI32Field 1),
    writeIf (0 < e.typeLength) (writeI32Field 2 e.typeLength),
    writeSome e.repetitionType (writeI32Field 3),
    writeSome e.name (writeStringField 4),
    writeIf (0 < e.numChildren) (writeI32Field 5 e.numChildren),
    writeSome e.convertedType (writeI32Field 6),
    writeIf (e.scale ≠ 0) (writeI32Field 7 e.scale),
    writeIf (e.precision ≠ 0) (writeI32Field 8 e.precision),
    writeSome e.fieldId (writeI32Field 9),
    writeSome (e.logicalType.filter fun lt => lt.id ≠ .unknown)
      fun lt => writeStructField 10 (writeLogicalType lt)]

/-- `write_schema_element` (parquet_types.c:1422-1489). -/
def writeSchemaElement (e : SchemaElement) : Encoder → Encoder :=
  writeStruct (schemaElementWrites (schemaElementWithLogicalCompat e))

/-! ## Columns -/

/-- The bounding box of geospatial statistics (parquet_types.c:1570-1595). -/
def writeBoundingBox (g : GeospatialStatistics) : Encoder → Encoder :=
  writeStruct
    [writeDoubleField 1 g.xmin, writeDoubleField 2 g.xmax,
      writeDoubleField 3 g.ymin, writeDoubleField 4 g.ymax,
      writeIf (g.hasZ = true) (writeFields [writeDoubleField 5 g.zmin, writeDoubleField 6 g.zmax]),
      writeIf (g.hasM = true) (writeFields [writeDoubleField 7 g.mmin, writeDoubleField 8 g.mmax])]

/-- Field 17 of `write_column_metadata` (parquet_types.c:1565-1603). -/
def writeGeospatialStatistics (g : GeospatialStatistics) : Encoder → Encoder :=
  writeStruct
    [writeIf (g.valid = true) (writeStructField 1 (writeBoundingBox g)),
      writeListField 2 .i32 g.numTypes (fun code e => e.writeInt code.toInt) g.types]

/-- The fields of a column that are always written (parquet_types.c:1497-1531). -/
def columnRequiredWrites (m : ColumnMetadata) : List (Encoder → Encoder) :=
  [writeI32Field 1 m.type,
    writeListField 2 .i32 m.numEncodings (fun encoding e => e.writeInt encoding.toInt) m.encodings,
    writeListField 3 .binary m.pathLen writeString m.pathInSchema,
    writeI32Field 4 m.codec,
    writeI64Field 5 m.numValues,
    writeI64Field 6 m.totalUncompressedSize,
    writeI64Field 7 m.totalCompressedSize,
    writeI64Field 9 m.dataPageOffset]

/-- Those that are written where they are there (parquet_types.c:1533-1563). -/
def columnOptionalWrites (m : ColumnMetadata) : List (Encoder → Encoder) :=
  [writeSome m.indexPageOffset (writeI64Field 10),
    writeSome m.dictionaryPageOffset (writeI64Field 11),
    writeSome m.statistics fun stats => writeStructField 12 (writeStatistics stats),
    writeSome m.bloomFilterOffset (writeI64Field 14),
    writeSome m.bloomFilterLength (writeI32Field 15)]

/-- `write_column_metadata` (parquet_types.c:1494-1606). -/
def writeColumnMetadata (m : ColumnMetadata) : Encoder → Encoder :=
  writeStruct (columnRequiredWrites m ++ columnOptionalWrites m ++
    [writeSome m.geospatialStatistics fun g => writeStructField 17 (writeGeospatialStatistics g)])

/-- `write_column_chunk` (parquet_types.c:1611-1655). -/
def writeColumnChunk (c : ColumnChunk) : Encoder → Encoder :=
  writeStruct
    [writeSome c.filePath (writeStringField 1),
      writeI64Field 2 c.fileOffset,
      writeSome c.metadata fun m => writeStructField 3 (writeColumnMetadata m),
      writeSome c.offsetIndexOffset (writeI64Field 4),
      writeSome c.offsetIndexLength (writeI32Field 5),
      writeSome c.columnIndexOffset (writeI64Field 6),
      writeSome c.columnIndexLength (writeI32Field 7)]

/-! ## Row groups and the file -/

/-- A sorting column (parquet_types.c:1684-1692). -/
def writeSortingColumn (c : SortingColumn) : Encoder → Encoder :=
  writeStruct
    [writeI32Field 1 c.columnIdx, writeBoolField 2 c.descending, writeBoolField 3 c.nullsFirst]

/-- `write_row_group` (parquet_types.c:1660-1715). -/
def writeRowGroup (rg : RowGroup) : Encoder → Encoder :=
  writeStruct
    [writeListField 1 .struct rg.numColumns writeColumnChunk rg.columns,
      writeI64Field 2 rg.totalByteSize,
      writeI64Field 3 rg.numRows,
      writeIf (0 < rg.numSortingColumns)
        (writeListField 4 .struct rg.numSortingColumns writeSortingColumn rg.sortingColumns),
      writeSome rg.fileOffset (writeI64Field 5),
      writeSome rg.totalCompressedSize (writeI64Field 6),
      writeSome rg.ordinal (writeI16Field 7)]

/-- A key-value pair (parquet_types.c:1767-1774): a key that is null is written as an empty string. -/
def writeKeyValue (kv : KeyValue) : Encoder → Encoder :=
  writeStruct
    [writeStringField 1 (kv.key.getD .empty), writeSome kv.value (writeStringField 2)]

/-- `write_column_order_type_defined` (parquet_types.c:1717-1723). -/
def writeColumnOrderTypeDefined : Encoder → Encoder := writeStruct [writeMarkField 1]

/-- The struct that `parquet_write_file_metadata` writes (parquet_types.c:1738-1792). -/
def writeFileMetadataStruct (m : FileMetadata) : Encoder → Encoder :=
  writeStruct
    [writeI32Field 1 m.version,
      writeListField 2 .struct m.numSchemaElements writeSchemaElement m.schema,
      writeI64Field 3 m.numRows,
      writeListField 4 .struct m.numRowGroups writeRowGroup m.rowGroups,
      writeIf (0 < m.numKeyValue)
        (writeListField 5 .struct m.numKeyValue writeKeyValue m.keyValueMetadata),
      writeSome m.createdBy (writeStringField 6),
      writeIf (0 < m.numColumnOrders)
        (writeListField 7 .struct m.numColumnOrders (fun _ => writeColumnOrderTypeDefined)
          (List.replicate m.numColumnOrders ()))]

/-- `parquet_write_file_metadata` (parquet_types.c:1725-1801). -/
def writeFileMetadata (m : FileMetadata) : Except Status Bytes :=
  let e := writeFileMetadataStruct m .init
  if e.status = .ok then .ok e.buffer else .error e.status

end Parquet

end Carquet
