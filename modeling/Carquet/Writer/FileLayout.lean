import Carquet.Lib.Regions
import Carquet.Metadata.PageIndexFormat
import Carquet.Reader.FileFooter
import Carquet.Thrift.ParquetWrite
import Carquet.Writer.FileWriter
import Carquet.Writer.FooterBounds
import Carquet.Writer.RowGroups

/-!
# The bytes of a file

`src/writer/file_writer.c` over the row group writer, with what goes into the file and where.

* `ParquetWriter` — `carquet_writer_t` (file_writer.c:226-300).
* `bloomFilterHeader` — the header in front of a filter (file_writer.c:1178-1210).
* `ParquetWriter.flushRowGroup` — `flush_row_group` (file_writer.c:997-1288).
* `buildFileMetadata` — `build_file_metadata` (file_writer.c:1302-1555).
* `ParquetWriter.writeBatch`, `ParquetWriter.newRowGroup`, `ParquetWriter.close` —
  `carquet_writer_write_batch`, `carquet_writer_new_row_group`, `carquet_writer_close`
  (file_writer.c:1782-1960).

Appending to the file succeeds and there is memory. Timestamps are given in the unit that is
written, and the value of `ARROW:schema`, where there is one, with the other key-value pairs.
-/

namespace Carquet

open LittleEndian Regions

/-! ## Settings -/

/-- `writer_column_def_t` (file_writer.c:157-166) and what the options make of the column. -/
structure WriterColumn where
  settings : ChunkSettings
  logicalType : LogicalType
  statisticsSortOrderDefined : Bool
  /-- `column_statistics_overrides[i]`, or `write_statistics`. -/
  emitStatistics : Bool
  /-- `column_paths[i]`. -/
  path : List Parquet.CString

/-- What a writer was created with. -/
structure WriterSettings where
  isBufferWriter : Bool
  rowGroupSize : Int
  writeBloomFilters : Bool
  writePageIndex : Bool
  columns : List WriterColumn
  schemaElements : List Parquet.SchemaElement
  sortingColumns : List Parquet.SortingColumn
  kvMetadata : List Parquet.KeyValue
  createdBy : Parquet.CString

/-- `deprecated_stats_are_compatible` (file_writer.c:1290-1300). -/
def WriterColumn.deprecatedStatsAreCompatible (c : WriterColumn) : Bool :=
  !logicalIntegerIsUnsigned c.logicalType && c.statisticsSortOrderDefined

/-! ## Row groups in the file -/

/-- `row_group_column_info_t` (file_writer.c:168-209). -/
structure ColumnEntry (γ : Type) where
  fileOffset : Int
  totalCompressedSize : Nat
  totalUncompressedSize : Int
  numValues : Nat
  dataPageOffset : Int
  dictionaryPageOffset : Option Int
  encodings : List Encoding
  bloomFilter : Option Region
  columnIndex : Option Region
  offsetIndex : Option Region
  /-- The bounds and the null count, where `has_statistics` is set. -/
  statistics : Option (MinMax × Option Nat)
  geoStats : Option γ

/-- `row_group_info_t` (file_writer.c:211-219). -/
structure RowGroupEntry (γ : Type) where
  fileOffset : Nat
  numRows : Nat
  totalByteSize : Nat
  totalCompressedSize : Nat
  ordinal : Nat
  columns : List (ColumnEntry γ)

variable {γ : Type}

/-- The entry of a column's chunk (file_writer.c:1058-1154). -/
def columnEntry (c : WriterColumn) (chunk : EmittedChunk γ) : ColumnEntry γ where
  fileOffset := chunk.info.fileOffset
  totalCompressedSize := chunk.info.totalCompressedSize
  totalUncompressedSize := chunk.info.totalUncompressedSize
  numValues := chunk.info.numValues
  dataPageOffset :=
    if chunk.info.hasDictionaryPage then chunk.info.fileOffset + chunk.info.dictionaryPageSize
    else chunk.info.fileOffset
  dictionaryPageOffset :=
    if chunk.info.hasDictionaryPage then some chunk.info.fileOffset else none
  encodings := chunk.encodings
  bloomFilter := none
  columnIndex := none
  offsetIndex := none
  statistics :=
    if c.emitStatistics && c.statisticsSortOrderDefined &&
        (chunk.info.minMax.isSome || chunk.info.nullCount.isSome) then
      some (chunk.info.minMax, chunk.info.nullCount)
    else none
  geoStats := chunk.info.geoStats

/-! ## What is written behind the chunks -/

/-- A union of the filter's header, whose first member is empty (file_writer.c:1189-1208). -/
def bloomFilterUnion (id : Int) (e : Encoder) : Encoder :=
  (((e.writeFieldHeader .struct id).writeStructBegin.writeFieldHeader .struct 1).writeStructBegin
    ).writeStructEnd.writeStructEnd

/-- `BloomFilterHeader` (file_writer.c:1178-1210): the algorithm, the hash and the compression are
unions. -/
def bloomFilterHeader (f : BloomFilter) : Bytes :=
  let e := (Encoder.init.writeStructBegin.writeFieldHeader .i32 1).writeInt (toI32 f.numBytes)
  (bloomFilterUnion 4 (bloomFilterUnion 3 (bloomFilterUnion 2 e))).writeStructEnd.buffer

/-- A page in the builder of the column index. -/
def ColumnIndexPage.builderEntry (p : ColumnIndexPage) : ColumnIndexEntry where
  nullCount := .ofNat p.nullCount
  minValue := p.minValue.bind PageAccumulator.statBytes
  maxValue := p.maxValue.bind PageAccumulator.statBytes
  nullPage := p.nullPage

/-- The column index of a chunk. -/
def columnIndexBytes (pages : List ColumnIndexPage) : Bytes :=
  (columnIndexSerialize ⟨pages.map ColumnIndexPage.builderEntry, 0⟩).buffer

/-- A page in the builder of the offset index. -/
def PageLocation.builderEntry (p : PageLocation) : OffsetIndexEntry where
  offset := .ofInt p.offset
  compressedSize := .ofInt p.compressedPageSize
  firstRowIndex := .ofInt p.firstRowIndex
  uncompressedSize := .ofInt p.uncompressedPageSize

/-- Its offset index, which tracks uncompressed sizes (column_writer.c:1332). -/
def offsetIndexBytes (pages : List PageLocation) : Bytes :=
  (offsetIndexSerialize ⟨pages.map PageLocation.builderEntry, true⟩).buffer

/-- The output and `file_offset`. -/
structure FileSink where
  output : Bytes
  fileOffset : Nat
  deriving DecidableEq, Repr

namespace FileSink

/-- `writer_append` and the offset behind it (file_writer.c:340-361). -/
def append (sink : FileSink) (data : Bytes) : FileSink :=
  ⟨sink.output ++ data, sink.fileOffset + data.length⟩

/-- A filter, behind its header (file_writer.c:1212-1231). -/
def writeBloomFilter (sink : FileSink) (s : ColumnSlot γ) (e : ColumnEntry γ) :
    FileSink × ColumnEntry γ :=
  match s.writer.bloomFilter with
  | none => (sink, e)
  | some f =>
    let header := bloomFilterHeader f
    ((sink.append header).append f.data,
      { e with bloomFilter := some ⟨sink.fileOffset, header.length + f.data.length⟩ })

/-- The two indexes of a column (file_writer.c:1235-1277). -/
def writePageIndex (sink : FileSink) (s : ColumnSlot γ) (e : ColumnEntry γ) :
    FileSink × ColumnEntry γ :=
  if s.settings.pageIndexEnabled then
    let columnIndex := columnIndexBytes s.writer.columnIndex
    let offsetIndex := offsetIndexBytes s.writer.offsetIndex
    let next := sink.append columnIndex
    (next.append offsetIndex,
      { e with
        columnIndex := some ⟨sink.fileOffset, columnIndex.length⟩
        offsetIndex := some ⟨next.fileOffset, offsetIndex.length⟩ })
  else (sink, e)

/-- A loop over the columns of a row group. -/
def forColumns (write : FileSink → ColumnSlot γ → ColumnEntry γ → FileSink × ColumnEntry γ) :
    FileSink → List (ColumnSlot γ × ColumnEntry γ) → FileSink × List (ColumnSlot γ × ColumnEntry γ)
  | sink, [] => (sink, [])
  | sink, (s, e) :: rest =>
    let (sink, e) := write sink s e
    let (sink, rest) := forColumns write sink rest
    (sink, (s, e) :: rest)

end FileSink

/-! ## The writer -/

/-- `carquet_writer_t` (file_writer.c:226-300); `current` is `current_row_group`. -/
structure ParquetWriter (γ : Type) where
  sink : FileSink
  headerWritten : Bool
  current : Option (RowGroupWriter γ)
  columnValuesWritten : List Nat
  currentRowGroupRows : Nat
  estimatedBytes : Int
  rowGroups : List (RowGroupEntry γ)
  totalRows : Nat

/-- A batch that was given to a column; `lengths` are those of its byte array cells. -/
structure FileWrite extends GroupWrite where
  lengths : List Int

/-- What a call comes to: what it returned, the writer, and the columns of a row group that it
wrote, as they were then. -/
structure WriteResult (γ : Type) where
  status : Except Status Unit
  writer : ParquetWriter γ
  flushed : List (List (ColumnSlot γ))

namespace ParquetWriter

/-- `carquet_writer_create` (file_writer.c:1560-1655). -/
def create (s : WriterSettings) : ParquetWriter γ :=
  ⟨⟨[], 0⟩, false, none, s.columns.map fun _ => 0, 0, 0, [], 0⟩

/-- `ensure_header_written` (file_writer.c:470-484). -/
def ensureHeaderWritten (w : ParquetWriter γ) : ParquetWriter γ :=
  if w.headerWritten then w
  else { w with sink := ⟨w.sink.output ++ parquetMagic, 4⟩, headerWritten := true }

/-- The counters of a new row group (file_writer.c:988-992, 1281-1285). -/
def resetCounters (s : WriterSettings) (w : ParquetWriter γ) : ParquetWriter γ :=
  { w with
    columnValuesWritten := s.columns.map fun _ => 0
    currentRowGroupRows := 0
    estimatedBytes := 0 }

/-- `ensure_row_group` (file_writer.c:876-995). -/
def ensureRowGroup (geo : GeoWalker γ) (s : WriterSettings) (w : ParquetWriter γ) :
    ParquetWriter γ :=
  match w.current with
  | some _ => w
  | none =>
    { w.resetCounters s with
      current := some (.create geo (s.columns.map WriterColumn.settings) w.sink.fileOffset) }

/-- The chunks that went to the file when finalizing the columns came to its end, or failed
(row_group_writer.c:622-666). -/
def finalizedBytes (geo : GeoWalker γ) (env : ChunkEnv) : Int → List (ColumnSlot γ) → Bytes
  | _, [] => []
  | offset, slot :: rest =>
    match (slot.writer.setFileOffset offset).finalize geo env slot.settings with
    | (.error _, _) => []
    | (.ok (), w) => w.columnBuffer ++ finalizedBytes geo env (offset + w.columnBuffer.length) rest

/-- The filters and the indexes of a row group (file_writer.c:1162-1277). -/
def writeTrailing (s : WriterSettings) (sink : FileSink)
    (columns : List (ColumnSlot γ × ColumnEntry γ)) :
    FileSink × List (ColumnSlot γ × ColumnEntry γ) :=
  let filtered :=
    if s.writeBloomFilters then sink.forColumns FileSink.writeBloomFilter columns
    else (sink, columns)
  if s.writePageIndex then filtered.1.forColumns FileSink.writePageIndex filtered.2 else filtered

/-- `flush_row_group` (file_writer.c:997-1288). A writer to a buffer appends the chunks when all are
finalized, one to a file each by itself. -/
def flushRowGroup (geo : GeoWalker γ) (s : WriterSettings) (env : ChunkEnv) (w : ParquetWriter γ) :
    WriteResult γ :=
  match w.current with
  | none => ⟨.ok (), w, []⟩
  | some g =>
    if w.currentRowGroupRows = 0 then ⟨.ok (), w, []⟩
    else
      let data := finalizedBytes geo env g.fileOffset g.columns
      match RowGroupWriter.finalizeColumns geo env g.fileOffset g.columns with
      | (.error e, columns) =>
        let output := if s.isBufferWriter then w.sink.output else w.sink.output ++ data
        ⟨.error e,
          { w with sink := ⟨output, w.sink.fileOffset⟩, current := some { g with columns := columns } },
          []⟩
      | (.ok (), columns) =>
        let entries := List.zipWith columnEntry s.columns (columns.map ColumnSlot.emitted)
        let trailing := writeTrailing s (w.sink.append data) (columns.zip entries)
        let entry : RowGroupEntry γ :=
          { fileOffset := w.sink.fileOffset
            numRows := w.currentRowGroupRows
            totalByteSize := data.length
            totalCompressedSize := data.length
            ordinal := w.rowGroups.length
            columns := trailing.2.map Prod.snd }
        ⟨.ok (),
          { w.resetCounters s with
            sink := trailing.1
            current := some ({ g with columns := columns }.reset trailing.1.fileOffset)
            rowGroups := w.rowGroups ++ [entry]
            totalRows := w.totalRows + w.currentRowGroupRows },
          [columns]⟩

/-- The counters as `current_row_group_is_aligned` and the size limit look at them
(file_writer.c:441-468). -/
def counters (s : WriterSettings) (w : ParquetWriter γ) : FileWriter where
  columns := s.columns.map fun c => c.settings.column
  rowGroupSize := s.rowGroupSize
  rowGroup := none
  columnValuesWritten := w.columnValuesWritten
  currentRowGroupRows := w.currentRowGroupRows
  estimatedBytes := w.estimatedBytes
  rowGroups := []
  totalRows := w.totalRows

/-- The batch as its size is estimated. -/
def batchArgs (write : FileWrite) : BatchArgs where
  numValues := write.args.numValues
  lengths := write.lengths
  hasDefLevels := write.args.defLevels.isSome
  repLevels := write.args.repLevels

/-- The counters when a column has taken a batch (file_writer.c:1846-1868). -/
def countBatch (s : WriterSettings) (w : ParquetWriter γ) (write : FileWrite) (column : Column) :
    ParquetWriter γ :=
  let counted := (w.counters s).countBatch write.column column (batchArgs write)
  { w with
    columnValuesWritten := counted.columnValuesWritten
    currentRowGroupRows := counted.currentRowGroupRows
    estimatedBytes := counted.estimatedBytes }

/-- `carquet_writer_write_batch` (file_writer.c:1782-1886). -/
def writeBatch (geo : GeoWalker γ) (s : WriterSettings) (w : ParquetWriter γ) (write : FileWrite) :
    WriteResult γ :=
  match s.columns[write.column]? with
  | none => ⟨.error .invalidArgument, w, []⟩
  | some column =>
    let w := w.ensureHeaderWritten.ensureRowGroup geo s
    match w.current with
    | none => ⟨.error .invalidArgument, w, []⟩
    | some g =>
      match g.writeColumn geo write.toGroupWrite with
      | (.error e, g) => ⟨.error e, { w with current := some g }, []⟩
      | (.ok (), g) =>
        let w := { w with current := some g }.countBatch s write column.settings.column
        if (w.counters s).autoFlushes then w.flushRowGroup geo s write.env else ⟨.ok (), w, []⟩

/-- `carquet_writer_new_row_group` (file_writer.c:1888-1898). -/
def newRowGroup (geo : GeoWalker γ) (s : WriterSettings) (env : ChunkEnv) (w : ParquetWriter γ) :
    WriteResult γ := w.ensureHeaderWritten.flushRowGroup geo s env

/-! ## The footer -/

end ParquetWriter

/-- The code of a type (types.h:28-37). -/
def PhysicalType.code : PhysicalType → Int32
  | .boolean => 0
  | .int32 => 1
  | .int64 => 2
  | .int96 => 3
  | .float => 4
  | .double => 5
  | .byteArray => 6
  | .fixedLenByteArray => 7

/-- The code of a codec (types.h:199-208); `unknown` is a code that a caller made up. -/
def Compression.code : Compression → Int32
  | .uncompressed => 0
  | .snappy => 1
  | .gzip => 2
  | .lzo => 3
  | .brotli => 4
  | .lz4 => 5
  | .zstd => 6
  | .lz4Raw => 7
  | .unknown => -1

/-- The statistics of a chunk (file_writer.c:1458-1549). -/
def chunkStatistics (c : WriterColumn) (statistics : MinMax × Option Nat) : Parquet.Statistics :=
  let counted := { Parquet.Statistics.zero with nullCount := statistics.2.map Int64.ofNat }
  let variableLen := decide (c.settings.column.type = .byteArray)
  match statistics.1.bind fun b => footerBounds variableLen c.deprecatedStatsAreCompatible b.1 b.2 with
  | none => counted
  | some b =>
    { counted with
      minValue := some b.minValue
      isMinValueExact := some b.isMinValueExact
      maxValue := b.maxValue
      isMaxValueExact := b.isMaxValueExact
      minDeprecated := b.minDeprecated
      maxDeprecated := b.maxDeprecated }

/-- The metadata of a chunk (file_writer.c:1399-1551). -/
def footerMetadata (geoStats : γ → Parquet.GeospatialStatistics) (c : WriterColumn)
    (e : ColumnEntry γ) : Parquet.ColumnMetadata :=
  { Parquet.ColumnMetadata.zero with
    type := c.settings.column.type.code
    encodings := e.encodings.map Encoding.code
    numEncodings := e.encodings.length
    pathInSchema := c.path
    pathLen := c.path.length
    codec := c.settings.compression.code
    numValues := .ofNat e.numValues
    totalUncompressedSize := .ofInt e.totalUncompressedSize
    totalCompressedSize := .ofNat e.totalCompressedSize
    dataPageOffset := .ofInt e.dataPageOffset
    dictionaryPageOffset := e.dictionaryPageOffset.map Int64.ofInt
    statistics := e.statistics.map (chunkStatistics c)
    bloomFilterOffset := e.bloomFilter.map fun r => .ofNat r.offset
    bloomFilterLength := e.bloomFilter.map fun r => .ofNat r.length
    geospatialStatistics := (e.geoStats.map geoStats).filter fun g => g.valid || 0 < g.numTypes }

/-- A chunk of the footer (file_writer.c:1392-1551). -/
def footerColumn (geoStats : γ → Parquet.GeospatialStatistics) (c : WriterColumn)
    (e : ColumnEntry γ) : Parquet.ColumnChunk where
  filePath := none
  fileOffset := .ofInt e.fileOffset
  metadata := some (footerMetadata geoStats c e)
  offsetIndexOffset := e.offsetIndex.map fun r => .ofNat r.offset
  offsetIndexLength := e.offsetIndex.map fun r => .ofNat r.length
  columnIndexOffset := e.columnIndex.map fun r => .ofNat r.offset
  columnIndexLength := e.columnIndex.map fun r => .ofNat r.length

/-- A row group of the footer (file_writer.c:1372-1391). -/
def footerRowGroup (geoStats : γ → Parquet.GeospatialStatistics) (s : WriterSettings)
    (rg : RowGroupEntry γ) : Parquet.RowGroup where
  columns := List.zipWith (footerColumn geoStats) s.columns rg.columns
  numColumns := rg.columns.length
  totalByteSize := .ofNat rg.totalByteSize
  numRows := .ofNat rg.numRows
  sortingColumns := s.sortingColumns
  numSortingColumns := s.sortingColumns.length
  fileOffset := some (.ofNat rg.fileOffset)
  totalCompressedSize := some (.ofNat rg.totalCompressedSize)
  ordinal := some (.ofNat rg.ordinal)

/-- `build_file_metadata` (file_writer.c:1302-1555). -/
def buildFileMetadata (geoStats : γ → Parquet.GeospatialStatistics) (s : WriterSettings)
    (w : ParquetWriter γ) : Parquet.FileMetadata where
  version := 2
  schema := s.schemaElements
  numSchemaElements := s.schemaElements.length
  numRows := .ofNat w.totalRows
  rowGroups := w.rowGroups.map (footerRowGroup geoStats s)
  numRowGroups := w.rowGroups.length
  keyValueMetadata := s.kvMetadata
  numKeyValue := s.kvMetadata.length
  createdBy := some s.createdBy
  numColumnOrders := s.columns.length

namespace ParquetWriter

/-- The footer, its length and the magic behind the row groups (file_writer.c:1921-1958). -/
def writeFooter (w : ParquetWriter γ) (m : Parquet.FileMetadata) : Except Status Bytes := do
  let footer ← Parquet.writeFileMetadata m
  return w.sink.output ++ (footer ++ (leBytes 4 footer.length ++ parquetMagic))

/-- `carquet_writer_close` (file_writer.c:1900-1960): the file, if the last row group can be
finalized and the footer encoded. -/
def close (geo : GeoWalker γ) (geoStats : γ → Parquet.GeospatialStatistics) (s : WriterSettings)
    (env : ChunkEnv) (w : ParquetWriter γ) : Except Status Bytes × List (List (ColumnSlot γ)) :=
  let flushed := w.ensureHeaderWritten.flushRowGroup geo s env
  match flushed.status with
  | .error e => (.error e, flushed.flushed)
  | .ok () => (flushed.writer.writeFooter (buildFileMetadata geoStats s flushed.writer), flushed.flushed)

/-! ## Runs -/

/-- A call on the writer before it is closed. -/
inductive FileCall where
  | writeBatch (write : FileWrite)
  | newRowGroup (env : ChunkEnv)

def call (geo : GeoWalker γ) (s : WriterSettings) (w : ParquetWriter γ) : FileCall → WriteResult γ
  | .writeBatch write => w.writeBatch geo s write
  | .newRowGroup env => w.newRowGroup geo s env

end ParquetWriter

end Carquet
