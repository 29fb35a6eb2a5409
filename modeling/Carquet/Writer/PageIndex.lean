import Carquet.Writer.PageStatistics

/-!
# The page index of a column chunk, as written

* `ColumnPages.addValues`, `ColumnPages.flushCurrentPage` — a batch and a flush
  (column_writer.c:568-621, page_writer.c:1026-1284).
* `columnIndexAddPage`, `columnIndexPageMightMatch`, `compareIndexValues` — their namesakes of
  metadata/page_index.c:199-292, 564-607.
* `ColumnPages.finalize` — `carquet_column_writer_finalize` (column_writer.c:1161-1200) behind
  `carquet_column_writer_set_file_offset`.
* `writeToFile`, `runFile` — the row groups of a file (row_group_writer.c:567-669,
  file_writer.c:997-1288).

Where a page ends, how many bytes it takes and whether its compression succeeds are given with
each flush; so is which batches the page writer takes.
-/

namespace Carquet

/-! ## The column index -/

/-- One page of `carquet_column_index_builder` (page_index.c:77-92). -/
structure ColumnIndexPage where
  nullCount : Nat
  minValue : Option Bytes
  maxValue : Option Bytes
  nullPage : Bool
  deriving DecidableEq, Repr

/-- A bound that is kept: there is one, and it is not empty. -/
def indexBound (bound : Option Bytes) : Option Bytes := bound.filter fun v => 0 < v.length

/-- `carquet_column_index_add_page` (page_index.c:199-245). -/
def columnIndexAddPage (index : List ColumnIndexPage) (nullCount : Nat)
    (minValue maxValue : Option Bytes) (isNullPage : Bool) : List ColumnIndexPage :=
  index ++ [⟨nullCount, indexBound minValue, indexBound maxValue, isNullPage⟩]

/-- `compare_index_values` (page_index.c:264-303). -/
def compareIndexValues (kind : StatKind) (a b : Bytes) : Ordering :=
  if a.length = b.length then
    match kind with
    | .ordered (.int32 u) => compareInt 4 u a b
    | .ordered (.int64 u) => compareInt 8 u a b
    | _ => ByteOrder.lexCompare a b
  else ByteOrder.lexCompare a b

/-- `carquet_column_index_page_might_match` (page_index.c:564-607); `none` without such a page. A
bound of the query that is `none` is open. -/
def columnIndexPageMightMatch (kind : StatKind) (index : List ColumnIndexPage) (page : Nat)
    (minValue maxValue : Option Bytes) : Option Bool :=
  index[page]?.map fun p =>
    if p.nullPage then false
    else if (maxValue.bind fun q => p.minValue.map (compareIndexValues kind q)) = some .lt then false
    else if (minValue.bind fun q => p.maxValue.map (compareIndexValues kind q)) = some .gt then false
    else true

/-! ## Pages -/

/-- `carquet_page_location_t`, and the uncompressed size the offset index tracks. -/
structure PageLocation where
  offset : Int
  compressedPageSize : Int
  firstRowIndex : Int
  uncompressedPageSize : Int
  deriving DecidableEq, Repr

/-- One batch: its present values and the repetition level of each entry, 0 where the caller
passes none. -/
structure LevelBatch where
  cells : List Cell
  repLevels : List Nat
  fits : cells.length ≤ repLevels.length
  deriving DecidableEq, Repr

/-- A call of `carquet_page_writer_add_values`, taken or not. -/
inductive PageCall where
  | accepted (batch : LevelBatch)
  | refused
  deriving DecidableEq, Repr

/-- What the statistics see of a call. -/
def PageCall.addCall : PageCall → AddCall
  | .accepted b => .accepted b.cells
  | .refused => .refused

/-- What `carquet_page_writer_finalize_to_buffer` reports: the bytes it appended, header and
payload, and the payload's size before compression. -/
structure PageBytes where
  pageSize : Nat
  uncompressedSize : Nat
  deriving DecidableEq, Repr

/-- What a column writer is created and configured with. -/
structure IndexColumn where
  type : PhysicalType
  typeLength : Nat
  logicalType : LogicalType
  writeStatistics : Bool
  isPlain : Bool
  deriving DecidableEq, Repr

def IndexColumn.kind (col : IndexColumn) : StatKind :=
  statKind col.type col.typeLength col.logicalType

/-- `write_statistics` of the page writer (page_writer.c:2044-2049). -/
def IndexColumn.collects (col : IndexColumn) : Bool :=
  col.writeStatistics && statsOrderDefinedForLogical col.logicalType

/-- `carquet_page_writer_t`, as far as the index looks at it. -/
structure PageWriter where
  stats : PageStats
  numValues : Nat
  numNulls : Nat
  deriving DecidableEq, Repr

/-- `carquet_page_writer_reset` (page_writer.c:292-306). -/
def PageWriter.reset : PageWriter := ⟨.reset, 0, 0⟩

/-- `carquet_page_writer_add_values` (page_writer.c:1026-1284). -/
def PageWriter.addValues (col : IndexColumn) (w : PageWriter) (call : PageCall) : PageWriter :=
  let stats := if col.collects then w.stats.add col.kind col.isPlain call.addCall else w.stats
  match call with
  | .accepted b =>
    { stats := stats
      numValues := w.numValues + b.repLevels.length
      numNulls := w.numNulls + (b.repLevels.length - b.cells.length) }
  | .refused => { w with stats := stats }

/-- `carquet_page_writer_add_dictionary_indices` and `carquet_page_writer_set_min_max`
(page_writer.c:1941-2009), as `finalize_dictionary` calls them. -/
def PageWriter.addDictionaryIndices (col : IndexColumn) (w : PageWriter) (b : LevelBatch) :
    PageWriter :=
  let minMax := setMinMax (dictMinMax col.kind (b.cells.map Cell.value))
  { stats :=
      if col.collects && minMax.isSome then { w.stats with minMax := minMax } else w.stats
    numValues := b.repLevels.length
    numNulls := b.repLevels.length - b.cells.length }

/-- `carquet_column_writer_internal_t`, as far as the index looks at it. -/
structure ColumnPages where
  page : PageWriter
  bufferSize : Nat
  columnFileOffset : Int
  pageRowOffset : Nat
  columnIndex : List ColumnIndexPage
  offsetIndex : List PageLocation
  deriving DecidableEq, Repr

/-- `carquet_column_writer_reset` (column_writer.c:345-403), also a writer just created. -/
def ColumnPages.reset : ColumnPages := ⟨.reset, 0, 0, 0, [], []⟩

def ColumnPages.addValues (col : IndexColumn) (s : ColumnPages) (call : PageCall) : ColumnPages :=
  { s with page := s.page.addValues col call }

/-- `flush_current_page` (column_writer.c:568-621); `none` is a page that cannot be finalized. -/
def ColumnPages.flushCurrentPage (s : ColumnPages) : Option PageBytes → ColumnPages
  | none => s
  | some b =>
    if s.page.numValues = 0 then s
    else
      let minMax := s.page.stats.minMax
      { page := .reset
        bufferSize := s.bufferSize + b.pageSize
        columnFileOffset := s.columnFileOffset
        pageRowOffset := s.pageRowOffset + s.page.numValues
        columnIndex :=
          columnIndexAddPage s.columnIndex s.page.numNulls (minMax.map Prod.fst)
            (minMax.map Prod.snd) (!minMax.isSome)
        offsetIndex := s.offsetIndex ++
          [{ offset := s.columnFileOffset + s.bufferSize
             compressedPageSize := toI32 b.pageSize
             firstRowIndex := s.pageRowOffset
             uncompressedPageSize := toI32 b.uncompressedSize }] }

/-- `carquet_column_writer_set_file_offset` (column_writer.c:1336-1339). -/
def ColumnPages.setFileOffset (s : ColumnPages) (offset : Int) : ColumnPages :=
  { s with columnFileOffset := offset }

/-! ## A column chunk -/

/-- A step of writing a chunk. -/
inductive PageOp where
  | addValues (call : PageCall)
  | flush (bytes : Option PageBytes)
  deriving DecidableEq, Repr

def ColumnPages.step (col : IndexColumn) (s : ColumnPages) : PageOp → ColumnPages
  | .addValues call => s.addValues col call
  | .flush bytes => s.flushCurrentPage bytes

/-- The life of a chunk. `paged`: what the batches did, then what finalizing did, the replay of
a dictionary column that falls back to PLAIN included. `dictionary`: nothing until
`finalize_dictionary` emits a dictionary page of so many bytes and one data page. -/
inductive ChunkPages where
  | paged (before atEnd : List PageOp)
  | dictionary (dictionaryPageSize : Nat) (batch : LevelBatch) (bytes : PageBytes)
  deriving DecidableEq, Repr

/-- The calls of `carquet_column_writer_write_batch`. -/
def ColumnPages.writeBatches (col : IndexColumn) (s : ColumnPages) : ChunkPages → ColumnPages
  | .paged before _ => before.foldl (ColumnPages.step col) s
  | .dictionary .. => s

/-- `carquet_column_writer_finalize` (column_writer.c:1161-1200). -/
def ColumnPages.finalize (col : IndexColumn) (s : ColumnPages) : ChunkPages → ColumnPages
  | .paged _ atEnd => atEnd.foldl (ColumnPages.step col) s
  | .dictionary dictionaryPageSize batch bytes =>
    ColumnPages.flushCurrentPage
      { s with
        bufferSize := s.bufferSize + dictionaryPageSize
        page := s.page.addDictionaryIndices col batch }
      (some bytes)

/-! ## The file -/

/-- A chunk, the file's length when its bytes were written, and its column writer then. -/
structure PlacedChunk where
  column : IndexColumn
  chunk : ChunkPages
  position : Nat
  written : ColumnPages
  deriving DecidableEq, Repr

/-- `carquet_row_group_writer_write_to_file` (row_group_writer.c:567-669) on column writers that
had their batches: one chunk after the other, `currentOffset` counting along. -/
def writeToFile (currentOffset : Int) (fileLength : Nat) :
    List (IndexColumn × ChunkPages × ColumnPages) → List PlacedChunk
  | [] => []
  | (col, chunk, s) :: rest =>
    let written := (s.setFileOffset currentOffset).finalize col chunk
    ⟨col, chunk, fileLength, written⟩ ::
      writeToFile (currentOffset + written.bufferSize) (fileLength + written.bufferSize) rest

/-- One row group: a chunk for each column, and how many bytes of Bloom filters and indexes the
file writer puts behind it. -/
structure GroupRun where
  chunks : List ChunkPages
  trailing : Nat
  deriving DecidableEq, Repr

/-- The row groups of a file (file_writer.c:997-1288). After each the column writers are reset and
`file_offset` has moved on. -/
def runGroups (cols : List IndexColumn) (fileOffset : Int) (fileLength : Nat)
    (writers : List ColumnPages) : List GroupRun → List PlacedChunk
  | [] => []
  | g :: gs =>
    let ready := (cols.zip (g.chunks.zip writers)).map fun p =>
      (p.1, p.2.1, p.2.2.writeBatches p.1 p.2.1)
    let placed := writeToFile fileOffset fileLength ready
    let size := (placed.map fun c => c.written.bufferSize).sum + g.trailing
    placed ++ runGroups cols (fileOffset + size) (fileLength + size)
      (writers.map fun _ => ColumnPages.reset) gs

/-- A file from its magic on (file_writer.c:480). -/
def runFile (cols : List IndexColumn) (groups : List GroupRun) : List PlacedChunk :=
  runGroups cols 4 4 (cols.map fun _ => ColumnPages.reset) groups

end Carquet
