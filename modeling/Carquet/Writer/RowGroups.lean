import Carquet.Writer.ColumnChunk

/-!
# Row groups, one after the other

* `RowGroupWriter` — `carquet_row_group_writer_t` (row_group_writer.c:145-166) and the
  `column_chunk_info_t` of each of its columns (row_group_writer.c:108-139).
* `RowGroupWriter.writeColumn`, `RowGroupWriter.finalizeColumns`, `RowGroupWriter.reset` — their
  namesakes (row_group_writer.c:178-243, 315-345, 452-471, 558-669).
* `RowGroupWriter.flush` — `flush_row_group` (file_writer.c:997-1288), as far as it works on the
  row group writer.

Columns are finalized one after the other. Finalizing them at once, as a build with OpenMP does
without a page index, gives the same chunks. Writing to the file succeeds; how many bytes of filters
and indexes follow the chunks is given with each flush.
-/

namespace Carquet

/-- `column_chunk_info_t` (row_group_writer.c:108-139), what changes of it. -/
structure ChunkInfo (γ : Type) where
  fileOffset : Int
  totalCompressedSize : Nat
  totalUncompressedSize : Int
  numValues : Nat
  minMax : MinMax
  nullCount : Option Nat
  hasDictionaryPage : Bool
  dictionaryPageSize : Nat
  geoStats : Option γ
  deriving DecidableEq, Repr

/-- A column of a row group writer. -/
structure ColumnSlot (γ : Type) where
  settings : ChunkSettings
  writer : ChunkWriter γ
  info : ChunkInfo γ

/-- `carquet_row_group_writer_t` (row_group_writer.c:145-166). -/
structure RowGroupWriter (γ : Type) where
  fileOffset : Int
  columns : List (ColumnSlot γ)

/-- A chunk as it goes into the file and its metadata: the pages, the chunk's entry, the encodings
it names, its filter and its indexes. -/
structure EmittedChunk (γ : Type) where
  bytes : Bytes
  info : ChunkInfo γ
  encodings : List Encoding
  bloomFilter : Option BloomFilter
  columnIndex : List ColumnIndexPage
  offsetIndex : List PageLocation

/-- A batch for one column, and what its calls meet. -/
structure GroupWrite where
  env : ChunkEnv
  column : Nat
  args : ChunkArgs Value

variable {γ : Type}

namespace ChunkInfo

/-- `memset` (row_group_writer.c:430). -/
def create : ChunkInfo γ := ⟨0, 0, 0, 0, none, none, false, 0, none⟩

/-- What `carquet_row_group_writer_reset` does to it (row_group_writer.c:326-343): the geospatial
statistics are left. -/
def reset (info : ChunkInfo γ) : ChunkInfo γ := { (create : ChunkInfo γ) with geoStats := info.geoStats }

/-- `capture_column_statistics` and `capture_dictionary_info` (row_group_writer.c:178-243), behind
the sizes (row_group_writer.c:643-650). -/
def capture (info : ChunkInfo γ) (c : ChunkSettings) (w : ChunkWriter γ) (offset : Int) :
    ChunkInfo γ where
  fileOffset := offset
  totalCompressedSize := w.columnBuffer.length
  totalUncompressedSize := w.totalUncompressedSize
  numValues := w.totalValues
  minMax := if c.writeStatistics then setMinMax w.minMax else info.minMax
  nullCount := if c.writeStatistics then some w.totalNulls else info.nullCount
  hasDictionaryPage := w.hasDictionaryPage
  dictionaryPageSize := w.dictionaryPageSizeBytes
  geoStats := if c.geoEnabled then some w.page.geoStats else info.geoStats

/-- `encodings` of the chunk's metadata (file_writer.c:1087-1107). -/
def encodings (info : ChunkInfo γ) (c : ChunkSettings) : List Encoding :=
  if info.hasDictionaryPage then [.plain, .rleDictionary, .rle]
  else if c.encoding = .rleDictionary ∨ c.encoding = .plainDictionary then [.plain, .rle]
  else [c.encoding, .rle]

end ChunkInfo

namespace ColumnSlot

/-- `carquet_row_group_writer_add_column` (row_group_writer.c:352-450). -/
def create (geo : GeoWalker γ) (c : ChunkSettings) : ColumnSlot γ := ⟨c, .create geo c, .create⟩

def reset (s : ColumnSlot γ) : ColumnSlot γ :=
  { s with writer := s.writer.reset s.settings, info := s.info.reset }

/-- The chunk of a column that was finalized. -/
def emitted (s : ColumnSlot γ) : EmittedChunk γ where
  bytes := s.writer.columnBuffer
  info := s.info
  encodings := s.info.encodings s.settings
  bloomFilter := s.writer.bloomFilter
  columnIndex := s.writer.columnIndex
  offsetIndex := s.writer.offsetIndex

/-- A batch for this column. -/
def writeBatch (geo : GeoWalker γ) (env : ChunkEnv) (s : ColumnSlot γ) (args : ChunkArgs Value) :
    Except Status Unit × ColumnSlot γ :=
  let (status, w) := s.writer.writeBatch geo env s.settings args
  (status, { s with writer := w })

end ColumnSlot

namespace RowGroupWriter

/-- `carquet_row_group_writer_create` and its columns. -/
def create (geo : GeoWalker γ) (settings : List ChunkSettings) (fileOffset : Int) :
    RowGroupWriter γ := ⟨fileOffset, settings.map (.create geo)⟩

/-- `carquet_row_group_writer_reset` (row_group_writer.c:315-345). -/
def reset (g : RowGroupWriter γ) (fileOffset : Int) : RowGroupWriter γ :=
  ⟨fileOffset, g.columns.map .reset⟩

/-- `carquet_row_group_writer_write_column` (row_group_writer.c:452-471). -/
def writeColumn (geo : GeoWalker γ) (g : RowGroupWriter γ) (write : GroupWrite) :
    Except Status Unit × RowGroupWriter γ :=
  match g.columns[write.column]? with
  | none => (.error .invalidArgument, g)
  | some slot =>
    let (status, slot) := slot.writeBatch geo write.env write.args
    (status, { g with columns := g.columns.set write.column slot })

/-- The loop of `carquet_row_group_writer_write_to_file` (row_group_writer.c:622-666), also of
`carquet_row_group_writer_finalize` (row_group_writer.c:518-549). -/
def finalizeColumns (geo : GeoWalker γ) (env : ChunkEnv) :
    Int → List (ColumnSlot γ) → Except Status Unit × List (ColumnSlot γ)
  | _, [] => (.ok (), [])
  | offset, slot :: rest =>
    match (slot.writer.setFileOffset offset).finalize geo env slot.settings with
    | (.error e, w) => (.error e, { slot with writer := w } :: rest)
    | (.ok (), w) =>
      let (status, rest) := finalizeColumns geo env (offset + w.columnBuffer.length) rest
      (status, { slot with writer := w, info := slot.info.capture slot.settings w offset } :: rest)

/-- `flush_row_group` (file_writer.c:997-1288): the chunks, and the writer reset behind them. -/
def flush (geo : GeoWalker γ) (env : ChunkEnv) (trailing : Nat) (g : RowGroupWriter γ) :
    Except Status (List (EmittedChunk γ)) × RowGroupWriter γ :=
  match finalizeColumns geo env g.fileOffset g.columns with
  | (.error e, columns) => (.error e, { g with columns := columns })
  | (.ok (), columns) =>
    let size := (columns.map fun s => s.writer.columnBuffer.length).sum + trailing
    (.ok (columns.map ColumnSlot.emitted),
      reset { g with columns := columns } (g.fileOffset + size))

/-- The batches of a row group, with what each returned. -/
def writeColumns (geo : GeoWalker γ) (g : RowGroupWriter γ) :
    List GroupWrite → List (Except Status Unit) × RowGroupWriter γ
  | [] => ([], g)
  | write :: writes =>
    let (status, g) := g.writeColumn geo write
    let (statuses, g) := writeColumns geo g writes
    (status :: statuses, g)

end RowGroupWriter

end Carquet
