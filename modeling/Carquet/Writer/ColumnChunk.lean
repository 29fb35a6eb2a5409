import Carquet.Encoding.Dictionary
import Carquet.Writer.BloomColumn
import Carquet.Writer.NullPages
import Carquet.Writer.PageValues

/-!
# The writer of a column chunk

* `ChunkWriter` — `carquet_column_writer_internal_t` (column_writer.c:139-214) but for its settings.
* `ChunkWriter.create`, `ChunkWriter.reset` — their namesakes (column_writer.c:222-300, 344-400).
* `ChunkWriter.flushCurrentPage` — `flush_current_page` (column_writer.c:555-621).
* `ChunkWriter.writeBatch` — `carquet_column_writer_write_batch` (column_writer.c:807-889) with
  `dict_accumulate` (column_writer.c:727-805).
* `ChunkWriter.finalize` — `carquet_column_writer_finalize` (column_writer.c:1161-1200) with
  `finalize_dictionary` and `dict_fallback_to_plain` (column_writer.c:969-1159).

The array behind `dict_rep_levels` outlives a row group: what it holds behind `dict_rep_count` is
`staleRepLevels`.
-/

namespace Carquet

open LittleEndian

/-- `carquet_column_writer_internal_t` (column_writer.c:139-214). -/
structure ChunkWriter (γ : Type) where
  page : PageAccumulator γ
  columnBuffer : Bytes
  totalValues : Nat
  totalNulls : Nat
  totalUncompressedSize : Int
  totalCompressedSize : Int
  numPages : Nat
  minMax : MinMax
  bloomFilter : Option BloomFilter
  columnIndex : List ColumnIndexPage
  offsetIndex : List PageLocation
  pageRowOffset : Nat
  columnFileOffset : Int
  useDictionary : Bool
  dict : DictBuffers Value
  dictTotalNulls : Nat
  staleRepLevels : List Int
  hasDictionaryPage : Bool
  dictionaryPageSizeBytes : Nat

/-- `use_dictionary` of a column writer just created (column_writer.c:271-281). -/
def ChunkSettings.useDictionary (c : ChunkSettings) : Bool :=
  dictEligibleType c.column.type && (c.encoding = .rleDictionary || c.encoding = .plainDictionary)

variable {γ : Type}

/-! ## Dictionaries -/

/-- The walk of `dict_entry_count` over a payload of BYTE_ARRAY (column_writer.c:901-912). -/
def dictEntryWalk : Nat → Bytes → Nat
  | 0, _ => 0
  | fuel + 1, payload =>
    if payload.length < 4 then 0
    else dictEntryWalk fuel (payload.drop (4 + leNat (payload.take 4))) + 1

/-- `dict_entry_count` (column_writer.c:898-917). -/
def dictEntryCount (column : Column) (payload : Bytes) : Nat :=
  if column.type = .byteArray then dictEntryWalk payload.length payload
  else payload.length / physicalTypeStride column.type column.typeLength

/-- What `finalize_dictionary` makes of the values (column_writer.c:1079-1121): the payloads of the
two pages and the number of entries, or none, when it falls back. -/
def chooseDictionary (c : ChunkSettings) (values : List Value) :
    Except Status (Option (Bytes × Bytes × Nat)) := do
  match ← dictionaryEncodeCapped c.column.type values c.dictionaryPageSizeLimit with
  | none => return none
  | some (payload, indices) =>
    let numUnique := dictEntryCount c.column payload
    return if values.length ≤ numUnique then none else some (payload, indices, numUnique)

/-- `merge_page_statistics` (column_writer.c:516-553) for a type of any kind. -/
def mergeStatistics (kind : StatKind) (column page : MinMax) : MinMax :=
  match page with
  | none => column
  | some (pageMin, pageMax) =>
    if pageMin.length = 0 ∨ pageMax.length = 0 then column
    else widen (compareStatKind kind) column pageMin pageMax

namespace ChunkWriter

/-- `carquet_column_writer_create` and the setters behind it (column_writer.c:222-300). -/
def create (geo : GeoWalker γ) (c : ChunkSettings) : ChunkWriter γ where
  page := .create geo c.encoding
  columnBuffer := []
  totalValues := 0
  totalNulls := 0
  totalUncompressedSize := 0
  totalCompressedSize := 0
  numPages := 0
  minMax := none
  bloomFilter := c.bloomFilterBytes.map BloomFilter.create
  columnIndex := []
  offsetIndex := []
  pageRowOffset := 0
  columnFileOffset := 0
  useDictionary := c.useDictionary
  dict := ⟨0, [], [], []⟩
  dictTotalNulls := 0
  staleRepLevels := []
  hasDictionaryPage := false
  dictionaryPageSizeBytes := 0

/-- `carquet_column_writer_reset` (column_writer.c:344-400). The page's encoding, `use_dictionary`
and the array of repetition levels are left as they are. -/
def reset (c : ChunkSettings) (w : ChunkWriter γ) : ChunkWriter γ where
  page := w.page.reset
  columnBuffer := []
  totalValues := 0
  totalNulls := 0
  totalUncompressedSize := 0
  totalCompressedSize := 0
  numPages := 0
  minMax := none
  bloomFilter := c.bloomFilterBytes.map BloomFilter.create
  columnIndex := []
  offsetIndex := []
  pageRowOffset := 0
  columnFileOffset := 0
  useDictionary := w.useDictionary
  dict := ⟨0, [], [], []⟩
  dictTotalNulls := 0
  staleRepLevels := w.dict.repLevels ++ w.staleRepLevels
  hasDictionaryPage := false
  dictionaryPageSizeBytes := 0

/-- `carquet_column_writer_set_file_offset` (column_writer.c:1336-1339). -/
def setFileOffset (w : ChunkWriter γ) (offset : Int) : ChunkWriter γ :=
  { w with columnFileOffset := offset }

/-! ## Pages -/

/-- The indexes and totals once a page is in the column buffer (column_writer.c:586-618). -/
def recordPage (c : ChunkSettings) (w : ChunkWriter γ) (page : FinalizedPage) : ChunkWriter γ :=
  let minMax := w.page.stats.minMax
  { w with
    columnBuffer := page.outputBuffer
    columnIndex :=
      if c.pageIndexEnabled then
        columnIndexAddPage w.columnIndex w.page.numNulls (minMax.map Prod.fst) (minMax.map Prod.snd)
          (!minMax.isSome)
      else w.columnIndex
    offsetIndex :=
      if c.pageIndexEnabled then
        w.offsetIndex ++
          [{ offset := w.columnFileOffset + w.columnBuffer.length
             compressedPageSize := toI32 page.pageSize
             firstRowIndex := w.pageRowOffset
             uncompressedPageSize := page.uncompressedSize }]
      else w.offsetIndex
    pageRowOffset := if c.pageIndexEnabled then w.pageRowOffset + w.page.numValues else w.pageRowOffset
    totalUncompressedSize := w.totalUncompressedSize + page.uncompressedSize
    totalCompressedSize := w.totalCompressedSize + page.compressedSize
    numPages := w.numPages + 1
    page := w.page.reset }

/-- The page's nulls and bounds, counted before it is finalized (column_writer.c:580-586). -/
def countPage (c : ChunkSettings) (w : ChunkWriter γ) : ChunkWriter γ :=
  { w with
    totalNulls := w.totalNulls + w.page.numNulls
    minMax := mergeStatistics c.kind w.minMax w.page.stats.minMax }

/-- `flush_current_page` (column_writer.c:555-621). -/
def flushCurrentPage (env : ChunkEnv) (c : ChunkSettings) (w : ChunkWriter γ) :
    Except Status Unit × ChunkWriter γ :=
  if w.page.numValues = 0 then (.ok (), w)
  else
    match finalizeToBuffer env.toPageEnv (w.page.buffers c) w.columnBuffer with
    | .error e => (.error e, w.countPage c)
    | .ok page => (.ok (), (w.countPage c).recordPage c page)

/-! ## Batches -/

/-- `bloom_filter_insert_chunk` (column_writer.c:640-702). -/
def insertChunk (c : ChunkSettings) (w : ChunkWriter γ) (args : ChunkArgs Value) : ChunkWriter γ :=
  { w with bloomFilter := w.bloomFilter.map (bloomFilterInsertChunk c.column · args) }

/-- The page writer as `carquet_column_writer_write_batch` uses it: a chunk that is taken counts and
goes to the filter. -/
def pageSink (geo : GeoWalker γ) (env : ChunkEnv) (c : ChunkSettings) :
    PageSink (ChunkWriter γ) Value where
  addValues w args :=
    match w.page.addValues geo env c args with
    | (.error e, page) => (.error e, { w with page := page })
    | (.ok (), page) =>
      (.ok (), insertChunk c { w with page := page, totalValues := w.totalValues + args.numValues }
        args)
  estimatedSize w := w.page.estimatedSize
  numValues w := w.page.numValues
  flushCurrentPage := flushCurrentPage env c

/-- `dict_accumulate` (column_writer.c:727-805). The totals are raised first, and what was appended
when memory runs out stays. -/
def dictAccumulate (env : ChunkEnv) (c : ChunkSettings) (w : ChunkWriter γ)
    (args : ChunkArgs Value) : Except Status Unit × ChunkWriter γ :=
  let next := Carquet.dictAccumulate c.column w.dict args
  let passesRep := decide (0 < c.column.maxRepLevel) && args.repLevels.isSome
  let counted := { w with
    dict := { w.dict with totalRows := next.totalRows }
    dictTotalNulls := w.dictTotalNulls +
      (args.numValues - numNonNull c.column.maxDefLevel args) }
  match env.grow (args.present c.column.maxDefLevel).flatten.length with
  | .error e => (.error e, counted)
  | .ok () =>
    let valued := { counted with dict := { counted.dict with values := next.values } }
    match if 0 < c.column.maxDefLevel then env.grow (2 * args.numValues) else .ok () with
    | .error e => (.error e, valued)
    | .ok () =>
      let levelled := { valued with dict := { valued.dict with defLevels := next.defLevels } }
      match if passesRep then env.grow (2 * args.numValues) else .ok () with
      | .error e => (.error e, levelled)
      | .ok () =>
        (.ok (), insertChunk c { levelled with
          dict := next
          staleRepLevels :=
            if passesRep then w.staleRepLevels.drop args.numValues else w.staleRepLevels } args)

/-- `carquet_column_writer_write_batch` (column_writer.c:807-889). -/
def writeBatch (geo : GeoWalker γ) (env : ChunkEnv) (c : ChunkSettings) (w : ChunkWriter γ)
    (args : ChunkArgs Value) : Except Status Unit × ChunkWriter γ :=
  if w.useDictionary then
    match w.dictAccumulate env c args with
    | (.error e, w) => (.error e, w)
    | (.ok (), w) => (.ok (), { w with totalValues := w.totalValues + args.numValues })
  else
    let trace := writeChunks c.options (pageSink geo env c) args args.numValues w 0
    (trace.status, trace.pages)

/-! ## The end of a chunk -/

/-- The page writer as `dict_fallback_to_plain` uses it. -/
def replaySink (geo : GeoWalker γ) (env : ChunkEnv) (c : ChunkSettings) :
    PageSink (ChunkWriter γ) Value where
  addValues w args :=
    let (status, page) := w.page.addValues geo env c args
    (status, { w with page := page })
  estimatedSize w := w.page.estimatedSize
  numValues w := w.page.numValues
  flushCurrentPage := flushCurrentPage env c

/-- The arrays behind the dictionary buffers' pointers. -/
def dictArrays (w : ChunkWriter γ) : DictBuffers Value :=
  { w.dict with repLevels := w.dict.repLevels ++ w.staleRepLevels }

/-- `dict_fallback_to_plain` (column_writer.c:969-1037). -/
def fallbackToPlain (geo : GeoWalker γ) (env : ChunkEnv) (c : ChunkSettings) (w : ChunkWriter γ) :
    Except Status Unit × ChunkWriter γ :=
  let plain := { w with page := w.page.setEncoding .plain, useDictionary := false }
  let trace := dictFallbackToPlain c.options (replaySink geo env c) plain w.dictArrays
  (trace.status, trace.pages)

/-- The levels given to the dictionary-encoded data page (column_writer.c:1131-1139). -/
def dictArgs (c : ChunkSettings) (w : ChunkWriter γ) : ChunkArgs Value where
  values := []
  numValues := w.dict.totalRows
  defLevels := if 0 < c.column.maxDefLevel then some w.dict.defLevels else none
  repLevels :=
    if 0 < c.column.maxRepLevel ∧ w.dictArrays.repLevels ≠ [] then some w.dictArrays.repLevels
    else none

/-- The dictionary page in the column buffer (column_writer.c:1123-1139). -/
def recordDictionaryPage (w : ChunkWriter γ) (page : FinalizedPage) : ChunkWriter γ :=
  { w with
    columnBuffer := page.outputBuffer
    hasDictionaryPage := true
    dictionaryPageSizeBytes := page.pageSize
    totalUncompressedSize := w.totalUncompressedSize + page.uncompressedSize
    totalCompressedSize := w.totalCompressedSize + page.compressedSize }

/-- The data page behind the dictionary page (column_writer.c:1131-1158). -/
def emitIndices (env : ChunkEnv) (c : ChunkSettings) (w : ChunkWriter γ) (indices : Bytes) :
    Except Status Unit × ChunkWriter γ :=
  match w.page.addDictionaryIndices env c indices (w.dictArgs c) w.dictTotalNulls with
  | (.error e, page) => (.error e, { w with page := page })
  | (.ok (), page) =>
    let page := (page.setEncoding .rleDictionary).setMinMax c (dictMinMax c.kind w.dict.values)
    flushCurrentPage env c { w with page := page }

/-- `finalize_dictionary` (column_writer.c:1041-1159). -/
def finalizeDictionary (geo : GeoWalker γ) (env : ChunkEnv) (c : ChunkSettings)
    (w : ChunkWriter γ) : Except Status Unit × ChunkWriter γ :=
  if w.dict.totalRows = 0 then (.ok (), w)
  else if w.dict.values = [] then w.fallbackToPlain geo env c
  else
    match chooseDictionary c w.dict.values with
    | .error e => (.error e, w)
    | .ok none => w.fallbackToPlain geo env c
    | .ok (some (payload, indices, entries)) =>
      match emitDictionaryPage env.toPageEnv (w.page.buffers c) w.columnBuffer payload
          (Int32.ofNat entries) with
      | .error e => (.error e, w)
      | .ok page => (w.recordDictionaryPage page).emitIndices env c indices

/-- `carquet_column_writer_finalize` (column_writer.c:1161-1200). -/
def finalize (geo : GeoWalker γ) (env : ChunkEnv) (c : ChunkSettings) (w : ChunkWriter γ) :
    Except Status Unit × ChunkWriter γ :=
  if w.useDictionary then w.finalizeDictionary geo env c else w.flushCurrentPage env c

end ChunkWriter

end Carquet
