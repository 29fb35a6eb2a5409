import Carquet.Reader.ColumnReader

/-!
# Reading batches of rows

* `BatchReader.next` — the sequential path of `carquet_batch_reader_next`
  (batch_reader.c:1465-1687).
* `readProjectedColumn` — `read_projected_column` (batch_reader.c:347-511).
* `ProjectedReader.openChunk` — `reset_column_reader_for_row_group` (batch_reader.c:518-581) and
  `carquet_reader_get_column` (file_reader.c:865-927), which leave the same state behind.

Dictionaries are not preserved here. A cell of a column is of any type `α` with a zero, which is
what `memset` writes. Of the row groups only the projected columns are kept, in the order of the
projection, each with its metadata.
-/

namespace Carquet

/-- `get_type_size` (batch_reader.c:206-223). -/
def getTypeSize (type : PhysicalType) (typeLength : Int) : Nat :=
  match type with
  | .boolean => 1
  | .int32 => 4
  | .int64 => 8
  | .int96 => 12
  | .float => 4
  | .double => 8
  | .fixedLenByteArray => if typeLength ≤ 0 ∨ 16777216 < typeLength then 0 else typeLength.toNat
  | .byteArray => 16

/-- `projected_types`, `projected_type_lengths` and `projected_max_defs` at an index, and
`max_rep_level` of its column reader. -/
structure ProjectedColumn where
  type : PhysicalType
  typeLength : Int
  maxDefLevel : Int
  maxRepLevel : Int
  deriving DecidableEq, Repr

/-- `projected_value_sizes`. -/
def ProjectedColumn.valueSize (c : ProjectedColumn) : Nat := getTypeSize c.type c.typeLength

variable {α : Type}

/-- A column chunk, as far as it is read here. `isView` says of a page whether `load_next_page`
leaves its values as a view (`decoded_ownership`). -/
structure ColumnChunk (α : Type) where
  load : Int → Except Status (LoadedPage α)
  numValues : Int
  uncompressed : Bool
  isView : Int → Bool

/-- A projected column with its column reader (`col_readers`). -/
structure ProjectedReader (α : Type) where
  column : ProjectedColumn
  chunk : ColumnChunk α
  reader : ColumnReader α

/-- A column reader at the start of a chunk. -/
def ProjectedReader.openChunk (column : ProjectedColumn) (chunk : ColumnChunk α) :
    ProjectedReader α :=
  ⟨column, chunk, ⟨column.maxDefLevel, chunk.load, chunk.numValues, 0, none, 0⟩⟩

/-! ## Views of pages -/

/-- `page_available` (batch_reader.c:276, 291). -/
def ProjectedReader.pageAvailable (p : ProjectedReader α) : Int :=
  match p.reader.page with
  | some page => (page.numValues : Int) - p.reader.pageValuesRead
  | none => 0

/-- Whether a page is loaded that can be handed out as it is (batch_reader.c:269-274). -/
def ProjectedReader.hasView (p : ProjectedReader α) : Bool :=
  p.reader.page.isSome && p.chunk.isView p.reader.currentPage &&
    decide (p.column.maxDefLevel = 0 ∧ p.column.maxRepLevel ≤ 0 ∧ p.column.type ≠ .byteArray)

/-- `column_can_zero_copy_batch` (batch_reader.c:263-278). -/
def columnCanZeroCopyBatch (p : ProjectedReader α) (rowsToRead : Int) : Bool :=
  p.hasView && decide (0 < p.pageAvailable ∧ toI32 rowsToRead ≤ p.pageAvailable)

/-- `column_zero_copy_rows_available` (batch_reader.c:280-293). -/
def columnZeroCopyRowsAvailable (p : ProjectedReader α) : Int :=
  if p.hasView then max 0 p.pageAvailable else 0

/-- The loop of `clamp_rows_to_zero_copy_window` (batch_reader.c:301-314). -/
def clampRows (rowsToRead : Int) : List (ProjectedReader α) → Int → Int
  | [], zeroCopyRows => zeroCopyRows
  | p :: ps, zeroCopyRows =>
    let pageRows := columnZeroCopyRowsAvailable p
    if pageRows ≤ 0 then rowsToRead else clampRows rowsToRead ps (min pageRows zeroCopyRows)

/-- `clamp_rows_to_zero_copy_window` (batch_reader.c:295-317) and what follows its call
(batch_reader.c:1630-1634). -/
def clampRowsToZeroCopyWindow (ps : List (ProjectedReader α)) (rowsToRead : Int) : Int :=
  let zeroCopyRows := clampRows rowsToRead ps rowsToRead
  if 0 < zeroCopyRows ∧ zeroCopyRows < rowsToRead then zeroCopyRows else rowsToRead

/-- `column_is_zero_copy_candidate` (batch_reader.c:319-345), `mmap` for `mmap_data`. -/
def columnIsZeroCopyCandidate (mmap : Bool) (p : ProjectedReader α) : Bool :=
  mmap && p.chunk.uncompressed &&
    decide (p.column.maxDefLevel = 0 ∧ p.column.maxRepLevel ≤ 0 ∧
      p.column.type ≠ .boolean ∧ p.column.type ≠ .byteArray)

/-! ## One column -/

/-- `carquet_column_data_t`; cells beyond `num_values` are left out. -/
structure ColumnData (α : Type) where
  data : List α
  nullBitmap : Option Bytes
  numValues : Int
  deriving DecidableEq

/-- The expansion from back to front (batch_reader.c:488-501): `dst` cells are left to write,
`present` values to move. -/
def expandNulls [Zero α] (maxDefLevel : Int) (defLevels : List Int) :
    Nat → Nat → List α → List α
  | 0, _, data => data
  | dst + 1, present, data =>
    if defLevels.getD dst 0 = maxDefLevel then
      expandNulls maxDefLevel defLevels dst (present - 1)
        (data.set dst (data.getD (present - 1) 0))
    else expandNulls maxDefLevel defLevels dst present (data.set dst 0)

/-- The values of `count` rows in their slots (batch_reader.c:482-503); what the buffer held
behind the values read is overwritten. -/
def expandRows [Zero α] (maxDefLevel : Int) (defLevels : List Int) (count : Nat)
    (values : List α) : List α :=
  let nonNull := defLevels.countP (· == maxDefLevel)
  if nonNull < count then
    expandNulls maxDefLevel defLevels count nonNull
      (values ++ List.replicate (count - values.length) 0)
  else values

/-- A bit for each of these levels, the first one lowest (dispatch.c:329-338). -/
def presentBits (maxDefLevel : Int) : List Int → Nat
  | [] => 0
  | level :: levels => (if level = maxDefLevel then 1 else 0) + 2 * presentBits maxDefLevel levels

/-- `scalar_build_null_bitmap` (dispatch.c:325-345) over `size` bytes that were cleared. -/
def buildNullBitmap (maxDefLevel : Int) (defLevels : List Int) (size : Nat) : Bytes :=
  (List.range size).map fun b =>
    UInt8.ofNat (presentBits maxDefLevel ((defLevels.drop (8 * b)).take 8))

/-- `CARQUET_MAX_BATCH_ALLOC` (batch_reader.c:430). -/
def maxBatchAlloc : Nat := 1073741824

/-- The direct handoff (batch_reader.c:399-416): the slice of the page that is loaded. -/
def handOff (p : ProjectedReader α) (rowsToRead : Int) : ColumnData α × ProjectedReader α :=
  let values := match p.reader.page with
    | some page => page.values
    | none => []
  -- the offset in bytes is `page_values_read * value_size`
  let start := if p.column.valueSize = 0 then 0 else p.reader.pageValuesRead
  (⟨(values.drop start).take rowsToRead.toNat, none, rowsToRead⟩,
    { p with reader := { p.reader with
        pageValuesRead := p.reader.pageValuesRead + rowsToRead.toNat
        valuesRemaining := p.reader.valuesRemaining - rowsToRead } })

/-- The path with a copy (batch_reader.c:418-510); `none` is `read_error`. -/
def copyRows [Zero α] (p : ProjectedReader α) (rowsToRead : Int) :
    Option (ColumnData α) × ProjectedReader α :=
  let c := p.column
  if c.valueSize = 0 ∨ rowsToRead ≤ 0 ∨ maxBatchAlloc / rowsToRead.toNat < c.valueSize then
    (none, p)
  else
    let nullable := decide (0 < c.maxDefLevel)
    match readBatch p.reader rowsToRead ⟨nullable, false⟩ with
    | (result, r) =>
      if result.count < 0 then (none, { p with reader := r })
      else
        let count := result.count.toNat
        (some
          { data := if nullable then
              expandRows c.maxDefLevel result.defLevels count result.values
            else result.values
            nullBitmap := if nullable then
              some (buildNullBitmap c.maxDefLevel result.defLevels ((rowsToRead.toNat + 7) / 8))
            else none
            numValues := result.count },
          { p with reader := r })

/-- A call for no values, which loads a page (batch_reader.c:385-390, 1605-1611). -/
def peek (p : ProjectedReader α) : ProjectedReader α :=
  { p with reader := (readBatch p.reader 0 ⟨false, false⟩).2 }

/-- `read_projected_column` (batch_reader.c:347-511). -/
def readProjectedColumn [Zero α] (rowsToRead : Int) (p : ProjectedReader α) :
    Option (ColumnData α) × ProjectedReader α :=
  let p := if p.column.maxDefLevel = 0 ∧ p.reader.page.isNone then peek p else p
  if columnCanZeroCopyBatch p rowsToRead then
    match handOff p rowsToRead with
    | (data, p) => (some data, p)
  else copyRows p rowsToRead

/-! ## One batch -/

/-- `carquet_batch_reader_config_t`: `batch_size` is a positive `int32_t`. -/
structure BatchConfig where
  batchSize : Nat
  rowGroupFilter : Option (Nat → Bool)
  batchSize_pos : 0 < batchSize
  batchSize_lt : batchSize < 2147483648

/-- Whether a row group is read. -/
def BatchConfig.selects (config : BatchConfig) (g : Nat) : Bool :=
  match config.rowGroupFilter with
  | some filter => filter g
  | none => true

/-- `carquet_batch_reader_t`; `none` is `current_row_group = -1`. -/
structure BatchReader (α : Type) where
  mmap : Bool
  config : BatchConfig
  columns : List ProjectedColumn
  rowGroups : List (List (ColumnChunk α))
  currentRowGroup : Option Nat
  colReaders : List (ProjectedReader α)

/-- `carquet_batch_reader_create`. -/
def batchReaderCreate (mmap : Bool) (config : BatchConfig) (columns : List ProjectedColumn)
    (rowGroups : List (List (ColumnChunk α))) : BatchReader α :=
  ⟨mmap, config, columns, rowGroups, none, []⟩

/-- `carquet_row_batch_t`. -/
structure RowBatch (α : Type) where
  columns : List (ColumnData α)
  numRows : Int
  deriving DecidableEq

/-- `carquet_column_remaining` of column 0. -/
def remaining : List (ProjectedReader α) → Int
  | [] => 0
  | p :: _ => p.reader.valuesRemaining

/-- Whether the call goes to the next row group (batch_reader.c:1470-1471). -/
def BatchReader.atEnd (b : BatchReader α) : Bool :=
  b.currentRowGroup.isNone || decide (remaining b.colReaders ≤ 0)

/-- The first row group from `g` on that is selected (batch_reader.c:1474-1492), or the number
of row groups. -/
def selectRowGroup (selects : Nat → Bool) (numRowGroups : Nat) : Nat → Nat → Nat
  | 0, g => g
  | fuel + 1, g =>
    if numRowGroups ≤ g ∨ selects g then g else selectRowGroup selects numRowGroups fuel (g + 1)

/-- `current_row_group + 1`. -/
def BatchReader.nextRowGroup (b : BatchReader α) : Nat :=
  match b.currentRowGroup with
  | some g => g + 1
  | none => 0

/-- The next row group, opened (batch_reader.c:1470-1499, 910-945), and whether there was one. -/
def BatchReader.advance (b : BatchReader α) : Bool × BatchReader α :=
  if b.atEnd then
    let g := selectRowGroup b.config.selects b.rowGroups.length
      (b.rowGroups.length - b.nextRowGroup) b.nextRowGroup
    match b.rowGroups[g]? with
    | some chunks => (true,
        { b with
          currentRowGroup := some g
          colReaders := List.zipWith ProjectedReader.openChunk b.columns chunks })
    | none => (false, { b with currentRowGroup := some g })
  else (true, b)

/-- The pages of the candidates for a handoff (batch_reader.c:1557-1567), up to the first that
fails. -/
def loadCandidates : List (ProjectedReader α) → Option Status × List (ProjectedReader α)
  | [] => (none, [])
  | p :: ps =>
    if 0 < p.reader.valuesRemaining then
      match ensurePageLoaded p.reader with
      | (.error e, r) => (some e, { p with reader := r } :: ps)
      | (.ok _, r) =>
        match loadCandidates ps with
        | (failure, ps) => (failure, { p with reader := r } :: ps)
    else
      match loadCandidates ps with
      | (failure, ps) => (failure, p :: ps)

/-- The page of a column, loaded ahead (batch_reader.c:1597-1612). -/
def prefetch (p : ProjectedReader α) : ProjectedReader α :=
  if p.reader.page.isNone ∧ 0 < p.reader.valuesRemaining then peek p else p

/-- The main phase (batch_reader.c:1654-1683). Once a column has failed, others may still be read
or not, as the threads go: `started` says which are. -/
def readColumns [Zero α] (started : Nat → Bool) (rowsToRead : Int) (ps : List (ProjectedReader α)) :
    Except Status (RowBatch α) × List (ProjectedReader α) :=
  let results := ps.map (readProjectedColumn rowsToRead)
  let columns := results.filterMap (·.1)
  if columns.length = ps.length then
    (.ok ⟨columns, match columns with
      | [] => 0
      | d :: _ => d.numValues⟩, results.map (·.2))
  else (.error .decode, ps.zipIdx.map fun (p, i) =>
    if started i then (readProjectedColumn rowsToRead p).2 else p)

/-- A batch of the row group that is open (batch_reader.c:1525-1687). -/
def BatchReader.readBatch [Zero α] (started : Nat → Bool) (b : BatchReader α) :
    Except Status (RowBatch α) × BatchReader α :=
  let rowsToRead := min (remaining b.colReaders) b.config.batchSize
  if rowsToRead = 0 then (.ok ⟨b.colReaders.map fun _ => ⟨[], none, 0⟩, 0⟩, b)
  else
    let loaded := if b.colReaders.all (columnIsZeroCopyCandidate b.mmap) then
      loadCandidates b.colReaders
    else (none, b.colReaders)
    match loaded with
    | (some e, ps) => (.error e, { b with colReaders := ps })
    | (none, ps) =>
      let ps := ps.map prefetch
      match readColumns started (clampRowsToZeroCopyWindow ps rowsToRead) ps with
      | (result, ps) => (result, { b with colReaders := ps })

/-- `carquet_batch_reader_next` (batch_reader.c:1465-1687). -/
def BatchReader.next [Zero α] (started : Nat → Bool) (b : BatchReader α) :
    Except Status (RowBatch α) × BatchReader α :=
  match b.advance with
  | (false, b) => (.error .endOfData, b)
  | (true, b) => b.readBatch started

end Carquet
