import Carquet.Reader.BatchReader

/-!
# The sizes of the reader's buffers

What is written into the decode buffers of a column reader and into the destinations of a batch
reader, in bytes; the values themselves are left out.

* `ensureDecodedPageBuffers`, `loadNextPage`, `readNextPage` — `ensure_decoded_page_buffers`
  (page_reader.c:523-603), `load_next_page_mmap` and `load_next_page_fread`
  (page_reader.c:2043-2467), `carquet_read_next_page` (page_reader.c:2529-2612).
* `readBatch` — `carquet_column_read_batch` (column_reader.c:41-148).
* `getColumn`, `reset` — `carquet_reader_get_column` (file_reader.c:865-927),
  `reset_column_reader_for_row_group` (batch_reader.c:518-581).
* `BatchColumn.readProjectedColumn` — `read_projected_column` (batch_reader.c:347-511).
* `BatchColumn.fill` — `pipeline_fill`, `bulk_read_task` and `coalesced_read_column_range` for one
  column of one slot (batch_reader.c:963-1093, 1227-1375).

A load of a page is given what it meets (`PageAttempt`), so that a run is about any file, whatever
its pages are. Columns share nothing, so that one column stands for all.
-/

namespace Carquet

open LittleEndian

/-- `get_value_size` (page_reader.c:1604-1625). -/
def getValueSize (type : PhysicalType) (typeLength : Int) : Nat :=
  match type with
  | .boolean => 1
  | .int32 => 4
  | .float => 4
  | .int64 => 8
  | .double => 8
  | .int96 => 12
  | .fixedLenByteArray => toU64 typeLength
  | .byteArray => 16

/-- Whether the values of a page are indices of a dictionary. -/
def Encoding.isDictionary (e : Encoding) : Bool :=
  decide (e = .rleDictionary ∨ e = .plainDictionary)

/-- Whether pages of such values are decoded (page_reader.c:848-978, 1044-1250). -/
def Encoding.decodes (e : Encoding) (type : PhysicalType) : Bool :=
  match e with
  | .plain | .plainDictionary | .rleDictionary => true
  | .deltaBinaryPacked => decide (type = .int32 ∨ type = .int64)
  | .deltaLengthByteArray => decide (type = .byteArray)
  | .deltaByteArray => decide (type = .byteArray ∨ type = .fixedLenByteArray)
  | .byteStreamSplit => decide (type = .float ∨ type = .double ∨ type = .int32 ∨
      type = .int64 ∨ type = .fixedLenByteArray)
  | .rle | .bitPacked | .unknown => false

/-- A data page whose header was accepted. `payload` is its size in bytes, `reused` says that it is
in a buffer of the reader. Decoding the values fails behind the first `damage`, if any. -/
structure EncodedPage where
  numValues : Nat
  v2 : Bool
  encoding : Encoding
  payload : Nat
  reused : Bool
  defLevels : List Int
  damage : Option Nat
  numValues_pos : 0 < numValues
  numValues_lt : numValues < 2147483648

/-- What a load of a page meets: the status of its dictionary, the page unless its header, checksum
or compression are refused, whether its bytes are mapped and not compressed, and which allocations
succeed. -/
structure PageAttempt where
  dictionary : Except Status Unit
  page : Except Status EncodedPage
  mapped : Bool
  alloc : Nat → Bool

/-- The decode buffers. `bytes` is the size of `decoded_values`, 0 without an allocation, and
`preserved` the value of `preserve_dictionary` it was made under; `decoded_capacity` counts
values. -/
structure DecodeBuffers where
  isView : Bool
  bytes : Nat
  preserved : Bool
  capacity : Nat
  defBytes : Option Nat
  repBytes : Option Nat
  deriving DecidableEq, Repr

def DecodeBuffers.empty : DecodeBuffers := ⟨false, 0, false, 0, none, none⟩

/-- The values of the page that is loaded. -/
structure LoadedCells where
  numValues : Nat
  defLevels : Option (List Int)
  deriving DecidableEq, Repr

/-- A column chunk's metadata, as far as buffers depend on it. -/
structure ChunkMeta where
  type : PhysicalType
  numValues : Int
  dictionaryPage : Bool
  compressed : Bool
  deriving DecidableEq, Repr

/-- `carquet_column_reader_t`, as far as buffers depend on it. -/
structure SizedReader where
  type : PhysicalType
  typeLength : Int
  maxDefLevel : Int
  maxRepLevel : Int
  colNumValues : Int
  dictionaryPage : Bool
  valuesRemaining : Int
  hasDictionary : Bool
  preserveDictionary : Bool
  buffers : DecodeBuffers
  page : Option LoadedCells
  pageValuesRead : Nat

/-- A page of a chunk that is decompressed at once: `size` bytes are written, unless `failed`. -/
structure CoalescedPage where
  numValues : Nat
  encoding : Encoding
  size : Nat
  failed : Bool

/-- A write into a buffer: of a page into the decode buffers behind `ensure_decoded_page_buffers`,
of cells into the destination of a batch, of what is kept for each row, and of cells or a whole page
into the buffer of a slot. -/
inductive Access where
  | decode (reader : SizedReader) (page : EncodedPage) (buffers : DecodeBuffers)
  | copy (column : ProjectedColumn) (reader : SizedReader) (cells room : Nat)
  | rows (bytes room : Nat)
  | bulkCopy (column : ProjectedColumn) (reader : SizedReader) (rows : Int) (cells room : Nat)
  | coalesced (column : ProjectedColumn) (reader : SizedReader) (rows : Int) (page : CoalescedPage)
      (start room : Nat)

namespace SizedReader

/-! ## Pages -/

/-- The size of an element under a value of `preserve_dictionary`. -/
def elementSize (r : SizedReader) (preserved : Bool) : Nat :=
  if preserved then 4 else getValueSize r.type r.typeLength

/-- `carquet_reader_get_column` (file_reader.c:865-927): the type is the chunk's, its length the
schema's. -/
def getColumn (column : ProjectedColumn) (chunk : ChunkMeta) : SizedReader where
  type := chunk.type
  typeLength := column.typeLength
  maxDefLevel := column.maxDefLevel
  maxRepLevel := column.maxRepLevel
  colNumValues := chunk.numValues
  dictionaryPage := chunk.dictionaryPage
  valuesRemaining := chunk.numValues
  hasDictionary := false
  preserveDictionary := false
  buffers := .empty
  page := none
  pageValuesRead := 0

/-- A view forgotten (page_reader.c:552-556, batch_reader.c:568-573). -/
def dropView (b : DecodeBuffers) : DecodeBuffers :=
  if b.isView then { b with isView := false, bytes := 0, capacity := 0 } else b

/-- `reset_column_reader_for_row_group` (batch_reader.c:518-581). Neither the type nor
`preserve_dictionary` is set anew. -/
def reset (r : SizedReader) (chunk : ChunkMeta) : SizedReader :=
  { r with
    colNumValues := chunk.numValues
    dictionaryPage := chunk.dictionaryPage
    valuesRemaining := chunk.numValues
    hasDictionary := false
    buffers := dropView r.buffers
    page := none
    pageValuesRead := 0 }

/-- An allocation of levels for `n` values, if they are needed and it succeeds. -/
def allocLevels (alloc : Nat → Bool) (maxLevel : Int) (n : Nat) : Option Nat :=
  if 0 < maxLevel ∧ alloc (2 * n) then some (2 * n) else none

/-- The decode buffers that `ensure_decoded_page_buffers` makes or keeps (page_reader.c:552-590). -/
def growBuffers (r : SizedReader) (alloc : Nat → Bool) (n : Nat) : DecodeBuffers :=
  let size := r.elementSize r.preserveDictionary * n
  let b := dropView r.buffers
  let kept (maxLevel : Int) (bytes : Option Nat) : Option Nat :=
    if 0 < maxLevel then bytes.orElse fun _ => allocLevels alloc maxLevel n else none
  if b.capacity < n then
    { isView := false
      bytes := if alloc size then size else 0
      preserved := r.preserveDictionary
      capacity := n
      defBytes := allocLevels alloc r.maxDefLevel n
      repBytes := allocLevels alloc r.maxRepLevel n }
  else
    { b with
      defBytes := kept r.maxDefLevel b.defBytes
      repBytes := kept r.maxRepLevel b.repBytes }

/-- Whether a buffer that is needed is missing (page_reader.c:592-594). -/
def lacksBuffers (r : SizedReader) (n : Nat) (b : DecodeBuffers) : Prop :=
  (0 < r.elementSize r.preserveDictionary * n ∧ b.bytes = 0) ∨
    (0 < r.maxDefLevel ∧ b.defBytes = none) ∨ (0 < r.maxRepLevel ∧ b.repBytes = none)

instance (r : SizedReader) (n : Nat) (b : DecodeBuffers) : Decidable (r.lacksBuffers n b) :=
  inferInstanceAs (Decidable (_ ∨ _ ∨ _))

/-- `ensure_decoded_page_buffers` (page_reader.c:523-603). -/
def ensureDecodedPageBuffers (r : SizedReader) (alloc : Nat → Bool) (n : Nat) :
    Except Status Unit × SizedReader :=
  if 18446744073709551616 ≤ r.elementSize r.preserveDictionary * n then (.error .outOfMemory, r)
  else if 0 ≤ r.colNumValues ∧ r.colNumValues < n then (.error .invalidPage, r)
  else
    let b := r.growBuffers alloc n
    if r.lacksBuffers n b then
      (.error .outOfMemory,
        { r with buffers := { DecodeBuffers.empty with preserved := b.preserved } })
    else (.ok (), { r with buffers := b })

/-- The values of a page that are present (page_reader.c:1036-1041). -/
def present (r : SizedReader) (page : EncodedPage) : Nat :=
  if 0 < r.maxDefLevel then countNonNulls (page.defLevels.take page.numValues) r.maxDefLevel
  else page.numValues

/-- Whether the values of a page are decoded without an error. -/
def decodes (r : SizedReader) (page : EncodedPage) : Bool :=
  page.encoding.decodes r.type && (r.hasDictionary || !page.encoding.isDictionary)

/-- The size of the elements that decoding a page writes: indices that are preserved, or values
(page_reader.c:1044-1250, 1375-1590). A dictionary has no BOOLEANs. -/
def fillSize (r : SizedReader) (e : Encoding) : Nat :=
  if e.isDictionary then
    if r.preserveDictionary then 4
    else if r.type = .boolean then 0 else getValueSize r.type r.typeLength
  else getValueSize r.type r.typeLength

/-- How many elements are written, to the first that cannot be decoded. The pointers of byte arrays
into a buffer that is reused are all looked at again (page_reader.c:2241-2257, 2437-2457). -/
def cells (r : SizedReader) (page : EncodedPage) : Nat :=
  if r.decodes page then
    match page.damage with
    | some k => min k (r.present page)
    | none =>
      if page.reused ∧ r.type = .byteArray ∧
          (page.encoding = .plain ∨ page.encoding = .deltaLengthByteArray) then page.numValues
      else r.present page
  else 0

/-- Whether the values of a page may be left where they are (mmap_reader.c:213-255,
page_reader.c:458-490, 2130-2134). -/
def viewable (r : SizedReader) (page : EncodedPage) : Bool :=
  !page.v2 && decide (page.encoding = .plain ∧ ¬ 0 < r.maxDefLevel ∧ ¬ 0 < r.maxRepLevel ∧
    r.type ≠ .boolean ∧ r.type ≠ .byteArray)

/-- A page left where it is. -/
def viewPage (r : SizedReader) (page : EncodedPage) : SizedReader :=
  { r with
    buffers := ⟨true, 0, r.buffers.preserved, 0, none, none⟩
    page := some ⟨page.numValues, none⟩
    pageValuesRead := 0 }

/-- A page decoded (page_reader.c:2209-2264, 2407-2464). -/
def decodePage (r : SizedReader) (alloc : Nat → Bool) (page : EncodedPage) :
    Except Status Unit × SizedReader × List Access :=
  match r.ensureDecodedPageBuffers alloc page.numValues with
  | (.error e, r') => (.error e, r', [])
  | (.ok (), r') =>
    let access := Access.decode r page r'.buffers
    if r.decodes page ∧ page.damage = none then
      (.ok (),
        { r' with
          page := some ⟨page.numValues, if 0 < r.maxDefLevel then some page.defLevels else none⟩
          pageValuesRead := 0 },
        [access])
    else (.error .decode, r', [access])

/-- `load_next_page` (page_reader.c:2043-2496). Mapped bytes are left where they are unchecked. -/
def loadNextPage (r : SizedReader) (attempt : PageAttempt) :
    Except Status Unit × SizedReader × List Access :=
  let loads := r.dictionaryPage && !r.hasDictionary
  match loads, attempt.dictionary with
  | true, .error e => (.error e, r, [])
  | _, _ =>
    let r := { r with hasDictionary := r.hasDictionary || loads }
    match attempt.page with
    | .error e => (.error e, r, [])
    | .ok page =>
      if r.viewable page ∧ attempt.mapped then (.ok (), r.viewPage page, [])
      else if r.viewable page ∧ (r.type = .fixedLenByteArray → 0 < r.typeLength) then
        if page.payload < r.elementSize r.preserveDictionary * page.numValues then
          (.error .decode, r, [])
        else (.ok (), r.viewPage page, [])
      else r.decodePage attempt.alloc page

/-- A load with the attempts that are left; without one there is nothing to read. -/
def loadFrom (r : SizedReader) :
    List PageAttempt → (Except Status Unit × SizedReader × List Access) × List PageAttempt
  | [] => ((.error .fileRead, r, []), [])
  | attempt :: attempts => (r.loadNextPage attempt, attempts)

/-- `carquet_column_ensure_page_loaded` (page_reader.c:2503-2522). -/
def ensurePageLoaded (r : SizedReader) (attempts : List PageAttempt) :
    (Except Status Unit × SizedReader × List Access) × List PageAttempt :=
  match r.page with
  | none => r.loadFrom attempts
  | some page =>
    if page.numValues ≤ r.pageValuesRead then { r with page := none }.loadFrom attempts
    else ((.ok (), r, []), attempts)

/-! ## Batches -/

/-- The rows and the cells that `carquet_read_next_page` copies (page_reader.c:2556-2584). -/
def nextSlice (r : SizedReader) (maxValues : Int) : Nat × Nat :=
  match r.page with
  | none => (0, 0)
  | some page =>
    let n := (min (toI32 maxValues) ((page.numValues : Int) - r.pageValuesRead)).toNat
    match page.defLevels with
    | some levels =>
      (n, if 0 < r.maxDefLevel then
        countNonNulls ((levels.drop r.pageValuesRead).take n) r.maxDefLevel
      else n)
    | none => (n, n)

/-- The rows of a slice are read (page_reader.c:2607-2609). -/
def take (r : SizedReader) (n : Nat) : SizedReader :=
  { r with
    pageValuesRead := r.pageValuesRead + n
    valuesRemaining := r.valuesRemaining - n }

/-- The loop of `carquet_column_read_batch` (column_reader.c:110-143) with its counters, `none` for
`-1`. -/
def readBatchLoop (maxValues : Int) :
    Nat → SizedReader → List PageAttempt → Nat → Nat →
      Option (Nat × Nat) × SizedReader × List Access
  | 0, r, _, total, dense => (some (total, dense), r, [])
  | fuel + 1, r, attempts, total, dense =>
    if (total : Int) < maxValues ∧ 0 < r.valuesRemaining then
      match r.ensurePageLoaded attempts with
      | ((.error _, r, accesses), _) =>
        (if 0 < total then some (total, dense) else none, r, accesses)
      | ((.ok (), r, accesses), attempts) =>
        let (n, count) := r.nextSlice (maxValues - total)
        if n = 0 then (some (total, dense), r, accesses)
        else
          match readBatchLoop maxValues fuel (r.take n) attempts (total + n) (dense + count) with
          | (result, r, later) => (result, r, accesses ++ later)
    else (some (total, dense), r, [])

/-- `carquet_column_read_batch` (column_reader.c:41-148): the rows and the cells it has written to
`values`, `none` for `-1`. -/
def readBatch (r : SizedReader) (maxValues : Int) (attempts : List PageAttempt) :
    Option (Nat × Nat) × SizedReader × List Access :=
  if maxValues < 0 then (none, r, [])
  else if maxValues = 0 then
    if 0 < r.valuesRemaining ∧ r.page.isNone then
      match r.ensurePageLoaded attempts with
      | ((_, r, accesses), _) => (some (0, 0), r, accesses)
    else (some (0, 0), r, [])
  else if r.valuesRemaining ≤ 0 then (some (0, 0), r, [])
  else readBatchLoop maxValues r.valuesRemaining.toNat r attempts 0 0

end SizedReader

/-! ## Columns of a batch reader -/

/-- `carquet_column_pool_t`: the sizes of its buffers in bytes. -/
structure ColumnPool where
  data : Nat
  bitmap : Nat
  defLevels : Nat
  deriving DecidableEq, Repr

/-- `pool_ensure_data` and its siblings (batch_reader.c:231-261): the size of the buffer, unless it
cannot be made. -/
def poolEnsure (alloc : Nat → Bool) (capacity needed : Nat) : Option Nat :=
  if needed ≤ capacity then some capacity else if alloc needed then some needed else none

/-- The buffer of a column in a slot of the pipeline, and its column reader. -/
structure BulkSlot where
  reader : Option SizedReader
  bytes : Nat

/-- A projected column of a batch reader with `config.preserve_dictionaries`. -/
structure BatchColumn where
  column : ProjectedColumn
  preserveDictionaries : Bool
  reader : SizedReader
  pool : ColumnPool
  slot : BulkSlot

namespace BatchColumn

/-- A column whose first row group was opened. -/
def create (column : ProjectedColumn) (preserveDictionaries : Bool) (chunk : ChunkMeta)
    (slotBytes : Nat) : BatchColumn :=
  ⟨column, preserveDictionaries, .getColumn column chunk, ⟨0, 0, 0⟩, ⟨none, slotBytes⟩⟩

/-- `column_can_zero_copy_batch` (batch_reader.c:263-278). -/
def canZeroCopyBatch (c : BatchColumn) (r : SizedReader) (rows : Int) : Bool :=
  match r.page with
  | none => false
  | some page =>
    r.buffers.isView && decide (c.column.maxDefLevel = 0 ∧ ¬ 0 < r.maxRepLevel ∧
      c.column.type ≠ .byteArray ∧ r.pageValuesRead < page.numValues ∧
      toI32 rows ≤ (page.numValues : Int) - r.pageValuesRead)

/-- The element size of the destination (batch_reader.c:380). -/
def effectiveValueSize (column : ProjectedColumn) (preserved : Bool) : Nat :=
  if preserved then 4 else column.valueSize

/-- What is kept for each row of a nullable column, if there is a buffer for it. -/
def perRow (nullable : Bool) (buffer : Option Nat) (bytes : Nat) : List Access :=
  match nullable, buffer with
  | true, some room => [.rows bytes room]
  | _, _ => []

/-- The path with a copy (batch_reader.c:418-510). For each row the definition level, the expanded
value and the bit are kept. -/
def copyRows (c : BatchColumn) (alloc : Nat → Bool) (rows : Int) (attempts : List PageAttempt) :
    BatchColumn × List Access :=
  let size := effectiveValueSize c.column c.reader.preserveDictionary
  if size = 0 ∨ rows ≤ 0 ∨ maxBatchAlloc / rows.toNat < size then (c, [])
  else
    match poolEnsure alloc c.pool.data (size * rows.toNat) with
    | none => ({ c with pool := { c.pool with data := 0 } }, [])
    | some data =>
      let nullable := decide (0 < c.column.maxDefLevel)
      let bitmap := if nullable then poolEnsure alloc c.pool.bitmap ((rows.toNat + 7) / 8)
        else some c.pool.bitmap
      let defLevels := if nullable then poolEnsure alloc c.pool.defLevels (2 * rows.toNat)
        else some c.pool.defLevels
      let pool : ColumnPool := ⟨data, bitmap.getD 0, defLevels.getD 0⟩
      match c.reader.readBatch rows attempts with
      | (none, r, accesses) => ({ c with reader := r, pool := pool }, accesses)
      | (some (count, cells), r, accesses) =>
        ({ c with reader := r, pool := pool },
          accesses ++ [.copy c.column r cells data] ++ perRow nullable defLevels (2 * count) ++
            perRow nullable (defLevels.map fun _ => data) (count * size) ++
            perRow nullable (defLevels.bind fun _ => bitmap) ((count + 7) / 8))

/-- `preserve_dictionary` set for the batch (batch_reader.c:370-378). -/
def setPreserve (c : BatchColumn) : SizedReader :=
  { c.reader with preserveDictionary := c.preserveDictionaries && c.reader.hasDictionary }

/-- The page is loaded that may be handed out as it is (batch_reader.c:385-396). -/
def tryZeroCopy (c : BatchColumn) (r : SizedReader) (peeked : List PageAttempt) :
    SizedReader × List Access :=
  if c.column.maxDefLevel = 0 ∧ r.page.isNone ∧ r.preserveDictionary = false then
    (r.readBatch 0 peeked).2
  else (r, [])

/-- `read_projected_column` (batch_reader.c:347-511). -/
def readProjectedColumn (c : BatchColumn) (alloc : Nat → Bool) (rows : Int)
    (peeked attempts : List PageAttempt) : BatchColumn × List Access :=
  let (r, accesses) := c.tryZeroCopy c.setPreserve peeked
  if r.preserveDictionary = false ∧ c.canZeroCopyBatch r rows then
    ({ c with reader := r.take rows.toNat }, accesses)
  else
    match copyRows { c with reader := r } alloc rows attempts with
    | (c, later) => (c, accesses ++ later)

/-! ## Slots of the pipeline -/

/-- The width at which split streams are decoded (batch_reader.c:1069-1079). -/
def splitWidth (valueSize : Nat) : Nat := if valueSize = 4 then 4 else 8

/-- `can_coalesce_column` (batch_reader.c:997-1005). -/
def canCoalesce (r : SizedReader) (chunk : ChunkMeta) : Bool :=
  decide (¬ 0 < r.maxDefLevel ∧ ¬ 0 < r.maxRepLevel ∧
    r.type ≠ .boolean ∧ r.type ≠ .byteArray) && !chunk.dictionaryPage && chunk.compressed

/-- `coalesced_read_column_range` (batch_reader.c:1007-1101) and whether it falls back; `none` is a
page it falls back at. -/
def coalescedRead (column : ProjectedColumn) (r : SizedReader) (rows : Int) (room : Nat) :
    Nat → List (Option CoalescedPage) → List Access × Bool
  | _, [] => ([], false)
  | _, none :: _ => ([], true)
  | total, some page :: pages =>
    if rows ≤ total then ([], false)
    else if page.numValues = 0 ∨ rows < total + page.numValues then ([], true)
    else
      let access := Access.coalesced column r rows page total room
      let next := coalescedRead column r rows room (total + page.numValues) pages
      match page.encoding with
      | .plain => if page.failed then ([access], false) else (access :: next.1, next.2)
      | .byteStreamSplit =>
        if page.failed ∨ page.size < page.numValues * splitWidth (r.elementSize false) then
          ([], false)
        else (access :: next.1, next.2)
      | _ => ([], true)

/-- The fallback (batch_reader.c:977-979, 1096-1100). -/
def bulkReadBatch (column : ProjectedColumn) (r : SizedReader) (rows : Int) (room : Nat)
    (attempts : List PageAttempt) : SizedReader × List Access :=
  match r.readBatch rows attempts with
  | (result, r, accesses) =>
    (r, accesses ++ [.bulkCopy column r rows ((result.map Prod.snd).getD 0) room])

/-- The reader of a slot, made or reset (batch_reader.c:1245-1258). -/
def slotReader (c : BatchColumn) (chunk : ChunkMeta) : SizedReader :=
  match c.slot.reader with
  | some r => r.reset chunk
  | none => .getColumn c.column chunk

/-- One column of `pipeline_fill` and its task (batch_reader.c:1227-1375, 963-983). The size that is
needed is a `size_t`. -/
def fill (c : BatchColumn) (alloc : Nat → Bool) (chunk : ChunkMeta) (rows : Int)
    (pages : List (Option CoalescedPage)) (attempts : List PageAttempt) :
    BatchColumn × List Access :=
  let r := c.slotReader chunk
  let needed := toU64 rows * c.column.valueSize % 18446744073709551616
  match poolEnsure alloc c.slot.bytes needed with
  | none => ({ c with slot := ⟨some r, c.slot.bytes⟩ }, [])
  | some bytes =>
    if bytes = 0 ∨ rows ≤ 0 then ({ c with slot := ⟨some r, bytes⟩ }, [])
    else
      let coalesced := if canCoalesce r chunk then coalescedRead c.column r rows bytes 0 pages
        else ([], true)
      if coalesced.2 then
        match bulkReadBatch c.column r rows bytes attempts with
        | (r, accesses) => ({ c with slot := ⟨some r, bytes⟩ }, coalesced.1 ++ accesses)
      else ({ c with slot := ⟨some r, bytes⟩ }, coalesced.1)

/-! ## Runs -/

/-- What is done with a column: its page is loaded ahead, its reader is asked for values, a batch of
rows is read, the reader goes to the next row group, a slot is filled. -/
inductive Op where
  | load (attempts : List PageAttempt)
  | read (maxValues : Int) (attempts : List PageAttempt)
  | readProjected (alloc : Nat → Bool) (rows : Int) (peeked attempts : List PageAttempt)
  | reset (chunk : ChunkMeta)
  | fill (alloc : Nat → Bool) (chunk : ChunkMeta) (rows : Int)
      (pages : List (Option CoalescedPage)) (attempts : List PageAttempt)

/-- One operation, and what it writes. -/
def step (c : BatchColumn) : Op → BatchColumn × List Access
  | .load attempts =>
    match c.reader.ensurePageLoaded attempts with
    | ((_, r, accesses), _) => ({ c with reader := r }, accesses)
  | .read maxValues attempts =>
    match c.reader.readBatch maxValues attempts with
    | (_, r, accesses) => ({ c with reader := r }, accesses)
  | .readProjected alloc rows peeked attempts => c.readProjectedColumn alloc rows peeked attempts
  | .reset chunk => ({ c with reader := c.reader.reset chunk }, [])
  | .fill alloc chunk rows pages attempts => c.fill alloc chunk rows pages attempts

/-- Everything that is written in a run. -/
def run (c : BatchColumn) : List Op → List Access
  | [] => []
  | op :: ops => (c.step op).2 ++ (c.step op).1.run ops

end BatchColumn

end Carquet
