import Carquet.Reader.PageDecode

/-!
# Reading and skipping the entries of a column chunk

* `ensurePageLoaded` — `carquet_column_ensure_page_loaded` (page_reader.c:2503-2522).
* `readNextPage` — `carquet_read_next_page` (page_reader.c:2529-2612).
* `readBatch` — `carquet_column_read_batch` (column_reader.c:41-148).
* `skip` — `carquet_column_skip` (column_reader.c:155-215).

`load` is `load_next_page` (page_reader.c:2474-2496), which looks at the page at the offset
`current_page` of the chunk. A cell of `decoded_values` is of any type `α`: these functions only
copy them. A buffer that is not there (`NULL`) is `none`.
-/

namespace Carquet

/-- What `load_next_page` leaves behind. It lets no page without values through
(page_reader.c:323, 340), and counts them in an `int32_t`. -/
structure LoadedPage (α : Type) where
  numValues : Nat
  values : List α
  defLevels : Option (List Int)
  repLevels : Option (List Int)
  headerSize : Int
  compressedSize : Int
  numValues_pos : 0 < numValues
  numValues_lt : numValues < 2147483648

/-- `carquet_column_reader_t`, as far as it is read here; `page` is there when `page_loaded`. -/
structure ColumnReader (α : Type) where
  maxDefLevel : Int
  load : Int → Except Status (LoadedPage α)
  valuesRemaining : Int
  currentPage : Int
  page : Option (LoadedPage α)
  pageValuesRead : Nat

variable {α : Type}

/-! ## One page -/

/-- `load_next_page` at `current_page`: the page it loads, if it does. -/
def loadNextPage (r : ColumnReader α) : Except Status (LoadedPage α) × ColumnReader α :=
  match r.load r.currentPage with
  | .error e => (.error e, r)
  | .ok page => (.ok page, { r with page := some page, pageValuesRead := 0 })

/-- `carquet_column_ensure_page_loaded` (page_reader.c:2503-2522). -/
def ensurePageLoaded (r : ColumnReader α) : Except Status (LoadedPage α) × ColumnReader α :=
  match r.page with
  | none => loadNextPage r
  | some page =>
    if page.numValues ≤ r.pageValuesRead then
      loadNextPage { r with
        currentPage := r.currentPage + page.headerSize + page.compressedSize, page := none }
    else (.ok page, r)

/-- What `carquet_read_next_page` writes to its out parameters. -/
structure PageSlice (α : Type) where
  count : Nat
  values : List α
  defLevels : List Int
  repLevels : List Int

def PageSlice.none : PageSlice α := ⟨0, [], [], []⟩

/-- Levels `start .. start + n` of a buffer, zeros when there is none
(page_reader.c:2586-2603). -/
def levelsAt (levels : Option (List Int)) (start n : Nat) : List Int :=
  match levels with
  | some levels => (levels.drop start).take n
  | none => List.replicate n 0

/-- Where the values of the next `n` entries of the page start and how many they are
(page_reader.c:2566-2581). -/
def denseWindow (maxDefLevel : Int) (page : LoadedPage α) (read n : Nat) : Nat × Nat :=
  match page.defLevels with
  | some levels =>
    if 0 < maxDefLevel then
      (countNonNulls (levels.take read) maxDefLevel,
        countNonNulls ((levels.drop read).take n) maxDefLevel)
    else (read, n)
  | none => (read, n)

/-- `carquet_read_next_page` (page_reader.c:2529-2612). -/
def readNextPage (r : ColumnReader α) (maxValues : Int) :
    Except Status (PageSlice α) × ColumnReader α :=
  match ensurePageLoaded r with
  | (.error e, r) => (.error e, r)
  | (.ok page, r) =>
    if maxValues = 0 then (.ok .none, r)
    else
      let available : Int := (page.numValues : Int) - r.pageValuesRead
      let toCopy := min (toI32 maxValues) available
      if toCopy ≤ 0 then (.ok .none, r)
      else
        let n := toCopy.toNat
        let (start, count) := denseWindow r.maxDefLevel page r.pageValuesRead n
        (.ok ⟨n, (page.values.drop start).take count, levelsAt page.defLevels r.pageValuesRead n,
            levelsAt page.repLevels r.pageValuesRead n⟩,
          { r with
            pageValuesRead := r.pageValuesRead + n
            valuesRemaining := r.valuesRemaining - toCopy })

/-! ## A batch -/

/-- The caller's buffers and the two counters of the loop in `carquet_column_read_batch`. -/
structure BatchBuffers (α : Type) where
  totalRead : Nat
  denseValuesRead : Nat
  values : List α
  defLevels : List Int
  repLevels : List Int

def BatchBuffers.empty : BatchBuffers α := ⟨0, 0, [], [], []⟩

/-- Writing `cells` into a buffer at `pos`. -/
def writeAt {β : Type} (pos : Nat) (cells buffer : List β) : List β :=
  buffer.take pos ++ cells ++ buffer.drop (pos + cells.length)

/-- What one round of the loop writes (column_reader.c:115-120, 136-142). -/
def BatchBuffers.add (maxDefLevel : Int) (b : BatchBuffers α) (slice : PageSlice α) :
    BatchBuffers α :=
  let nullable : Prop := 0 < maxDefLevel
  { totalRead := b.totalRead + slice.count
    denseValuesRead := b.denseValuesRead +
      if nullable then countNonNulls slice.defLevels maxDefLevel else slice.count
    values := writeAt (if nullable then b.denseValuesRead else b.totalRead) slice.values b.values
    defLevels := writeAt b.totalRead slice.defLevels b.defLevels
    repLevels := writeAt b.totalRead slice.repLevels b.repLevels }

/-- The loop over the pages (column_reader.c:110-143); `none` is `-1`. Every round but the last
takes entries off `values_remaining`, which is the fuel. -/
def readBatchLoop (maxValues : Int) :
    Nat → ColumnReader α → BatchBuffers α → Option (BatchBuffers α) × ColumnReader α
  | 0, r, b => (some b, r)
  | fuel + 1, r, b =>
    if (b.totalRead : Int) < maxValues ∧ 0 < r.valuesRemaining then
      match readNextPage r (maxValues - b.totalRead) with
      | (.error _, r) => (if 0 < b.totalRead then some b else none, r)
      | (.ok slice, r) =>
        if slice.count = 0 then (some b, r)
        else readBatchLoop maxValues fuel r (b.add r.maxDefLevel slice)
    else (some b, r)

/-- What a call returns and has written; level buffers the caller did not pass are empty. -/
structure BatchResult (α : Type) where
  count : Int
  values : List α
  defLevels : List Int
  repLevels : List Int
  deriving DecidableEq

def BatchResult.ofCount (count : Int) : BatchResult α := ⟨count, [], [], []⟩

def BatchBuffers.result (b : BatchBuffers α) (wanted : Wanted) : BatchResult α :=
  ⟨b.totalRead, b.values, if wanted.defLevels then b.defLevels else [],
    if wanted.repLevels then b.repLevels else []⟩

/-- `carquet_column_read_batch` (column_reader.c:41-148). Without a buffer for them, the levels
of a nullable column go to a scratch buffer. -/
def readBatch (r : ColumnReader α) (maxValues : Int) (wanted : Wanted) :
    BatchResult α × ColumnReader α :=
  if maxValues < 0 then (.ofCount (-1), r)
  else if maxValues = 0 then
    (.ofCount 0,
      if 0 < r.valuesRemaining ∧ r.page.isNone then (ensurePageLoaded r).2 else r)
  else if r.valuesRemaining ≤ 0 then (.ofCount 0, r)
  else
    match readBatchLoop maxValues r.valuesRemaining.toNat r .empty with
    | (none, r) => (.ofCount (-1), r)
    | (some b, r) => (b.result wanted, r)

/-! ## Skipping -/

/-- The loop of `carquet_column_skip` (column_reader.c:200-211). -/
def skipLoop (numValues : Int) : Nat → ColumnReader α → Int → Int × ColumnReader α
  | 0, r, totalSkipped => (totalSkipped, r)
  | fuel + 1, r, totalSkipped =>
    if totalSkipped < numValues ∧ 0 < r.valuesRemaining then
      match readBatch r (min (numValues - totalSkipped) 1024) ⟨false, false⟩ with
      | (res, r) =>
        if res.count ≤ 0 then (totalSkipped, r)
        else skipLoop numValues fuel r (totalSkipped + res.count)
    else (totalSkipped, r)

/-- `carquet_column_skip` (column_reader.c:155-215). -/
def skip (r : ColumnReader α) (numValues : Int) : Int × ColumnReader α :=
  if numValues ≤ 0 ∨ r.valuesRemaining ≤ 0 then (0, r)
  else skipLoop numValues r.valuesRemaining.toNat r 0

/-! ## Sequences of calls -/

/-- A call on a column reader. -/
inductive Call where
  | read (maxValues : Nat) (wanted : Wanted)
  | skip (numValues : Nat)
  deriving DecidableEq, Repr

/-- What a call returns; a skip writes nothing. -/
def ColumnReader.call (r : ColumnReader α) : Call → BatchResult α × ColumnReader α
  | .read maxValues wanted => readBatch r maxValues wanted
  | .skip numValues =>
    match skip r numValues with
    | (count, r) => (.ofCount count, r)

/-- What the calls return, one after the other. -/
def ColumnReader.run (r : ColumnReader α) : List Call → List (BatchResult α)
  | [] => []
  | c :: calls => (r.call c).1 :: (r.call c).2.run calls

end Carquet
