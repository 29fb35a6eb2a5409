import Carquet.Writer.PageIndex
import Carquet.Reader.StatisticsSpec

/-!
# What a page index says about its chunk

The pages of a chunk (`ChunkPages.pages`) are what its batches and flushes cut it into, whatever
the column writer keeps of them. The column index should mark a page as a null page when, and
only when, the page has no value (`NullPagesRight`); the offset index should have the page's place
in the file, its size and the rows before it (`OffsetIndexRight`).
-/

namespace Carquet

open LittleEndian Bounds

/-! ## Pages of a chunk -/

/-- What a page was made of: the calls since the last one, or a chunk's one batch of indices. -/
inductive PageContent where
  | batches (calls : List PageCall)
  | dictionary (batch : LevelBatch)
  deriving DecidableEq, Repr

def PageCall.repLevels : PageCall → List Nat
  | .accepted b => b.repLevels
  | .refused => []

def PageCall.cells : PageCall → List Cell
  | .accepted b => b.cells
  | .refused => []

/-- The repetition level of each entry. -/
def PageContent.repLevels : PageContent → List Nat
  | .batches calls => calls.flatMap PageCall.repLevels
  | .dictionary b => b.repLevels

/-- The values that are not null. -/
def PageContent.cells : PageContent → List Cell
  | .batches calls => calls.flatMap PageCall.cells
  | .dictionary b => b.cells

/-- Entries that begin a row. -/
def PageContent.rows (c : PageContent) : Nat := c.repLevels.count 0

/-- A page: where in the chunk it starts, its bytes, and what it was made of. -/
structure WrittenPage where
  start : Nat
  bytes : PageBytes
  content : PageContent
  deriving DecidableEq, Repr

/-- A chunk while it is written: its length, the calls since the last page, the pages. -/
structure Layout where
  stop : Nat
  pending : List PageCall
  pages : List WrittenPage
  deriving DecidableEq, Repr

def Layout.empty : Layout := ⟨0, [], []⟩

/-- A flush cuts off a page where there is something to cut off. -/
def Layout.step (l : Layout) : PageOp → Layout
  | .addValues call => { l with pending := l.pending ++ [call] }
  | .flush none => l
  | .flush (some b) =>
    if l.pending.flatMap PageCall.repLevels = [] then l
    else ⟨l.stop + b.pageSize, [], l.pages ++ [⟨l.stop, b, .batches l.pending⟩]⟩

/-- The layout after the batches of a chunk. -/
def ChunkPages.batchLayout : ChunkPages → Layout
  | .paged before _ => before.foldl Layout.step .empty
  | .dictionary .. => .empty

/-- The layout of a finalized chunk. -/
def ChunkPages.layout : ChunkPages → Layout
  | .paged before atEnd => atEnd.foldl Layout.step (before.foldl Layout.step .empty)
  | .dictionary size batch b =>
    if batch.repLevels = [] then ⟨size, [], []⟩
    else ⟨size + b.pageSize, [], [⟨size, b, .dictionary batch⟩]⟩

/-- Its pages. -/
def ChunkPages.pages (chunk : ChunkPages) : List WrittenPage := chunk.layout.pages

/-- Those flushed before it was finalized. -/
def ChunkPages.early (chunk : ChunkPages) : List WrittenPage := chunk.batchLayout.pages

/-! ## The index of a layout -/

/-- The page writer that holds a page's content. -/
def PageContent.writer (col : IndexColumn) : PageContent → PageWriter
  | .batches calls => calls.foldl (PageWriter.addValues col) .reset
  | .dictionary b => PageWriter.reset.addDictionaryIndices col b

/-- Its entry in the column index. -/
def PageContent.indexPage (col : IndexColumn) (c : PageContent) : ColumnIndexPage :=
  let w := c.writer col
  ⟨w.numNulls, indexBound (w.stats.minMax.map Prod.fst), indexBound (w.stats.minMax.map Prod.snd),
    !w.stats.minMax.isSome⟩

/-- The entries of the offset index, each page with what `column_file_offset` was when it was
flushed. -/
def locations (rowOffset : Nat) : List (Int × WrittenPage) → List PageLocation
  | [] => []
  | (base, p) :: ps =>
    { offset := base + p.start
      compressedPageSize := toI32 p.bytes.pageSize
      firstRowIndex := rowOffset
      uncompressedPageSize := toI32 p.bytes.uncompressedSize } ::
      locations (rowOffset + p.content.repLevels.length) ps

/-- How many entries the pages have. -/
def entryCount (ps : List WrittenPage) : Nat := (ps.map fun p => p.content.repLevels.length).sum

theorem locations_append (rowOffset : Nat) (ps qs : List (Int × WrittenPage)) :
    locations rowOffset (ps ++ qs) =
      locations rowOffset ps ++ locations (rowOffset + entryCount (ps.map Prod.snd)) qs := by
  induction ps generalizing rowOffset with
  | nil => simp [locations, entryCount]
  | cons p ps ih =>
    simp only [List.cons_append, locations, ih, entryCount, List.map_cons, List.sum_cons,
      Nat.add_assoc]

/-- What a column writer has that made the pages of a layout. -/
structure ColumnPages.Follows (col : IndexColumn) (s : ColumnPages) (l : Layout)
    (bases : List Int) : Prop where
  page : s.page = l.pending.foldl (PageWriter.addValues col) .reset
  bufferSize : s.bufferSize = l.stop
  pageRowOffset : s.pageRowOffset = entryCount l.pages
  columnIndex : s.columnIndex = l.pages.map fun p => p.content.indexPage col
  lengthBases : bases.length = l.pages.length
  offsetIndex : s.offsetIndex = locations 0 (bases.zip l.pages)

theorem PageWriter.numValues_foldl (col : IndexColumn) (w : PageWriter) (calls : List PageCall) :
    (calls.foldl (PageWriter.addValues col) w).numValues =
      w.numValues + (calls.flatMap PageCall.repLevels).length := by
  induction calls generalizing w with
  | nil => rfl
  | cons call calls ih =>
    rw [List.foldl_cons, ih, List.flatMap_cons, List.length_append]
    cases call with
    | accepted b => exact Nat.add_assoc ..
    | refused => simp [PageWriter.addValues, PageCall.repLevels]

theorem follows_reset (col : IndexColumn) : ColumnPages.reset.Follows col .empty [] :=
  ⟨rfl, rfl, rfl, rfl, rfl, rfl⟩

/-- A page more, made from what the page writer holds. -/
theorem follows_flush {col : IndexColumn} {s : ColumnPages} (l : Layout) (bases : List Int)
    {b : PageBytes} (content : PageContent) (hpage : s.page = content.writer col)
    (hnum : s.page.numValues = content.repLevels.length) (hne : content.repLevels ≠ [])
    (hsize : s.bufferSize = l.stop) (hrow : s.pageRowOffset = entryCount l.pages)
    (hcol : s.columnIndex = l.pages.map fun p => p.content.indexPage col)
    (hbases : bases.length = l.pages.length)
    (hoff : s.offsetIndex = locations 0 (bases.zip l.pages)) :
    (s.flushCurrentPage (some b)).Follows col
      ⟨l.stop + b.pageSize, [], l.pages ++ [⟨l.stop, b, content⟩]⟩
      (bases ++ [s.columnFileOffset]) := by
  have hpos : s.page.numValues ≠ 0 := by
    rw [hnum]
    exact fun h => hne (List.length_eq_zero_iff.mp h)
  simp only [ColumnPages.flushCurrentPage, if_neg hpos]
  refine ⟨rfl, ?_, ?_, ?_, ?_, ?_⟩
  · exact congrArg (· + b.pageSize) hsize
  · simp [entryCount, hrow, hnum]
  · simp [columnIndexAddPage, hcol, PageContent.indexPage, ← hpage]
  · simp [hbases]
  · have hzip : (bases ++ [s.columnFileOffset]).zip (l.pages ++ [⟨l.stop, b, content⟩]) =
        bases.zip l.pages ++ [(s.columnFileOffset, ⟨l.stop, b, content⟩)] := by
      rw [List.zip_append hbases]
      rfl
    have hsnd : (bases.zip l.pages).map Prod.snd = l.pages :=
      List.map_snd_zip (Nat.le_of_eq hbases.symm)
    simp only [hzip, locations_append, hsnd, Nat.zero_add, hoff, locations, hsize, hrow]

/-- **One step adds to the index what it adds to the layout.** -/
theorem follows_step {col : IndexColumn} {s : ColumnPages} {l : Layout} {bases : List Int}
    (op : PageOp) (h : s.Follows col l bases) :
    ∃ more : List Int, (∀ b ∈ more, b = s.columnFileOffset) ∧
      (s.step col op).Follows col (l.step op) (bases ++ more) ∧
      (s.step col op).columnFileOffset = s.columnFileOffset := by
  have hnum : s.page.numValues = (l.pending.flatMap PageCall.repLevels).length := by
    rw [h.page, PageWriter.numValues_foldl]
    exact Nat.zero_add _
  rcases op with call | _ | b
  · refine ⟨[], by simp, ?_, rfl⟩
    rw [List.append_nil]
    refine ⟨?_, h.bufferSize, h.pageRowOffset, h.columnIndex, h.lengthBases, h.offsetIndex⟩
    simp only [ColumnPages.step, ColumnPages.addValues, Layout.step, List.foldl_append, h.page]
    rfl
  · exact ⟨[], by simp, by simpa [ColumnPages.step, ColumnPages.flushCurrentPage, Layout.step]
      using h, rfl⟩
  · simp only [ColumnPages.step, Layout.step]
    split
    · rename_i hnil
      have hzero : s.page.numValues = 0 := by simp [hnum, hnil]
      refine ⟨[], by simp, ?_, ?_⟩
      · simpa [ColumnPages.flushCurrentPage, hzero] using h
      · simp [ColumnPages.flushCurrentPage, hzero]
    · rename_i hne
      refine ⟨[s.columnFileOffset], by simp, ?_, ?_⟩
      · exact follows_flush l bases (.batches l.pending) h.page hnum hne h.bufferSize
          h.pageRowOffset h.columnIndex h.lengthBases h.offsetIndex
      · simp only [ColumnPages.flushCurrentPage]
        split <;> rfl

theorem follows_foldl {col : IndexColumn} {s : ColumnPages} {l : Layout} {bases : List Int}
    (ops : List PageOp) (h : s.Follows col l bases) :
    ∃ more : List Int, (∀ b ∈ more, b = s.columnFileOffset) ∧
      (ops.foldl (ColumnPages.step col) s).Follows col (ops.foldl Layout.step l) (bases ++ more) ∧
      (ops.foldl (ColumnPages.step col) s).columnFileOffset = s.columnFileOffset := by
  induction ops generalizing s l bases with
  | nil => exact ⟨[], by simp, by simpa using h, rfl⟩
  | cons op ops ih =>
    obtain ⟨more, hmore, hs, hoff⟩ := follows_step op h
    obtain ⟨more', hmore', hs', hoff'⟩ := ih hs
    refine ⟨more ++ more', ?_, by simpa [← List.append_assoc] using hs', hoff'.trans hoff⟩
    intro b hb
    rcases List.mem_append.mp hb with hb | hb
    · exact hmore b hb
    · exact (hmore' b hb).trans hoff

/-- The bases of a finalized chunk: 0 for the early pages, its place for the others. -/
structure ChunkBases (chunk : ChunkPages) (offset : Int) (bases : List Int) : Prop where
  early : ∀ b ∈ bases.take chunk.early.length, b = 0
  late : ∀ b ∈ bases.drop chunk.early.length, b = offset

/-- **The index of a chunk is that of its layout.** -/
theorem follows_finalize (col : IndexColumn) (chunk : ChunkPages) (offset : Int) :
    ∃ bases, ChunkBases chunk offset bases ∧
      (((ColumnPages.reset.writeBatches col chunk).setFileOffset offset).finalize col chunk).Follows
        col chunk.layout bases := by
  cases chunk with
  | paged before atEnd =>
    obtain ⟨bases, hbases, hs, -⟩ := follows_foldl before (follows_reset col)
    have hset : ((before.foldl (ColumnPages.step col) .reset).setFileOffset offset).Follows col
        (before.foldl Layout.step .empty) bases :=
      ⟨hs.page, hs.bufferSize, hs.pageRowOffset, hs.columnIndex, hs.lengthBases, hs.offsetIndex⟩
    obtain ⟨more, hmore, hs', -⟩ := follows_foldl atEnd hset
    have hlen : (ChunkPages.paged before atEnd).early.length = bases.length := hs.lengthBases.symm
    refine ⟨bases ++ more, ⟨?_, ?_⟩, hs'⟩
    · rw [hlen, List.take_left]
      exact hbases
    · rw [hlen, List.drop_left]
      exact hmore
  | dictionary size batch bytes =>
    simp only [ColumnPages.writeBatches, ColumnPages.setFileOffset, ColumnPages.finalize,
      ChunkPages.layout]
    split
    · rename_i hnil
      have hcells : batch.cells = [] := List.length_eq_zero_iff.mp
        (Nat.le_zero.mp (by simpa [hnil] using batch.fits))
      have hpage : PageWriter.reset.addDictionaryIndices col batch = .reset := by
        simp [PageWriter.addDictionaryIndices, hcells, hnil, dictMinMax, setMinMax,
          PageWriter.reset]
      refine ⟨[], ⟨by simp, by simp⟩, ?_⟩
      simp only [ColumnPages.reset, hpage]
      exact ⟨rfl, Nat.zero_add size, rfl, rfl, rfl, rfl⟩
    · rename_i hne
      exact ⟨[offset], ⟨by simp [ChunkPages.early, ChunkPages.batchLayout, Layout.empty],
        by simp [ChunkPages.early, ChunkPages.batchLayout, Layout.empty]⟩,
        follows_flush ⟨size, [], []⟩ [] (.dictionary batch) rfl rfl
          hne (Nat.zero_add size) rfl rfl rfl rfl⟩

/-! ## The offset index -/

/-- The page's place, size and first row, one after the other. -/
def expectedLocations (position rowsBefore : Nat) : List WrittenPage → List (Int × Int × Int)
  | [] => []
  | p :: ps =>
    ((position : Int) + p.start, (p.bytes.pageSize : Int), (rowsBefore : Int)) ::
      expectedLocations position (rowsBefore + p.content.rows) ps

/-- The offset index of a chunk says of each page where in the file its header is, how many bytes
header and payload take, and how many rows the pages before it have. -/
def OffsetIndexRight (c : PlacedChunk) : Prop :=
  c.written.offsetIndex.map (fun l => (l.offset, l.compressedPageSize, l.firstRowIndex)) =
    expectedLocations c.position 0 c.chunk.pages

/-- No page was flushed before the chunk was finalized, each page's size is an `int32_t`, and no
page but the last has an entry that continues a row. -/
structure ChunkPages.LocatedAtEnd (chunk : ChunkPages) : Prop where
  noEarly : chunk.early = []
  sizes : ∀ p ∈ chunk.pages, p.bytes.pageSize < 2147483648
  rows : ∀ p ∈ chunk.pages.dropLast, ∀ level ∈ p.content.repLevels, level = 0

theorem toI32_eq_iff (n : Nat) : toI32 n = n ↔ n < 2147483648 := by
  unfold toI32
  omega

theorem rows_le (c : PageContent) : c.rows ≤ c.repLevels.length := List.count_le_length

theorem rows_eq_iff (c : PageContent) :
    c.rows = c.repLevels.length ↔ ∀ level ∈ c.repLevels, level = 0 := by
  rw [PageContent.rows, List.count_eq_length]
  exact ⟨fun h level hl => (h level hl).symm, fun h level hl => (h level hl).symm⟩

/-- **The entries are the expected ones when bases, sizes and levels are.** -/
theorem locations_right_iff (position : Nat) {rowOffset rowsBefore : Nat}
    (ps : List (Int × WrittenPage)) (hle : rowsBefore ≤ rowOffset) :
    (locations rowOffset ps).map (fun l => (l.offset, l.compressedPageSize, l.firstRowIndex)) =
        expectedLocations position rowsBefore (ps.map Prod.snd) ↔
      ps = [] ∨ rowOffset = rowsBefore ∧ (∀ q ∈ ps, q.1 = position) ∧
        (∀ p ∈ ps.map Prod.snd, p.bytes.pageSize < 2147483648) ∧
        ∀ p ∈ (ps.map Prod.snd).dropLast, ∀ level ∈ p.content.repLevels, level = 0 := by
  induction ps generalizing rowOffset rowsBefore with
  | nil => simp [locations, expectedLocations]
  | cons q ps ih =>
    obtain ⟨base, p⟩ := q
    have hrows := rows_le p.content
    simp only [locations, expectedLocations, List.map_cons, List.cons.injEq, Prod.mk.injEq,
      toI32_eq_iff, List.forall_mem_cons, reduceCtorEq, false_or, Int.add_left_inj,
      Int.natCast_inj]
    rw [ih (Nat.add_le_add hle hrows)]
    cases ps with
    | nil => simp; tauto
    | cons q' ps =>
      simp only [List.map_cons, List.dropLast_cons_cons, List.forall_mem_cons, reduceCtorEq, false_or,
        ← rows_eq_iff]
      constructor
      · rintro ⟨⟨hbase, hsize, rfl⟩, hsum, hbases, hsizes, hlevels⟩
        exact ⟨rfl, ⟨hbase, hbases⟩, ⟨hsize, hsizes⟩, by omega, hlevels⟩
      · rintro ⟨rfl, ⟨hbase, hbases⟩, ⟨hsize, hsizes⟩, hall, hlevels⟩
        exact ⟨⟨hbase, hsize, rfl⟩, by omega, hbases, hsizes, hlevels⟩

theorem early_initial (chunk : ChunkPages) : chunk.early <+: chunk.pages := by
  have hstep (l : Layout) (op : PageOp) : l.pages <+: (l.step op).pages := by
    rcases op with call | _ | b
    · exact List.prefix_rfl
    · exact List.prefix_rfl
    · simp only [Layout.step]
      split
      · exact List.prefix_rfl
      · exact List.prefix_append _ _
  have hrun (ops : List PageOp) (l : Layout) : l.pages <+: (ops.foldl Layout.step l).pages := by
    induction ops generalizing l with
    | nil => exact List.prefix_rfl
    | cons op ops ih => exact (hstep l op).trans (ih (l.step op))
  cases chunk with
  | paged before atEnd => exact hrun atEnd _
  | dictionary size batch b => exact List.nil_prefix

/-- The file writer's offset, its file's length, and what its row group has written so far. -/
theorem mem_writeToFile {cols : List IndexColumn} {chunks : List ChunkPages}
    {writers : List ColumnPages} (offset : Nat) {c : PlacedChunk}
    (hreset : ∀ w ∈ writers, w = ColumnPages.reset)
    (hc : c ∈ writeToFile offset offset ((cols.zip (chunks.zip writers)).map fun p =>
      (p.1, p.2.1, p.2.2.writeBatches p.1 p.2.1))) :
    offset ≤ c.position ∧ c.written = ((ColumnPages.reset.writeBatches c.column
      c.chunk).setFileOffset c.position).finalize c.column c.chunk := by
  induction cols generalizing chunks writers offset with
  | nil => simp [writeToFile] at hc
  | cons col cols ih =>
    cases chunks with
    | nil => simp [writeToFile] at hc
    | cons chunk chunks =>
      cases writers with
      | nil => simp [writeToFile] at hc
      | cons w writers =>
        obtain rfl := hreset w List.mem_cons_self
        simp only [List.zip_cons_cons, List.map_cons, writeToFile, List.mem_cons] at hc
        rcases hc with rfl | hc
        · exact ⟨Nat.le_refl _, rfl⟩
        · rw [← Int.natCast_add] at hc
          have h := ih _ (fun w hw => hreset w (List.mem_cons_of_mem _ hw)) hc
          exact ⟨Nat.le_trans (Nat.le_add_right _ _) h.1, h.2⟩

/-- **In every run each chunk is finalized where it is put.** -/
theorem mem_runGroups {cols : List IndexColumn} {groups : List GroupRun}
    {writers : List ColumnPages} (offset : Nat) {c : PlacedChunk}
    (hreset : ∀ w ∈ writers, w = ColumnPages.reset)
    (hc : c ∈ runGroups cols offset offset writers groups) :
    offset ≤ c.position ∧ c.written = ((ColumnPages.reset.writeBatches c.column
      c.chunk).setFileOffset c.position).finalize c.column c.chunk := by
  induction groups generalizing writers offset with
  | nil => simp [runGroups] at hc
  | cons g gs ih =>
    simp only [runGroups, List.mem_append] at hc
    rcases hc with hc | hc
    · exact mem_writeToFile offset hreset hc
    · rw [← Int.natCast_add] at hc
      have h := ih _ (by simp) hc
      exact ⟨Nat.le_trans (Nat.le_add_right _ _) h.1, h.2⟩

theorem mem_runFile {cols : List IndexColumn} {groups : List GroupRun} {c : PlacedChunk}
    (hc : c ∈ runFile cols groups) :
    4 ≤ c.position ∧ c.written = ((ColumnPages.reset.writeBatches c.column
      c.chunk).setFileOffset c.position).finalize c.column c.chunk :=
  mem_runGroups 4 (by simp) hc

/-- **In every file, of any number of row groups, the offset index of a chunk is right when, and
only when, the chunk was located at its end** (or has no page). -/
theorem offsetIndex_right_iff (cols : List IndexColumn) (groups : List GroupRun) :
    ∀ c ∈ runFile cols groups, OffsetIndexRight c ↔ c.chunk.LocatedAtEnd := by
  intro c hc
  obtain ⟨hpos, hwritten⟩ := mem_runFile hc
  obtain ⟨bases, hbases, hfollows⟩ := follows_finalize c.column c.chunk c.position
  rw [← hwritten] at hfollows
  have hlen : bases.length = c.chunk.pages.length := hfollows.lengthBases
  have hsnd : (bases.zip c.chunk.pages).map Prod.snd = c.chunk.pages :=
    List.map_snd_zip (Nat.le_of_eq hlen.symm)
  have hoff : c.written.offsetIndex = locations 0 (bases.zip c.chunk.pages) :=
    hfollows.offsetIndex
  have hiff := locations_right_iff c.position (bases.zip c.chunk.pages) (Nat.le_refl 0)
  rw [← hoff, hsnd] at hiff
  refine hiff.trans ⟨?_, ?_⟩
  · rintro (hnil | ⟨-, hpositions, hsizes, hrows⟩)
    · have hpages : c.chunk.pages = [] := by simpa [hnil] using hsnd.symm
      have hearly : c.chunk.early = [] := List.prefix_nil.mp (hpages ▸ early_initial c.chunk)
      exact ⟨hearly, by simp [hpages], by simp [hpages]⟩
    · refine ⟨?_, hsizes, hrows⟩
      -- an early page would have the base 0, where nothing is placed
      by_contra hearly
      obtain ⟨p, early, he⟩ := List.exists_cons_of_ne_nil hearly
      have hpre := (early_initial c.chunk).length_le
      cases bases with
      | nil => simp [he, ← hlen] at hpre
      | cons base bases =>
        obtain ⟨q, pages, hq⟩ : ∃ q pages, c.chunk.pages = q :: pages :=
          List.exists_cons_of_ne_nil fun h => by simp [h] at hlen
        have hzero : base = 0 := hbases.early base (by simp [he])
        have hplace : base = c.position := hpositions (base, q) (by simp [hq])
        omega
  · intro h
    refine .inr ⟨rfl, fun q hq => ?_, h.sizes, h.rows⟩
    exact hbases.late q.1 (by simpa [h.noEarly] using (List.of_mem_zip hq).1)

instance (c : PlacedChunk) : Decidable (OffsetIndexRight c) :=
  inferInstanceAs (Decidable (_ = _))

/-- An INT32 column that is not nullable. -/
def plainInts : IndexColumn := ⟨.int32, 0, .unknown, false, true⟩

/-- A batch of two rows, `1` and `2`. -/
def twoInts : LevelBatch := ⟨[some [1, 0, 0, 0], some [2, 0, 0, 0]], [0, 0], by decide⟩

/-- With pages of at most two rows the batch fills one, which is flushed before the row group
ends. -/
def flushedEarly : GroupRun :=
  ⟨[.paged [.addValues (.accepted twoInts), .flush (some ⟨25, 8⟩)] [.flush (some ⟨17, 0⟩)]], 0⟩

/-- Its chunk is right when it was located at its end, which it was not. -/
theorem flushedEarly_right_iff :
    OffsetIndexRight ((runFile [plainInts] [flushedEarly]).head (by decide)) ↔
      ((runFile [plainInts] [flushedEarly]).head (by decide)).chunk.LocatedAtEnd :=
  offsetIndex_right_iff _ _ _ (List.head_mem _)

/-- The page is at 4, behind the magic; the index has 0. -/
theorem flushedEarly_wrong :
    ¬ ∀ c ∈ runFile [plainInts] [flushedEarly], OffsetIndexRight c := by decide

end Carquet
