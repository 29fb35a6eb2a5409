import Carquet.Reader.BatchReaderSpec

/-!
# Row alignment across failures

A file may have pages that do not load. `batches_aligned`: as long as each column, in each call,
either has all the rows that are wanted in pages that load, or fails at the first of them
(`ReadsWhole`), every batch is aligned. A column that failed keeps failing until the row group is
over, so no batch can come out of step.

The condition is needed since `carquet_column_read_batch` returns the rows in front of a page that
fails as a success (column_reader.c:122-126), and `read_projected_column` takes them.
-/

namespace Carquet

variable {α : Type}

/-! ## Readers of any chunk -/

/-- How many entries of the loaded page are left. -/
def ColumnReader.leftInPage (r : ColumnReader α) : Nat :=
  match r.page with
  | some page => page.numValues - r.pageValuesRead
  | none => 0

/-- The next `n` entries lie in pages that load. -/
def ColumnReader.PagesHold (r : ColumnReader α) (n : Nat) : Prop :=
  ∃ pages : List (LoadedPage α), Loads r.load r.nextOffset pages ∧
    n ≤ r.leftInPage + totalValues pages

/-- The next entry lies in a page that does not load. -/
def ColumnReader.FailsAtOnce (r : ColumnReader α) : Prop :=
  r.Between ∧ 0 < r.valuesRemaining ∧ ∃ e, r.load r.nextOffset = .error e

theorem ColumnReader.PagesHold.mono {r : ColumnReader α} {n n' : Nat} (h : r.PagesHold n)
    (hle : n' ≤ n) : r.PagesHold n' := by
  obtain ⟨pages, hloads, hn⟩ := h
  exact ⟨pages, hloads, Nat.le_trans hle hn⟩

/-- A page with one of the entries can be loaded. -/
theorem ColumnReader.PagesHold.ensure {r : ColumnReader α} {n : Nat} (h : r.PagesHold n)
    (hpos : 0 < n) : ∃ page r', ensurePageLoaded r = (.ok page, r') ∧ r'.Within page ∧
      r'.PagesHold n := by
  obtain ⟨pages, hloads, hn⟩ := h
  by_cases hleft : 0 < r.leftInPage
  · cases hpage : r.page with
    | none =>
      unfold ColumnReader.leftInPage at hleft
      rw [hpage] at hleft
      exact absurd hleft (Nat.lt_irrefl 0)
    | some page =>
      have hlt : r.pageValuesRead < page.numValues := by
        unfold ColumnReader.leftInPage at hleft
        rw [hpage] at hleft
        dsimp only at hleft
        omega
      refine ⟨page, r, ?_, ⟨hpage, hlt⟩, pages, hloads, hn⟩
      rw [ensurePageLoaded, hpage]
      exact if_neg (by omega)
  · have hbetween : r.Between := by
      intro page hpage
      unfold ColumnReader.leftInPage at hleft
      rw [hpage] at hleft
      dsimp only at hleft
      omega
    cases pages with
    | nil =>
      simp only [totalValues, List.map_nil, List.sum_nil] at hn
      omega
    | cons page pages =>
      obtain ⟨hload, hloads⟩ := hloads
      refine ⟨page, _, ensurePageLoaded_of_between hbetween hload, ⟨rfl, page.numValues_pos⟩, pages,
        hloads, ?_⟩
      have hleft' : ({ r with currentPage := r.nextOffset, page := some page, pageValuesRead := 0 } :
          ColumnReader α).leftInPage = page.numValues := rfl
      rw [hleft']
      simp only [totalValues, List.map_cons, List.sum_cons] at hn ⊢
      omega

/-- One page step delivers some of the entries. -/
theorem ColumnReader.PagesHold.readNextPage {r : ColumnReader α} {n : Nat} (h : r.PagesHold n)
    (hpos : 0 < n) (hlt : n < 2147483648) :
    ∃ slice r', Carquet.readNextPage r n = (.ok slice, r') ∧ 0 < slice.count ∧ slice.count ≤ n ∧
      r'.PagesHold (n - slice.count) := by
  obtain ⟨page, r₁, hensure, ⟨hpage, hread⟩, pages, hloads, hn⟩ := h.ensure hpos
  have htoI32 : toI32 (n : Int) = n := toI32_of_range (by omega) (by omega)
  have hleft : r₁.leftInPage = page.numValues - r₁.pageValuesRead := by
    unfold ColumnReader.leftInPage
    rw [hpage]
  generalize hcount : min n (page.numValues - r₁.pageValuesRead) = count
  have hcopy : min (toI32 (n : Int)) ((page.numValues : Int) - r₁.pageValuesRead) = (count : Int) := by
    omega
  unfold Carquet.readNextPage
  rw [hensure]
  dsimp only
  rw [if_neg (by omega), hcopy, if_neg (by omega), Int.toNat_natCast]
  refine ⟨_, _, rfl, by dsimp only; omega, by dsimp only; omega, pages, ?_, ?_⟩
  · simpa only [ColumnReader.nextOffset] using hloads
  · have hleft' : ({ r₁ with
        pageValuesRead := r₁.pageValuesRead + count
        valuesRemaining := r₁.valuesRemaining - count } : ColumnReader α).leftInPage =
          page.numValues - (r₁.pageValuesRead + count) := by
      unfold ColumnReader.leftInPage
      dsimp only
      rw [hpage]
    rw [hleft']
    dsimp only
    omega

theorem ColumnReader.PagesHold.readBatchLoop (fuel : Nat) {r : ColumnReader α} {n : Nat}
    (h : r.PagesHold n) (hlt : n < 2147483648) (hremaining : n ≤ r.valuesRemaining)
    (hfuel : n ≤ fuel) (b : BatchBuffers α) :
    ∃ b' r', Carquet.readBatchLoop ((b.totalRead + n : Nat) : Int) fuel r b = (some b', r') ∧
      b'.totalRead = b.totalRead + n := by
  induction fuel generalizing r n b with
  | zero => exact ⟨b, r, rfl, by omega⟩
  | succ fuel ih =>
    unfold Carquet.readBatchLoop
    by_cases hn : n = 0
    · exact ⟨b, r, if_neg (by omega), by omega⟩
    · obtain ⟨slice, r', hnext, hpos, hle, hhold⟩ := h.readNextPage (by omega) hlt
      have hstep := readNextPage_remaining r n
      rw [hnext] at hstep
      simp only [stepCount] at hstep
      have htotal : ((b.totalRead + n : Nat) : Int) - (b.totalRead : Int) = n := by omega
      rw [if_pos (by omega), htotal, hnext]
      dsimp only
      rw [if_neg (by omega)]
      obtain ⟨b', r'', hloop, hb'⟩ := ih hhold (by omega) (by omega) (by omega)
        (b.add r'.maxDefLevel slice)
      have hadd : (b.add r'.maxDefLevel slice).totalRead = b.totalRead + slice.count := rfl
      rw [hadd, show b.totalRead + slice.count + (n - slice.count) = b.totalRead + n by omega]
        at hloop hb'
      exact ⟨b', r'', hloop, hb'⟩

/-- **A read whose entries lie in pages that load delivers them all.** -/
theorem ColumnReader.PagesHold.readBatch {r : ColumnReader α} {n : Nat} (h : r.PagesHold n)
    (hlt : n < 2147483648) (hremaining : n ≤ r.valuesRemaining) (hpos : 0 < n) (wanted : Wanted) :
    (Carquet.readBatch r n wanted).1.count = n := by
  obtain ⟨b', r', hloop, hb'⟩ := h.readBatchLoop r.valuesRemaining.toNat hlt hremaining (by omega)
    .empty
  have hempty : (BatchBuffers.empty : BatchBuffers α).totalRead = 0 := rfl
  rw [hempty, Nat.zero_add] at hloop hb'
  unfold Carquet.readBatch
  rw [if_neg (by omega), if_neg (by omega), if_neg (by omega), hloop]
  exact congrArg Int.ofNat hb'

/-- A page that does not load does not load again. -/
theorem ColumnReader.FailsAtOnce.ensure {r : ColumnReader α} (h : r.FailsAtOnce) :
    ∃ e r', ensurePageLoaded r = (.error e, r') ∧ r'.FailsAtOnce := by
  obtain ⟨hbetween, hpos, e, hload⟩ := h
  unfold ensurePageLoaded
  cases hpage : r.page with
  | none =>
    unfold ColumnReader.nextOffset at hload
    rw [hpage] at hload
    dsimp only at hload ⊢
    refine ⟨e, r, by rw [loadNextPage, hload], hbetween, hpos, e, ?_⟩
    unfold ColumnReader.nextOffset
    rw [hpage]
    exact hload
  | some page =>
    unfold ColumnReader.nextOffset at hload
    rw [hpage] at hload
    dsimp only [LoadedPage.next] at hload ⊢
    rw [if_pos (hbetween page hpage), loadNextPage, hload]
    refine ⟨e, _, rfl, ?_, hpos, e, hload⟩
    intro page hnone
    cases hnone

/-- A read that fails at once returns `-1`. -/
theorem ColumnReader.FailsAtOnce.readBatch {r : ColumnReader α} (h : r.FailsAtOnce) {n : Nat}
    (hpos : 0 < n) (wanted : Wanted) :
    ∃ r', Carquet.readBatch r n wanted = (.ofCount (-1), r') ∧ r'.FailsAtOnce := by
  obtain ⟨e, r', hensure, h'⟩ := h.ensure
  have hremaining := h.2.1
  obtain ⟨fuel, hfuel⟩ : ∃ fuel, r.valuesRemaining.toNat = fuel + 1 :=
    ⟨r.valuesRemaining.toNat - 1, by omega⟩
  have hempty : ((BatchBuffers.empty : BatchBuffers α).totalRead : Int) = 0 := rfl
  refine ⟨r', ?_, h'⟩
  unfold Carquet.readBatch
  rw [if_neg (by omega), if_neg (by omega), if_neg (by omega), hfuel, Carquet.readBatchLoop,
    hempty, if_pos ⟨by omega, hremaining⟩, Int.sub_zero, Carquet.readNextPage, hensure]
  rfl

/-! ## Columns -/

/-- The row a flat column is at. -/
def ProjectedReader.position (p : ProjectedReader α) : Int :=
  p.chunk.numValues - p.reader.valuesRemaining

/-- All of the next `rows` rows can be read. -/
structure ProjectedReader.Ready (p : ProjectedReader α) (rows : Nat) : Prop where
  fits : p.column.Fits rows
  remaining : rows ≤ p.reader.valuesRemaining
  pages : p.reader.PagesHold rows

theorem ProjectedReader.Ready.mono {p : ProjectedReader α} {rows rows' : Nat} (h : p.Ready rows)
    (hpos : 0 < rows') (hle : rows' ≤ rows) : p.Ready rows' where
  fits := h.fits.mono hpos hle
  remaining := by
    have := h.remaining
    omega
  pages := h.pages.mono hle

/-- What loading a page keeps of a column. -/
structure ProjectedReader.SameRow (p p' : ProjectedReader α) : Prop where
  position_eq : p'.position = p.position
  fails : p.reader.FailsAtOnce → p'.reader.FailsAtOnce
  ready : ∀ rows, 0 < rows → p.Ready rows → p'.Ready rows

theorem ProjectedReader.SameRow.rfl {p : ProjectedReader α} : p.SameRow p where
  position_eq := Eq.refl _
  fails h := h
  ready _ _ h := h

theorem ensure_sameRow (p : ProjectedReader α) :
    p.SameRow { p with reader := (ensurePageLoaded p.reader).2 } where
  position_eq := by
    unfold ProjectedReader.position
    rw [valuesRemaining_ensurePageLoaded]
  fails h := by
    obtain ⟨e, r', hensure, h'⟩ := h.ensure
    rw [hensure]
    exact h'
  ready rows hpos h := by
    obtain ⟨page, r', hensure, -, h'⟩ := h.pages.ensure hpos
    have hremaining := valuesRemaining_ensurePageLoaded p.reader
    rw [hensure] at hremaining ⊢
    exact ⟨h.fits, by rw [hremaining]; exact h.remaining, h'⟩

theorem peek_sameRow (p : ProjectedReader α) : p.SameRow (peek p) := by
  unfold peek readBatch
  rw [if_neg (Int.lt_irrefl 0), if_pos (Eq.refl _)]
  dsimp only
  split
  · exact ensure_sameRow p
  · exact .rfl

theorem prefetch_sameRow (p : ProjectedReader α) : p.SameRow (prefetch p) := by
  unfold prefetch
  split
  · exact peek_sameRow p
  · exact .rfl

theorem loadCandidates_sameRow (ps : List (ProjectedReader α)) :
    List.Forall₂ ProjectedReader.SameRow ps (loadCandidates ps).2 := by
  induction ps with
  | nil => exact .nil
  | cons p ps ih =>
    have hp := ensure_sameRow p
    unfold loadCandidates
    split
    · cases hensure : ensurePageLoaded p.reader with
      | mk result r =>
        rw [hensure] at hp
        cases result with
        | error e => exact .cons hp (List.forall₂_same.mpr fun _ _ => .rfl)
        | ok page => exact .cons hp ih
    · exact .cons .rfl ih

variable [Zero α]

/-- A column that is ready is read in full. -/
theorem ProjectedReader.Ready.read {p : ProjectedReader α} {rows : Nat} (h : p.Ready rows)
    (hpos : 0 < rows) (hlt : rows < 2147483648) :
    ∃ d p', readProjectedColumn rows p = (some d, p') ∧ d.numValues = rows ∧
      p'.position = p.position + rows := by
  unfold readProjectedColumn
  generalize hloaded : (if p.column.maxDefLevel = 0 ∧ p.reader.page.isNone then peek p else p) = q
  have hq : p.SameRow q := by
    rw [← hloaded]
    split
    · exact peek_sameRow p
    · exact .rfl
  have hready := hq.ready rows hpos h
  rw [← hq.position_eq]
  dsimp only
  split
  · refine ⟨_, _, rfl, rfl, ?_⟩
    unfold ProjectedReader.position handOff
    dsimp only
    omega
  · have hcount := hready.pages.readBatch hlt hready.remaining hpos
      ⟨decide (0 < q.column.maxDefLevel), false⟩
    have hremaining := readBatch_remaining q.reader rows ⟨decide (0 < q.column.maxDefLevel), false⟩
    have hguard : ¬ (q.column.valueSize = 0 ∨ (rows : Int) ≤ 0 ∨
        maxBatchAlloc / rows < q.column.valueSize) := by
      have := hready.fits.1
      have := hready.fits.2
      omega
    unfold copyRows
    dsimp only
    rw [Int.toNat_natCast, if_neg hguard]
    rw [hcount] at hremaining
    rw [hcount, if_neg (by omega)]
    refine ⟨_, _, rfl, rfl, ?_⟩
    unfold ProjectedReader.position
    dsimp only
    omega

/-- A column that fails at once fails, and does so again. -/
theorem FailsAtOnce.read {p : ProjectedReader α} (h : p.reader.FailsAtOnce) {rows : Nat}
    (hpos : 0 < rows) : (readProjectedColumn rows p).1 = none ∧
      (readProjectedColumn rows p).2.reader.FailsAtOnce := by
  unfold readProjectedColumn
  generalize hloaded : (if p.column.maxDefLevel = 0 ∧ p.reader.page.isNone then peek p else p) = q
  have hq : q.reader.FailsAtOnce := by
    rw [← hloaded]
    split
    · exact (peek_sameRow p).fails h
    · exact h
  have hview : columnCanZeroCopyBatch q rows = false := by
    unfold columnCanZeroCopyBatch
    rw [Bool.and_eq_false_iff]
    refine .inr (decide_eq_false fun havail => ?_)
    have hpage := havail.1
    unfold ProjectedReader.pageAvailable at hpage
    split at hpage
    · have := hq.1 _ ‹_›
      omega
    · exact absurd hpage (Int.lt_irrefl 0)
  dsimp only
  rw [hview, if_neg Bool.false_ne_true]
  unfold copyRows
  dsimp only
  split
  · exact ⟨rfl, hq⟩
  · obtain ⟨r', hread, h'⟩ := hq.readBatch hpos ⟨decide (0 < q.column.maxDefLevel), false⟩
    rw [hread]
    exact ⟨rfl, h'⟩

/-! ## Batches -/

theorem forall_isSome_of_length_filterMap {β γ : Type} (f : β → Option γ) {xs : List β}
    (h : (xs.filterMap f).length = xs.length) : ∀ x ∈ xs, (f x).isSome := by
  induction xs with
  | nil => simp
  | cons x xs ih =>
    have hle := List.length_filterMap_le f xs
    rw [List.filterMap_cons] at h
    cases hx : f x with
    | none =>
      rw [hx] at h
      simp only [List.length_cons] at h
      omega
    | some y =>
      rw [hx] at h
      simp only [List.length_cons] at h
      exact List.forall_mem_cons.mpr ⟨by rw [hx]; rfl, ih (by omega)⟩

/-- Where a column fails, the call fails. -/
theorem readColumns_of_fails (started : Nat → Bool) {rows : Nat} (hpos : 0 < rows)
    {ps : List (ProjectedReader α)} (h : ∃ p ∈ ps, p.reader.FailsAtOnce) :
    (∃ e, (readColumns started rows ps).1 = .error e) ∧
      ∃ p ∈ (readColumns started rows ps).2, p.reader.FailsAtOnce := by
  obtain ⟨p, hp, hfails⟩ := h
  obtain ⟨hnone, hagain⟩ := FailsAtOnce.read hfails hpos
  have hlength : ((ps.map (readProjectedColumn rows)).filterMap (·.1)).length ≠ ps.length := by
    intro heq
    have := forall_isSome_of_length_filterMap
      (fun result : Option (ColumnData α) × ProjectedReader α => result.1)
      (show ((ps.map (readProjectedColumn (rows : Int))).filterMap fun result => result.1).length =
        (ps.map (readProjectedColumn (rows : Int))).length by rw [heq, List.length_map]) _
      (List.mem_map_of_mem hp)
    rw [hnone] at this
    exact Bool.false_ne_true this
  unfold readColumns
  dsimp only
  rw [if_neg hlength]
  obtain ⟨i, hi⟩ := List.mem_iff_getElem?.mp hp
  refine ⟨⟨_, rfl⟩, _, List.mem_map_of_mem (List.mem_zipIdx_iff_getElem?.mpr hi : (p, i) ∈ _), ?_⟩
  dsimp only
  split
  · exact hagain
  · exact hfails

/-- Where every column is ready, the columns stay in step. -/
theorem readColumns_of_ready (started : Nat → Bool) {rows : Nat} (hpos : 0 < rows)
    (hlt : rows < 2147483648) {ps : List (ProjectedReader α)} (h : ∀ p ∈ ps, p.Ready rows) :
    ∃ batch ps', readColumns started rows ps = (.ok batch, ps') ∧
      batch.columns.length = ps.length ∧ (∀ d ∈ batch.columns, d.numValues = batch.numRows) ∧
      List.Forall₂ (fun p p' => p'.position = p.position + (rows : Int)) ps ps' := by
  have hresults : ((ps.map (readProjectedColumn rows)).filterMap (·.1)).length = ps.length ∧
      (∀ d ∈ (ps.map (readProjectedColumn rows)).filterMap (·.1), d.numValues = (rows : Int)) ∧
      List.Forall₂ (fun p p' => p'.position = p.position + (rows : Int)) ps
        ((ps.map (readProjectedColumn rows)).map (·.2)) := by
    induction ps with
    | nil => exact ⟨rfl, by simp, .nil⟩
    | cons p ps ih =>
      obtain ⟨hlength, hcounts, hpositions⟩ := ih fun q hq => h q (List.mem_cons_of_mem _ hq)
      obtain ⟨d, p', hread, hd, hp'⟩ := (h p (List.mem_cons_self ..)).read hpos hlt
      have hcons : ((p :: ps).map (readProjectedColumn rows)).filterMap (·.1) =
          d :: (ps.map (readProjectedColumn rows)).filterMap (·.1) := by
        rw [List.map_cons, hread]
        rfl
      rw [hcons, List.map_cons, hread]
      refine ⟨by rw [List.length_cons, hlength, List.length_cons], ?_, .cons hp' hpositions⟩
      exact List.forall_mem_cons.mpr ⟨hd, hcounts⟩
  obtain ⟨hlength, hcounts, hpositions⟩ := hresults
  unfold readColumns
  dsimp only
  rw [if_pos hlength]
  refine ⟨_, _, rfl, hlength, fun d hd => ?_, hpositions⟩
  dsimp only at hd ⊢
  rw [hcounts d hd]
  split
  next hnil => rw [hnil] at hd; cases hd
  next first _ hcons => exact (hcounts first (by rw [hcons]; exact List.mem_cons_self ..)).symm

/-! ## Calls -/

/-- The columns a call reads from. -/
def BatchReader.opened (b : BatchReader α) : List (ProjectedReader α) := b.advance.2.colReaders

/-- Before a call: the columns are flat, and each has all of the rows that are wanted in pages that
load, and room for them, or fails at the first. -/
def BatchReader.ReadsWhole (b : BatchReader α) : Prop :=
  ∀ p ∈ b.opened, p.column.maxRepLevel = 0 ∧
    ∀ rows : Nat, (rows : Int) = min (remaining b.opened) b.config.batchSize → 0 < rows →
      p.Ready rows ∨ p.reader.FailsAtOnce

/-- A batch has all its columns, each with as many rows as the batch, and from the same row on. -/
structure RowAligned (b : BatchReader α) (batch : RowBatch α) : Prop where
  length_eq : batch.columns.length = b.opened.length
  numValues_eq : ∀ d ∈ batch.columns, d.numValues = batch.numRows
  position_eq : ∀ p ∈ b.opened, ∀ q ∈ b.opened, p.position = q.position

/-- The columns are at the same row. -/
def AtOneRow (ps : List (ProjectedReader α)) : Prop := ∀ p ∈ ps, ∀ q ∈ ps, p.position = q.position

/-- Between calls: the row group is over, or the columns are at the same row, or one of them fails
until the row group is over. -/
structure InStep (b : BatchReader α) : Prop where
  start : b.currentRowGroup = none → b.colReaders = []
  columns : b.atEnd = true ∨ AtOneRow b.colReaders ∨ ∃ p ∈ b.colReaders, p.reader.FailsAtOnce

omit [Zero α] in
theorem ProjectedReader.SameRow.trans {p q r : ProjectedReader α} (h : p.SameRow q)
    (h' : q.SameRow r) : p.SameRow r where
  position_eq := h'.position_eq.trans h.position_eq
  fails hp := h'.fails (h.fails hp)
  ready rows hpos hp := h'.ready rows hpos (h.ready rows hpos hp)

theorem forall₂_mem_right {β γ : Type} {R : β → γ → Prop} {xs : List β} {ys : List γ}
    (h : List.Forall₂ R xs ys) {y : γ} (hy : y ∈ ys) : ∃ x ∈ xs, R x y :=
  forall₂_mem_left h.flip hy

omit [Zero α] in
/-- Columns that were at the same row and moved by the same number of rows. -/
theorem AtOneRow.of_forall₂ {ps ps' : List (ProjectedReader α)} (h : AtOneRow ps) {n : Int}
    (hsame : List.Forall₂ (fun p p' => p'.position = p.position + n) ps ps') : AtOneRow ps' := by
  intro p' hp' q' hq'
  obtain ⟨p, hp, hpos⟩ := forall₂_mem_right hsame hp'
  obtain ⟨q, hq, hqos⟩ := forall₂_mem_right hsame hq'
  rw [hpos, hqos, h p hp q hq]

omit [Zero α] in
theorem AtOneRow.of_sameRow {ps ps' : List (ProjectedReader α)} (h : AtOneRow ps)
    (hsame : List.Forall₂ ProjectedReader.SameRow ps ps') : AtOneRow ps' :=
  h.of_forall₂ (n := 0) (hsame.imp fun _ _ h => by rw [h.position_eq, Int.add_zero])

/-- Once the candidates are loaded: the columns, and the number of rows. -/
theorem readBatch_cases (started : Nat → Bool) (b : BatchReader α) {rows : Nat}
    (hrows : (rows : Int) = min (remaining b.colReaders) b.config.batchSize) (hpos : 0 < rows) :
    ∃ ps, List.Forall₂ ProjectedReader.SameRow b.colReaders ps ∧
      ((∃ e, b.readBatch started = (.error e, { b with colReaders := ps })) ∨
        ∃ k : Nat, 0 < k ∧ k ≤ rows ∧ b.readBatch started =
          ((readColumns started k ps).1,
            { b with colReaders := (readColumns started k ps).2 })) := by
  unfold BatchReader.readBatch
  dsimp only
  rw [← hrows, if_neg (by omega)]
  generalize hloaded : (if b.colReaders.all (columnIsZeroCopyCandidate b.mmap) then
    loadCandidates b.colReaders else (none, b.colReaders)) = loaded
  have hsame : List.Forall₂ ProjectedReader.SameRow b.colReaders loaded.2 := by
    rw [← hloaded]
    split
    · exact loadCandidates_sameRow _
    · exact List.forall₂_same.mpr fun _ _ => .rfl
  obtain ⟨failure, ps⟩ := loaded
  cases failure with
  | some e => exact ⟨ps, hsame, .inl ⟨e, rfl⟩⟩
  | none =>
    obtain ⟨k, hclamp, hk, hle⟩ := clampRowsToZeroCopyWindow_spec (ps.map prefetch) hpos
    refine ⟨ps.map prefetch, ?_, .inr ⟨k, hk, hle, ?_⟩⟩
    · refine List.forall₂_map_right_iff.mpr (hsame.imp fun _ q h => ?_)
      exact h.trans (prefetch_sameRow q)
    · dsimp only
      rw [hclamp]

/-- A row group whose column 0 declares less than nothing: the call fails, and the row group is
over. -/
theorem readBatch_of_negative (started : Nat → Bool) (b : BatchReader α)
    (hneg : remaining b.colReaders < 0) (hfresh : ∀ p ∈ b.colReaders, p.reader.page = none) :
    (∃ e, (b.readBatch started).1 = .error e) ∧
      remaining (b.readBatch started).2.colReaders < 0 ∧
      (b.readBatch started).2.currentRowGroup = b.currentRowGroup := by
  have hbatch := b.config.batchSize_pos
  unfold BatchReader.readBatch
  dsimp only
  rw [if_neg (by omega)]
  cases hreaders : b.colReaders with
  | nil => rw [hreaders] at hneg; exact absurd hneg (Int.lt_irrefl 0)
  | cons p ps =>
    rw [hreaders] at hneg hfresh
    have hneg' : ¬ 0 < p.reader.valuesRemaining := by
      have : remaining (p :: ps) = p.reader.valuesRemaining := rfl
      omega
    have hnone := hfresh p (List.mem_cons_self ..)
    have hprefetch : prefetch p = p := if_neg fun h => hneg' h.2
    have hpeek : peek p = p := by
      unfold peek readBatch
      rw [if_neg (Int.lt_irrefl 0), if_pos rfl, if_neg fun h => hneg' h.1]
    have hread : ∀ k : Int, k < 0 → readProjectedColumn k p = (none, p) := by
      intro k hk
      have hview : columnCanZeroCopyBatch p k = false := by
        unfold columnCanZeroCopyBatch ProjectedReader.hasView
        rw [hnone]
        rfl
      unfold readProjectedColumn
      rw [hpeek, ite_self]
      dsimp only
      rw [hview, if_neg Bool.false_ne_true, copyRows]
      exact if_pos (.inr (.inl (Int.le_of_lt hk)))
    generalize hloaded : (if (p :: ps).all (columnIsZeroCopyCandidate b.mmap) then
      loadCandidates (p :: ps) else (none, p :: ps)) = loaded
    have hhead : ∃ ps', loaded.2 = p :: ps' := by
      rw [← hloaded]
      split
      · unfold loadCandidates
        rw [if_neg hneg']
        exact ⟨_, rfl⟩
      · exact ⟨ps, rfl⟩
    obtain ⟨failure, qs⟩ := loaded
    obtain ⟨ps', rfl⟩ : ∃ ps', qs = p :: ps' := hhead
    cases failure with
    | some e => exact ⟨⟨e, rfl⟩, hneg, rfl⟩
    | none =>
      dsimp only
      rw [List.map_cons, hprefetch]
      generalize ps'.map prefetch = qs
      have hclamp : clampRowsToZeroCopyWindow (p :: qs)
          (min (remaining (p :: ps)) b.config.batchSize) < 0 := by
        unfold clampRowsToZeroCopyWindow
        dsimp only
        split <;> omega
      generalize clampRowsToZeroCopyWindow (p :: qs)
        (min (remaining (p :: ps)) b.config.batchSize) = k at hclamp
      have hlength : ((p :: qs).map (readProjectedColumn k)).filterMap (·.1) =
          (qs.map (readProjectedColumn k)).filterMap (·.1) := by
        rw [List.map_cons, hread k hclamp]
        rfl
      have hle := List.length_filterMap_le (fun result => result.1) (qs.map (readProjectedColumn k))
      rw [List.length_map] at hle
      unfold readColumns
      dsimp only
      rw [hlength, if_neg (by rw [List.length_cons]; omega)]
      refine ⟨⟨_, rfl⟩, ?_, rfl⟩
      rw [List.zipIdx_cons, List.map_cons]
      dsimp only
      rw [hread k hclamp, ite_self]
      exact hneg

omit [Zero α] in
/-- What a call finds: the columns of a row group that was just opened, or one that is not over. -/
theorem advance_cases {b : BatchReader α} (h : InStep b) :
    (b.advance.1 = false ∧ b.advance.2.atEnd = true ∧ b.advance.2.currentRowGroup.isSome) ∨
      b.advance.1 = true ∧ b.advance.2.currentRowGroup.isSome ∧ b.advance.2.config = b.config ∧
        ((∀ p ∈ b.opened, p.position = 0 ∧ p.reader.page = none) ∨
          0 < remaining b.opened ∧ (AtOneRow b.opened ∨ ∃ p ∈ b.opened, p.reader.FailsAtOnce)) := by
  unfold BatchReader.opened BatchReader.advance
  split
  next hend =>
    dsimp only
    split
    next chunks _ =>
      refine .inr ⟨rfl, rfl, rfl, .inl fun p hp => ?_⟩
      dsimp only at hp
      rw [← List.map_uncurry_zip_eq_zipWith] at hp
      obtain ⟨⟨column, chunk⟩, -, rfl⟩ := List.mem_map.mp hp
      exact ⟨Int.sub_self _, rfl⟩
    next =>
      refine .inl ⟨rfl, ?_, rfl⟩
      unfold BatchReader.atEnd at hend ⊢
      rw [Bool.or_eq_true] at hend ⊢
      refine .inr (hend.elim (fun hnone => ?_) id)
      rw [h.start (Option.isNone_iff_eq_none.mp hnone)]
      rfl
  next hend =>
    have hopen : b.currentRowGroup.isSome ∧ 0 < remaining b.colReaders := by
      unfold BatchReader.atEnd at hend
      rw [Bool.or_eq_true, not_or, decide_eq_true_iff] at hend
      exact ⟨by simpa [Option.isSome_iff_ne_none] using hend.1, by omega⟩
    refine .inr ⟨rfl, hopen.1, rfl, .inr ⟨hopen.2, ?_⟩⟩
    exact h.columns.resolve_left hend

/-- **One call.** -/
theorem InStep.next {b : BatchReader α} (h : InStep b) (hwhole : b.ReadsWhole)
    (started : Nat → Bool) :
    (∀ batch, (b.next started).1 = .ok batch → RowAligned b batch) ∧ InStep (b.next started).2 := by
  have hbatch := b.config.batchSize_pos
  have hbatch' := b.config.batchSize_lt
  unfold BatchReader.next
  rcases advance_cases h with ⟨hfound, hend, hsome⟩ | ⟨hfound, hsome, hconfig, hopened⟩
  · generalize hadvance : b.advance = result at hfound hend hsome
    obtain ⟨found, b₁⟩ := result
    obtain rfl : found = false := hfound
    dsimp only at hend hsome ⊢
    refine ⟨fun _ hok => (by cases hok), fun hnone => ?_, .inl hend⟩
    rw [hnone] at hsome
    cases hsome
  · have hopen : b.opened = b.advance.2.colReaders := rfl
    unfold BatchReader.ReadsWhole at hwhole
    generalize hadvance : b.advance = result at hfound hsome hconfig hopen
    obtain ⟨found, b₁⟩ := result
    obtain rfl : found = true := hfound
    dsimp only at hsome hconfig hopen ⊢
    have hsome' : ∀ b' : BatchReader α, b'.currentRowGroup = b₁.currentRowGroup →
        b'.currentRowGroup = none → b'.colReaders = [] := by
      intro b' heq hnone
      rw [← heq, hnone] at hsome
      cases hsome
    rw [← hconfig] at hwhole hbatch hbatch'
    by_cases hzero : min (remaining b₁.colReaders) (b₁.config.batchSize : Int) = 0
    · -- an empty row group
      have hremaining : remaining b₁.colReaders = 0 := by omega
      have hfresh := hopened.resolve_right fun hpos => by
        rw [hopen] at hpos
        omega
      unfold BatchReader.readBatch
      dsimp only
      rw [if_pos hzero]
      refine ⟨fun batch hok => ?_, hsome' b₁ rfl, .inl ?_⟩
      · cases hok
        refine ⟨by rw [List.length_map, hopen], fun d hd => ?_, fun p hp q hq => ?_⟩
        · obtain ⟨p, -, rfl⟩ := List.mem_map.mp hd
          rfl
        · rw [(hfresh p hp).1, (hfresh q hq).1]
      · unfold BatchReader.atEnd
        rw [hremaining]
        simp
    · by_cases hneg : remaining b₁.colReaders < 0
      · have hfresh := hopened.resolve_right fun hpos => by
          rw [hopen] at hpos
          omega
        obtain ⟨⟨e, herror⟩, hremaining, hgroup⟩ := readBatch_of_negative started b₁ hneg
          fun p hp => (hfresh p (hopen ▸ hp)).2
        refine ⟨fun batch hok => ?_, hsome' _ hgroup, .inl ?_⟩
        · rw [herror] at hok
          cases hok
        · unfold BatchReader.atEnd
          rw [Bool.or_eq_true]
          exact .inr (decide_eq_true (Int.le_of_lt hremaining))
      · obtain ⟨rows, hrows⟩ := Int.eq_ofNat_of_zero_le
          (show 0 ≤ min (remaining b₁.colReaders) (b₁.config.batchSize : Int) by omega)
        have hpos : 0 < rows := by omega
        obtain ⟨ps, hsame, hcases⟩ := readBatch_cases started b₁ hrows.symm hpos
        have hcolumns : AtOneRow b₁.colReaders ∨ ∃ p ∈ b₁.colReaders, p.reader.FailsAtOnce := by
          rw [← hopen]
          refine hopened.elim (fun hfresh => .inl fun p hp q hq => ?_) And.right
          rw [(hfresh p hp).1, (hfresh q hq).1]
        by_cases hfails : ∃ p ∈ b₁.colReaders, p.reader.FailsAtOnce
        · -- the column that fails makes the call fail, and fails again
          have hfails' : ∃ p ∈ ps, p.reader.FailsAtOnce := by
            obtain ⟨p, hp, hp'⟩ := hfails
            obtain ⟨q, hq, hpq⟩ := forall₂_mem_left hsame hp
            exact ⟨q, hq, hpq.fails hp'⟩
          rcases hcases with ⟨e, hread⟩ | ⟨k, hk, -, hread⟩
          · rw [hread]
            exact ⟨fun _ hok => (by cases hok), hsome' _ rfl, .inr (.inr hfails')⟩
          · obtain ⟨⟨e, herror⟩, hagain⟩ := readColumns_of_fails started hk hfails'
            rw [hread]
            refine ⟨fun batch hok => ?_, hsome' _ rfl, .inr (.inr hagain)⟩
            rw [herror] at hok
            cases hok
        · have hrow := hcolumns.resolve_right hfails
          have hready : ∀ p ∈ ps, p.Ready rows := by
            intro p hp
            obtain ⟨q, hq, hqp⟩ := forall₂_mem_right hsame hp
            have := (hwhole q (hopen ▸ hq)).2 rows (by rw [hopen]; exact hrows.symm) hpos
            exact hqp.ready rows hpos (this.resolve_right fun h => hfails ⟨q, hq, h⟩)
          have hrow' := hrow.of_sameRow hsame
          rcases hcases with ⟨e, hread⟩ | ⟨k, hk, hle, hread⟩
          · rw [hread]
            exact ⟨fun _ hok => (by cases hok), hsome' _ rfl, .inr (.inl hrow')⟩
          · obtain ⟨batch, ps', hcolumns', hlength, hcounts, hpositions⟩ :=
              readColumns_of_ready started hk (by omega) fun p hp => (hready p hp).mono hk hle
            rw [hread, hcolumns']
            refine ⟨fun batch' hok => ?_, hsome' _ rfl, .inr (.inl (hrow'.of_forall₂ hpositions))⟩
            cases hok
            refine ⟨by rw [hlength, hopen, hsame.length_eq], hcounts, ?_⟩
            rw [hopen]
            exact hrow

/-! ## Runs -/

/-- The states a run comes to, each with how the next call goes. -/
def BatchReader.trace (b : BatchReader α) :
    List (Nat → Bool) → List (BatchReader α × (Nat → Bool))
  | [] => []
  | started :: calls => (b, started) :: (b.next started).2.trace calls

/-- Every batch of the run is aligned. -/
def BatchReader.KeepsAligned (b : BatchReader α) (calls : List (Nat → Bool)) : Prop :=
  ∀ step ∈ b.trace calls, ∀ batch, (step.1.next step.2).1 = .ok batch → RowAligned step.1 batch

theorem InStep.trace {b : BatchReader α} (h : InStep b) (calls : List (Nat → Bool))
    (hwhole : ∀ step ∈ b.trace calls, step.1.ReadsWhole) : b.KeepsAligned calls := by
  induction calls generalizing b with
  | nil => intro step hstep; cases hstep
  | cons started calls ih =>
    obtain ⟨haligned, hnext⟩ := h.next (hwhole _ (List.mem_cons_self ..)) started
    intro step hstep
    rcases List.mem_cons.mp hstep with rfl | hstep
    · exact haligned
    · exact ih hnext (fun step hstep => hwhole step (List.mem_cons_of_mem _ hstep)) step hstep

theorem brokenChunk_fits : [7].length < 2147483648 := by decide

/-- A chunk of two rows in pages of one row, the second of which does not load. -/
def brokenChunk : ColumnChunk Nat where
  load := fun offset =>
    if offset = 0 then .ok (samplePage [7] Nat.one_pos brokenChunk_fits) else .error .decode
  numValues := 2
  uncompressed := false
  isView := fun _ => false

end Carquet
