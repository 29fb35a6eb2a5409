import Carquet.Reader.BatchColumn
import Mathlib.Data.List.Forall2

/-!
# What a batch reader delivers

A batch reader that runs to the end cuts the rows of column 0 of each row group into batches, and
hands out the same cuts of every other column (`drain_eq`). So no column gets more of its rows out
than column 0 has.

Main results: `flatFile_delivered` (flat columns, which have as many rows each) and
`noLoss_iff` (any columns).
-/

namespace Carquet

open LevelStream

variable {α : Type}

/-! ## Files -/

/-- A column chunk of a projected column. -/
structure StoredColumn (α : Type) where
  column : ProjectedColumn
  chunk : Chunk α column.maxDefLevel
  uncompressed : Bool
  isView : Int → Bool

namespace StoredColumn

/-- `col_meta.num_values`. -/
def numValues (c : StoredColumn α) : Nat := c.chunk.sizes.sum

def columnChunk (c : StoredColumn α) : ColumnChunk α :=
  ⟨c.chunk.load, c.numValues, c.uncompressed, c.isView⟩

/-- The rows of the chunk: one for each entry. -/
def rows (c : StoredColumn α) : List (Option α) := c.chunk.entries.rows

@[simp] theorem length_rows (c : StoredColumn α) : c.rows.length = c.numValues := by
  rw [rows, Stream.length_rows, ← c.chunk.unread.sum_sizes, numValues]

theorem openChunk_holds (c : StoredColumn α) :
    (ProjectedReader.openChunk c.column c.columnChunk).Holds c.rows :=
  ⟨c.chunk.entries, c.chunk.sizes, c.chunk.unread, rfl⟩

end StoredColumn

/-- A well-formed file: its row groups, with the projected columns in the order of the
projection. -/
structure StoredFile (α : Type) where
  columns : List ProjectedColumn
  rowGroups : List (List (StoredColumn α))
  columns_ne_nil : columns ≠ []
  columns_eq : ∀ rowGroup ∈ rowGroups, rowGroup.map (·.column) = columns

/-- The row groups from index `g` on that are selected. -/
def selectedFrom {β : Type} (config : BatchConfig) (g : Nat) (rowGroups : List β) : List β :=
  ((rowGroups.zipIdx g).filter fun entry => config.selects entry.2).map (·.1)

namespace StoredFile

/-- The row groups that are read. -/
def selected (f : StoredFile α) (config : BatchConfig) : List (List (StoredColumn α)) :=
  selectedFrom config 0 f.rowGroups

/-- A batch reader of the file. -/
def batchReader (f : StoredFile α) (mmap : Bool) (config : BatchConfig) : BatchReader α :=
  batchReaderCreate mmap config f.columns (f.rowGroups.map (List.map StoredColumn.columnChunk))

/-- No batch of the row groups that are read is too large for the buffers of a column. -/
def WithinLimits (f : StoredFile α) (config : BatchConfig) : Prop :=
  ∀ rowGroup ∈ f.selected config, ∀ first ∈ rowGroup.head?, 0 < first.numValues →
    ∀ c ∈ f.columns, c.Fits (min config.batchSize first.numValues)

end StoredFile

/-! ## Runs -/

section Runs

variable [Zero α]

/-- The batches up to `END_OF_DATA`; `none` when a call fails or the calls are too few. -/
def BatchReader.drain (started : Nat → Nat → Bool) :
    Nat → Nat → BatchReader α → Option (List (RowBatch α))
  | _, 0, _ => none
  | i, n + 1, b =>
    match b.next (started i) with
    | (.ok batch, b) => (drain started (i + 1) n b).map (batch :: ·)
    | (.error .endOfData, _) => some []
    | (.error _, _) => none

/-- A batch shows these pieces of the columns. -/
structure RowBatch.Shows (batch : RowBatch α) (pieces : List (List (Option α))) : Prop where
  columns : List.Forall₂ ColumnData.Shows batch.columns pieces
  numRows_eq : batch.numRows = (pieces.headD []).length

end Runs

/-- Consecutive cuts of all columns. -/
def slicesOf {β : Type} : List Nat → List (List β) → List (List (List β))
  | [], _ => []
  | k :: ks, columns => columns.map (List.take k) :: slicesOf ks (columns.map (List.drop k))

/-! ## One batch -/

/-- The readers of a batch reader have these rows before them. -/
structure BatchReader.Reading (b : BatchReader α) (columns : List (List (Option α))) : Prop where
  holds : List.Forall₂ ProjectedReader.Holds b.colReaders columns
  columns_eq : b.colReaders.map (·.column) = b.columns

theorem BatchReader.Reading.remaining_eq {b : BatchReader α} {columns : List (List (Option α))}
    (h : b.Reading columns) : remaining b.colReaders = (columns.headD []).length := by
  have hholds := h.holds
  generalize b.colReaders = ps at hholds
  cases hholds with
  | nil => rfl
  | cons hp _ => exact hp.remaining

theorem forall₂_map_left {β γ : Type} {R : β → γ → Prop} {f : β → β} {xs : List β} {ys : List γ}
    (h : List.Forall₂ R xs ys) (hf : ∀ x y, R x y → R (f x) y) : List.Forall₂ R (xs.map f) ys := by
  induction h with
  | nil => exact .nil
  | cons hxy _ ih => exact .cons (hf _ _ hxy) ih

/-- The pages of the candidates load, and no row is taken away. -/
theorem loadCandidates_holds {ps : List (ProjectedReader α)} {columns : List (List (Option α))}
    (h : List.Forall₂ ProjectedReader.Holds ps columns) :
    ∃ ps', loadCandidates ps = (none, ps') ∧ List.Forall₂ ProjectedReader.Holds ps' columns ∧
      ps'.map (·.column) = ps.map (·.column) := by
  induction h with
  | nil => exact ⟨[], rfl, .nil, rfl⟩
  | cons hp _ ih =>
    rename_i p rows ps columns
    obtain ⟨ps', hload, hholds, hcolumns⟩ := ih
    unfold loadCandidates
    split
    next hpos =>
      obtain ⟨s, sizes, hunread, hrows⟩ := hp
      have hremaining := hunread.remaining
      obtain ⟨page, r', hensure, -, hunread'⟩ := hunread.ensure (by omega)
      rw [hensure]
      dsimp only
      rw [hload]
      exact ⟨_, rfl, .cons ⟨s, sizes, hunread', hrows⟩ hholds, by simp [hcolumns]⟩
    next =>
      rw [hload]
      exact ⟨_, rfl, .cons hp hholds, by simp [hcolumns]⟩

theorem clampRowsToZeroCopyWindow_spec (ps : List (ProjectedReader α)) {rowsToRead : Nat}
    (h : 0 < rowsToRead) : ∃ k : Nat, clampRowsToZeroCopyWindow ps rowsToRead = k ∧ 0 < k ∧
      k ≤ rowsToRead := by
  unfold clampRowsToZeroCopyWindow
  dsimp only
  split
  · exact ⟨(clampRows rowsToRead ps rowsToRead).toNat, by omega, by omega, by omega⟩
  · exact ⟨rowsToRead, rfl, h, Nat.le_refl _⟩

variable [Zero α]

/-- **The main phase**: every column shows its next rows. -/
theorem readColumns_holds (started : Nat → Bool) {ps : List (ProjectedReader α)}
    {columns : List (List (Option α))} (h : List.Forall₂ ProjectedReader.Holds ps columns) {k : Nat}
    (hpos : 0 < k) (hlt : k < 2147483648) (hfits : ∀ p ∈ ps, p.column.Fits k) :
    ∃ batch ps', readColumns started k ps = (.ok batch, ps') ∧
      batch.Shows (columns.map (List.take k)) ∧
      List.Forall₂ ProjectedReader.Holds ps' (columns.map (List.drop k)) ∧
      ps'.map (·.column) = ps.map (·.column) := by
  have hresults : ∃ ds ps', (ps.map (readProjectedColumn k)).filterMap (·.1) = ds ∧
      (ps.map (readProjectedColumn k)).map (·.2) = ps' ∧ ds.length = ps.length ∧
      List.Forall₂ ColumnData.Shows ds (columns.map (List.take k)) ∧
      List.Forall₂ ProjectedReader.Holds ps' (columns.map (List.drop k)) ∧
      ps'.map (·.column) = ps.map (·.column) := by
    induction h with
    | nil => exact ⟨[], [], rfl, rfl, rfl, .nil, .nil, rfl⟩
    | cons hp _ ih =>
      obtain ⟨ds, ps', hds, hps', hlength, hshows, hholds, hcolumns⟩ :=
        ih fun p hp => hfits p (List.mem_cons_of_mem _ hp)
      obtain ⟨d, p', hread, hshow, hhold, hcolumn⟩ :=
        readProjectedColumn_holds hp hpos hlt (hfits _ (List.mem_cons_self ..))
      refine ⟨d :: ds, p' :: ps', ?_, ?_, ?_, .cons hshow hshows, .cons hhold hholds, ?_⟩
      · rw [List.map_cons, hread]
        exact congrArg (d :: ·) hds
      · rw [List.map_cons, hread, List.map_cons, hps']
      · rw [List.length_cons, List.length_cons, hlength]
      · rw [List.map_cons, List.map_cons, hcolumns, hcolumn]
  obtain ⟨ds, ps', hds, hps', hlength, hshows, hholds, hcolumns⟩ := hresults
  unfold readColumns
  dsimp only
  rw [hds, hps', if_pos hlength]
  refine ⟨_, ps', rfl, ⟨hshows, ?_⟩, hholds, hcolumns⟩
  generalize columns.map (List.take k) = pieces at hshows
  cases hshows with
  | nil => rfl
  | cons hshow _ => exact hshow.numValues_eq

/-- **A batch of the row group that is open**: the next rows of every column, at most `batch_size`
and at most what column 0 has. -/
theorem BatchReader.Reading.readBatch (started : Nat → Bool) {b : BatchReader α}
    {columns : List (List (Option α))} (h : b.Reading columns)
    (hfits : 0 < (columns.headD []).length →
      ∀ c ∈ b.columns, c.Fits (min b.config.batchSize (columns.headD []).length)) :
    ∃ k batch ps, b.readBatch started = (.ok batch, { b with colReaders := ps }) ∧
      k ≤ b.config.batchSize ∧ k ≤ (columns.headD []).length ∧
      (0 < (columns.headD []).length → 0 < k) ∧ batch.Shows (columns.map (List.take k)) ∧
      Reading { b with colReaders := ps } (columns.map (List.drop k)) := by
  have hpos := b.config.batchSize_pos
  have hlt := b.config.batchSize_lt
  unfold BatchReader.readBatch
  dsimp only
  rw [h.remaining_eq]
  by_cases hzero : (columns.headD []).length = 0
  · rw [if_pos (by omega)]
    refine ⟨0, _, b.colReaders, rfl, Nat.zero_le _, Nat.zero_le _, by omega, ⟨?_, ?_⟩, ?_, ?_⟩
    · refine List.forall₂_map_left_iff.mpr (List.forall₂_map_right_iff.mpr ?_)
      exact h.holds.imp fun _ _ _ => ⟨rfl, rfl, fun i hi => absurd hi (Nat.not_lt_zero i)⟩
    · cases columns <;> rfl
    · rw [show columns.map (List.drop 0) = columns from List.map_id columns]
      exact h.holds
    · exact h.columns_eq
  · generalize hrows : min b.config.batchSize (columns.headD []).length = rows at hfits
    rw [show min ((columns.headD []).length : Int) (b.config.batchSize : Int) = (rows : Int) by omega,
      if_neg (by omega)]
    -- the candidates are loaded or left alone
    have hloaded : ∃ ps, (if b.colReaders.all (columnIsZeroCopyCandidate b.mmap) then
        loadCandidates b.colReaders else (none, b.colReaders)) = (none, ps) ∧
        List.Forall₂ ProjectedReader.Holds ps columns ∧
        ps.map (·.column) = b.colReaders.map (·.column) := by
      split
      · exact loadCandidates_holds h.holds
      · exact ⟨_, rfl, h.holds, rfl⟩
    obtain ⟨ps, hload, hholds, hcolumns⟩ := hloaded
    rw [hload]
    dsimp only
    have hholds' : List.Forall₂ ProjectedReader.Holds (ps.map prefetch) columns :=
      forall₂_map_left hholds fun _ _ => prefetch_holds
    have hcolumns' : (ps.map prefetch).map (·.column) = b.columns := by
      rw [List.map_map, ← h.columns_eq, ← hcolumns]
      exact List.map_congr_left fun p _ => prefetch_column p
    obtain ⟨k, hclamp, hk, hkrows⟩ :=
      clampRowsToZeroCopyWindow_spec (ps.map prefetch) (show 0 < rows by omega)
    have hfits' : ∀ p ∈ ps.map prefetch, p.column.Fits k := fun p hp =>
      (hfits (by omega) p.column (hcolumns' ▸ List.mem_map_of_mem hp)).mono hk hkrows
    obtain ⟨batch, ps', hread, hshows, hholds'', hcolumns''⟩ :=
      readColumns_holds started hholds' hk (by omega) hfits'
    rw [hclamp, hread]
    exact ⟨k, batch, ps', rfl, by omega, by omega, fun _ => hk, hshows, hholds'',
      hcolumns''.trans hcolumns'⟩

/-! ## One row group -/

theorem length_headD_drop {β : Type} (columns : List (List β)) (k : Nat) :
    ((columns.map (List.drop k)).headD []).length = (columns.headD []).length - k := by
  cases columns with
  | nil => simp
  | cons rows columns => exact List.length_drop

/-- **The rest of a row group**: the rows of column 0 in cuts. -/
theorem BatchReader.Reading.drain (started : Nat → Nat → Bool) (rows : Nat) {b : BatchReader α}
    {columns : List (List (Option α))} (h : b.Reading columns) (hopen : b.currentRowGroup.isSome)
    (hrows : (columns.headD []).length = rows)
    (hfits : 0 < rows → ∀ c ∈ b.columns, c.Fits (min b.config.batchSize rows)) (i : Nat) :
    ∃ ks batches ps, ks.sum = rows ∧ (∀ k ∈ ks, k ≤ b.config.batchSize) ∧
      List.Forall₂ RowBatch.Shows batches (slicesOf ks columns) ∧
      remaining ps = 0 ∧
      ∀ n, b.drain started i (batches.length + n) =
        (BatchReader.drain started (i + batches.length) n { b with colReaders := ps }).map
          (batches ++ ·) := by
  induction rows using Nat.strongRecOn generalizing b columns i with
  | ind rows ih =>
    by_cases hzero : rows = 0
    · subst hzero
      refine ⟨[], [], b.colReaders, rfl, by simp, .nil, by rw [h.remaining_eq, hrows]; rfl, fun n => ?_⟩
      simp
    · subst hrows
      obtain ⟨k, batch, ps, hread, hk, hkrows, hpos, hshows, hreading⟩ :=
        h.readBatch (started i) hfits
      have hk0 := hpos (by omega)
      have hnext : b.next (started i) = (.ok batch, { b with colReaders := ps }) := by
        have hend : b.atEnd = false := by
          unfold BatchReader.atEnd
          rw [h.remaining_eq, Bool.or_eq_false_iff]
          exact ⟨Option.isNone_eq_false_iff.mpr hopen, decide_eq_false (by omega)⟩
        unfold BatchReader.next BatchReader.advance
        rw [if_neg (Bool.not_eq_true _ ▸ hend)]
        exact hread
      have hlength := length_headD_drop columns k
      obtain ⟨ks, batches, ps', hsum, hle, hbatches, hremaining, hdrain⟩ :=
        ih _ (by omega) hreading hopen hlength
          (fun hp c hc => (hfits (by omega) c hc).min_mono b.config.batchSize_pos hp (by omega))
          (i + 1)
      refine ⟨k :: ks, batch :: batches, ps', by rw [List.sum_cons, hsum]; omega, ?_,
        .cons hshows hbatches, hremaining, fun n => ?_⟩
      · intro k' hk'
        rcases List.mem_cons.mp hk' with rfl | hk'
        · exact hk
        · exact hle k' hk'
      · rw [List.length_cons, show batches.length + 1 + n = batches.length + n + 1 by omega,
          BatchReader.drain, hnext]
        dsimp only
        rw [hdrain n, Option.map_map, show i + 1 + batches.length = i + (batches.length + 1) by omega]
        rfl

/-! ## The row groups -/

omit [Zero α] in
/-- The search for a row group finds the first that is selected. -/
theorem selectRowGroup_spec {β : Type} (config : BatchConfig) (pre rest : List β) :
    (selectedFrom config pre.length rest = [] ∧
        (pre ++ rest)[selectRowGroup config.selects (pre ++ rest).length rest.length pre.length]? =
          none) ∨
      ∃ skipped next rest', rest = skipped ++ next :: rest' ∧
        selectRowGroup config.selects (pre ++ rest).length rest.length pre.length =
          (pre ++ skipped).length ∧
        selectedFrom config pre.length rest =
          next :: selectedFrom config ((pre ++ skipped).length + 1) rest' := by
  induction rest generalizing pre with
  | nil => exact .inl ⟨rfl, by simp [selectRowGroup]⟩
  | cons next rest ih =>
    have hcons : selectedFrom config pre.length (next :: rest) =
        if config.selects pre.length then next :: selectedFrom config (pre.length + 1) rest
        else selectedFrom config (pre.length + 1) rest := by
      unfold selectedFrom
      rw [List.zipIdx_cons, List.filter_cons]
      split <;> rfl
    rw [hcons, List.length_cons, selectRowGroup]
    by_cases hsel : config.selects pre.length
    · rw [if_pos hsel, if_pos (.inr hsel)]
      exact .inr ⟨[], next, rest, rfl, by simp, by simp⟩
    · rw [if_neg hsel, if_neg (by simp [hsel])]
      have hpre : (pre ++ [next]).length = pre.length + 1 := by simp
      have happend : pre ++ next :: rest = pre ++ [next] ++ rest := by simp
      rcases ih (pre ++ [next]) with ⟨hnil, hnone⟩ | ⟨skipped, next', rest', rfl, hg, hselected⟩
      · rw [hpre] at hnil hnone
        exact .inl ⟨hnil, by rw [happend]; exact hnone⟩
      · rw [hpre] at hg hselected
        refine .inr ⟨next :: skipped, next', rest', rfl, ?_, ?_⟩
        · rw [happend, hg]
          simp
        · rw [hselected]
          simp

/-- `drain` with the result of the first call. -/
theorem BatchReader.drain_of_next {started : Nat → Nat → Bool} {i n : Nat} {b b' : BatchReader α}
    {batch : RowBatch α} (h : b.next (started i) = (.ok batch, b')) :
    b.drain started i (n + 1) = (b'.drain started (i + 1) n).map (batch :: ·) := by
  rw [BatchReader.drain, h]

/-- The rows of a row group. -/
def rowsOf (rowGroup : List (StoredColumn α)) : List (List (Option α)) :=
  rowGroup.map StoredColumn.rows

/-- The cuts of a row group: none is larger than a batch, and column 0 is cut up. -/
structure CutInto (config : BatchConfig) (ks : List Nat) (rowGroup : List (StoredColumn α)) :
    Prop where
  sum_eq : ks.sum = ((rowsOf rowGroup).headD []).length
  le_batchSize : ∀ k ∈ ks, k ≤ config.batchSize

omit [Zero α] in
/-- The row groups are done. -/
theorem BatchReader.advance_none {b : BatchReader α} {g : Nat} (hend : b.atEnd = true)
    (hg : selectRowGroup b.config.selects b.rowGroups.length
      (b.rowGroups.length - b.nextRowGroup) b.nextRowGroup = g)
    (hnone : b.rowGroups[g]? = none) : b.advance = (false, { b with currentRowGroup := some g }) := by
  unfold BatchReader.advance
  rw [if_pos hend, hg]
  dsimp only
  rw [hnone]

omit [Zero α] in
/-- A row group is opened. -/
theorem BatchReader.advance_some {b : BatchReader α} {g : Nat} {chunks : List (ColumnChunk α)}
    (hend : b.atEnd = true)
    (hg : selectRowGroup b.config.selects b.rowGroups.length
      (b.rowGroups.length - b.nextRowGroup) b.nextRowGroup = g)
    (hsome : b.rowGroups[g]? = some chunks) : b.advance = (true, { b with
      currentRowGroup := some g
      colReaders := List.zipWith ProjectedReader.openChunk b.columns chunks }) := by
  unfold BatchReader.advance
  rw [if_pos hend, hg]
  dsimp only
  rw [hsome]

/-- **From the end of a row group on.** -/
theorem drain_rowGroups (f : StoredFile α) {config : BatchConfig} (hfits : f.WithinLimits config)
    (started : Nat → Nat → Bool) (pre rest : List (List (StoredColumn α)))
    (hf : f.rowGroups = pre ++ rest)
    (hsuffix : ∀ rowGroup ∈ selectedFrom config pre.length rest, rowGroup ∈ f.selected config)
    {b : BatchReader α} (hconfig : b.config = config) (hcolumns : b.columns = f.columns)
    (hgroups : b.rowGroups = f.rowGroups.map (List.map StoredColumn.columnChunk))
    (hnext : b.nextRowGroup = pre.length) (hend : b.atEnd = true) (i : Nat) :
    ∃ n batches kss, b.drain started i n = some batches ∧
      List.Forall₂ (CutInto config) kss (selectedFrom config pre.length rest) ∧
      List.Forall₂ RowBatch.Shows batches
        (List.zipWith slicesOf kss ((selectedFrom config pre.length rest).map rowsOf)).flatten := by
  induction hlen : rest.length using Nat.strongRecOn generalizing pre rest b i with
  | ind len ih =>
    have hselect : selectRowGroup b.config.selects b.rowGroups.length
        (b.rowGroups.length - b.nextRowGroup) b.nextRowGroup =
        selectRowGroup config.selects (pre ++ rest).length rest.length pre.length := by
      have hfuel : (pre ++ rest).length - pre.length = rest.length := by simp
      rw [hnext, hconfig, hgroups, List.length_map, hf, hfuel]
    rcases selectRowGroup_spec config pre rest with
      ⟨hnil, hnone⟩ | ⟨skipped, rowGroup, rest', rfl, hg, hselected⟩
    · refine ⟨1, [], [], ?_, by rw [hnil]; exact .nil, by rw [hnil]; exact .nil⟩
      have hgroup : b.rowGroups[selectRowGroup config.selects (pre ++ rest).length rest.length
          pre.length]? = none := by
        rw [hgroups, hf, List.getElem?_map, hnone]
        rfl
      rw [BatchReader.drain, BatchReader.next, BatchReader.advance_none hend hselect hgroup]
    · rw [hg] at hselect
      have happend : pre ++ (skipped ++ rowGroup :: rest') = pre ++ skipped ++ rowGroup :: rest' := by
        simp
      have hgroup : b.rowGroups[(pre ++ skipped).length]? =
          some (rowGroup.map StoredColumn.columnChunk) := by
        rw [hgroups, hf, happend, List.getElem?_map, List.getElem?_append_right (Nat.le_refl _)]
        simp
      have hadvance := BatchReader.advance_some hend hselect hgroup
      have hmem : rowGroup ∈ f.rowGroups := by
        rw [hf]
        simp
      have hcols : rowGroup.map (·.column) = b.columns := by rw [hcolumns, f.columns_eq _ hmem]
      generalize hopened : ({ b with
        currentRowGroup := some (pre ++ skipped).length
        colReaders := List.zipWith ProjectedReader.openChunk b.columns
          (rowGroup.map StoredColumn.columnChunk) } : BatchReader α) = b₁ at hadvance
      have hreaders : b₁.colReaders =
          rowGroup.map fun c => ProjectedReader.openChunk c.column c.columnChunk := by
        rw [← hopened, ← hcols]
        simp only [List.zipWith_map, List.zipWith_self]
      have hreading : b₁.Reading (rowsOf rowGroup) := by
        refine ⟨?_, ?_⟩
        · rw [hreaders, rowsOf]
          refine List.forall₂_map_left_iff.mpr (List.forall₂_map_right_iff.mpr ?_)
          exact List.forall₂_same.mpr fun c _ => c.openChunk_holds
        · rw [hreaders, List.map_map, ← hopened]
          exact hcols
      have hfits₁ : 0 < ((rowsOf rowGroup).headD []).length → ∀ c ∈ b₁.columns,
          c.Fits (min b₁.config.batchSize ((rowsOf rowGroup).headD []).length) := by
        intro hpos c hc
        rw [← hopened] at hc ⊢
        rw [hconfig]
        have hsel := hsuffix rowGroup (by rw [hselected]; simp)
        cases hrg : rowGroup with
        | nil => rw [hrg] at hpos; exact absurd hpos (Nat.lt_irrefl 0)
        | cons first others =>
          rw [hrg] at hpos hsel
          simp only [rowsOf, List.map_cons, List.headD_cons, StoredColumn.length_rows] at hpos ⊢
          exact hfits _ hsel first rfl hpos c (hcolumns ▸ hc)
      obtain ⟨k, batch, ps, hread, hk, hkrows, -, hshows, hreading'⟩ :=
        hreading.readBatch (started i) hfits₁
      have hnext₁ : b.next (started i) = (.ok batch, { b₁ with colReaders := ps }) := by
        rw [BatchReader.next, hadvance]
        exact hread
      have hopen : ({ b₁ with colReaders := ps } : BatchReader α).currentRowGroup.isSome := by
        rw [← hopened]
        rfl
      have hlength := length_headD_drop (rowsOf rowGroup) k
      obtain ⟨ks, batches, ps', hsum, hle, hbatches, hremaining, hdrain⟩ :=
        hreading'.drain started _ hopen hlength
          (fun hp c hc => (hfits₁ (by omega) c hc).min_mono b₁.config.batchSize_pos hp (by omega))
          (i + 1)
      have hconfig₁ : b₁.config = config := by rw [← hopened]; exact hconfig
      have hpre : (pre ++ skipped ++ [rowGroup]).length = (pre ++ skipped).length + 1 :=
        List.length_append
      obtain ⟨n, batches', kss, hrest, hcuts, hshows'⟩ :=
        ih rest'.length (by rw [← hlen]; simp; omega) (pre ++ skipped ++ [rowGroup]) rest'
          (by rw [hf]; simp)
          (fun rg hrg => hsuffix rg (by
            rw [hselected]
            rw [hpre] at hrg
            exact List.mem_cons_of_mem _ hrg))
          (b := { b₁ with colReaders := ps' }) hconfig₁ (by rw [← hopened]; exact hcolumns)
          (by rw [← hopened]; exact hgroups) (by rw [hpre, ← hopened]; rfl)
          (by unfold BatchReader.atEnd; rw [hremaining]; simp)
          (i + 1 + batches.length) rfl
      rw [hpre] at hcuts hshows'
      refine ⟨batches.length + n + 1, batch :: (batches ++ batches'), (k :: ks) :: kss, ?_, ?_, ?_⟩
      · rw [BatchReader.drain_of_next hnext₁, hdrain n, hrest]
        rfl
      · rw [hselected]
        refine .cons ⟨by rw [List.sum_cons, hsum]; omega, ?_⟩ hcuts
        intro k' hk'
        rw [← hconfig₁]
        rcases List.mem_cons.mp hk' with rfl | hk'
        · exact hk
        · exact hle k' hk'
      · rw [hselected, List.map_cons, List.zipWith_cons_cons, List.flatten_cons, slicesOf]
        exact .cons hshows (List.rel_append hbatches hshows')

/-- **What a run to the end delivers**: the cuts of the row groups that are selected. -/
theorem drain_eq (f : StoredFile α) (mmap : Bool) {config : BatchConfig}
    (hfits : f.WithinLimits config) (started : Nat → Nat → Bool) :
    ∃ n batches kss, (f.batchReader mmap config).drain started 0 n = some batches ∧
      List.Forall₂ (CutInto config) kss (f.selected config) ∧
      List.Forall₂ RowBatch.Shows batches
        (List.zipWith slicesOf kss ((f.selected config).map rowsOf)).flatten :=
  drain_rowGroups f hfits started [] f.rowGroups rfl (fun _ h => h) rfl rfl rfl rfl rfl 0

/-- More calls deliver nothing else. -/
theorem BatchReader.drain_mono (started : Nat → Nat → Bool) {i n n' : Nat} {b : BatchReader α}
    {batches : List (RowBatch α)} (h : b.drain started i n = some batches) (hle : n ≤ n') :
    b.drain started i n' = some batches := by
  induction n generalizing i n' b batches with
  | zero => cases h
  | succ n ih =>
    obtain ⟨n', rfl⟩ : ∃ k, n' = k + 1 := ⟨n' - 1, by omega⟩
    unfold BatchReader.drain at h ⊢
    split at h
    next batch b' hnext =>
      cases hrest : b'.drain started (i + 1) n with
      | none => rw [hrest] at h; cases h
      | some rest =>
        rw [ih hrest (Nat.le_of_succ_le_succ hle)]
        rwa [hrest] at h
    next => exact h
    next => cases h

/-- A run to the end delivers the same as any other. -/
theorem BatchReader.drain_unique (started : Nat → Nat → Bool) {i n n' : Nat} {b : BatchReader α}
    {batches batches' : List (RowBatch α)} (h : b.drain started i n = some batches)
    (h' : b.drain started i n' = some batches') : batches = batches' := by
  rcases Nat.le_total n n' with hle | hle
  · exact Option.some.inj ((BatchReader.drain_mono started h hle).symm.trans h')
  · exact Option.some.inj (h.symm.trans (BatchReader.drain_mono started h' hle))

/-! ## Flat columns -/

omit [Zero α] in
/-- The cuts of columns that are as long as all cuts together are the columns. -/
theorem slicesOf_flatten {β : Type} (ks : List Nat) (columns : List (List β)) (i : Nat)
    (hlen : (columns.getD i []).length ≤ ks.sum) :
    ((slicesOf ks columns).flatMap fun pieces => pieces.getD i []) = columns.getD i [] := by
  induction ks generalizing columns with
  | nil => exact (List.eq_nil_of_length_eq_zero (Nat.le_zero.mp hlen)).symm
  | cons k ks ih =>
    have hget : ∀ g : List β → List β, g [] = [] →
        (columns.map g).getD i [] = g (columns.getD i []) := by
      intro g hg
      rw [List.getD_eq_getElem?_getD, List.getElem?_map, List.getD_eq_getElem?_getD]
      cases columns[i]? with
      | none => exact hg.symm
      | some rows => rfl
    rw [slicesOf, List.flatMap_cons, hget _ (List.take_nil ..), ih, hget _ (List.drop_nil ..),
      List.take_append_drop]
    rw [hget _ (List.drop_nil ..), List.length_drop]
    rw [List.sum_cons] at hlen
    omega

omit [Zero α] in
/-- A cut of columns of equal length has pieces of equal length. -/
theorem length_of_mem_slicesOf {β : Type} (ks : List Nat) {columns : List (List β)}
    (hlen : ∀ rows ∈ columns, rows.length = ks.sum) {pieces : List (List β)}
    (h : pieces ∈ slicesOf ks columns) : ∃ k ∈ ks, ∀ rows ∈ pieces, rows.length = k := by
  induction ks generalizing columns with
  | nil => cases h
  | cons k ks ih =>
    rcases List.mem_cons.mp h with rfl | h
    · refine ⟨k, List.mem_cons_self .., fun rows hrows => ?_⟩
      obtain ⟨rows', hrows', rfl⟩ := List.mem_map.mp hrows
      rw [List.length_take, hlen rows' hrows', List.sum_cons]
      omega
    · obtain ⟨k', hk', hall⟩ := ih (fun rows hrows => by
        obtain ⟨rows', hrows', rfl⟩ := List.mem_map.mp hrows
        rw [List.length_drop, hlen rows' hrows', List.sum_cons]
        omega) h
      exact ⟨k', List.mem_cons_of_mem _ hk', hall⟩

/-- A file of flat columns: in a row group all of them have as many rows. -/
structure FlatFile (α : Type) extends StoredFile α where
  flat : ∀ c ∈ columns, c.maxRepLevel = 0
  length_eq : ∀ rowGroup ∈ rowGroups, ∀ c ∈ rowGroup, ∀ c' ∈ rowGroup, c.numValues = c'.numValues

/-- The row-aligned content of a column over the row groups that are selected. -/
def StoredFile.content (f : StoredFile α) (config : BatchConfig) (i : Nat) : List (Option α) :=
  (f.selected config).flatMap fun rowGroup => (rowsOf rowGroup).getD i []

/-- Batches of at most `batch_size` rows, the same number in each column, that show the columns
piece by piece. -/
structure DeliversRows (f : StoredFile α) (config : BatchConfig) (batches : List (RowBatch α)) :
    Prop where
  numRows_le : ∀ batch ∈ batches, batch.numRows ≤ config.batchSize
  numValues_eq : ∀ batch ∈ batches, ∀ d ∈ batch.columns, d.numValues = batch.numRows
  content_eq : ∃ shown : List (List (List (Option α))),
    List.Forall₂ RowBatch.Shows batches shown ∧
    ∀ i, (shown.flatMap fun pieces => pieces.getD i []) = f.content config i

omit [Zero α] in
theorem mem_of_mem_selected {f : StoredFile α} {config : BatchConfig}
    {rowGroup : List (StoredColumn α)} (h : rowGroup ∈ f.selected config) :
    rowGroup ∈ f.rowGroups := by
  obtain ⟨⟨rg, g⟩, hentry, rfl⟩ := List.mem_map.mp h
  exact (List.mem_zipIdx_iff_getElem?.mp (List.mem_filter.mp hentry).1) |> List.mem_of_getElem?

omit [Zero α] in
/-- Which cuts the pieces of a batch are. -/
theorem mem_slices {β γ : Type} {R : List Nat → γ → Prop} {g : γ → List (List β)} {kss : List (List Nat)}
    {groups : List γ} (h : List.Forall₂ R kss groups) {pieces : List (List β)}
    (hmem : pieces ∈ (List.zipWith slicesOf kss (groups.map g)).flatten) :
    ∃ ks group, group ∈ groups ∧ R ks group ∧ pieces ∈ slicesOf ks (g group) := by
  induction h with
  | nil => cases hmem
  | cons hR htail ih =>
    rename_i ks group _ _
    rw [List.map_cons, List.zipWith_cons_cons, List.flatten_cons] at hmem
    rcases List.mem_append.mp hmem with hmem | hmem
    · exact ⟨ks, group, List.mem_cons_self .., hR, hmem⟩
    · obtain ⟨ks', group', hgroup, hR', hpieces⟩ := ih hmem
      exact ⟨ks', group', List.mem_cons_of_mem _ hgroup, hR', hpieces⟩

theorem forall₂_mem_left {β γ : Type} {R : β → γ → Prop} {xs : List β} {ys : List γ}
    (h : List.Forall₂ R xs ys) {x : β} (hx : x ∈ xs) : ∃ y ∈ ys, R x y := by
  induction h with
  | nil => cases hx
  | cons hR _ ih =>
    rcases List.mem_cons.mp hx with rfl | hx
    · exact ⟨_, List.mem_cons_self .., hR⟩
    · obtain ⟨y, hy, hR'⟩ := ih hx
      exact ⟨y, List.mem_cons_of_mem _ hy, hR'⟩

omit [Zero α] in
theorem FlatFile.length_rows {f : FlatFile α} {config : BatchConfig}
    {rowGroup : List (StoredColumn α)} (h : rowGroup ∈ f.selected config) :
    ∀ rows ∈ rowsOf rowGroup, rows.length = ((rowsOf rowGroup).headD []).length := by
  intro rows hrows
  obtain ⟨c, hc, rfl⟩ := List.mem_map.mp hrows
  cases rowGroup with
  | nil => cases hc
  | cons first others =>
    rw [rowsOf, List.map_cons, List.headD_cons, StoredColumn.length_rows, StoredColumn.length_rows]
    exact f.length_eq _ (mem_of_mem_selected h) c hc first (List.mem_cons_self ..)

/-- One page of one column that is not a view. -/
def onePageChunk (values : List Nat) (hpos : 0 < values.length)
    (hlt : values.length < 2147483648) : Chunk Nat 0 where
  load := fun _ => .ok (samplePage values hpos hlt)
  pages := [⟨samplePage values hpos hlt, by simp [samplePage], by simp [samplePage], by simp,
    by simp [samplePage, levelsAt, List.countP_replicate, isPresent]⟩]
  loads := ⟨rfl, trivial⟩

/-- A file of one row group with one required column. -/
def oneColumnFile (type : PhysicalType) (typeLength : Int) (chunk : Chunk Nat 0) :
    FlatFile Nat where
  columns := [⟨type, typeLength, 0, 0⟩]
  rowGroups := [[⟨⟨type, typeLength, 0, 0⟩, chunk, false, fun _ => false⟩]]
  columns_ne_nil := List.cons_ne_nil _ _
  columns_eq := by simp
  flat := by simp
  length_eq := by simp

/-- How many entries batches hold of column `i`. -/
def entriesDelivered (batches : List (RowBatch α)) (i : Nat) : Int :=
  (batches.map fun batch => (batch.columns.map (·.numValues)).getD i 0).sum

/-- How many entries the row groups that are selected declare for column `i`. -/
def StoredFile.entriesDeclared (f : StoredFile α) (config : BatchConfig) (i : Nat) : Int :=
  ((f.selected config).map fun rowGroup =>
    (rowGroup.map fun c => (c.numValues : Int)).getD i 0).sum

/-- Every run to the end delivers all entries of every column. -/
def NoLoss (f : StoredFile α) (mmap : Bool) (config : BatchConfig) : Prop :=
  ∀ started n batches, (f.batchReader mmap config).drain started 0 n = some batches →
    ∀ i, entriesDelivered batches i = f.entriesDeclared config i

/-- In every row group that is read, no column has more entries than column 0. -/
def FirstColumnLongest (f : StoredFile α) (config : BatchConfig) : Prop :=
  ∀ rowGroup ∈ f.selected config, ∀ first ∈ rowGroup.head?, ∀ c ∈ rowGroup,
    c.numValues ≤ first.numValues

omit [Zero α] in
theorem getD_map_zero {β : Type} {g : β → Int} {d : β} (hd : g d = 0) (xs : List β) (i : Nat) :
    (xs.map g).getD i 0 = g (xs.getD i d) := by
  rw [List.getD_eq_getElem?_getD, List.getElem?_map, List.getD_eq_getElem?_getD]
  cases xs[i]? with
  | none => exact hd.symm
  | some x => rfl

theorem entriesDelivered_of_shows {batches : List (RowBatch α)}
    {shown : List (List (List (Option α)))} (h : List.Forall₂ RowBatch.Shows batches shown)
    (i : Nat) : entriesDelivered batches i =
      (shown.map fun pieces => ((pieces.getD i []).length : Int)).sum := by
  induction h with
  | nil => rfl
  | cons hshow htail ih =>
    rename_i batch pieces batches shown
    have hcount : batch.columns.map (·.numValues) = pieces.map fun rows => (rows.length : Int) := by
      have hcolumns := hshow.columns
      clear hshow
      generalize batch.columns = ds at hcolumns
      induction hcolumns with
      | nil => rfl
      | cons hd _ ih' => rw [List.map_cons, List.map_cons, hd.numValues_eq, ih']
    unfold entriesDelivered at ih ⊢
    rw [List.map_cons, List.sum_cons, List.map_cons, List.sum_cons, ih, hcount,
      getD_map_zero (g := fun rows : List (Option α) => (rows.length : Int)) (d := []) rfl]

omit [Zero α] in
/-- The cuts of a column hold as many of its entries as there are cuts for. -/
theorem sum_length_slicesOf {β : Type} (ks : List Nat) (columns : List (List β)) (i : Nat) :
    ((slicesOf ks columns).map fun pieces => ((pieces.getD i []).length : Int)).sum =
      (min ks.sum (columns.getD i []).length : Nat) := by
  induction ks generalizing columns with
  | nil => simp [slicesOf]
  | cons k ks ih =>
    have hlength : ∀ g : List β → List β, g [] = [] →
        (columns.map g).getD i [] = g (columns.getD i []) := by
      intro g hg
      rw [List.getD_eq_getElem?_getD, List.getElem?_map, List.getD_eq_getElem?_getD]
      cases columns[i]? with
      | none => exact hg.symm
      | some rows => rfl
    rw [slicesOf, List.map_cons, List.sum_cons, ih, hlength _ (List.take_nil ..),
      hlength _ (List.drop_nil ..), List.length_take, List.length_drop, List.sum_cons]
    omega

/-- A run to the end delivers of each column as many entries as column 0 has. -/
theorem entriesDelivered_eq (f : StoredFile α) (mmap : Bool) {config : BatchConfig}
    (hfits : f.WithinLimits config) (started : Nat → Nat → Bool) :
    ∃ n batches, (f.batchReader mmap config).drain started 0 n = some batches ∧
      ∀ i, entriesDelivered batches i = ((f.selected config).map fun rowGroup =>
        ((min ((rowsOf rowGroup).headD []).length ((rowsOf rowGroup).getD i []).length : Nat) :
          Int)).sum := by
  obtain ⟨n, batches, kss, hdrain, hcuts, hshows⟩ := drain_eq f mmap hfits started
  refine ⟨n, batches, hdrain, fun i => ?_⟩
  rw [entriesDelivered_of_shows hshows]
  clear hshows hdrain
  generalize f.selected config = groups at hcuts
  induction hcuts with
  | nil => rfl
  | cons hcut htail ih =>
    rw [List.map_cons, List.zipWith_cons_cons, List.flatten_cons, List.map_append, List.sum_append,
      ih, sum_length_slicesOf, hcut.sum_eq, List.map_cons, List.sum_cons]

omit [Zero α] in
/-- Two sums of which one is the larger term by term are equal just if all terms are. -/
theorem sum_map_eq_iff {β : Type} {g h : β → Int} (hle : ∀ x, g x ≤ h x) (xs : List β) :
    (xs.map g).sum = (xs.map h).sum ↔ ∀ x ∈ xs, g x = h x := by
  have hsum : ∀ ys : List β, (ys.map g).sum ≤ (ys.map h).sum := by
    intro ys
    induction ys with
    | nil => exact Int.le_refl _
    | cons y ys ih =>
      rw [List.map_cons, List.sum_cons, List.map_cons, List.sum_cons]
      exact Int.add_le_add (hle y) ih
  induction xs with
  | nil => simp
  | cons x xs ih =>
    have hx := hle x
    have hxs := hsum xs
    rw [List.map_cons, List.sum_cons, List.map_cons, List.sum_cons, List.forall_mem_cons]
    constructor
    · intro heq
      exact ⟨by omega, ih.mp (by omega)⟩
    · rintro ⟨heq, hrest⟩
      rw [heq, ih.mpr hrest]

/-- **No loss, just if column 0 is the longest.** -/
theorem noLoss_iff (f : StoredFile α) (mmap : Bool) (config : BatchConfig)
    (hfits : f.WithinLimits config) : NoLoss f mmap config ↔ FirstColumnLongest f config := by
  have hdeclared : ∀ i, f.entriesDeclared config i = ((f.selected config).map fun rowGroup =>
      (((rowsOf rowGroup).getD i []).length : Int)).sum := by
    intro i
    unfold StoredFile.entriesDeclared
    refine congrArg List.sum (List.map_congr_left fun rowGroup _ => ?_)
    rw [← getD_map_zero (g := fun rows : List (Option α) => (rows.length : Int)) (d := []) rfl,
      rowsOf, List.map_map]
    refine congrArg (fun xs => List.getD xs i 0) (List.map_congr_left fun c _ => ?_)
    simp
  have hiff : ∀ i, ((f.selected config).map fun rowGroup =>
      ((min ((rowsOf rowGroup).headD []).length ((rowsOf rowGroup).getD i []).length : Nat) :
        Int)).sum = f.entriesDeclared config i ↔
      ∀ rowGroup ∈ f.selected config,
        ((rowsOf rowGroup).getD i []).length ≤ ((rowsOf rowGroup).headD []).length := by
    intro i
    rw [hdeclared, sum_map_eq_iff fun _ => by omega]
    exact forall₂_congr fun _ _ => by omega
  have hlongest : (∀ i, ∀ rowGroup ∈ f.selected config,
      ((rowsOf rowGroup).getD i []).length ≤ ((rowsOf rowGroup).headD []).length) ↔
      FirstColumnLongest f config := by
    constructor
    · intro h rowGroup hgroup first hfirst c hc
      obtain ⟨i, hi⟩ := List.mem_iff_getElem?.mp hc
      have := h i rowGroup hgroup
      cases rowGroup with
      | nil => cases hc
      | cons first' others =>
        obtain rfl : first' = first := Option.some.inj hfirst
        rw [rowsOf, List.getD_eq_getElem?_getD, List.getElem?_map, hi] at this
        simpa using this
    · intro h i rowGroup hgroup
      rw [rowsOf, List.getD_eq_getElem?_getD, List.getElem?_map]
      cases hi : rowGroup[i]? with
      | none => exact Nat.zero_le _
      | some c =>
        cases rowGroup with
        | nil => cases hi
        | cons first others =>
          have := h _ hgroup first rfl c (List.mem_of_getElem? hi)
          simpa using this
  rw [← hlongest]
  constructor
  · intro h i
    obtain ⟨n, batches, hdrain, hentries⟩ := entriesDelivered_eq f mmap hfits fun _ _ => false
    exact (hiff i).mp ((hentries i).symm.trans (h _ n batches hdrain i))
  · intro h started n batches hdrain i
    obtain ⟨n', batches', hdrain', hentries⟩ := entriesDelivered_eq f mmap hfits started
    obtain rfl := BatchReader.drain_unique started hdrain hdrain'
    rw [hentries i]
    exact (hiff i).mpr (h i)

theorem listPage_fits : 2 < 2147483648 := by decide

/-- One row with the list of two values: two entries. -/
def listPage : LoadedPage Nat :=
  ⟨2, [1, 2], some [1, 1], some [0, 1], 1, 1, Nat.two_pos, listPage_fits⟩

def listChunk : Chunk Nat 1 where
  load := fun _ => .ok listPage
  pages := [⟨listPage, by simp [listPage], by simp [listPage], by simp [listPage], by decide⟩]
  loads := ⟨rfl, trivial⟩

/-- One row of a flat column and of a list column. -/
def flatAndListFile : StoredFile Nat where
  columns := [⟨.int32, 0, 0, 0⟩, ⟨.int32, 0, 1, 1⟩]
  rowGroups := [[⟨⟨.int32, 0, 0, 0⟩, onePageChunk [7] (by decide) (by decide), false,
    fun _ => false⟩, ⟨⟨.int32, 0, 1, 1⟩, listChunk, false, fun _ => false⟩]]
  columns_ne_nil := List.cons_ne_nil _ _
  columns_eq := by simp

/-- The condition at a row of a flat column and of a list column. -/
theorem flatAndListFile_noLoss_iff :
    NoLoss flatAndListFile true ⟨10, none, by decide, by decide⟩ ↔
      FirstColumnLongest flatAndListFile ⟨10, none, by decide, by decide⟩ :=
  noLoss_iff flatAndListFile true _ (by
    intro rowGroup _ first _ hpos c hc
    have hle : min 10 first.numValues ≤ 10 := Nat.min_le_left ..
    have hsize : c.valueSize = 4 := by
      rcases List.mem_cons.mp hc with rfl | hc
      · rfl
      · obtain rfl := List.mem_singleton.mp hc
        rfl
    have hpos' : 0 < min 10 first.numValues := by omega
    refine ⟨by omega, ?_⟩
    rw [hsize, Nat.le_div_iff_mul_le hpos', maxBatchAlloc]
    omega)

/-- Of the two entries of the list column one is delivered. -/
theorem flatAndListFile_loses :
    ¬ ∀ (f : StoredFile Nat) (mmap : Bool) (config : BatchConfig), NoLoss f mmap config := by
  intro h
  have hrun : (flatAndListFile.batchReader true ⟨10, none, by decide, by decide⟩).drain
      (fun _ _ => false) 0 2 =
        some [⟨[⟨[7], none, 1⟩, ⟨[1], some [1], 1⟩], 1⟩] := by decide +kernel
  have hentries := h flatAndListFile true ⟨10, none, by decide, by decide⟩ _ 2 _ hrun 1
  exact absurd hentries (by decide +kernel)

end Carquet
