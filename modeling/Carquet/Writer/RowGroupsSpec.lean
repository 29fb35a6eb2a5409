import Carquet.Writer.RowGroups

/-!
# Row groups are independent of the ones before them

`carquet_column_writer_reset` leaves three things of a row group behind: `use_dictionary` and the
page's encoding, which a fallback to PLAIN changes, the geospatial statistics, and the array of
repetition levels. Where the row groups before changed none of the first two and the third is not
looked at (`SettledRun`, `ReadsOwnLevels`), a row group is written as by a new writer.
-/

namespace Carquet

variable {γ : Type}

/-! ## Calls that differ behind their rows -/

/-- The same call, whatever lies behind the repetition levels of its rows. -/
structure ChunkArgs.Agree (a b : ChunkArgs Value) : Prop where
  values : a.values = b.values
  numValues : a.numValues = b.numValues
  defLevels : a.defLevels = b.defLevels
  repLevels : a.repLevels.map (·.take a.numValues) = b.repLevels.map (·.take b.numValues)

theorem encodeLevels_take (levels : Option (List Int)) (count : Nat) (maxLevel : Int)
    (withPrefix : Bool) :
    encodeLevels (levels.map (·.take count)) count maxLevel withPrefix =
      encodeLevels levels count maxLevel withPrefix := by
  cases levels with
  | none => rfl
  | some levels => simp only [encodeLevels, Option.map_some, List.take_take, min_self]

namespace ChunkArgs.Agree

variable {a b : ChunkArgs Value}

theorem isSome (h : a.Agree b) : a.repLevels.isSome = b.repLevels.isSome := by
  have := congrArg Option.isSome h.repLevels
  simpa using this

theorem numNonNull_eq (h : a.Agree b) (maxDefLevel : Int) :
    numNonNull maxDefLevel a = numNonNull maxDefLevel b := by
  unfold numNonNull
  rw [h.defLevels, h.numValues]

theorem present_eq (h : a.Agree b) (maxDefLevel : Int) :
    a.present maxDefLevel = b.present maxDefLevel := by
  unfold ChunkArgs.present
  rw [h.values, h.numNonNull_eq]

theorem encodeDefLevels_eq (h : a.Agree b) (env : ChunkEnv) (c : ChunkSettings) :
    encodeDefLevels env c a = encodeDefLevels env c b := by
  unfold encodeDefLevels
  rw [h.defLevels, h.numValues]

theorem encodeRepLevels_eq (h : a.Agree b) (env : ChunkEnv) (c : ChunkSettings) :
    encodeRepLevels env c a = encodeRepLevels env c b := by
  unfold encodeRepLevels
  rw [h.isSome, ← encodeLevels_take a.repLevels, h.repLevels, h.numValues, encodeLevels_take]

theorem rowsOfCall_eq (h : a.Agree b) (c : ChunkSettings) : rowsOfCall c a = rowsOfCall c b := by
  have hrep := h.repLevels
  unfold rowsOfCall
  rw [h.numValues] at hrep ⊢
  cases ha : a.repLevels with
  | none =>
    cases hb : b.repLevels with
    | none => rfl
    | some m => simp [ha, hb] at hrep
  | some l =>
    cases hb : b.repLevels with
    | none => simp [ha, hb] at hrep
    | some m =>
      have hlevels : l.take b.numValues = m.take b.numValues := by simpa [ha, hb] using hrep
      simp only [hlevels]

theorem addValues_eq (h : a.Agree b) (geo : GeoWalker γ) (env : ChunkEnv) (c : ChunkSettings)
    (p : PageAccumulator γ) : p.addValues geo env c a = p.addValues geo env c b := by
  have hcall : encodeCall env c p.encoding a = encodeCall env c p.encoding b := by
    unfold encodeCall
    rw [h.encodeDefLevels_eq, h.encodeRepLevels_eq, h.present_eq]
  unfold PageAccumulator.addValues
  rw [hcall, h.present_eq, h.numNonNull_eq, h.rowsOfCall_eq, h.numValues]

theorem addDictionaryIndices_eq (h : a.Agree b) (env : ChunkEnv) (c : ChunkSettings)
    (p : PageAccumulator γ) (indices : Bytes) (numNulls : Nat) :
    p.addDictionaryIndices env c indices a numNulls =
      p.addDictionaryIndices env c indices b numNulls := by
  unfold PageAccumulator.addDictionaryIndices
  rw [h.encodeDefLevels_eq, h.encodeRepLevels_eq, h.rowsOfCall_eq, h.numValues]

end ChunkArgs.Agree

/-! ## The same pages elsewhere in the file -/

/-- A page's entry without its place. -/
def PageLocation.unplaced (l : PageLocation) : PageLocation := { l with offset := 0 }

/-- The same writer in another place of the file; what lies behind its repetition levels does not
count. -/
def SamePages (w v : ChunkWriter γ) : Prop :=
  ∃ offset index stale,
    v = { w with columnFileOffset := offset, offsetIndex := index, staleRepLevels := stale } ∧
      index.map PageLocation.unplaced = w.offsetIndex.map PageLocation.unplaced

/-- Two outcomes with the same status, whose writers are related. -/
def SameOutcome (R : ChunkWriter γ → ChunkWriter γ → Prop)
    (x y : Except Status Unit × ChunkWriter γ) : Prop := x.1 = y.1 ∧ R x.2 y.2

namespace SamePages

variable {w v : ChunkWriter γ}

theorem recordPage (h : SamePages w v) (c : ChunkSettings) (page : FinalizedPage) :
    SamePages (w.recordPage c page) (v.recordPage c page) := by
  obtain ⟨offset, index, stale, rfl, hindex⟩ := h
  refine ⟨offset, _, stale, rfl, ?_⟩
  simp only [ChunkWriter.recordPage]
  split
  · simp only [List.map_append, hindex, List.map_cons, List.map_nil, PageLocation.unplaced]
  · exact hindex

theorem page_eq (h : SamePages w v) : v.page = w.page := by
  obtain ⟨_, _, _, rfl, _⟩ := h
  rfl

theorem columnBuffer_eq (h : SamePages w v) : v.columnBuffer = w.columnBuffer := by
  obtain ⟨_, _, _, rfl, _⟩ := h
  rfl

theorem countPage (h : SamePages w v) (c : ChunkSettings) :
    SamePages (w.countPage c) (v.countPage c) := by
  obtain ⟨offset, index, stale, rfl, hindex⟩ := h
  exact ⟨offset, index, stale, rfl, hindex⟩

theorem flushCurrentPage (h : SamePages w v) (env : ChunkEnv) (c : ChunkSettings) :
    SameOutcome SamePages (w.flushCurrentPage env c) (v.flushCurrentPage env c) := by
  unfold ChunkWriter.flushCurrentPage
  rw [h.page_eq, h.columnBuffer_eq]
  split
  · exact ⟨rfl, h⟩
  · cases finalizeToBuffer env.toPageEnv (w.page.buffers c) w.columnBuffer with
    | error e => exact ⟨rfl, h.countPage c⟩
    | ok page => exact ⟨rfl, (h.countPage c).recordPage c page⟩

theorem setPage (h : SamePages w v) (page : PageAccumulator γ) :
    SamePages { w with page := page } { v with page := page } := by
  obtain ⟨offset, index, stale, rfl, hindex⟩ := h
  exact ⟨offset, index, stale, rfl, hindex⟩

theorem replay_addValues (h : SamePages w v) {a b : ChunkArgs Value} (hargs : a.Agree b)
    (geo : GeoWalker γ) (env : ChunkEnv) (c : ChunkSettings) :
    SameOutcome SamePages ((ChunkWriter.replaySink geo env c).addValues w a)
      ((ChunkWriter.replaySink geo env c).addValues v b) := by
  simp only [ChunkWriter.replaySink]
  rw [h.page_eq, hargs.addValues_eq]
  exact ⟨rfl, h.setPage _⟩

end SamePages

/-! ## The replay of a dictionary column -/

/-- The same buffered rows, whatever lies behind their repetition levels. -/
structure DictBuffers.Agree (d e : DictBuffers Value) : Prop where
  totalRows : d.totalRows = e.totalRows
  values : d.values = e.values
  defLevels : d.defLevels = e.defLevels
  repLevels : d.repLevels.take d.totalRows = e.repLevels.take e.totalRows
  pointer : 0 < d.totalRows → (d.repLevels = [] ↔ e.repLevels = [])

/-- The levels of some rows are those of these rows in the array that is kept. -/
theorem take_drop_of_take_eq {l m : List Int} {total row rows : Nat}
    (h : l.take total = m.take total) (hrows : rows ≤ total - row) :
    (l.drop row).take rows = (m.drop row).take rows := by
  have hcut (k : List Int) : (k.drop row).take rows = ((k.take total).drop row).take rows := by
    rw [List.drop_take, List.take_take, Nat.min_eq_left hrows]
  rw [hcut l, hcut m, h]

/-- The call for the rows from `row` on (column_writer.c:995-1022). -/
def replayArgs (w : ColumnWriterOptions) (d : DictBuffers Value) (row val : Nat) :
    ChunkArgs Value :=
  let rows := min (fallbackMaxRows w) (d.totalRows - row)
  let defLevels := if 0 < w.column.maxDefLevel then some (d.defLevels.drop row) else none
  let repLevels :=
    if 0 < w.column.maxRepLevel ∧ d.repLevels ≠ [] then some (d.repLevels.drop row) else none
  let nn := numNonNull w.column.maxDefLevel (⟨[], rows, defLevels, repLevels⟩ : ChunkArgs Value)
  ⟨if 0 < nn then d.values.drop val else [], rows, defLevels, repLevels⟩

theorem DictBuffers.Agree.replayArgs {d e : DictBuffers Value} (h : d.Agree e)
    (w : ColumnWriterOptions) {row : Nat} (hrow : row < d.totalRows) (val : Nat) :
    (Carquet.replayArgs w d row val).Agree (Carquet.replayArgs w e row val) := by
  have hlevels := h.repLevels
  have hpointer := h.pointer (by omega)
  rw [← h.totalRows] at hlevels
  unfold Carquet.replayArgs
  rw [← h.totalRows, ← h.values, ← h.defLevels]
  refine ⟨rfl, rfl, rfl, ?_⟩
  simp only [ne_eq, hpointer]
  split
  · simp only [Option.map_some]
    rw [take_drop_of_take_eq hlevels (Nat.min_le_right ..)]
  · rfl

/-- One round of the replay. -/
theorem replayChunks_succ {σ : Type} {w : ColumnWriterOptions} (sink : PageSink σ Value)
    {d : DictBuffers Value} {row : Nat} (hrow : row < d.totalRows) (fuel : Nat) (s : σ)
    (val : Nat) :
    replayChunks w sink d (fuel + 1) s row val =
      match sink.addValues s (replayArgs w d row val) with
      | (.error e, s) => ⟨.error e, s, [replayArgs w d row val], []⟩
      | (.ok (), s) =>
        match sink.flushCurrentPage s with
        | (.error e, s) => ⟨.error e, s, [replayArgs w d row val], []⟩
        | (.ok (), s) =>
          let rest := replayChunks w sink d fuel s (row + (replayArgs w d row val).numValues)
            (val + numNonNull w.column.maxDefLevel (replayArgs w d row val))
          { rest with pageChunks := replayArgs w d row val :: rest.pageChunks } := by
  rw [replayChunks, if_pos hrow]
  rfl

/-- The replays of the same rows have the same outcome. -/
theorem replayChunks_same {geo : GeoWalker γ} {env : ChunkEnv} {c : ChunkSettings}
    {d e : DictBuffers Value} (hd : d.Agree e) (fuel : Nat) {w v : ChunkWriter γ}
    (h : SamePages w v) (row val : Nat) :
    (replayChunks c.options (ChunkWriter.replaySink geo env c) d fuel w row val).status =
        (replayChunks c.options (ChunkWriter.replaySink geo env c) e fuel v row val).status ∧
      SamePages (replayChunks c.options (ChunkWriter.replaySink geo env c) d fuel w row val).pages
        (replayChunks c.options (ChunkWriter.replaySink geo env c) e fuel v row val).pages := by
  induction fuel generalizing w v row val with
  | zero => exact ⟨rfl, h⟩
  | succ fuel ih =>
    by_cases hrow : row < d.totalRows
    swap
    · rw [replayChunks, replayChunks, if_neg hrow, if_neg (hd.totalRows ▸ hrow)]
      exact ⟨rfl, h⟩
    have hargs := hd.replayArgs c.options hrow val
    rw [replayChunks_succ _ hrow, replayChunks_succ _ (hd.totalRows ▸ hrow), ← hargs.numValues,
      ← hargs.numNonNull_eq]
    obtain ⟨hstatus, hsame⟩ := h.replay_addValues hargs geo env c
    rcases hx : (ChunkWriter.replaySink geo env c).addValues w (replayArgs c.options d row val)
      with ⟨_ | _, w'⟩ <;>
    rcases hy : (ChunkWriter.replaySink geo env c).addValues v (replayArgs c.options e row val)
      with ⟨_ | _, v'⟩ <;>
    rw [hx, hy] at hstatus hsame
    · exact ⟨hstatus, hsame⟩
    · cases hstatus
    · cases hstatus
    · obtain ⟨hstatus, hsame⟩ := hsame.flushCurrentPage env c
      rcases hfx : (ChunkWriter.replaySink geo env c).flushCurrentPage w' with ⟨_ | _, w''⟩ <;>
      rcases hfy : (ChunkWriter.replaySink geo env c).flushCurrentPage v' with ⟨_ | _, v''⟩ <;>
      rw [show w'.flushCurrentPage env c = _ from hfx,
        show v'.flushCurrentPage env c = _ from hfy] at hstatus hsame
      · exact ⟨by simpa only [hfx, hfy] using hstatus, by simpa only [hfx, hfy] using hsame⟩
      · cases hstatus
      · cases hstatus
      · simpa only [hfx, hfy] using ih hsame _ _

/-! ## The same chunk -/

/-- The same chunk, in another place of the file and written with another page encoding before. -/
def SameChunk (w v : ChunkWriter γ) : Prop :=
  ∃ offset index stale encoding,
    v = { w with
      columnFileOffset := offset, offsetIndex := index, staleRepLevels := stale
      page := w.page.setEncoding encoding } ∧
      index.map PageLocation.unplaced = w.offsetIndex.map PageLocation.unplaced

/-- The repetition levels of a column are its own: none are left of earlier row groups, or each row
has one. -/
def ChunkWriter.OwnLevels (w : ChunkWriter γ) : Prop :=
  w.staleRepLevels = [] ∨ w.dict.repLevels.length = w.dict.totalRows

theorem SamePages.sameChunk {w v : ChunkWriter γ} (h : SamePages w v) : SameChunk w v := by
  obtain ⟨offset, index, stale, rfl, hindex⟩ := h
  exact ⟨offset, index, stale, w.page.encoding, rfl, hindex⟩

theorem SameOutcome.sameChunk {x y : Except Status Unit × ChunkWriter γ}
    (h : SameOutcome SamePages x y) : SameOutcome SameChunk x y := ⟨h.1, h.2.sameChunk⟩

/-- The levels of a column's own rows. -/
theorem ChunkWriter.OwnLevels.take {w : ChunkWriter γ} (h : w.OwnLevels) :
    w.dictArrays.repLevels.take w.dict.totalRows = w.dict.repLevels.take w.dict.totalRows := by
  simp only [ChunkWriter.dictArrays]
  rcases h with h | h
  · rw [h, List.append_nil]
  · rw [List.take_append_of_le_length (by omega)]

theorem ChunkWriter.OwnLevels.pointer {w : ChunkWriter γ} (h : w.OwnLevels)
    (hrows : 0 < w.dict.totalRows) : w.dictArrays.repLevels = [] ↔ w.dict.repLevels = [] := by
  simp only [ChunkWriter.dictArrays, List.append_eq_nil_iff, and_iff_left_iff_imp]
  intro hnil
  rcases h with h | h
  · exact h
  · rw [hnil, List.length_nil] at h
    omega

theorem dictArrays_agree {w v : ChunkWriter γ} (hdict : v.dict = w.dict) (hw : w.OwnLevels)
    (hv : v.OwnLevels) : w.dictArrays.Agree v.dictArrays := by
  have hrows : w.dict.totalRows = v.dict.totalRows := by rw [hdict]
  have hvalues : w.dict.values = v.dict.values := by rw [hdict]
  have hlevels : w.dict.defLevels = v.dict.defLevels := by rw [hdict]
  refine ⟨hrows, hvalues, hlevels, ?_, ?_⟩
  · have hv := hv.take
    rw [hdict] at hv
    change w.dictArrays.repLevels.take w.dict.totalRows =
      v.dictArrays.repLevels.take v.dict.totalRows
    rw [hdict]
    exact hw.take.trans hv.symm
  · intro hrows
    have hv := hv.pointer (by rw [hdict]; exact hrows)
    rw [hdict] at hv
    exact (hw.pointer hrows).trans hv.symm

namespace SameChunk

variable {w v : ChunkWriter γ}

theorem dict_eq (h : SameChunk w v) : v.dict = w.dict := by
  obtain ⟨_, _, _, _, rfl, _⟩ := h
  rfl

/-- With the page's encoding set, the pages are the same. -/
theorem setEncoding (h : SameChunk w v) (encoding : Encoding) (useDictionary : Bool) :
    SamePages { w with page := w.page.setEncoding encoding, useDictionary := useDictionary }
      { v with page := v.page.setEncoding encoding, useDictionary := useDictionary } := by
  obtain ⟨offset, index, stale, _, rfl, hindex⟩ := h
  exact ⟨offset, index, stale, rfl, hindex⟩

theorem fallbackToPlain (h : SameChunk w v) (hw : w.OwnLevels) (hv : v.OwnLevels)
    (geo : GeoWalker γ) (env : ChunkEnv) (c : ChunkSettings) :
    SameOutcome SameChunk (w.fallbackToPlain geo env c) (v.fallbackToPlain geo env c) := by
  have hd := dictArrays_agree h.dict_eq hw hv
  have hpages := h.setEncoding .plain false
  obtain ⟨hstatus, hsame⟩ := @replayChunks_same γ geo env c _ _ hd w.dict.totalRows _ _ hpages 0 0
  unfold ChunkWriter.fallbackToPlain dictFallbackToPlain
  rw [← hd.totalRows]
  exact ⟨hstatus, hsame.sameChunk⟩

theorem addDictionaryIndices_setEncoding (env : ChunkEnv) (c : ChunkSettings)
    (p : PageAccumulator γ) (encoding : Encoding) (indices : Bytes) (args : ChunkArgs Value)
    (numNulls : Nat) :
    (p.setEncoding encoding).addDictionaryIndices env c indices args numNulls =
      ((p.addDictionaryIndices env c indices args numNulls).1,
        (p.addDictionaryIndices env c indices args numNulls).2.setEncoding encoding) := by
  unfold PageAccumulator.addDictionaryIndices
  cases encodeDefLevels env c args with
  | error e => rfl
  | ok defLevels =>
    cases encodeRepLevels env c args with
    | error e => rfl
    | ok repLevels =>
      simp only
      cases env.grow indices.length with
      | error e => rfl
      | ok u => rfl

theorem dictArgs_agree (h : SameChunk w v) (hw : w.OwnLevels) (hv : v.OwnLevels)
    (c : ChunkSettings) (hrows : 0 < w.dict.totalRows) : (w.dictArgs c).Agree (v.dictArgs c) := by
  have hd := dictArrays_agree h.dict_eq hw hv
  have hpointer := hd.pointer hrows
  refine ⟨rfl, hd.totalRows, ?_, ?_⟩
  · simp only [ChunkWriter.dictArgs, h.dict_eq]
  · simp only [ChunkWriter.dictArgs, ne_eq, hpointer]
    split
    · exact congrArg some hd.repLevels
    · rfl

theorem emitIndices (h : SameChunk w v) (hw : w.OwnLevels) (hv : v.OwnLevels)
    (hrows : 0 < w.dict.totalRows) (env : ChunkEnv) (c : ChunkSettings) (indices : Bytes) :
    SameOutcome SameChunk (w.emitIndices env c indices) (v.emitIndices env c indices) := by
  have hargs := h.dictArgs_agree hw hv c hrows
  unfold ChunkWriter.emitIndices
  rw [← hargs.addDictionaryIndices_eq, h.dict_eq]
  obtain ⟨offset, index, stale, encoding, rfl, hindex⟩ := h
  simp only [addDictionaryIndices_setEncoding]
  rcases w.page.addDictionaryIndices env c indices (w.dictArgs c) w.dictTotalNulls with ⟨_ | _, p⟩
  · exact ⟨rfl, offset, index, stale, encoding, rfl, hindex⟩
  · have hpages : SamePages w { w with
        columnFileOffset := offset, offsetIndex := index, staleRepLevels := stale } :=
      ⟨offset, index, stale, rfl, hindex⟩
    exact ((hpages.setPage ((p.setEncoding .rleDictionary).setMinMax c
      (dictMinMax c.kind w.dict.values))).flushCurrentPage env c).sameChunk

theorem recordDictionaryPage (h : SameChunk w v) (page : FinalizedPage) :
    SameChunk (w.recordDictionaryPage page) (v.recordDictionaryPage page) := by
  obtain ⟨offset, index, stale, encoding, rfl, hindex⟩ := h
  exact ⟨offset, index, stale, encoding, rfl, hindex⟩

theorem emitDictionaryPage_eq (h : SameChunk w v) (env : PageEnv) (c : ChunkSettings)
    (payload : Bytes) (entries : Int32) :
    emitDictionaryPage env (v.page.buffers c) v.columnBuffer payload entries =
      emitDictionaryPage env (w.page.buffers c) w.columnBuffer payload entries := by
  obtain ⟨_, _, _, _, rfl, _⟩ := h
  rfl

theorem finalizeDictionary (h : SameChunk w v) (hw : w.OwnLevels) (hv : v.OwnLevels)
    (geo : GeoWalker γ) (env : ChunkEnv) (c : ChunkSettings) :
    SameOutcome SameChunk (w.finalizeDictionary geo env c) (v.finalizeDictionary geo env c) := by
  have hdict := h.dict_eq
  have hfallback := h.fallbackToPlain hw hv geo env c
  unfold ChunkWriter.finalizeDictionary
  rw [hdict]
  by_cases hrows : w.dict.totalRows = 0
  · rw [if_pos hrows, if_pos hrows]
    exact ⟨rfl, h⟩
  rw [if_neg hrows, if_neg hrows]
  split
  · exact hfallback
  · cases chooseDictionary c w.dict.values with
    | error e => exact ⟨rfl, h⟩
    | ok choice =>
      cases choice with
      | none => exact hfallback
      | some pages =>
        obtain ⟨payload, indices, entries⟩ := pages
        simp only [h.emitDictionaryPage_eq]
        cases emitDictionaryPage env.toPageEnv (w.page.buffers c) w.columnBuffer payload
            (Int32.ofNat entries) with
        | error e => exact ⟨rfl, h⟩
        | ok page =>
          exact (h.recordDictionaryPage page).emitIndices hw
            (by rw [show (v.recordDictionaryPage page).OwnLevels = v.OwnLevels from rfl]; exact hv)
            (Nat.pos_of_ne_zero hrows) env c indices

end SameChunk

end Carquet
