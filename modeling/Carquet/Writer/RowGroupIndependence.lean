import Mathlib.Data.List.Forall2
import Carquet.Writer.RowGroupsSpec

/-!
# A row group is written as by a new writer

`SettledRun` says of which runs: no column fell back from its dictionary, no geometry was counted.
`rowGroups_independent` is the law of two runs.
-/

namespace Carquet

variable {γ : Type}

/-! ## What batches and flushes keep -/

/-- What a page, a flush or a dictionary leaves alone. -/
structure Keeps (w v : ChunkWriter γ) : Prop where
  useDictionary : v.useDictionary = w.useDictionary
  geoStats : v.page.geoStats = w.page.geoStats
  encoding : v.page.encoding = w.page.encoding
  staleRepLevels : v.staleRepLevels = w.staleRepLevels
  dict : v.dict = w.dict

theorem Keeps.refl (w : ChunkWriter γ) : Keeps w w := ⟨rfl, rfl, rfl, rfl, rfl⟩

theorem Keeps.trans {u v w : ChunkWriter γ} (h : Keeps u v) (k : Keeps v w) : Keeps u w :=
  ⟨k.useDictionary.trans h.useDictionary, k.geoStats.trans h.geoStats, k.encoding.trans h.encoding,
    k.staleRepLevels.trans h.staleRepLevels, k.dict.trans h.dict⟩

theorem flushCurrentPage_keeps (env : ChunkEnv) (c : ChunkSettings) (w : ChunkWriter γ) :
    Keeps w (w.flushCurrentPage env c).2 := by
  unfold ChunkWriter.flushCurrentPage
  split
  · exact .refl w
  · split
    · exact ⟨rfl, rfl, rfl, rfl, rfl⟩
    · exact ⟨rfl, rfl, rfl, rfl, rfl⟩

/-- The values of a call do not count as geometries of a column that has none so far. -/
def SilentValues (geo : GeoWalker γ) (c : ChunkSettings) (values : List Value) : Prop :=
  c.geoEnabled = true → c.column.type = .byteArray → ∀ v ∈ values, geo.addWkb geo.init v = geo.init

theorem foldl_addWkb {geo : GeoWalker γ} {values : List Value}
    (h : ∀ v ∈ values, geo.addWkb geo.init v = geo.init) :
    values.foldl geo.addWkb geo.init = geo.init := by
  induction values with
  | nil => rfl
  | cons v vs ih =>
    rw [List.foldl_cons, h v List.mem_cons_self]
    exact ih fun u hu => h u (List.mem_cons_of_mem v hu)

theorem addValues_keeps {geo : GeoWalker γ} {c : ChunkSettings} {args : ChunkArgs Value}
    (hsilent : SilentValues geo c args.values) {p : PageAccumulator γ}
    (hgeo : p.geoStats = geo.init) (env : ChunkEnv) :
    (p.addValues geo env c args).2.geoStats = geo.init ∧
      (p.addValues geo env c args).2.encoding = p.encoding := by
  unfold PageAccumulator.addValues
  split
  · exact ⟨hgeo, rfl⟩
  · refine ⟨?_, rfl⟩
    simp only [PageAccumulator.geoAfter]
    split
    · rename_i hcase
      rw [hgeo]
      exact foldl_addWkb fun v hv => hsilent hcase.1 hcase.2 v (List.mem_of_mem_take hv)
    · exact hgeo

theorem pageSink_keeps {geo : GeoWalker γ} {c : ChunkSettings} {args : ChunkArgs Value}
    (hsilent : SilentValues geo c args.values) {w : ChunkWriter γ}
    (hgeo : w.page.geoStats = geo.init) (env : ChunkEnv) :
    Keeps w ((ChunkWriter.pageSink geo env c).addValues w args).2 := by
  obtain ⟨hstats, hencoding⟩ := addValues_keeps hsilent hgeo env
  simp only [ChunkWriter.pageSink]
  split
  · rename_i hadd
    rw [hadd] at hstats hencoding
    exact ⟨rfl, hstats.trans hgeo.symm, hencoding, rfl, rfl⟩
  · rename_i hadd
    rw [hadd] at hstats hencoding
    exact ⟨rfl, hstats.trans hgeo.symm, hencoding, rfl, rfl⟩

/-- The loop over the chunks of a batch keeps what a chunk and a flush keep. -/
theorem writeChunks_preserves {σ α : Type} {P : σ → Prop} {sink : PageSink σ α}
    {args : ChunkArgs α}
    (hadd : ∀ s a, P s → (∀ v ∈ a.values, v ∈ args.values) → P (sink.addValues s a).2)
    (hflush : ∀ s, P s → P (sink.flushCurrentPage s).2) (w : ColumnWriterOptions) (fuel : Nat)
    {s : σ} (h : P s) (offset : Nat) : P (writeChunks w sink args fuel s offset).pages := by
  induction fuel generalizing s offset with
  | zero => exact h
  | succ fuel ih =>
    unfold writeChunks
    split
    swap
    · exact h
    have hone := hadd s (args.shift offset (min (maxChunk w args.numValues)
      (args.numValues - offset))) h fun v hv => List.mem_of_mem_drop hv
    simp only
    split
    · rename_i hx
      rwa [hx] at hone
    · rename_i hx
      rw [hx] at hone
      split
      · have htwo := hflush _ hone
        split
        · rename_i hy
          rwa [hy] at htwo
        · rename_i hy
          rw [hy] at htwo
          exact ih htwo _
      · exact ih hone _

/-- A column written page by page. -/
theorem writeBatch_keeps {geo : GeoWalker γ} {c : ChunkSettings} {args : ChunkArgs Value}
    (hsilent : SilentValues geo c args.values) {w : ChunkWriter γ}
    (hgeo : w.page.geoStats = geo.init) (hplain : w.useDictionary = false) (env : ChunkEnv) :
    Keeps w (w.writeBatch geo env c args).2 := by
  unfold ChunkWriter.writeBatch
  rw [if_neg (by simp [hplain])]
  refine writeChunks_preserves (P := Keeps w) (fun v a hv ha => ?_) (fun v hv => ?_) _ _ (.refl w) 0
  · exact hv.trans (pageSink_keeps (fun h1 h2 u hu => hsilent h1 h2 u (ha u hu))
      (hv.geoStats.trans hgeo) env)
  · exact hv.trans (flushCurrentPage_keeps env c v)

/-! ## Batches of a dictionary column -/

/-- What a dictionary batch leaves alone. -/
theorem dictAccumulate_page (env : ChunkEnv) (c : ChunkSettings) (w : ChunkWriter γ)
    (args : ChunkArgs Value) :
    (w.dictAccumulate env c args).2.page = w.page ∧
      (w.dictAccumulate env c args).2.useDictionary = w.useDictionary ∧
      (c.column.maxRepLevel ≤ 0 →
        (w.dictAccumulate env c args).2.staleRepLevels = w.staleRepLevels ∧
          (w.dictAccumulate env c args).2.dict.repLevels = w.dict.repLevels) := by
  unfold ChunkWriter.dictAccumulate
  simp only
  split
  · exact ⟨rfl, rfl, fun _ => ⟨rfl, rfl⟩⟩
  split
  · exact ⟨rfl, rfl, fun _ => ⟨rfl, rfl⟩⟩
  split
  · exact ⟨rfl, rfl, fun _ => ⟨rfl, rfl⟩⟩
  refine ⟨rfl, rfl, fun hmax => ⟨?_, ?_⟩⟩
  · have hno : (decide (0 < c.column.maxRepLevel) && args.repLevels.isSome) = false := by
      simp [hmax]
    simp [ChunkWriter.insertChunk, hno]
  · simp only [ChunkWriter.insertChunk, Carquet.dictAccumulate]
    split
    · exact if_neg (by omega)
    · rfl

theorem SameChunk.dictAccumulate {w v : ChunkWriter γ} (h : SameChunk w v) (env : ChunkEnv)
    (c : ChunkSettings) (args : ChunkArgs Value) :
    SameOutcome SameChunk (w.dictAccumulate env c args) (v.dictAccumulate env c args) := by
  obtain ⟨offset, index, stale, encoding, rfl, hindex⟩ := h
  unfold ChunkWriter.dictAccumulate
  simp only
  split
  · exact ⟨rfl, offset, index, stale, encoding, rfl, hindex⟩
  split
  · exact ⟨rfl, offset, index, stale, encoding, rfl, hindex⟩
  split
  · exact ⟨rfl, offset, index, stale, encoding, rfl, hindex⟩
  exact ⟨rfl, offset, index, _, encoding, rfl, hindex⟩

theorem SameChunk.writeBatch {w v : ChunkWriter γ} (h : SameChunk w v)
    (hdict : w.useDictionary = true) (geo : GeoWalker γ) (env : ChunkEnv) (c : ChunkSettings)
    (args : ChunkArgs Value) :
    SameOutcome SameChunk (w.writeBatch geo env c args) (v.writeBatch geo env c args) := by
  have hv : v.useDictionary = true := by
    obtain ⟨_, _, _, _, rfl, _⟩ := h
    exact hdict
  unfold ChunkWriter.writeBatch
  rw [if_pos hdict, if_pos hv]
  obtain ⟨hstatus, hsame⟩ := h.dictAccumulate env c args
  rcases hx : w.dictAccumulate env c args with ⟨_ | _, w'⟩ <;>
  rcases hy : v.dictAccumulate env c args with ⟨_ | _, v'⟩ <;>
  rw [hx, hy] at hstatus hsame
  · exact ⟨hstatus, hsame⟩
  · cases hstatus
  · cases hstatus
  · obtain ⟨offset, index, stale, encoding, rfl, hindex⟩ := hsame
    exact ⟨hstatus, offset, index, stale, encoding, rfl, hindex⟩

/-! ## Finalizing without a fallback -/

/-- The column does not fall back from its dictionary when it is finalized: it has no rows, or its
values get a dictionary. -/
def ChunkWriter.KeepsDictionary (c : ChunkSettings) (w : ChunkWriter γ) : Prop :=
  w.useDictionary = true →
    w.dict.totalRows = 0 ∨ ∃ pages, chooseDictionary c w.dict.values = .ok (some pages)

theorem addDictionaryIndices_geoStats (env : ChunkEnv) (c : ChunkSettings)
    (p : PageAccumulator γ) (indices : Bytes) (args : ChunkArgs Value) (numNulls : Nat) :
    (p.addDictionaryIndices env c indices args numNulls).2.geoStats = p.geoStats := by
  unfold PageAccumulator.addDictionaryIndices
  split
  · rfl
  · simp only
    split
    · rfl
    · split
      · rfl
      · rfl

theorem setMinMax_geoStats (c : ChunkSettings) (p : PageAccumulator γ) (minMax : MinMax) :
    (p.setMinMax c minMax).geoStats = p.geoStats := by
  unfold PageAccumulator.setMinMax
  split
  · split
    · rfl
    · rfl
  · rfl

/-- What finalizing leaves alone in a column that keeps its dictionary. -/
structure KeepsMode (w v : ChunkWriter γ) : Prop where
  useDictionary : v.useDictionary = w.useDictionary
  geoStats : v.page.geoStats = w.page.geoStats
  staleRepLevels : v.staleRepLevels = w.staleRepLevels
  dict : v.dict = w.dict

theorem Keeps.mode {w v : ChunkWriter γ} (h : Keeps w v) : KeepsMode w v :=
  ⟨h.useDictionary, h.geoStats, h.staleRepLevels, h.dict⟩

theorem emitIndices_keepsMode (env : ChunkEnv) (c : ChunkSettings) (w : ChunkWriter γ)
    (indices : Bytes) : KeepsMode w (w.emitIndices env c indices).2 := by
  have hgeo := addDictionaryIndices_geoStats env c w.page indices (w.dictArgs c) w.dictTotalNulls
  unfold ChunkWriter.emitIndices
  split
  · rename_i hx
    rw [hx] at hgeo
    exact ⟨rfl, hgeo, rfl, rfl⟩
  · rename_i page hx
    rw [hx] at hgeo
    have hflush := flushCurrentPage_keeps env c { w with
      page := (page.setEncoding .rleDictionary).setMinMax c (dictMinMax c.kind w.dict.values) }
    refine ⟨hflush.useDictionary, hflush.geoStats.trans ?_, hflush.staleRepLevels, hflush.dict⟩
    exact (setMinMax_geoStats ..).trans hgeo

theorem finalize_keepsMode {c : ChunkSettings} {w : ChunkWriter γ} (h : w.KeepsDictionary c)
    (geo : GeoWalker γ) (env : ChunkEnv) : KeepsMode w (w.finalize geo env c).2 := by
  unfold ChunkWriter.finalize
  by_cases hdict : w.useDictionary = true
  swap
  · rw [if_neg hdict]
    exact (flushCurrentPage_keeps env c w).mode
  rw [if_pos hdict]
  unfold ChunkWriter.finalizeDictionary
  by_cases hrows : w.dict.totalRows = 0
  · rw [if_pos hrows]
    exact (Keeps.refl w).mode
  obtain ⟨⟨payload, indices, entries⟩, hpages⟩ := (h hdict).resolve_left hrows
  have hvalues : w.dict.values ≠ [] := by
    intro hnil
    rw [hnil] at hpages
    cases hpages
  rw [if_neg hrows, if_neg hvalues, hpages]
  simp only
  split
  · exact (Keeps.refl w).mode
  · rename_i page hpage
    have hemit := emitIndices_keepsMode env c (w.recordDictionaryPage page) indices
    exact ⟨hemit.useDictionary, hemit.geoStats, hemit.staleRepLevels, hemit.dict⟩

/-- The page's encoding stays, where the column is written page by page. -/
theorem finalize_encoding {w : ChunkWriter γ} (hplain : w.useDictionary = false)
    (geo : GeoWalker γ) (env : ChunkEnv) (c : ChunkSettings) :
    (w.finalize geo env c).2.page.encoding = w.page.encoding := by
  unfold ChunkWriter.finalize
  rw [if_neg (by simp [hplain])]
  exact (flushCurrentPage_keeps env c w).encoding

/-! ## Settled columns -/

/-- A column whose row groups so far left nothing behind that shows. -/
structure ColumnSlot.Settled (geo : GeoWalker γ) (s : ColumnSlot γ) : Prop where
  useDictionary : s.writer.useDictionary = s.settings.useDictionary
  geoStats : s.writer.page.geoStats = geo.init
  encoding : s.settings.useDictionary = false → s.writer.page.encoding = s.settings.encoding
  levels : s.settings.useDictionary = false ∨ s.settings.column.maxRepLevel ≤ 0 →
    s.writer.staleRepLevels = [] ∧ s.writer.dict.repLevels = []
  info : s.settings.geoEnabled = false → s.info.geoStats = none

theorem ColumnSlot.Settled.writeBatch {geo : GeoWalker γ} {s : ColumnSlot γ} (h : s.Settled geo)
    {args : ChunkArgs Value} (hsilent : SilentValues geo s.settings args.values) (env : ChunkEnv) :
    (s.writeBatch geo env args).2.Settled geo := by
  by_cases hdict : s.writer.useDictionary = true
  · have hsettings : s.settings.useDictionary = true := h.useDictionary ▸ hdict
    obtain ⟨hpage, huse, hlevels⟩ := dictAccumulate_page env s.settings s.writer args
    have hwritten : (s.writeBatch geo env args).2.writer.page = s.writer.page ∧
        (s.writeBatch geo env args).2.writer.useDictionary = s.writer.useDictionary ∧
        (s.settings.column.maxRepLevel ≤ 0 →
          (s.writeBatch geo env args).2.writer.staleRepLevels = s.writer.staleRepLevels ∧
          (s.writeBatch geo env args).2.writer.dict.repLevels = s.writer.dict.repLevels) := by
      simp only [ColumnSlot.writeBatch, ChunkWriter.writeBatch, if_pos hdict]
      split
      · rename_i hx
        rw [hx] at hpage huse hlevels
        exact ⟨hpage, huse, hlevels⟩
      · rename_i hx
        rw [hx] at hpage huse hlevels
        exact ⟨hpage, huse, hlevels⟩
    obtain ⟨hpage, huse, hlevels⟩ := hwritten
    refine ⟨huse.trans h.useDictionary, by rw [hpage]; exact h.geoStats, fun hno => ?_,
      fun hor => ?_, h.info⟩
    · have : s.settings.useDictionary = false := hno
      simp [hsettings] at this
    · have hmax : s.settings.column.maxRepLevel ≤ 0 := by
        rcases hor with hno | hmax
        · have : s.settings.useDictionary = false := hno
          simp [hsettings] at this
        · exact hmax
      obtain ⟨hstale, hrep⟩ := hlevels hmax
      obtain ⟨hs, hr⟩ := h.levels (.inr hmax)
      exact ⟨hstale.trans hs, hrep.trans hr⟩
  · have hplain : s.writer.useDictionary = false := by simpa using hdict
    have hkeeps := writeBatch_keeps hsilent h.geoStats hplain env
    refine ⟨hkeeps.useDictionary.trans h.useDictionary, hkeeps.geoStats.trans h.geoStats,
      fun hno => hkeeps.encoding.trans (h.encoding hno), fun hor => ?_, h.info⟩
    obtain ⟨hs, hr⟩ := h.levels hor
    exact ⟨hkeeps.staleRepLevels.trans hs, (congrArg DictBuffers.repLevels hkeeps.dict).trans hr⟩

/-- A settled column after a row group is as it was created, but for a page encoding that is set
again before it is looked at, and levels that lie behind its own. -/
theorem ColumnSlot.Settled.reset {geo : GeoWalker γ} {s : ColumnSlot γ} (h : s.Settled geo) :
    SameChunk (ChunkWriter.create geo s.settings) s.reset.writer ∧
      (s.settings.useDictionary = false →
        s.reset.writer = ChunkWriter.create geo s.settings) ∧ s.reset.Settled geo := by
  have hpage : s.writer.page.reset =
      (PageAccumulator.create geo s.settings.encoding).setEncoding s.writer.page.encoding := by
    simp only [PageAccumulator.reset, PageAccumulator.create, PageAccumulator.setEncoding,
      h.geoStats]
  have hwriter : s.reset.writer = { ChunkWriter.create geo s.settings with
      page := (PageAccumulator.create geo s.settings.encoding).setEncoding s.writer.page.encoding
      staleRepLevels := s.writer.dict.repLevels ++ s.writer.staleRepLevels } := by
    simp only [ColumnSlot.reset, ChunkWriter.reset, ChunkWriter.create, hpage, h.useDictionary]
  refine ⟨⟨0, [], _, _, hwriter, rfl⟩, fun hno => ?_, ⟨h.useDictionary, h.geoStats, h.encoding,
    fun hor => ?_, h.info⟩⟩
  · obtain ⟨hs, hr⟩ := h.levels (.inl hno)
    rw [hwriter, h.encoding hno, hs, hr]
    rfl
  · obtain ⟨hs, hr⟩ := h.levels hor
    exact ⟨by simp [ColumnSlot.reset, ChunkWriter.reset, hs, hr], rfl⟩

/-! ## A column beside that of a new writer -/

/-- A column, and the same column of a writer that had no earlier row groups. -/
structure Twin (s t : ColumnSlot γ) : Prop where
  settings : t.settings = s.settings
  useDictionary : t.writer.useDictionary = s.settings.useDictionary
  same : SameChunk t.writer s.writer
  plain : s.settings.useDictionary = false → s.writer = t.writer
  stale : t.writer.staleRepLevels = []
  levels : s.settings.column.maxRepLevel ≤ 0 → s.writer.staleRepLevels = []
  info : s.info = { (ChunkInfo.create : ChunkInfo γ) with geoStats := s.info.geoStats }
  fresh : t.info = .create
  geo : s.settings.geoEnabled = false → s.info.geoStats = none

theorem writeBatch_useDictionary (geo : GeoWalker γ) (env : ChunkEnv) (c : ChunkSettings)
    (w : ChunkWriter γ) (args : ChunkArgs Value) :
    (w.writeBatch geo env c args).2.useDictionary = w.useDictionary := by
  unfold ChunkWriter.writeBatch
  split
  · obtain ⟨-, huse, -⟩ := dictAccumulate_page env c w args
    split
    · rename_i hx
      rwa [hx] at huse
    · rename_i hx
      rwa [hx] at huse
  · refine writeChunks_preserves (P := fun v => v.useDictionary = w.useDictionary)
      (fun v a hv _ => ?_) (fun v hv => ?_) _ _ (s := w) rfl 0
    · simp only [ChunkWriter.pageSink]
      split
      · exact hv
      · exact hv
    · exact (flushCurrentPage_keeps env c v).useDictionary.trans hv

/-- What a batch leaves of earlier levels, where none are written. -/
theorem writeBatch_stale {w : ChunkWriter γ} (hdict : w.useDictionary = true) (geo : GeoWalker γ)
    (env : ChunkEnv) (c : ChunkSettings) (args : ChunkArgs Value)
    (h : w.staleRepLevels = []) : (w.writeBatch geo env c args).2.staleRepLevels = [] := by
  have hacc : (w.dictAccumulate env c args).2.staleRepLevels = [] := by
    unfold ChunkWriter.dictAccumulate
    simp only
    split
    · exact h
    split
    · exact h
    split
    · exact h
    simp only [ChunkWriter.insertChunk, h, List.drop_nil, ite_self]
  unfold ChunkWriter.writeBatch
  rw [if_pos hdict]
  split
  · rename_i hx
    rwa [hx] at hacc
  · rename_i hx
    rwa [hx] at hacc

theorem Twin.writeBatch {s t : ColumnSlot γ} (h : Twin s t) (geo : GeoWalker γ) (env : ChunkEnv)
    (args : ChunkArgs Value) :
    (s.writeBatch geo env args).1 = (t.writeBatch geo env args).1 ∧
      Twin (s.writeBatch geo env args).2 (t.writeBatch geo env args).2 := by
  have huse := writeBatch_useDictionary geo env s.settings t.writer args
  by_cases hdict : s.settings.useDictionary = true
  · have ht : t.writer.useDictionary = true := h.useDictionary.trans hdict
    obtain ⟨hstatus, hsame⟩ := h.same.writeBatch ht geo env s.settings args
    have hs : s.writer.useDictionary = true := by
      obtain ⟨_, _, _, _, hw, _⟩ := h.same
      rw [hw]
      exact ht
    simp only [ColumnSlot.writeBatch, h.settings]
    refine ⟨hstatus.symm, rfl, huse.trans h.useDictionary, hsame, fun hno => ?_,
      writeBatch_stale ht geo env s.settings args h.stale, fun hmax => ?_, h.info, h.fresh, h.geo⟩
    · have : s.settings.useDictionary = false := hno
      simp [hdict] at this
    · exact writeBatch_stale hs geo env s.settings args (h.levels hmax)
  · have hplain : s.settings.useDictionary = false := by simpa using hdict
    have hw := h.plain hplain
    have hstale : (t.writer.writeBatch geo env s.settings args).2.staleRepLevels = [] := by
      unfold ChunkWriter.writeBatch
      rw [if_neg (by simp [h.useDictionary, hplain])]
      refine writeChunks_preserves (P := fun v => v.staleRepLevels = []) (fun v a hv _ => ?_)
        (fun v hv => ?_) _ _ (s := t.writer) h.stale 0
      · simp only [ChunkWriter.pageSink]
        split
        · exact hv
        · exact hv
      · exact (flushCurrentPage_keeps env s.settings v).staleRepLevels.trans hv
    simp only [ColumnSlot.writeBatch, h.settings, hw]
    exact ⟨trivial, rfl, huse.trans h.useDictionary,
      SamePages.sameChunk ⟨_, _, _, rfl, rfl⟩, fun _ => rfl, hstale, fun _ => hstale, h.info,
      h.fresh, h.geo⟩

/-! ## A row group -/

/-- The repetition levels of the column are its own, where a dictionary column has any. -/
def ColumnSlot.OwnLevels (s : ColumnSlot γ) : Prop :=
  s.settings.useDictionary = true → 0 < s.settings.column.maxRepLevel → s.writer.OwnLevels

/-- What is written of a chunk, but for offsets in the file. -/
def EmittedChunk.unplaced (e : EmittedChunk γ) : EmittedChunk γ :=
  { e with
    info := { e.info with fileOffset := 0 }
    offsetIndex := e.offsetIndex.map PageLocation.unplaced }

theorem SameChunk.setFileOffset {w v : ChunkWriter γ} (h : SameChunk w v) (o p : Int) :
    SameChunk (w.setFileOffset o) (v.setFileOffset p) := by
  obtain ⟨offset, index, stale, encoding, rfl, hindex⟩ := h
  exact ⟨p, index, stale, encoding, rfl, hindex⟩

/-- A column is finalized as that of a new writer. -/
theorem Twin.finalize {s t : ColumnSlot γ} (h : Twin s t) (hown : s.OwnLevels)
    (geo : GeoWalker γ) (env : ChunkEnv) (o p : Int) :
    SameOutcome SameChunk ((t.writer.setFileOffset o).finalize geo env s.settings)
      ((s.writer.setFileOffset p).finalize geo env s.settings) := by
  have hsame := h.same.setFileOffset o p
  by_cases hdict : s.settings.useDictionary = true
  · have ht : t.writer.useDictionary = true := h.useDictionary.trans hdict
    have hs : s.writer.useDictionary = true := by
      obtain ⟨_, _, _, _, hw, _⟩ := h.same
      rw [hw]
      exact ht
    have hlevels : s.writer.OwnLevels := by
      by_cases hmax : s.settings.column.maxRepLevel ≤ 0
      · exact .inl (h.levels hmax)
      · exact hown hdict (by omega)
    unfold ChunkWriter.finalize
    rw [if_pos (show (t.writer.setFileOffset o).useDictionary = true from ht),
      if_pos (show (s.writer.setFileOffset p).useDictionary = true from hs)]
    exact hsame.finalizeDictionary (.inl h.stale) hlevels geo env s.settings
  · have hplain : s.settings.useDictionary = false := by simpa using hdict
    have ht : t.writer.useDictionary = false := h.useDictionary.trans hplain
    rw [h.plain hplain]
    unfold ChunkWriter.finalize
    rw [if_neg (show ¬ (t.writer.setFileOffset o).useDictionary = true by
        simp [ChunkWriter.setFileOffset, ht]),
      if_neg (show ¬ (t.writer.setFileOffset p).useDictionary = true by
        simp [ChunkWriter.setFileOffset, ht])]
    exact (SamePages.flushCurrentPage (w := t.writer.setFileOffset o)
      ⟨p, t.writer.offsetIndex, t.writer.staleRepLevels, rfl, rfl⟩ env s.settings).sameChunk

/-- The chunk that is written of a finalized column. -/
theorem emitted_unplaced {s t : ColumnSlot γ} (h : Twin s t) {w v : ChunkWriter γ}
    (hsame : SameChunk v w) (o p : Int) :
    ({ s with writer := w, info := s.info.capture s.settings w p } :
        ColumnSlot γ).emitted.unplaced =
      ({ t with writer := v, info := t.info.capture t.settings v o } :
        ColumnSlot γ).emitted.unplaced := by
  obtain ⟨offset, index, stale, encoding, rfl, hindex⟩ := hsame
  have hinfo := h.info
  have hgeo : (if s.settings.geoEnabled = true then some v.page.geoStats else s.info.geoStats) =
      if s.settings.geoEnabled = true then some v.page.geoStats
      else (ChunkInfo.create : ChunkInfo γ).geoStats := by
    split
    · rfl
    · rename_i hno
      exact h.geo (by simpa using hno)
  simp only [ColumnSlot.emitted, EmittedChunk.unplaced, ChunkInfo.capture, ChunkInfo.encodings,
    h.settings, h.fresh, PageAccumulator.setEncoding, hindex, hgeo]
  rw [hinfo]

theorem finalizeColumns_same {ss ts : List (ColumnSlot γ)} (h : List.Forall₂ Twin ss ts)
    (hown : ∀ s ∈ ss, s.OwnLevels) (geo : GeoWalker γ) (env : ChunkEnv) (o p : Int) :
    (RowGroupWriter.finalizeColumns geo env p ss).1 =
        (RowGroupWriter.finalizeColumns geo env o ts).1 ∧
      ((RowGroupWriter.finalizeColumns geo env p ss).1 = .ok () →
        (RowGroupWriter.finalizeColumns geo env p ss).2.map (·.emitted.unplaced) =
          (RowGroupWriter.finalizeColumns geo env o ts).2.map (·.emitted.unplaced)) := by
  induction h generalizing o p with
  | nil => exact ⟨rfl, fun _ => rfl⟩
  | @cons s t ss ts htwin _ ih =>
    obtain ⟨hs, hss⟩ := List.forall_mem_cons.mp hown
    obtain ⟨hstatus, hsame⟩ := htwin.finalize hs geo env o p
    unfold RowGroupWriter.finalizeColumns
    rw [htwin.settings]
    rcases hx : (t.writer.setFileOffset o).finalize geo env s.settings with ⟨_ | _, v⟩ <;>
    rcases hy : (s.writer.setFileOffset p).finalize geo env s.settings with ⟨_ | _, w⟩ <;>
    rw [hx, hy] at hstatus hsame
    · cases hstatus
      exact ⟨rfl, fun hok => by cases hok⟩
    · cases hstatus
    · cases hstatus
    · obtain ⟨hrest, hchunks⟩ := ih hss (o + v.columnBuffer.length) (p + w.columnBuffer.length)
      refine ⟨hrest, fun hok => ?_⟩
      rw [List.map_cons, List.map_cons, hchunks hok]
      congr 1
      have := emitted_unplaced htwin hsame o p
      rwa [htwin.settings] at this

/-! ## Runs -/

theorem forall₂_getElem? {α β : Type} {R : α → β → Prop} {xs : List α} {ys : List β}
    (h : List.Forall₂ R xs ys) (i : Nat) :
    xs[i]? = none ∧ ys[i]? = none ∨ ∃ x y, xs[i]? = some x ∧ ys[i]? = some y ∧ R x y := by
  induction h generalizing i with
  | nil => exact .inl ⟨rfl, rfl⟩
  | @cons x y xs ys hxy _ ih =>
    cases i with
    | zero => exact .inr ⟨x, y, rfl, rfl, hxy⟩
    | succ i => simpa only [List.getElem?_cons_succ] using ih i

theorem forall₂_set {α β : Type} {R : α → β → Prop} {xs : List α} {ys : List β}
    (h : List.Forall₂ R xs ys) (i : Nat) {x : α} {y : β} (hxy : R x y) :
    List.Forall₂ R (xs.set i x) (ys.set i y) := by
  induction h generalizing i with
  | nil => exact .nil
  | cons hab htail ih =>
    cases i with
    | zero => exact .cons hxy htail
    | succ i => exact .cons hab (ih i)

namespace RowGroupWriter

/-- The batches of a row group and its chunks, if it can be flushed, but for offsets in the file. -/
def written (geo : GeoWalker γ) (env : ChunkEnv) (g : RowGroupWriter γ)
    (writes : List GroupWrite) :
    List (Except Status Unit) × Except Status (List (EmittedChunk γ)) :=
  let (statuses, g) := g.writeColumns geo writes
  (statuses, (g.flush geo env 0).1.map fun chunks => chunks.map EmittedChunk.unplaced)

/-- A run of the row group writer up to the start of a row group: batches, and successful flushes
behind them. -/
inductive FlushedRun (geo : GeoWalker γ) (settings : List ChunkSettings) : RowGroupWriter γ → Prop
  | create (fileOffset : Int) : FlushedRun geo settings (create geo settings fileOffset)
  | group {g : RowGroupWriter γ} (h : FlushedRun geo settings g) (writes : List GroupWrite)
      (env : ChunkEnv) (trailing : Nat)
      (flushed : ((g.writeColumns geo writes).2.flush geo env trailing).1.isOk = true) :
      FlushedRun geo settings ((g.writeColumns geo writes).2.flush geo env trailing).2

/-- Such a run, in which no column falls back from its dictionary and no geometry is counted. -/
inductive SettledRun (geo : GeoWalker γ) (settings : List ChunkSettings) : RowGroupWriter γ → Prop
  | create (fileOffset : Int) : SettledRun geo settings (create geo settings fileOffset)
  | group {g : RowGroupWriter γ} (h : SettledRun geo settings g) (writes : List GroupWrite)
      (silent : ∀ write ∈ writes, ∀ c, settings[write.column]? = some c →
        SilentValues geo c write.args.values)
      (dictionaries : ∀ s ∈ (g.writeColumns geo writes).2.columns,
        s.writer.KeepsDictionary s.settings)
      (env : ChunkEnv) (trailing : Nat)
      (flushed : ((g.writeColumns geo writes).2.flush geo env trailing).1.isOk = true) :
      SettledRun geo settings ((g.writeColumns geo writes).2.flush geo env trailing).2

variable {geo : GeoWalker γ} {settings : List ChunkSettings} {g k : RowGroupWriter γ}

/-- Its columns are settled, and beside those of a new writer. -/
structure Settled (geo : GeoWalker γ) (settings : List ChunkSettings) (g : RowGroupWriter γ) :
    Prop where
  settings : g.columns.map ColumnSlot.settings = settings
  columns : ∀ s ∈ g.columns, s.Settled geo

theorem settings_writeColumn (g : RowGroupWriter γ) (write : GroupWrite) :
    (g.writeColumn geo write).2.columns.map ColumnSlot.settings =
      g.columns.map ColumnSlot.settings := by
  unfold writeColumn
  split
  · rfl
  · rename_i slot hslot
    obtain ⟨hlt, rfl⟩ := List.getElem?_eq_some_iff.mp hslot
    simp only [List.map_set, ColumnSlot.writeBatch]
    rw [← List.getElem_map ColumnSlot.settings (h := by simpa using hlt), List.set_getElem_self]

theorem Settled.writeColumn (h : g.Settled geo settings) {write : GroupWrite}
    (hsilent : ∀ c, settings[write.column]? = some c → SilentValues geo c write.args.values) :
    (g.writeColumn geo write).2.Settled geo settings := by
  refine ⟨(settings_writeColumn g write).trans h.settings, ?_⟩
  unfold RowGroupWriter.writeColumn
  split
  · exact h.columns
  · rename_i slot hslot
    intro s hs
    have hsettings : settings[write.column]? = some slot.settings := by
      rw [← h.settings, List.getElem?_map, hslot]
      rfl
    rcases List.mem_or_eq_of_mem_set hs with hs | rfl
    · exact h.columns s hs
    · exact (h.columns slot (List.mem_of_getElem? hslot)).writeBatch (hsilent _ hsettings) write.env

theorem Settled.writeColumns (h : g.Settled geo settings) {writes : List GroupWrite}
    (hsilent : ∀ write ∈ writes, ∀ c, settings[write.column]? = some c →
      SilentValues geo c write.args.values) :
    (g.writeColumns geo writes).2.Settled geo settings := by
  induction writes generalizing g with
  | nil => exact h
  | cons write writes ih =>
    obtain ⟨hone, hrest⟩ := List.forall_mem_cons.mp hsilent
    exact ih (h.writeColumn hone) hrest

/-- Finalizing keeps columns settled that keep their dictionaries. -/
theorem finalizeColumns_settled {columns : List (ColumnSlot γ)}
    (h : ∀ s ∈ columns, s.Settled geo)
    (hdict : ∀ s ∈ columns, s.writer.KeepsDictionary s.settings) (env : ChunkEnv) (offset : Int) :
    (∀ s ∈ (finalizeColumns geo env offset columns).2, s.Settled geo) ∧
      (finalizeColumns geo env offset columns).2.map ColumnSlot.settings =
        columns.map ColumnSlot.settings := by
  induction columns generalizing offset with
  | nil => exact ⟨h, rfl⟩
  | cons s columns ih =>
    obtain ⟨hs, hss⟩ := List.forall_mem_cons.mp h
    obtain ⟨hd, hds⟩ := List.forall_mem_cons.mp hdict
    have hmode := finalize_keepsMode (w := s.writer.setFileOffset offset) hd geo env
    have hencoding (hno : s.settings.useDictionary = false) :
        ((s.writer.setFileOffset offset).finalize geo env s.settings).2.page.encoding =
          s.settings.encoding :=
      (finalize_encoding (w := s.writer.setFileOffset offset) (hs.useDictionary.trans hno) geo env
        s.settings).trans (hs.encoding hno)
    unfold finalizeColumns
    split
    · rename_i w hx
      rw [hx] at hmode hencoding
      refine ⟨List.forall_mem_cons.mpr ⟨?_, hss⟩, rfl⟩
      exact ⟨hmode.useDictionary.trans hs.useDictionary, hmode.geoStats.trans hs.geoStats,
        hencoding, fun hor => ⟨hmode.staleRepLevels.trans (hs.levels hor).1,
          (congrArg DictBuffers.repLevels hmode.dict).trans (hs.levels hor).2⟩, hs.info⟩
    · rename_i w hx
      rw [hx] at hmode hencoding
      obtain ⟨hrest, hsettings⟩ := ih hss hds (offset + w.columnBuffer.length)
      refine ⟨List.forall_mem_cons.mpr ⟨?_, hrest⟩, congrArg (s.settings :: ·) hsettings⟩
      refine ⟨hmode.useDictionary.trans hs.useDictionary, hmode.geoStats.trans hs.geoStats,
        hencoding, fun hor => ⟨hmode.staleRepLevels.trans (hs.levels hor).1,
          (congrArg DictBuffers.repLevels hmode.dict).trans (hs.levels hor).2⟩, fun hno => ?_⟩
      simp only [ChunkInfo.capture]
      rw [if_neg (by simp [show s.settings.geoEnabled = false from hno])]
      exact hs.info hno

theorem settled_create (geo : GeoWalker γ) (settings : List ChunkSettings) (fileOffset : Int) :
    (create geo settings fileOffset).Settled geo settings := by
  refine ⟨?_, ?_⟩
  · simp only [create, List.map_map]
    exact List.map_id _
  · intro s hs
    obtain ⟨c, -, rfl⟩ := List.mem_map.mp hs
    exact ⟨rfl, rfl, fun _ => rfl, fun _ => ⟨rfl, rfl⟩, fun _ => rfl⟩

/-- A settled column that was reset is beside one just created. -/
theorem twin_reset {s : ColumnSlot γ} (h : s.Settled geo)
    (hinfo : s.reset.info = { (ChunkInfo.create : ChunkInfo γ) with geoStats := s.info.geoStats }) :
    Twin s.reset (ColumnSlot.create geo s.settings) := by
  obtain ⟨hsame, hplain, hsettled⟩ := h.reset
  exact ⟨rfl, rfl, hsame, hplain, rfl, fun hmax => (hsettled.levels (.inr hmax)).1, hinfo, rfl,
    h.info⟩

/-- **After row groups that leave nothing behind, each column is beside a new one.** -/
theorem SettledRun.twins (h : SettledRun geo settings g) :
    g.Settled geo settings ∧
      List.Forall₂ Twin g.columns (settings.map (ColumnSlot.create geo)) := by
  induction h with
  | create fileOffset =>
    refine ⟨settled_create geo settings fileOffset, ?_⟩
    refine List.forall₂_same.mpr fun t ht => ?_
    obtain ⟨c, -, rfl⟩ := List.mem_map.mp ht
    exact ⟨rfl, rfl, SamePages.sameChunk ⟨_, _, _, rfl, rfl⟩, fun _ => rfl, rfl, fun _ => rfl, rfl,
      rfl, fun _ => rfl⟩
  | group h writes silent dictionaries env trailing flushed ih =>
    have hwritten := ih.1.writeColumns silent
    obtain ⟨hcolumns, hsettings⟩ := finalizeColumns_settled hwritten.columns dictionaries env
      (writeColumns geo _ writes).2.fileOffset
    unfold flush at flushed ⊢
    split at flushed
    · cases flushed
    · rename_i columns hx
      rw [hx] at hcolumns hsettings
      have hsettings : columns.map ColumnSlot.settings = settings :=
        hsettings.trans hwritten.settings
      refine ⟨⟨?_, ?_⟩, ?_⟩
      · simp only [reset, List.map_map]
        exact hsettings
      · intro s hs
        obtain ⟨s, hmem, rfl⟩ := List.mem_map.mp hs
        exact (hcolumns s hmem).reset.2.2
      · simp only [reset, ← hsettings, List.map_map, List.forall₂_map_left_iff,
          List.forall₂_map_right_iff, List.forall₂_same]
        exact fun s hs => twin_reset (hcolumns s hs) rfl

/-- Batches leave columns beside each other. -/
theorem writeColumns_twins {ts : RowGroupWriter γ}
    (h : List.Forall₂ Twin g.columns ts.columns) (writes : List GroupWrite) :
    (g.writeColumns geo writes).1 = (ts.writeColumns geo writes).1 ∧
      List.Forall₂ Twin (g.writeColumns geo writes).2.columns
        (ts.writeColumns geo writes).2.columns := by
  induction writes generalizing g ts with
  | nil => exact ⟨rfl, h⟩
  | cons write writes ih =>
    have hone : (g.writeColumn geo write).1 = (ts.writeColumn geo write).1 ∧
        List.Forall₂ Twin (g.writeColumn geo write).2.columns
          (ts.writeColumn geo write).2.columns := by
      unfold writeColumn
      rcases forall₂_getElem? h write.column with ⟨hx, hy⟩ | ⟨s, t, hx, hy, htwin⟩
      · rw [hx, hy]
        exact ⟨rfl, h⟩
      · rw [hx, hy]
        obtain ⟨hstatus, hafter⟩ := htwin.writeBatch geo write.env write.args
        exact ⟨hstatus, forall₂_set h write.column hafter⟩
    obtain ⟨hstatus, hafter⟩ := hone
    obtain ⟨hstatuses, hcolumns⟩ := ih hafter
    simp only [writeColumns]
    exact ⟨by rw [hstatus, hstatuses], hcolumns⟩

/-- A row group behind settled ones is written as by a new writer. -/
theorem SettledRun.written_eq (h : SettledRun geo settings g) (writes : List GroupWrite)
    (env : ChunkEnv) (hown : ∀ s ∈ (g.writeColumns geo writes).2.columns, s.OwnLevels) :
    g.written geo env writes = (RowGroupWriter.create geo settings 0).written geo env writes := by
  have htwins : List.Forall₂ Twin g.columns (RowGroupWriter.create geo settings 0).columns := h.twins.2
  obtain ⟨hstatuses, hcolumns⟩ := @writeColumns_twins γ geo g (RowGroupWriter.create geo settings 0) htwins writes
  obtain ⟨hstatus, hchunks⟩ := finalizeColumns_same hcolumns hown geo env
    ((RowGroupWriter.create geo settings 0).writeColumns geo writes).2.fileOffset
    (g.writeColumns geo writes).2.fileOffset
  unfold written flush
  simp only [hstatuses, Prod.mk.injEq, true_and]
  rcases hx : finalizeColumns geo env (g.writeColumns geo writes).2.fileOffset
    (g.writeColumns geo writes).2.columns with ⟨_ | _, xs⟩ <;>
  rcases hy : finalizeColumns geo env
    ((RowGroupWriter.create geo settings 0).writeColumns geo writes).2.fileOffset
    ((RowGroupWriter.create geo settings 0).writeColumns geo writes).2.columns with ⟨_ | _, ys⟩ <;>
  rw [hx, hy] at hstatus hchunks
  · cases hstatus
    rfl
  · cases hstatus
  · cases hstatus
  · have := hchunks rfl
    simp only [Except.map, List.map_map]
    exact congrArg Except.ok this

/-- Memory and codecs that never fail. -/
def ampleEnv : ChunkEnv where
  reserve _ := .ok ()
  compress _ input := .ok input
  grow _ := .ok ()
  grow_zero := rfl

/-- No geometries. -/
def noGeometries : GeoWalker Unit := ⟨(), fun _ _ => ()⟩

/-- A required INT32 column, not compressed. -/
def int32Column (encoding : Encoding) : ChunkSettings where
  options := ⟨⟨.int32, 0, 0, 0⟩, 1048576, 0, 0, false⟩
  logicalType := .unknown
  encoding := encoding
  compression := .uncompressed
  dataPageV2 := false
  writeCrc := false
  writeStatistics := false
  dictionaryPageSizeLimit := 1048576
  bloomFilterBytes := none
  pageIndexEnabled := false

/-- A batch of small numbers for it. -/
def smallNumbers (values : List UInt8) : GroupWrite :=
  ⟨ampleEnv, 0, ⟨values.map fun v => [v, 0, 0, 0], values.length, none, none⟩⟩

/-- The row group writer behind one row group of such a batch. -/
def afterNumbers (encoding : Encoding) (values : List UInt8) : RowGroupWriter Unit :=
  ((create noGeometries [int32Column encoding] 4).writeColumns noGeometries
    [smallNumbers values]).2.flush noGeometries ampleEnv 0 |>.2

theorem silent_int32 (encoding : Encoding) (write : GroupWrite) (c : ChunkSettings)
    (h : [int32Column encoding][write.column]? = some c) :
    SilentValues noGeometries c write.args.values := by
  intro hgeo
  obtain rfl := List.mem_singleton.mp (List.mem_of_getElem? h)
  cases hgeo

/-- Such a column has no repetition levels. -/
theorem ownLevels_int32 {encoding : Encoding} {k : RowGroupWriter γ}
    (h : k.columns.map ColumnSlot.settings = [int32Column encoding]) :
    ∀ s ∈ k.columns, s.OwnLevels := by
  intro s hs _ hmax
  have hmem : s.settings ∈ [int32Column encoding] := h ▸ List.mem_map_of_mem hs
  rw [List.mem_singleton.mp hmem] at hmax
  have hzero : (int32Column encoding).column.maxRepLevel = 0 := rfl
  omega

end RowGroupWriter

end Carquet