import Carquet.Writer.FileLayout

/-!
# Where everything in a file is

What a writer appends are the pieces of its row groups (`groupPieces`): the chunks of the columns,
then the filters, then the indexes, column by column. The offsets and lengths it records are those
of the pieces, placed from the magic on without a gap (`Laid`). A flush that fails may leave chunks
in a file behind which `file_offset` stays (`LeavesNothing`); a writer to a buffer never does.
-/

namespace Carquet

open Regions

variable {γ : Type}

/-! ## Pieces -/

/-- A filter behind its header. -/
def filterBytes (f : BloomFilter) : Bytes := bloomFilterHeader f ++ f.data

/-- What a loop over the columns writes of each, and the entry with the regions of that. -/
structure Emission (γ : Type) where
  pieces : ColumnSlot γ → List Bytes
  fill : ColumnEntry γ → List Region → ColumnEntry γ
  regions : ColumnEntry γ → List Region

/-- The filter of a column, behind its header. -/
def filterPieces (s : ColumnSlot γ) : List Bytes :=
  match s.writer.bloomFilter with
  | none => []
  | some f => [filterBytes f]

/-- Its two indexes. -/
def indexPieces (s : ColumnSlot γ) : List Bytes :=
  if s.settings.pageIndexEnabled then
    [columnIndexBytes s.writer.columnIndex, offsetIndexBytes s.writer.offsetIndex]
  else []

namespace ColumnEntry

def withFilter (e : ColumnEntry γ) : List Region → ColumnEntry γ
  | [r] => { e with bloomFilter := some r }
  | _ => e

def withIndexes (e : ColumnEntry γ) : List Region → ColumnEntry γ
  | [r, q] => { e with columnIndex := some r, offsetIndex := some q }
  | _ => e

def chunk (e : ColumnEntry γ) : Region := ⟨e.fileOffset.toNat, e.totalCompressedSize⟩

def indexes (e : ColumnEntry γ) : List Region := e.columnIndex.toList ++ e.offsetIndex.toList

end ColumnEntry

def filterEmission : Emission γ := ⟨filterPieces, .withFilter, fun e => e.bloomFilter.toList⟩

def indexEmission : Emission γ := ⟨indexPieces, .withIndexes, ColumnEntry.indexes⟩

namespace Emission

/-- The loop's body appends the pieces and records their regions. -/
def Describes (em : Emission γ)
    (write : FileSink → ColumnSlot γ → ColumnEntry γ → FileSink × ColumnEntry γ) : Prop :=
  ∀ sink s e, write sink s e =
    (sink.append (em.pieces s).flatten, em.fill e (place sink.fileOffset (em.pieces s)))

/-- The entries with the regions, from an offset on. -/
def fillColumns (em : Emission γ) : Nat → List (ColumnSlot γ × ColumnEntry γ) →
    List (ColumnSlot γ × ColumnEntry γ)
  | _, [] => []
  | offset, (s, e) :: rest =>
    (s, em.fill e (place offset (em.pieces s))) ::
      em.fillColumns (offset + (em.pieces s).flatten.length) rest

/-- A loop that is run where an option is set. -/
def when (em : Emission γ) (enabled : Bool) : Emission γ where
  pieces s := if enabled then em.pieces s else []
  fill e rs := if enabled then em.fill e rs else e
  regions := em.regions

end Emission

theorem append_nil (sink : FileSink) : sink.append [] = sink := by
  rw [FileSink.append, List.append_nil]
  rfl

theorem append_append (sink : FileSink) (a b : Bytes) :
    (sink.append a).append b = sink.append (a ++ b) := by
  simp only [FileSink.append, List.append_assoc, List.length_append, Nat.add_assoc]

theorem filterEmission_describes : filterEmission.Describes (γ := γ) FileSink.writeBloomFilter := by
  intro sink s e
  rw [FileSink.writeBloomFilter, filterEmission]
  simp only [filterPieces]
  cases s.writer.bloomFilter with
  | none =>
    rw [List.flatten_nil, append_nil]
    rfl
  | some f =>
    simp only
    rw [append_append, List.flatten_singleton, place_cons, place_nil, ColumnEntry.withFilter,
      filterBytes, List.length_append]

theorem indexEmission_describes : indexEmission.Describes (γ := γ) FileSink.writePageIndex := by
  intro sink s e
  rw [FileSink.writePageIndex, indexEmission]
  simp only [indexPieces]
  split
  · rw [append_append, place_cons, place_cons, place_nil, ColumnEntry.withIndexes,
      List.flatten_cons, List.flatten_singleton]
    rfl
  · rw [List.flatten_nil, append_nil]
    rfl

/-- The loop appends the pieces of all columns and records their regions. -/
theorem forColumns_eq {em : Emission γ}
    {write : FileSink → ColumnSlot γ → ColumnEntry γ → FileSink × ColumnEntry γ}
    (h : em.Describes write) (sink : FileSink) (columns : List (ColumnSlot γ × ColumnEntry γ)) :
    sink.forColumns write columns =
      (sink.append (columns.flatMap fun c => em.pieces c.1).flatten,
        em.fillColumns sink.fileOffset columns) := by
  induction columns generalizing sink with
  | nil =>
    rw [List.flatMap_nil, List.flatten_nil, append_nil]
    rfl
  | cons c rest ih =>
    rw [FileSink.forColumns, h]
    simp only
    rw [ih, append_append, List.flatMap_cons, List.flatten_append]
    rfl

namespace Emission

variable {em : Emission γ}

/-- An entry that was filled has the regions it was filled with. -/
def Records (em : Emission γ) : Prop :=
  ∀ offset s e, em.regions e = [] →
    em.regions (em.fill e (place offset (em.pieces s))) = place offset (em.pieces s)

theorem map_fst_fillColumns (offset : Nat) (columns : List (ColumnSlot γ × ColumnEntry γ)) :
    (em.fillColumns offset columns).map Prod.fst = columns.map Prod.fst := by
  induction columns generalizing offset with
  | nil => rfl
  | cons c rest ih => rw [fillColumns, List.map_cons, List.map_cons, ih]

theorem flatMap_fst_fillColumns {β : Type} (f : ColumnSlot γ → List β) (offset : Nat)
    (columns : List (ColumnSlot γ × ColumnEntry γ)) :
    ((em.fillColumns offset columns).flatMap fun c => f c.1) = columns.flatMap fun c => f c.1 := by
  have hmap := congrArg (List.flatMap f) (em.map_fst_fillColumns offset columns)
  rwa [List.flatMap_map, List.flatMap_map] at hmap

/-- The regions of all columns are the pieces, placed one behind the other. -/
theorem regions_fillColumns (h : em.Records) (offset : Nat)
    {columns : List (ColumnSlot γ × ColumnEntry γ)} (hfresh : ∀ c ∈ columns, em.regions c.2 = []) :
    (em.fillColumns offset columns).flatMap (fun c => em.regions c.2) =
      place offset (columns.flatMap fun c => em.pieces c.1) := by
  induction columns generalizing offset with
  | nil => rfl
  | cons c rest ih =>
    obtain ⟨hc, hrest⟩ := List.forall_mem_cons.mp hfresh
    rw [fillColumns, List.flatMap_cons, List.flatMap_cons, ih _ hrest, place_append]
    simp only
    rw [h offset c.1 c.2 hc]

/-- An entry that was filled with regions that hold the column's pieces. -/
def Filled (em : Emission γ) (output : Bytes) (c c' : ColumnSlot γ × ColumnEntry γ) : Prop :=
  ∃ rs, List.Forall₂ (fun r piece => Region.Holds r output piece) rs (em.pieces c.1) ∧
    c' = (c.1, em.fill c.2 rs)

/-- The regions hold the pieces, whatever is in front of the first and behind the last. -/
theorem filled_fillColumns (front : Bytes) (columns : List (ColumnSlot γ × ColumnEntry γ))
    (back : Bytes) :
    List.Forall₂
      (em.Filled (front ++ ((columns.flatMap fun c => em.pieces c.1).flatten ++ back)))
      columns (em.fillColumns front.length columns) := by
  induction columns generalizing front with
  | nil => exact .nil
  | cons c rest ih =>
    have hrest := ih (front ++ (em.pieces c.1).flatten)
    have hfirst := forall₂_holds_place front (em.pieces c.1)
      ((rest.flatMap fun c => em.pieces c.1).flatten ++ back)
    rw [List.flatMap_cons, List.flatten_append, List.append_assoc]
    rw [List.length_append, List.append_assoc] at hrest
    exact .cons ⟨_, hfirst, rfl⟩ hrest

end Emission

theorem filterEmission_records : filterEmission.Records (γ := γ) := by
  intro offset s e h
  simp only [filterEmission, filterPieces] at h ⊢
  cases s.writer.bloomFilter with
  | none => exact h
  | some f => rfl

theorem indexEmission_records : indexEmission.Records (γ := γ) := by
  intro offset s e h
  simp only [indexEmission, indexPieces] at h ⊢
  split
  · rfl
  · exact h

theorem Emission.Records.when {em : Emission γ} (h : em.Records) (enabled : Bool) :
    (em.when enabled).Records := by
  cases enabled with
  | true => exact h
  | false => exact fun _ _ _ hfresh => hfresh

theorem Emission.fillColumns_when_false (em : Emission γ) (offset : Nat)
    (columns : List (ColumnSlot γ × ColumnEntry γ)) :
    (em.when false).fillColumns offset columns = columns := by
  induction columns generalizing offset with
  | nil => rfl
  | cons c rest ih => rw [fillColumns, ih]; rfl

/-- A loop behind its option. -/
theorem forColumns_when {em : Emission γ}
    {write : FileSink → ColumnSlot γ → ColumnEntry γ → FileSink × ColumnEntry γ}
    (h : em.Describes write) (enabled : Bool) (sink : FileSink)
    (columns : List (ColumnSlot γ × ColumnEntry γ)) :
    (if enabled then sink.forColumns write columns else (sink, columns)) =
      (sink.append (columns.flatMap fun c => (em.when enabled).pieces c.1).flatten,
        (em.when enabled).fillColumns sink.fileOffset columns) := by
  cases enabled with
  | true => exact forColumns_eq h sink columns
  | false =>
    have hpieces : (columns.flatMap fun c => (em.when false).pieces c.1) = [] :=
      List.flatMap_eq_nil_iff.mpr fun _ _ => rfl
    rw [hpieces, List.flatten_nil, append_nil, em.fillColumns_when_false]
    rfl

/-! ## Chunks -/

namespace ParquetWriter

/-- The chunks of a row group, and the regions of their entries. -/
theorem finalizeColumns_chunks {geo : GeoWalker γ} {env : ChunkEnv} {offset : Nat}
    {columns finalized : List (ColumnSlot γ)}
    (h : RowGroupWriter.finalizeColumns geo env offset columns = (.ok (), finalized)) :
    finalizedBytes geo env offset columns =
        (finalized.map fun s => s.writer.columnBuffer).flatten ∧
      finalized.map (fun s => (s.info.fileOffset, s.info.totalCompressedSize)) =
        (place offset (finalized.map fun s => s.writer.columnBuffer)).map
          fun r => ((r.offset : Int), r.length) := by
  induction columns generalizing offset finalized with
  | nil =>
    obtain rfl : finalized = [] := (Prod.mk.inj h).2.symm
    exact ⟨rfl, rfl⟩
  | cons slot rest ih =>
    rw [RowGroupWriter.finalizeColumns] at h
    rw [finalizedBytes]
    rcases hslot : (slot.writer.setFileOffset offset).finalize geo env slot.settings with
      ⟨_ | _, w⟩ <;> rw [hslot] at h
    · cases h
    rcases hrest : RowGroupWriter.finalizeColumns geo env (offset + w.columnBuffer.length) rest with
      ⟨status, columns⟩
    simp only [hrest, Prod.mk.injEq] at h
    obtain ⟨rfl, rfl⟩ := h
    rw [← Nat.cast_add] at hrest
    obtain ⟨hbytes, hregions⟩ := ih hrest
    rw [Nat.cast_add] at hbytes
    simp only
    refine ⟨?_, ?_⟩
    · rw [hbytes, List.map_cons, List.flatten_cons]
    · rw [List.map_cons, hregions, List.map_cons, place_cons, List.map_cons]
      rfl

/-- Finalizing changes no column's settings. -/
theorem settings_finalizeColumns (geo : GeoWalker γ) (env : ChunkEnv) (offset : Int)
    (columns : List (ColumnSlot γ)) :
    (RowGroupWriter.finalizeColumns geo env offset columns).2.map ColumnSlot.settings =
      columns.map ColumnSlot.settings := by
  induction columns generalizing offset with
  | nil => rfl
  | cons slot rest ih =>
    rw [RowGroupWriter.finalizeColumns]
    rcases (slot.writer.setFileOffset offset).finalize geo env slot.settings with ⟨_ | _, w⟩
    · rfl
    · simp only [List.map_cons, ih]

/-! ## A row group -/

end ParquetWriter

/-- The filters and the indexes of a writer. -/
def WriterSettings.filters (s : WriterSettings) : Emission γ := filterEmission.when s.writeBloomFilters

def WriterSettings.indexes (s : WriterSettings) : Emission γ := indexEmission.when s.writePageIndex

/-- Everything a row group appends. -/
def groupPieces (s : WriterSettings) (columns : List (ColumnSlot γ)) : List Bytes :=
  columns.map (fun c => c.writer.columnBuffer) ++
    (columns.flatMap s.filters.pieces ++ columns.flatMap s.indexes.pieces)

/-- Every region of a row group's entry. -/
def RowGroupEntry.regions (rg : RowGroupEntry γ) : List Region :=
  rg.columns.map ColumnEntry.chunk ++
    (rg.columns.flatMap (fun e => e.bloomFilter.toList) ++ rg.columns.flatMap ColumnEntry.indexes)

/-- The entry of a chunk, without what is written behind it. -/
def ColumnEntry.ofChunk (e : ColumnEntry γ) : ColumnEntry γ :=
  { e with bloomFilter := none, columnIndex := none, offsetIndex := none }

/-- The entry of a column is that of its chunk, and names its chunk, its filter and its indexes and
no other. -/
structure ColumnPlaced (s : WriterSettings) (output : Bytes) (c : WriterColumn)
    (slot : ColumnSlot γ) (e : ColumnEntry γ) : Prop where
  entry : e.ofChunk = columnEntry c slot.emitted
  offset : 0 ≤ e.fileOffset
  chunk : e.chunk.Holds output slot.writer.columnBuffer
  bloomFilter : Region.HoldsOption output e.bloomFilter
    (if s.writeBloomFilters then slot.writer.bloomFilter.map filterBytes else none)
  columnIndex : Region.HoldsOption output e.columnIndex
    (if s.writePageIndex && slot.settings.pageIndexEnabled then
      some (columnIndexBytes slot.writer.columnIndex) else none)
  offsetIndex : Region.HoldsOption output e.offsetIndex
    (if s.writePageIndex && slot.settings.pageIndexEnabled then
      some (offsetIndexBytes slot.writer.offsetIndex) else none)

/-- The entry of a row group whose columns were these. -/
structure GroupPlaced (s : WriterSettings) (output : Bytes) (columns : List (ColumnSlot γ))
    (rg : RowGroupEntry γ) : Prop where
  settings : columns.map ColumnSlot.settings = s.columns.map WriterColumn.settings
  columns : List.Forall₂ (fun p e => ColumnPlaced s output p.1 p.2 e) (s.columns.zip columns)
    rg.columns

/-- What is appended behind them changes no entry. -/
theorem ColumnPlaced.append {s : WriterSettings} {output : Bytes} {c : WriterColumn}
    {slot : ColumnSlot γ} {e : ColumnEntry γ} (h : ColumnPlaced s output c slot e) (more : Bytes) :
    ColumnPlaced s (output ++ more) c slot e where
  entry := h.entry
  offset := h.offset
  chunk := h.chunk.append more
  bloomFilter := h.bloomFilter.append more
  columnIndex := h.columnIndex.append more
  offsetIndex := h.offsetIndex.append more

theorem GroupPlaced.append {s : WriterSettings} {output : Bytes} {columns : List (ColumnSlot γ)}
    {rg : RowGroupEntry γ} (h : GroupPlaced s output columns rg) (more : Bytes) :
    GroupPlaced s (output ++ more) columns rg :=
  ⟨h.settings, h.columns.imp fun _ _ hc => hc.append more⟩

theorem length_of_settings {s : WriterSettings} {columns : List (ColumnSlot γ)}
    (h : columns.map ColumnSlot.settings = s.columns.map WriterColumn.settings) :
    s.columns.length = columns.length := by
  have hlength := congrArg List.length h
  rw [List.length_map, List.length_map] at hlength
  exact hlength.symm

/-- What is written behind the chunks, and the entries with it. -/
theorem writeTrailing_eq (s : WriterSettings) (sink : FileSink)
    (columns : List (ColumnSlot γ × ColumnEntry γ)) :
    ParquetWriter.writeTrailing s sink columns =
      (sink.append ((columns.flatMap fun c => s.filters.pieces c.1) ++
          columns.flatMap fun c => s.indexes.pieces c.1).flatten,
        s.indexes.fillColumns
          (sink.fileOffset + (columns.flatMap fun c => s.filters.pieces c.1).flatten.length)
          (s.filters.fillColumns sink.fileOffset columns)) := by
  have hsame := s.filters.flatMap_fst_fillColumns s.indexes.pieces sink.fileOffset columns
  rw [ParquetWriter.writeTrailing, forColumns_when filterEmission_describes,
    forColumns_when indexEmission_describes]
  simp only
  rw [append_append, ← List.flatten_append]
  exact congrArg₂ Prod.mk (by rw [← hsame]; rfl) rfl

theorem filters_fill {s : WriterSettings} {output : Bytes} {slot : ColumnSlot γ}
    {e : ColumnEntry γ} {rs : List Region} (hfresh : e.bloomFilter = none)
    (h : List.Forall₂ (fun r piece => Region.Holds r output piece) rs (s.filters.pieces slot)) :
    ∃ bloomFilter, s.filters.fill e rs = { e with bloomFilter := bloomFilter } ∧
      Region.HoldsOption output bloomFilter
        (if s.writeBloomFilters then slot.writer.bloomFilter.map filterBytes else none) := by
  have hsame : { e with bloomFilter := none } = e := by rw [← hfresh]
  unfold WriterSettings.filters Emission.when at h ⊢
  cases hwrite : s.writeBloomFilters with
  | false => exact ⟨none, hsame.symm, .none⟩
  | true =>
    rw [hwrite] at h
    simp only [filterEmission, filterPieces] at h ⊢
    cases hfilter : slot.writer.bloomFilter with
    | none =>
      rw [hfilter] at h
      cases h
      exact ⟨none, hsame.symm, .none⟩
    | some f =>
      rw [hfilter] at h
      obtain ⟨r, _, hr, hnil, rfl⟩ := List.forall₂_cons_right_iff.mp h
      cases hnil
      exact ⟨some r, rfl, .some hr⟩

theorem indexes_fill {s : WriterSettings} {output : Bytes} {slot : ColumnSlot γ}
    {e : ColumnEntry γ} {rs : List Region} (hcolumn : e.columnIndex = none)
    (hoffset : e.offsetIndex = none)
    (h : List.Forall₂ (fun r piece => Region.Holds r output piece) rs (s.indexes.pieces slot)) :
    ∃ columnIndex offsetIndex,
      s.indexes.fill e rs = { e with columnIndex := columnIndex, offsetIndex := offsetIndex } ∧
      Region.HoldsOption output columnIndex
        (if s.writePageIndex && slot.settings.pageIndexEnabled then
          some (columnIndexBytes slot.writer.columnIndex) else none) ∧
      Region.HoldsOption output offsetIndex
        (if s.writePageIndex && slot.settings.pageIndexEnabled then
          some (offsetIndexBytes slot.writer.offsetIndex) else none) := by
  have hsame : { e with columnIndex := none, offsetIndex := none } = e := by
    cases e
    cases hcolumn
    cases hoffset
    rfl
  unfold WriterSettings.indexes Emission.when at h ⊢
  cases hwrite : s.writePageIndex with
  | false => exact ⟨none, none, hsame.symm, .none, .none⟩
  | true =>
    rw [hwrite] at h
    simp only [indexEmission, indexPieces] at h ⊢
    cases henabled : slot.settings.pageIndexEnabled with
    | false =>
      rw [henabled] at h
      cases h
      exact ⟨none, none, hsame.symm, .none, .none⟩
    | true =>
      rw [henabled] at h
      obtain ⟨r, _, hr, hrest, rfl⟩ := List.forall₂_cons_right_iff.mp h
      obtain ⟨q, _, hq, hnil, rfl⟩ := List.forall₂_cons_right_iff.mp hrest
      cases hnil
      exact ⟨some r, some q, rfl, .some hr, .some hq⟩

/-- The entry of a column whose filter and indexes were written. -/
theorem ColumnPlaced.of_filled {s : WriterSettings} {output : Bytes} {c : WriterColumn}
    {slot : ColumnSlot γ} {filled : ColumnSlot γ × ColumnEntry γ}
    (hoffset : 0 ≤ (columnEntry c slot.emitted).fileOffset)
    (hchunk : (columnEntry c slot.emitted).chunk.Holds output slot.writer.columnBuffer)
    (h : ∃ b, s.filters.Filled output (slot, columnEntry c slot.emitted) b ∧
      s.indexes.Filled output b filled) :
    ColumnPlaced s output c slot filled.2 := by
  obtain ⟨_, ⟨fs, hfs, rfl⟩, is, his, rfl⟩ := h
  obtain ⟨bloomFilter, hfilled, hbloom⟩ := filters_fill
    (show (columnEntry c slot.emitted).bloomFilter = none from rfl) hfs
  have hcolumn : (s.filters.fill (columnEntry c slot.emitted) fs).columnIndex = none := by
    rw [hfilled]
    rfl
  have hoffsets : (s.filters.fill (columnEntry c slot.emitted) fs).offsetIndex = none := by
    rw [hfilled]
    rfl
  obtain ⟨columnIndex, offsetIndex, hindexed, hci, hoi⟩ := indexes_fill hcolumn hoffsets his
  show ColumnPlaced s output c slot (s.indexes.fill (s.filters.fill (columnEntry c slot.emitted) fs) is)
  rw [hindexed, hfilled]
  exact ⟨rfl, hoffset, hchunk, hbloom, hci, hoi⟩

theorem forall₂_comp {α β δ : Type} {R : α → β → Prop} {S : β → δ → Prop} {as : List α}
    {bs : List β} {cs : List δ} (h : List.Forall₂ R as bs) (h' : List.Forall₂ S bs cs) :
    List.Forall₂ (fun a c => ∃ b, R a b ∧ S b c) as cs := by
  induction h generalizing cs with
  | nil =>
    cases h'
    exact .nil
  | cons hR _ ih =>
    cases h' with
    | cons hS hrest => exact .cons ⟨_, hR, hS⟩ (ih hrest)

/-- The filters and indexes of a row group are placed behind what was written, and its entries
filled with them. -/
theorem filled_writeTrailing (s : WriterSettings) {sink : FileSink}
    (hsink : sink.fileOffset = sink.output.length)
    (columns : List (ColumnSlot γ × ColumnEntry γ)) :
    List.Forall₂ (fun a c => ∃ b,
        s.filters.Filled (ParquetWriter.writeTrailing s sink columns).1.output a b ∧
          s.indexes.Filled (ParquetWriter.writeTrailing s sink columns).1.output b c)
      columns (ParquetWriter.writeTrailing s sink columns).2 := by
  have hsame := s.filters.flatMap_fst_fillColumns s.indexes.pieces sink.fileOffset columns
  have hfilters := s.filters.filled_fillColumns sink.output columns
    (columns.flatMap fun c => s.indexes.pieces c.1).flatten
  have hindexes := s.indexes.filled_fillColumns
    (sink.output ++ (columns.flatMap fun c => s.filters.pieces c.1).flatten)
    (s.filters.fillColumns sink.fileOffset columns) []
  rw [hsame, List.append_nil, List.append_assoc, List.length_append] at hindexes
  rw [writeTrailing_eq]
  simp only [FileSink.append, List.flatten_append]
  rw [hsink] at hindexes ⊢
  exact forall₂_comp hfilters hindexes

/-- What filling leaves as it is. -/
theorem Emission.map_fillColumns {em : Emission γ} {β : Type} {f : ColumnEntry γ → β}
    (hf : ∀ e rs, f (em.fill e rs) = f e) (offset : Nat)
    (columns : List (ColumnSlot γ × ColumnEntry γ)) :
    (em.fillColumns offset columns).map (fun c => f c.2) = columns.map fun c => f c.2 := by
  induction columns generalizing offset with
  | nil => rfl
  | cons c rest ih => rw [fillColumns, List.map_cons, List.map_cons, ih, hf]

theorem filters_fill_keeps (s : WriterSettings) (e : ColumnEntry γ) (rs : List Region) :
    (s.filters.fill e rs).chunk = e.chunk ∧ (s.filters.fill e rs).indexes = e.indexes := by
  unfold WriterSettings.filters Emission.when filterEmission
  simp only
  split
  · rcases rs with _ | ⟨r, _ | ⟨q, rs⟩⟩ <;> exact ⟨rfl, rfl⟩
  · exact ⟨rfl, rfl⟩

theorem indexes_fill_keeps (s : WriterSettings) (e : ColumnEntry γ) (rs : List Region) :
    (s.indexes.fill e rs).chunk = e.chunk ∧
      (s.indexes.fill e rs).bloomFilter.toList = e.bloomFilter.toList := by
  unfold WriterSettings.indexes Emission.when indexEmission
  simp only
  split
  · rcases rs with _ | ⟨r, _ | ⟨q, _ | ⟨p, rs⟩⟩⟩ <;> exact ⟨rfl, rfl⟩
  · exact ⟨rfl, rfl⟩

/-- The columns with their entries, before anything is written behind the chunks. -/
def slotEntries (s : WriterSettings) (columns : List (ColumnSlot γ)) :
    List (ColumnSlot γ × ColumnEntry γ) :=
  (s.columns.zip columns).map fun p => (p.2, columnEntry p.1 p.2.emitted)

theorem zip_zipWith_columnEntry (cs : List WriterColumn) (columns : List (ColumnSlot γ)) :
    columns.zip (List.zipWith columnEntry cs (columns.map ColumnSlot.emitted)) =
      (cs.zip columns).map fun p => (p.2, columnEntry p.1 p.2.emitted) := by
  induction columns generalizing cs with
  | nil => simp
  | cons slot columns ih =>
    cases cs with
    | nil => rfl
    | cons c cs =>
      rw [List.map_cons, List.zipWith_cons_cons, List.zip_cons_cons, ih, List.zip_cons_cons,
        List.map_cons]

section

variable {s : WriterSettings} {columns : List (ColumnSlot γ)}

theorem zip_columnEntry :
    columns.zip (List.zipWith columnEntry s.columns (columns.map ColumnSlot.emitted)) =
      slotEntries s columns := zip_zipWith_columnEntry s.columns columns

theorem map_fst_slotEntries (h : s.columns.length = columns.length) :
    (slotEntries s columns).map Prod.fst = columns := by
  rw [slotEntries, List.map_map]
  exact List.map_snd_zip (Nat.le_of_eq h.symm)

theorem flatMap_slotEntries (h : s.columns.length = columns.length) (em : Emission γ) :
    ((slotEntries s columns).flatMap fun c => em.pieces c.1) = columns.flatMap em.pieces := by
  conv_rhs => rw [← map_fst_slotEntries h]
  rw [List.flatMap_map]

theorem mem_slotEntries {c : ColumnSlot γ × ColumnEntry γ} (h : c ∈ slotEntries s columns) :
    ∃ wc, c.2 = columnEntry wc c.1.emitted := by
  obtain ⟨⟨wc, slot⟩, -, rfl⟩ := List.mem_map.mp h
  exact ⟨wc, rfl⟩

theorem chunks_slotEntries (h : s.columns.length = columns.length) :
    (slotEntries s columns).map (fun c => c.2.chunk) =
      columns.map fun c => ⟨c.info.fileOffset.toNat, c.info.totalCompressedSize⟩ := by
  conv_rhs => rw [← map_fst_slotEntries h, List.map_map]
  refine List.map_congr_left fun c hc => ?_
  obtain ⟨wc, hentry⟩ := mem_slotEntries hc
  rw [hentry]
  rfl

/-- The chunks are held where the columns' entries say. -/
theorem holds_chunks {front : Bytes} {columns : List (ColumnSlot γ)} (back : Bytes)
    (h : columns.map (fun c => (c.info.fileOffset, c.info.totalCompressedSize)) =
      (place front.length (columns.map fun c => c.writer.columnBuffer)).map
        fun r => ((r.offset : Int), r.length)) :
    ∀ c ∈ columns, 0 ≤ c.info.fileOffset ∧
      Region.Holds ⟨c.info.fileOffset.toNat, c.info.totalCompressedSize⟩
        (front ++ ((columns.map fun c => c.writer.columnBuffer).flatten ++ back))
        c.writer.columnBuffer := by
  induction columns generalizing front with
  | nil => simp
  | cons slot columns ih =>
    rw [List.map_cons, List.map_cons, place_cons, List.map_cons] at h
    obtain ⟨hslot, hrest⟩ := List.cons.inj h
    obtain ⟨hoffset, hlength⟩ := Prod.mk.inj hslot
    rw [List.map_cons, List.flatten_cons, List.append_assoc]
    refine List.forall_mem_cons.mpr ⟨⟨?_, ?_⟩, ?_⟩
    · rw [hoffset]
      exact Int.natCast_nonneg _
    · rw [hoffset, hlength, Int.toNat_natCast]
      exact ⟨front, _, rfl, rfl⟩
    · rw [← List.append_assoc]
      refine ih ?_
      rw [hrest, List.length_append]

/-- **A row group in the file.** Its pieces are appended behind what was written, the entries of its
columns name them, and all regions of its entry together are the pieces, in their order. -/
theorem rowGroup_placed {sink : FileSink} (hsink : sink.fileOffset = sink.output.length)
    (hsettings : columns.map ColumnSlot.settings = s.columns.map WriterColumn.settings)
    (hinfo : columns.map (fun c => (c.info.fileOffset, c.info.totalCompressedSize)) =
      (place sink.fileOffset (columns.map fun c => c.writer.columnBuffer)).map
        fun r => ((r.offset : Int), r.length))
    (entry : RowGroupEntry γ)
    (trailing : FileSink × List (ColumnSlot γ × ColumnEntry γ))
    (htrailing : trailing = ParquetWriter.writeTrailing s
      (sink.append (columns.map fun c => c.writer.columnBuffer).flatten) (slotEntries s columns))
    (hentry : entry.columns = trailing.2.map Prod.snd) :
    trailing.1 = sink.append (groupPieces s columns).flatten ∧
      GroupPlaced s trailing.1.output columns entry ∧
      entry.regions = place sink.fileOffset (groupPieces s columns) := by
  have hlength := length_of_settings hsettings
  have hdata : (sink.append (columns.map fun c => c.writer.columnBuffer).flatten).fileOffset =
      (sink.append (columns.map fun c => c.writer.columnBuffer).flatten).output.length := by
    simp only [FileSink.append, List.length_append, hsink]
  have hfilled := filled_writeTrailing s hdata (slotEntries s columns)
  rw [← htrailing] at hfilled
  rw [writeTrailing_eq, flatMap_slotEntries hlength, flatMap_slotEntries hlength] at htrailing
  have houtput : trailing.1 = sink.append (groupPieces s columns).flatten := by
    rw [htrailing]
    simp only
    rw [append_append, ← List.flatten_append]
    rfl
  refine ⟨houtput, ?_, ?_⟩
  · have hholds := holds_chunks
      (columns.flatMap s.filters.pieces ++ columns.flatMap s.indexes.pieces).flatten
      (by rw [← hsink]; exact hinfo)
    rw [← List.flatten_append, ← groupPieces] at hholds
    rw [slotEntries, List.forall₂_map_left_iff] at hfilled
    have hall := (List.forall₂_and_left (s.columns.zip columns) trailing.2).mpr
      ⟨fun p hp => hholds p.2 (List.of_mem_zip hp).2, hfilled⟩
    refine ⟨hsettings, ?_⟩
    rw [hentry, List.forall₂_map_right_iff]
    refine hall.imp ?_
    rintro ⟨c, slot⟩ filled ⟨⟨hoffset, hchunk⟩, hc⟩
    rw [houtput]
    rw [houtput] at hc
    exact .of_filled hoffset hchunk hc
  · have hfst : ((s.filters.fillColumns (sink.append (columns.map fun c =>
        c.writer.columnBuffer).flatten).fileOffset (slotEntries s columns)).flatMap fun c =>
          s.indexes.pieces c.1) = columns.flatMap s.indexes.pieces := by
      rw [Emission.flatMap_fst_fillColumns, flatMap_slotEntries hlength]
    have hchunks : (trailing.2.map fun c => c.2.chunk) =
        place sink.fileOffset (columns.map fun c => c.writer.columnBuffer) := by
      rw [htrailing]
      simp only
      rw [Emission.map_fillColumns (fun e rs => (indexes_fill_keeps s e rs).1),
        Emission.map_fillColumns (fun e rs => (filters_fill_keeps s e rs).1),
        chunks_slotEntries hlength]
      have hregions := congrArg (List.map fun p => (⟨p.1.toNat, p.2⟩ : Region)) hinfo
      rw [List.map_map, List.map_map] at hregions
      exact hregions.trans (List.map_id _)
    have hfilters : (trailing.2.flatMap fun c => c.2.bloomFilter.toList) =
        place (sink.fileOffset + (columns.map fun c => c.writer.columnBuffer).flatten.length)
          (columns.flatMap s.filters.pieces) := by
      rw [htrailing, ← flatMap_slotEntries hlength]
      simp only
      rw [List.flatMap_def, Emission.map_fillColumns (f := fun e => e.bloomFilter.toList)
        (fun e rs => (indexes_fill_keeps s e rs).2), ← List.flatMap_def]
      refine Emission.regions_fillColumns (filterEmission_records.when _) _ fun c hc => ?_
      obtain ⟨wc, hentry⟩ := mem_slotEntries hc
      show c.2.bloomFilter.toList = []
      rw [hentry]
      rfl
    have hindexes : (trailing.2.flatMap fun c => c.2.indexes) =
        place (sink.fileOffset + (columns.map fun c => c.writer.columnBuffer).flatten.length +
          (columns.flatMap s.filters.pieces).flatten.length) (columns.flatMap s.indexes.pieces) := by
      rw [htrailing, ← hfst]
      refine Emission.regions_fillColumns (indexEmission_records.when _) _ fun c hc => ?_
      have hmem := List.mem_map_of_mem (f := fun c => c.2.indexes) hc
      rw [Emission.map_fillColumns (f := ColumnEntry.indexes)
        (fun e rs => (filters_fill_keeps s e rs).2)] at hmem
      obtain ⟨fresh, hfresh, hsame⟩ := List.mem_map.mp hmem
      obtain ⟨wc, hentry⟩ := mem_slotEntries hfresh
      show c.2.indexes = []
      rw [← hsame, hentry]
      rfl
    rw [RowGroupEntry.regions, hentry, List.map_map, List.flatMap_map, List.flatMap_map,
      groupPieces, place_append, place_append]
    exact congrArg₂ (· ++ ·) hchunks (congrArg₂ (· ++ ·) hfilters hindexes)

end

end Carquet
