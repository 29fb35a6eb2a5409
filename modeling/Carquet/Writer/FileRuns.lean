import Carquet.Writer.FileLayoutSpec
import Carquet.Writer.RowGroupIndependence

/-!
# The bytes of a file over a run

A run of calls on a writer, and the file that closing it leaves (`src/writer/file_writer.c`). Behind
the magic there are the pieces of the row groups that were written, then the footer, its length and
the magic again; `file_offset` is the number of bytes written, and every offset the footer names is
one of a piece (`closed_layout`). A call that fails must not leave bytes in the file for that
(`Untorn`). Only finalizing a row group does, and only where the file is a `FILE*`: a writer to a
buffer is never torn (`untorn_of_isBufferWriter`).
-/

namespace Carquet

open LittleEndian Regions

variable {γ : Type}

namespace ParquetWriter

/-! ## Runs -/

/-- The writer after the calls, whatever they returned, and the columns of the row groups it
wrote. -/
def run (geo : GeoWalker γ) (s : WriterSettings) (w : ParquetWriter γ) :
    List FileCall → ParquetWriter γ × List (List (ColumnSlot γ))
  | [] => (w, [])
  | c :: cs =>
    let r := w.call geo s c
    let rest := r.writer.run geo s cs
    (rest.1, r.flushed ++ rest.2)

/-- A call that succeeded, or left what is in the file as it was. -/
def LeavesNothing (w : ParquetWriter γ) (r : WriteResult γ) : Prop :=
  r.status = .ok () ∨
    r.writer.ensureHeaderWritten.sink.output = w.ensureHeaderWritten.sink.output

/-- No call that failed left bytes in the file. -/
def Untorn (geo : GeoWalker γ) (s : WriterSettings) : ParquetWriter γ → List FileCall → Prop
  | _, [] => True
  | w, c :: cs => w.LeavesNothing (w.call geo s c) ∧ Untorn geo s (w.call geo s c).writer cs

/-- What is in the file and what is recorded of it, when these row groups were written. -/
structure Laid (s : WriterSettings) (w : ParquetWriter γ) (groups : List (List (ColumnSlot γ))) :
    Prop where
  header : w.headerWritten = true
  output : w.sink.output = parquetMagic ++ (groups.flatMap (groupPieces s)).flatten
  offset : w.sink.fileOffset = w.sink.output.length
  placed : List.Forall₂ (GroupPlaced s w.sink.output) groups w.rowGroups
  regions : w.rowGroups.flatMap RowGroupEntry.regions = place 4 (groups.flatMap (groupPieces s))
  current : ∀ g, w.current = some g → g.fileOffset = w.sink.fileOffset ∧
    g.columns.map ColumnSlot.settings = s.columns.map WriterColumn.settings

section

variable {geo : GeoWalker γ} {s : WriterSettings} {env : ChunkEnv} {w : ParquetWriter γ}
  {groups : List (List (ColumnSlot γ))}

theorem laid_create : Laid s (create (γ := γ) s).ensureHeaderWritten [] where
  header := rfl
  output := rfl
  offset := rfl
  placed := .nil
  regions := rfl
  current _ h := by cases h

theorem Laid.ensureHeaderWritten (h : Laid s w groups) : w.ensureHeaderWritten = w := by
  rw [ParquetWriter.ensureHeaderWritten, if_pos h.header]

/-- A step that writes nothing: the columns of the row group writer may change, and the counters. -/
structure SameFile (w w' : ParquetWriter γ) : Prop where
  sink : w'.sink = w.sink
  header : w'.headerWritten = w.headerWritten
  rowGroups : w'.rowGroups = w.rowGroups
  current : ∀ g', w'.current = some g' → ∃ g, w.current = some g ∧ g'.fileOffset = g.fileOffset ∧
    g'.columns.map ColumnSlot.settings = g.columns.map ColumnSlot.settings

theorem Laid.sameFile (h : Laid s w groups) {w' : ParquetWriter γ} (hsame : w.SameFile w') :
    Laid s w' groups where
  header := hsame.header.trans h.header
  output := by rw [hsame.sink, h.output]
  offset := by rw [hsame.sink, h.offset]
  placed := by
    rw [hsame.sink, hsame.rowGroups]
    exact h.placed
  regions := by rw [hsame.rowGroups, h.regions]
  current g' hg' := by
    obtain ⟨g, hg, hoffset, hsettings⟩ := hsame.current g' hg'
    obtain ⟨hstart, hcolumns⟩ := h.current g hg
    rw [hsame.sink]
    exact ⟨hoffset.trans hstart, hsettings.trans hcolumns⟩

/-- **A flush** that does not fail appends a row group; one that fails and leaves nothing behind
changes nothing of the file. -/
theorem Laid.flushRowGroup (h : Laid s w groups)
    (hleaves : (w.flushRowGroup geo s env).status = .ok () ∨
      (w.flushRowGroup geo s env).writer.sink.output = w.sink.output) :
    Laid s (w.flushRowGroup geo s env).writer (groups ++ (w.flushRowGroup geo s env).flushed) := by
  unfold ParquetWriter.flushRowGroup at hleaves ⊢
  cases hcurrent : w.current with
  | none =>
    simp only [List.append_nil]
    exact h
  | some g =>
    obtain ⟨hoffset, hsettings⟩ := h.current g hcurrent
    rw [hcurrent] at hleaves
    simp only at hleaves ⊢
    by_cases hrows : w.currentRowGroupRows = 0
    · rw [if_pos hrows, List.append_nil]
      exact h
    rw [if_neg hrows] at hleaves ⊢
    have hfinal := settings_finalizeColumns geo env g.fileOffset g.columns
    rcases hcolumns : RowGroupWriter.finalizeColumns geo env g.fileOffset g.columns with
      ⟨_ | _, columns⟩ <;> rw [hcolumns] at hleaves hfinal <;> simp only at hleaves hfinal ⊢
    · have hsame := hleaves.resolve_left (by simp)
      rw [List.append_nil]
      refine ⟨h.header, ?_, ?_, ?_, h.regions, fun g' hg' => ?_⟩
      · exact hsame.trans h.output
      · exact h.offset.trans (congrArg List.length hsame.symm)
      · exact Eq.subst (motive := fun o => List.Forall₂ (GroupPlaced s o) groups w.rowGroups)
          hsame.symm h.placed
      · obtain rfl := Option.some.inj hg'
        exact ⟨hoffset, hfinal.trans hsettings⟩
    · rw [hoffset] at hcolumns ⊢
      obtain ⟨hbytes, hinfo⟩ := finalizeColumns_chunks hcolumns
      rw [hbytes, zip_columnEntry]
      obtain ⟨hsink, hplaced, hregions⟩ := rowGroup_placed h.offset (hfinal.trans hsettings) hinfo
        ⟨w.sink.fileOffset, w.currentRowGroupRows,
          (columns.map fun c => c.writer.columnBuffer).flatten.length,
          (columns.map fun c => c.writer.columnBuffer).flatten.length, w.rowGroups.length,
          (writeTrailing s (w.sink.append (columns.map fun c => c.writer.columnBuffer).flatten)
            (slotEntries s columns)).2.map Prod.snd⟩ _ rfl rfl
      have hpieces : (groups ++ [columns]).flatMap (groupPieces s) =
          groups.flatMap (groupPieces s) ++ groupPieces s columns := by
        rw [List.flatMap_append, List.flatMap_singleton]
      have hstart : w.sink.fileOffset = 4 + (groups.flatMap (groupPieces s)).flatten.length := by
        rw [h.offset, h.output, List.length_append]
        rfl
      refine ⟨h.header, ?_, ?_, ?_, ?_, fun g' hg' => ?_⟩
      · show (writeTrailing s _ _).1.output = _
        rw [hsink, hpieces, List.flatten_append, ← List.append_assoc, ← h.output]
        rfl
      · show (writeTrailing s _ _).1.fileOffset = (writeTrailing s _ _).1.output.length
        rw [hsink]
        simp only [FileSink.append, List.length_append, h.offset]
      · refine List.rel_append ?_ (.cons hplaced .nil)
        show List.Forall₂ (GroupPlaced s (writeTrailing s _ _).1.output) groups w.rowGroups
        rw [hsink]
        exact h.placed.imp fun _ _ hrg => hrg.append _
      · show (w.rowGroups ++ [_]).flatMap RowGroupEntry.regions = _
        rw [List.flatMap_append, h.regions, List.flatMap_singleton, hregions, hpieces, place_append,
          hstart]
      · obtain rfl := Option.some.inj hg'
        refine ⟨rfl, ?_⟩
        show (columns.map ColumnSlot.reset).map ColumnSlot.settings = _
        rw [List.map_map]
        exact hfinal.trans hsettings

theorem Laid.ensureRowGroup (h : Laid s w groups) : Laid s (w.ensureRowGroup geo s) groups := by
  unfold ParquetWriter.ensureRowGroup
  cases w.current with
  | some g => exact h
  | none =>
    refine { h with current := fun g hg => ?_ }
    obtain rfl := Option.some.inj hg
    refine ⟨rfl, ?_⟩
    show ((s.columns.map WriterColumn.settings).map (ColumnSlot.create geo)).map
      ColumnSlot.settings = _
    rw [List.map_map]
    exact List.map_id _

variable (geo) in
theorem writeColumn_keeps (g : RowGroupWriter γ) (write : GroupWrite) :
    (g.writeColumn geo write).2.fileOffset = g.fileOffset ∧
      (g.writeColumn geo write).2.columns.map ColumnSlot.settings =
        g.columns.map ColumnSlot.settings := by
  unfold RowGroupWriter.writeColumn
  cases hslot : g.columns[write.column]? with
  | none => exact ⟨rfl, rfl⟩
  | some slot =>
    refine ⟨rfl, ?_⟩
    obtain ⟨hlt, rfl⟩ := List.getElem?_eq_some_iff.mp hslot
    show (g.columns.set write.column _).map ColumnSlot.settings = _
    rw [List.map_set]
    have hlength : write.column < (g.columns.map ColumnSlot.settings).length := by
      rwa [List.length_map]
    have hself : (g.columns.map ColumnSlot.settings).set write.column
        (g.columns.map ColumnSlot.settings)[write.column] = g.columns.map ColumnSlot.settings :=
      List.set_getElem_self hlength
    rwa [List.getElem_map] at hself

variable (geo s env) in
theorem headerWritten_flushRowGroup (w : ParquetWriter γ) :
    (w.flushRowGroup geo s env).writer.headerWritten = w.headerWritten := by
  unfold ParquetWriter.flushRowGroup
  cases w.current with
  | none => rfl
  | some g =>
    simp only
    split
    · rfl
    · rcases RowGroupWriter.finalizeColumns geo env g.fileOffset g.columns with ⟨_ | _, columns⟩ <;> rfl

theorem ensureHeaderWritten_of_header (h : w.headerWritten = true) : w.ensureHeaderWritten = w := by
  rw [ParquetWriter.ensureHeaderWritten, if_pos h]

/-- A flush of a call, behind whatever else the call did. -/
theorem Laid.flushCall (h : Laid s w groups) {before : ParquetWriter γ}
    (hbefore : before.ensureHeaderWritten.sink.output = w.sink.output)
    (hleaves : before.LeavesNothing (w.flushRowGroup geo s env)) :
    Laid s (w.flushRowGroup geo s env).writer.ensureHeaderWritten
      (groups ++ (w.flushRowGroup geo s env).flushed) := by
  have hheader := ensureHeaderWritten_of_header
    ((headerWritten_flushRowGroup geo s env w).trans h.header)
  rw [LeavesNothing, hheader, hbefore] at hleaves
  rw [hheader]
  exact h.flushRowGroup hleaves

variable (geo s) in
/-- What a batch does: it is refused, it is left in the row group, or a flush follows it. -/
theorem writeBatch_cases (w : ParquetWriter γ) (write : FileWrite) :
    w.writeBatch geo s write = ⟨.error .invalidArgument, w, []⟩ ∨
      ∃ w', (w.ensureHeaderWritten.ensureRowGroup geo s).SameFile w' ∧
        ((∃ status, w.writeBatch geo s write = ⟨status, w', []⟩) ∨
          w.writeBatch geo s write = w'.flushRowGroup geo s write.env) := by
  unfold ParquetWriter.writeBatch
  cases s.columns[write.column]? with
  | none => exact .inl rfl
  | some column =>
    refine .inr ?_
    simp only
    cases hcurrent : (w.ensureHeaderWritten.ensureRowGroup geo s).current with
    | none =>
      exact ⟨_, ⟨rfl, rfl, rfl, fun g' hg' => ⟨g', hg', rfl, rfl⟩⟩, .inl ⟨_, rfl⟩⟩
    | some g =>
      have hkeeps := writeColumn_keeps geo g write.toGroupWrite
      simp only
      rcases hwrite : g.writeColumn geo write.toGroupWrite with ⟨_ | _, g₁⟩ <;> rw [hwrite] at hkeeps
      · refine ⟨{ w.ensureHeaderWritten.ensureRowGroup geo s with current := some g₁ },
          ⟨rfl, rfl, rfl, fun g' hg' => ?_⟩, .inl ⟨_, rfl⟩⟩
        obtain rfl := Option.some.inj hg'
        exact ⟨g, hcurrent, hkeeps⟩
      · refine ⟨countBatch s { w.ensureHeaderWritten.ensureRowGroup geo s with current := some g₁ }
          write column.settings.column, ⟨rfl, rfl, rfl, fun g' hg' => ?_⟩, ?_⟩
        · obtain rfl := Option.some.inj hg'
          exact ⟨g, hcurrent, hkeeps⟩
        · simp only
          split
          · exact .inr rfl
          · exact .inl ⟨_, rfl⟩

theorem ensureRowGroup_sink (w : ParquetWriter γ) : (w.ensureRowGroup geo s).sink = w.sink := by
  unfold ParquetWriter.ensureRowGroup
  cases w.current <;> rfl

theorem headerWritten_ensureRowGroup (h : w.headerWritten = true) :
    (w.ensureRowGroup geo s).headerWritten = true := by
  unfold ParquetWriter.ensureRowGroup
  cases w.current <;> exact h

theorem headerWritten_ensureHeaderWritten (w : ParquetWriter γ) :
    w.ensureHeaderWritten.headerWritten = true := by
  unfold ParquetWriter.ensureHeaderWritten
  split
  · assumption
  · rfl

/-- **A call** appends a row group or none, if it leaves nothing behind where it fails. -/
theorem Laid.call (h : Laid s w.ensureHeaderWritten groups) (c : FileCall)
    (hleaves : w.LeavesNothing (w.call geo s c)) :
    Laid s (w.call geo s c).writer.ensureHeaderWritten (groups ++ (w.call geo s c).flushed) := by
  cases c with
  | newRowGroup env => exact h.flushCall rfl hleaves
  | writeBatch write =>
    simp only [ParquetWriter.call] at hleaves ⊢
    rcases writeBatch_cases geo s w write with
      hbatch | ⟨w', hsame, ⟨status, hbatch⟩ | hbatch⟩ <;> rw [hbatch] at hleaves ⊢
    · rw [List.append_nil]
      exact h
    · have hlaid := h.ensureRowGroup.sameFile hsame
      rw [List.append_nil, ensureHeaderWritten_of_header hlaid.header]
      exact hlaid
    · refine (h.ensureRowGroup.sameFile hsame).flushCall ?_ hleaves
      rw [hsame.sink, ensureRowGroup_sink]

/-- **A run** that is not torn leaves the row groups it wrote. -/
theorem Laid.run (h : Laid s w.ensureHeaderWritten groups) {calls : List FileCall}
    (huntorn : Untorn geo s w calls) :
    Laid s (w.run geo s calls).1.ensureHeaderWritten (groups ++ (w.run geo s calls).2) := by
  induction calls generalizing w groups with
  | nil =>
    rw [ParquetWriter.run, List.append_nil]
    exact h
  | cons c cs ih =>
    have hrest := ih (h.call c huntorn.1) huntorn.2
    rwa [List.append_assoc] at hrest

/-- A writer to a buffer is never torn. -/
theorem flushRowGroup_leaves (hbuffer : s.isBufferWriter = true) (w : ParquetWriter γ) :
    (w.flushRowGroup geo s env).status = .ok () ∨
      (w.flushRowGroup geo s env).writer.sink.output = w.sink.output := by
  unfold ParquetWriter.flushRowGroup
  cases w.current with
  | none => exact .inl rfl
  | some g =>
    simp only
    split
    · exact .inl rfl
    · rcases RowGroupWriter.finalizeColumns geo env g.fileOffset g.columns with ⟨_ | _, columns⟩
      · exact .inr (by simp only)
      · exact .inl rfl

theorem untorn_of_isBufferWriter (hbuffer : s.isBufferWriter = true) (w : ParquetWriter γ)
    (calls : List FileCall) : Untorn geo s w calls := by
  induction calls generalizing w with
  | nil => trivial
  | cons c cs ih =>
    refine ⟨?_, ih _⟩
    have hflush : ∀ (env : ChunkEnv) (w' : ParquetWriter γ), w'.headerWritten = true →
        w'.sink = w.ensureHeaderWritten.sink → w.LeavesNothing (w'.flushRowGroup geo s env) := by
      intro env w' hheader hsink
      refine (flushRowGroup_leaves hbuffer w').imp id fun hout => ?_
      rw [ensureHeaderWritten_of_header ((headerWritten_flushRowGroup _ _ _ w').trans hheader), hout, hsink]
    have hheader : w.ensureHeaderWritten.headerWritten = true := headerWritten_ensureHeaderWritten w
    cases c with
    | newRowGroup env => exact hflush env _ hheader rfl
    | writeBatch write =>
      simp only [ParquetWriter.call]
      rcases writeBatch_cases geo s w write with
        hbatch | ⟨w', hsame, ⟨status, hbatch⟩ | hbatch⟩ <;> rw [hbatch]
      · exact .inr rfl
      · refine .inr ?_
        show w'.ensureHeaderWritten.sink.output = _
        rw [ensureHeaderWritten_of_header (hsame.header.trans (headerWritten_ensureRowGroup hheader)),
          hsame.sink, ensureRowGroup_sink]
      · refine hflush _ _ (hsame.header.trans (headerWritten_ensureRowGroup hheader)) ?_
        rw [hsame.sink, ensureRowGroup_sink]

/-! ## The file -/

/-- What is in a file with these row groups, in front of its footer. -/
def fileBody (s : WriterSettings) (groups : List (List (ColumnSlot γ))) : Bytes :=
  parquetMagic ++ (groups.flatMap (groupPieces s)).flatten

/-- A file, its footer and its metadata, of a writer with these entries. -/
structure Closed (geoStats : γ → Parquet.GeospatialStatistics) (s : WriterSettings)
    (groups : List (List (ColumnSlot γ))) (file footer : Bytes) (m : Parquet.FileMetadata)
    (entries : List (RowGroupEntry γ)) : Prop where
  file_eq : file = fileBody s groups ++ (footer ++ (leBytes 4 footer.length ++ parquetMagic))
  footer_eq : Parquet.writeFileMetadata m = .ok footer
  rowGroups : m.rowGroups = entries.map (footerRowGroup geoStats s)
  count : m.numRowGroups = entries.length
  placed : List.Forall₂ (GroupPlaced s file) groups entries
  regions : entries.flatMap RowGroupEntry.regions = place 4 (groups.flatMap (groupPieces s))

/-- The metadata that closing a writer builds. -/
def closingMetadata (geo : GeoWalker γ) (geoStats : γ → Parquet.GeospatialStatistics)
    (s : WriterSettings) (env : ChunkEnv) (w : ParquetWriter γ) : Parquet.FileMetadata :=
  buildFileMetadata geoStats s (w.ensureHeaderWritten.flushRowGroup geo s env).writer

/-- The file of a writer whose last row group was written. -/
theorem Laid.close (h : Laid s w.ensureHeaderWritten groups)
    {geoStats : γ → Parquet.GeospatialStatistics} {file : Bytes}
    {flushed : List (List (ColumnSlot γ))} (hclose : w.close geo geoStats s env = (.ok file, flushed)) :
    ∃ footer, Closed geoStats s (groups ++ flushed) file footer
      (w.closingMetadata geo geoStats s env)
      (w.ensureHeaderWritten.flushRowGroup geo s env).writer.rowGroups := by
  rw [ParquetWriter.close] at hclose
  cases hstatus : (w.ensureHeaderWritten.flushRowGroup geo s env).status with
  | error e =>
    rw [hstatus] at hclose
    cases (Prod.mk.inj hclose).1
  | ok _ =>
    have hlaid := h.flushRowGroup (.inl hstatus)
    rw [hstatus] at hclose
    obtain ⟨hfile, rfl⟩ := Prod.mk.inj hclose
    rw [writeFooter] at hfile
    obtain ⟨footer, hfooter, hout⟩ := bind_eq_ok.mp hfile
    obtain rfl := Except.ok.inj hout
    refine ⟨footer, ?_, hfooter, rfl, rfl, ?_, hlaid.regions⟩
    · rw [hlaid.output]
      rfl
    · exact hlaid.placed.imp fun _ _ hrg => hrg.append _

end

end ParquetWriter

/-- A buffer with one INT32 column that has statistics, a filter and indexes. -/
def int32File : WriterSettings where
  isBufferWriter := true
  rowGroupSize := 1048576
  writeBloomFilters := true
  writePageIndex := true
  columns :=
    [{ settings :=
        { RowGroupWriter.int32Column .plain with
          writeStatistics := true
          bloomFilterBytes := some 32
          pageIndexEnabled := true }
       logicalType := .unknown
       statisticsSortOrderDefined := true
       emitStatistics := true
       path := [.ofBytes [120]] }]
  schemaElements :=
    [{ Parquet.SchemaElement.zero with numChildren := 1 },
      { Parquet.SchemaElement.zero with type := some 1, repetitionType := some 0 }]
  sortingColumns := []
  kvMetadata := []
  createdBy := .ofBytes [99]

/-- Two row groups of small numbers; closing writes the second. -/
def int32Calls : List ParquetWriter.FileCall :=
  [.writeBatch ⟨RowGroupWriter.smallNumbers [1, 2, 3], []⟩, .newRowGroup RowGroupWriter.ampleEnv,
    .writeBatch ⟨RowGroupWriter.smallNumbers [5, 5], []⟩]

/-- What is closed behind these calls. -/
def int32Writer : ParquetWriter Unit :=
  ((ParquetWriter.create int32File).run RowGroupWriter.noGeometries int32File int32Calls).1

def int32Close : Except Status Bytes × List (List (ColumnSlot Unit)) :=
  int32Writer.close RowGroupWriter.noGeometries (fun _ => .zero) int32File RowGroupWriter.ampleEnv

theorem int32Close_ok : ∃ file flushed, int32Close = (.ok file, flushed) := by
  have hok : int32Close.1.isOk = true := by decide +kernel
  rcases hclose : int32Close with ⟨_ | file, flushed⟩
  · rw [hclose] at hok
    cases hok
  · exact ⟨file, flushed, rfl⟩

end Carquet
