import Carquet.Writer.BatchWriter
import Carquet.Writer.RowGroupIndependence

/-!
# Batches that fail

A batch that fails leaves nothing behind when it fails up front (`FailsUpFront`): in its arguments,
in the coercion of its timestamps, or in the first chunk given to a page whose bounds are short.
Every later failure comes after rows were taken: `dict_accumulate` raises its totals before it
appends, `carquet_column_writer_write_batch` keeps the chunks before the one that fails, and behind
the batch `flush_row_group` may fail.
-/

namespace Carquet

variable {γ : Type}

/-! ## A chunk that is refused -/

/-- The first chunk of a batch (column_writer.c:853-863). -/
def firstChunk (c : ChunkSettings) (args : ChunkArgs Value) : ChunkArgs Value :=
  args.shift 0 (min (maxChunk c.options args.numValues) args.numValues)

/-- The page's bounds, if it collects any, fit the snapshot that a refused call puts back. -/
def PageAccumulator.ShortBounds (c : ChunkSettings) (p : PageAccumulator γ) : Prop :=
  c.collects = true → ∀ b, p.stats.minMax = some b →
    b.1.length ≤ statSnapshotSize ∧ b.2.length ≤ statSnapshotSize

/-- The column is written page by page, and its page refuses the first chunk of the batch. -/
structure ChunkWriter.RefusesFirst (env : ChunkEnv) (c : ChunkSettings) (w : ChunkWriter γ)
    (args : ChunkArgs Value) : Prop where
  plain : w.useDictionary = false
  rows : 0 < args.numValues
  refused : (encodeCall env c w.page.encoding (firstChunk c args)).isOk = false
  short : w.page.ShortBounds c

/-- A refused call puts short bounds back, whatever the type. -/
theorem statsAfter_refused {c : ChunkSettings} {p : PageAccumulator γ} (h : p.ShortBounds c) :
    p.statsAfter c .refused = p.stats := by
  unfold PageAccumulator.statsAfter
  split
  · rename_i hcollects
    have hshort := addValues_refused_of_short (isPlainFor c.column.type p.encoding) (h hcollects)
    cases hkind : c.kind with
    | ordered ty => exact hshort
    | floating f => exact hshort
    | float16 => exact hshort
    | unordered => exact hshort
  · rfl

theorem ChunkWriter.RefusesFirst.writeBatch {env : ChunkEnv} {c : ChunkSettings}
    {w : ChunkWriter γ} {args : ChunkArgs Value} (h : w.RefusesFirst env c args)
    (geo : GeoWalker γ) :
    (w.writeBatch geo env c args).2 = w ∧ (w.writeBatch geo env c args).1.isOk = false := by
  obtain ⟨n, hn⟩ := Nat.exists_eq_succ_of_ne_zero (Nat.ne_of_gt h.rows)
  have hrefused := h.refused
  have hadd : ∃ e, (ChunkWriter.pageSink geo env c).addValues w (firstChunk c args) =
      (.error e, w) := by
    cases hcall : encodeCall env c w.page.encoding (firstChunk c args) with
    | ok call => simp [hcall, Except.isOk, Except.toBool] at hrefused
    | error e =>
      refine ⟨e, ?_⟩
      simp only [ChunkWriter.pageSink, PageAccumulator.addValues, hcall,
        statsAfter_refused h.short]
  obtain ⟨e, hadd⟩ := hadd
  have htrace : writeChunks c.options (ChunkWriter.pageSink geo env c) args args.numValues w 0 =
      ⟨.error e, w, [firstChunk c args], []⟩ := by
    rw [hn, writeChunks, if_pos h.rows]
    simp only [Nat.sub_zero]
    rw [show args.shift 0 (min (maxChunk c.options args.numValues) args.numValues) =
      firstChunk c args from rfl, hadd]
  unfold ChunkWriter.writeBatch
  rw [if_neg (by simp [h.plain]), htrace]
  exact ⟨rfl, rfl⟩

namespace BatchWriter

variable {geo : GeoWalker γ}

/-! ## The row group of a writer -/

/-- The same writer; whether an empty row group was made does not count. -/
def Same (geo : GeoWalker γ) (w v : BatchWriter γ) : Prop :=
  w.ensureRowGroup geo = v.ensureRowGroup geo

@[simp] theorem ensureRowGroup_idem (w : BatchWriter γ) :
    (w.ensureRowGroup geo).ensureRowGroup geo = w.ensureRowGroup geo := by
  unfold ensureRowGroup
  cases hg : w.group with
  | none => rfl
  | some g => simp only [hg]

theorem ensureRowGroup_of_some {w : BatchWriter γ} {g : RowGroupWriter γ} (h : w.group = some g) :
    w.ensureRowGroup geo = w := by
  unfold ensureRowGroup
  rw [h]

@[simp] theorem ensureRowGroup_settings (w : BatchWriter γ) :
    (w.ensureRowGroup geo).settings = w.settings := by
  unfold ensureRowGroup
  split
  · rfl
  · rfl

theorem ensureRowGroup_written (w : BatchWriter γ) :
    (w.ensureRowGroup geo).written = w.written ∧
      (w.ensureRowGroup geo).counts.rowGroups = w.counts.rowGroups ∧
      (w.ensureRowGroup geo).counts.totalRows = w.counts.totalRows := by
  unfold ensureRowGroup
  split
  · exact ⟨rfl, rfl, rfl⟩
  · simp only [FileWriter.ensureRowGroup, FileWriter.resetCounters]
    split
    · exact ⟨trivial, rfl, rfl⟩
    · exact ⟨trivial, rfl, rfl⟩

theorem Same.settings {w v : BatchWriter γ} (h : Same geo w v) : w.settings = v.settings := by
  have := congrArg BatchWriter.settings h
  simpa using this

/-- Flushing a row group that is empty does nothing, and neither does flushing none. -/
theorem flushRowGroup_ensure (w : BatchWriter γ) (env : ChunkEnv) (trailing : Nat) :
    (w.flushRowGroup geo env trailing).1 =
        ((w.ensureRowGroup geo).flushRowGroup geo env trailing).1 ∧
      Same geo (w.flushRowGroup geo env trailing).2
        ((w.ensureRowGroup geo).flushRowGroup geo env trailing).2 := by
  cases hg : w.group with
  | some g =>
    rw [ensureRowGroup_of_some hg]
    exact ⟨rfl, rfl⟩
  | none =>
    have hrows : (w.ensureRowGroup geo).counts.currentRowGroupRows = 0 := by
      simp only [ensureRowGroup, hg, FileWriter.ensureRowGroup, FileWriter.resetCounters]
      split
      · rfl
      · rfl
    have hw : w.flushRowGroup geo env trailing = (.ok (), w) := by
      unfold flushRowGroup
      rw [hg]
    have hv : (w.ensureRowGroup geo).flushRowGroup geo env trailing =
        (.ok (), w.ensureRowGroup geo) := by
      unfold flushRowGroup
      split
      · rfl
      · rw [if_pos hrows]
    rw [hw, hv]
    exact ⟨rfl, (ensureRowGroup_idem w).symm⟩

/-- Calls do not tell such writers apart. -/
theorem Same.step {w v : BatchWriter γ} (h : Same geo w v) (call : Call) :
    (w.step geo call).1 = (v.step geo call).1 ∧
      Same geo (w.step geo call).2 (v.step geo call).2 := by
  cases call with
  | newRowGroup env trailing =>
    obtain ⟨hw, hsw⟩ := @flushRowGroup_ensure _ geo w env trailing
    obtain ⟨hv, hsv⟩ := @flushRowGroup_ensure _ geo v env trailing
    rw [h] at hw hsw
    exact ⟨hw.trans hv.symm, Eq.trans hsw (Eq.symm hsv)⟩
  | writeBatch b =>
    simp only [BatchWriter.step, BatchWriter.writeBatch, h.settings]
    rw [show w.ensureRowGroup geo = v.ensureRowGroup geo from h]
    split
    · exact ⟨rfl, h⟩
    · split
      · exact ⟨rfl, h⟩
      · exact ⟨rfl, rfl⟩

theorem Same.run {w v : BatchWriter γ} (h : Same geo w v) (calls : List Call) :
    Same geo (w.run geo calls) (v.run geo calls) := by
  induction calls generalizing w v with
  | nil => exact h
  | cons call calls ih => exact ih (h.step call).2

theorem Same.close {w v : BatchWriter γ} (h : Same geo w v) (env : ChunkEnv) (trailing : Nat) :
    w.close geo env trailing = v.close geo env trailing := by
  obtain ⟨hstatus, hsame⟩ := h.step (.newRowGroup env trailing)
  unfold BatchWriter.close
  rcases hx : w.flushRowGroup geo env trailing with ⟨_ | _, w'⟩ <;>
  rcases hy : v.flushRowGroup geo env trailing with ⟨_ | _, v'⟩ <;>
  simp only [BatchWriter.step, hx, hy] at hstatus hsame
  · cases hstatus
    rfl
  · cases hstatus
  · cases hstatus
  · obtain ⟨hw, hwg, hwt⟩ := @ensureRowGroup_written _ geo w'
    obtain ⟨hv, hvg, hvt⟩ := @ensureRowGroup_written _ geo v'
    rw [show w'.ensureRowGroup geo = v'.ensureRowGroup geo from hsame] at hw hwg hwt
    change Except.ok (ClosedFile.mk w'.counts.totalRows _ w'.written) =
      .ok (ClosedFile.mk v'.counts.totalRows _ v'.written)
    rw [← hw, ← hwg, ← hwt, hv, hvg, hvt]

/-! ## Failing up front -/

/-- The batch fails before any of it is taken: there is no such column, a timestamp cannot be
coerced, or the page refuses the first chunk. -/
def FailsUpFront (geo : GeoWalker γ) (w : BatchWriter γ) (call : BatchCall) : Prop :=
  call.columnIndex < 0 ∨
    match w.settings[call.columnIndex.toNat]? with
    | none => True
    | some c =>
      match coerceArgs call.env c (w.coercions[call.columnIndex.toNat]?.join) call.args with
      | .error _ => True
      | .ok args =>
        ∃ g slot, (w.ensureRowGroup geo).group = some g ∧
          g.columns[call.columnIndex.toNat]? = some slot ∧
          slot.writer.RefusesFirst call.env slot.settings args

theorem ensureRowGroup_coercions (w : BatchWriter γ) :
    (w.ensureRowGroup geo).coercions = w.coercions := by
  unfold ensureRowGroup
  split
  · rfl
  · rfl

/-- Such a batch leaves nothing. -/
theorem FailsUpFront.leavesNothing {w : BatchWriter γ} {call : BatchCall}
    (h : FailsUpFront geo w call) : Same geo (w.writeBatch geo call).2 w := by
  unfold BatchWriter.writeBatch
  split
  · exact rfl
  rename_i hindex
  have h := h.resolve_left hindex
  split
  · exact rfl
  rename_i c hc
  rw [hc] at h
  simp only at h ⊢
  split
  · exact ensureRowGroup_idem w
  rename_i g hg
  unfold BatchWriter.writeToGroup
  split
  · exact ensureRowGroup_idem w
  rename_i args hargs
  rw [ensureRowGroup_coercions] at hargs
  rw [hargs] at h
  obtain ⟨k, slot, hk, hslot, hrefuses⟩ := h
  obtain rfl : g = k := Option.some.inj (hg.symm.trans hk)
  obtain ⟨hwriter, hstatus⟩ := hrefuses.writeBatch geo
  have hset : g.columns.set call.columnIndex.toNat slot = g.columns := by
    obtain ⟨hlt, rfl⟩ := List.getElem?_eq_some_iff.mp hslot
    exact List.set_getElem_self hlt
  have hwrite : (g.writeColumn geo ⟨call.env, call.columnIndex.toNat, args⟩).2 = g ∧
      (g.writeColumn geo ⟨call.env, call.columnIndex.toNat, args⟩).1.isOk = false := by
    unfold RowGroupWriter.writeColumn
    simp only [hslot, ColumnSlot.writeBatch, hwriter, hset]
    exact ⟨trivial, hstatus⟩
  obtain ⟨hgroup, hfailed⟩ := hwrite
  split
  · rename_i hx
    rw [hx] at hgroup
    obtain rfl := hgroup
    rename_i k
    have hsame : ({ w.ensureRowGroup geo with group := some k } : BatchWriter γ) =
        w.ensureRowGroup geo := by
      rw [← hg]
    exact (congrArg (ensureRowGroup geo) hsame).trans (ensureRowGroup_idem w)
  · rename_i hx
    rw [hx] at hfailed
    cases hfailed

/-! ## Whole runs -/

/-- `P` holds of every batch of the run that fails, at the writer it is given to. -/
def EveryFailure (geo : GeoWalker γ) (P : BatchWriter γ → BatchCall → Prop) :
    BatchWriter γ → List Call → Prop
  | _, [] => True
  | w, .newRowGroup env trailing :: calls =>
    EveryFailure geo P (w.flushRowGroup geo env trailing).2 calls
  | w, .writeBatch call :: calls =>
    ((w.writeBatch geo call).1.isOk = false → P w call) ∧
      EveryFailure geo P (w.writeBatch geo call).2 calls

/-- The calls of a run without the batches that failed. -/
def succeeded (geo : GeoWalker γ) : BatchWriter γ → List Call → List Call
  | _, [] => []
  | w, .newRowGroup env trailing :: calls =>
    .newRowGroup env trailing :: succeeded geo (w.flushRowGroup geo env trailing).2 calls
  | w, .writeBatch call :: calls =>
    let rest := succeeded geo (w.writeBatch geo call).2 calls
    if (w.writeBatch geo call).1.isOk then .writeBatch call :: rest else rest

theorem EveryFailure.mono {P Q : BatchWriter γ → BatchCall → Prop}
    (h : ∀ w call, P w call → Q w call) {w : BatchWriter γ} {calls : List Call}
    (hp : EveryFailure geo P w calls) : EveryFailure geo Q w calls := by
  induction calls generalizing w with
  | nil => trivial
  | cons call calls ih =>
    cases call with
    | newRowGroup env trailing => exact ih hp
    | writeBatch call => exact ⟨fun hfail => h w call (hp.1 hfail), ih hp.2⟩

/-- Failing calls that leave nothing can be left out of the run. -/
theorem run_succeeded {w v : BatchWriter γ} {calls : List Call} (hsame : Same geo w v)
    (h : EveryFailure geo (fun w call => Same geo (w.writeBatch geo call).2 w) w calls) :
    Same geo (w.run geo calls) (v.run geo (succeeded geo w calls)) := by
  induction calls generalizing w v with
  | nil => exact hsame
  | cons call calls ih =>
    cases call with
    | newRowGroup env trailing => exact ih (hsame.step (.newRowGroup env trailing)).2 h
    | writeBatch call =>
      by_cases hok : (w.writeBatch geo call).1.isOk
      · have hcalls : succeeded geo w (.writeBatch call :: calls) =
            .writeBatch call :: succeeded geo (w.writeBatch geo call).2 calls := if_pos hok
        rw [hcalls]
        exact ih (hsame.step (.writeBatch call)).2 h.2
      · have hcalls : succeeded geo w (.writeBatch call :: calls) =
            succeeded geo (w.writeBatch geo call).2 calls := if_neg hok
        rw [hcalls]
        exact ih (Eq.trans (h.1 (by simpa using hok)) hsame) h.2

/-- A call on the first column, with its definition levels. -/
def smallBatch (values : List UInt8) (levels : List Int) : Call :=
  .writeBatch ⟨0, ⟨values.map fun v => [v, 0, 0, 0], levels.length, some levels, none⟩,
    RowGroupWriter.ampleEnv, 0⟩

/-- A call on a column that is not there. -/
def strayBatch : Call :=
  .writeBatch ⟨-1, ⟨[], 0, none, none⟩, RowGroupWriter.ampleEnv, 0⟩

/-- An optional INT32 column with statistics, written a row at a time. -/
def optionalColumn : ChunkSettings :=
  { RowGroupWriter.int32Column .plain with
    options := ⟨⟨.int32, 0, 1, 0⟩, 1048576, 1, 0, false⟩
    writeStatistics := true }

/-- The values the chunks of a file hold. -/
def closedValues (w : BatchWriter Unit) : Option (List (List Nat)) :=
  (w.close RowGroupWriter.noGeometries RowGroupWriter.ampleEnv 0).toOption.map
    fun file => file.chunks.map fun g => g.map fun chunk => chunk.info.numValues

/-- A writer with one optional column. -/
def optionalWriter : BatchWriter Unit := create [optionalColumn] [none] 134217728

end BatchWriter

end Carquet
