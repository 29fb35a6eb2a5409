import Carquet.Writer.FileWriter
import Mathlib.Algebra.Order.BigOperators.Group.List

/-!
# Row counts of the row groups of a file

A row group should have as many rows as each of its columns was given since the last flush
(`RowGroupInfo.Right`), and the file as many as its row groups together.

`current_row_group_rows` is the longest single batch since the last flush, not the rows of a
column (file_writer.c:1849-1858), while the automatic flush compares it with the rows of every
column. An automatic flush is right for it, an explicit one only when some batch carried all rows
of its column (`close_right_iff`).
-/

namespace Carquet

/-- The row count is that of every column. -/
def RowGroupInfo.Right (g : RowGroupInfo) : Prop := ∀ n ∈ g.numValues, n = g.numRows

namespace FileWriter

/-- The row counts of a footer are right. -/
structure FileMetadata.Right (m : FileMetadata) : Prop where
  rowGroups : ∀ g ∈ m.rowGroups, g.Right
  numRows : m.numRows = (m.rowGroups.map (·.numRows)).sum

/-- What each column was given since the last flush. -/
def held (w : FileWriter) : List ColumnRows := w.rowGroup.getD []

/-- All columns were given the same number of rows since the last flush. -/
def Balanced (w : FileWriter) : Prop := ∃ n, ∀ c ∈ w.held, c.total = n

/-- The columns are balanced whenever a new row group is asked for, and in the end. -/
def BalancedRun : FileWriter → List Call → Prop
  | w, [] => w.Balanced
  | w, .newRowGroup finalized :: calls =>
    w.Balanced ∧ BalancedRun (w.step (.newRowGroup finalized)) calls
  | w, c :: calls => BalancedRun (w.step c) calls

/-! ## The condition -/

/-- Since the last flush no batch with rows was taken, or one batch carried all rows of its
column. -/
def OneBatchCarriesAll (w : FileWriter) : Prop :=
  (∀ c ∈ w.held, ∀ rows ∈ c.complete, rows = 0) ∨ ∃ c ∈ w.held, c.total ∈ c.complete

/-- No batch that failed since the last flush left rows in its column. -/
def NoLeftover (w : FileWriter) : Prop := ∀ c ∈ w.held, c.leftover = 0

/-- A batch that makes the row group flush by itself meets no leftover rows; an explicit flush
meets a batch that carried all rows. -/
def StepSafe (w : FileWriter) : Call → Prop
  | .writeBatch columnIndex batch outcome finalized =>
    ∀ column, 0 ≤ columnIndex → w.columns[columnIndex.toNat]? = some column →
      outcome = .taken → finalized = .ok () →
      (w.ensureRowGroup.countBatch columnIndex.toNat column batch).autoFlushes = true →
      w.NoLeftover
  | .newRowGroup finalized => finalized = .ok () → w.OneBatchCarriesAll

/-- Every step is such, and closing the file is. -/
def SafeRun : FileWriter → List Call → Prop
  | w, [] => w.OneBatchCarriesAll
  | w, c :: calls => w.StepSafe c ∧ SafeRun (w.step c) calls

/-! ## The counters -/

/-- The rows of the batches the columns took. -/
def takenRows (columns : List ColumnRows) : List Nat := columns.flatMap (·.complete)

/-- What the counters of a writer of flat columns mean. -/
structure Counted (w : FileWriter) : Prop where
  flat : ∀ c ∈ w.columns, c.maxRepLevel ≤ 0
  length_held : ∀ columns, w.rowGroup = some columns → columns.length = w.columns.length
  written : ∀ columns, w.rowGroup = some columns →
    w.columnValuesWritten = columns.map (·.complete.sum)
  rows_ge : ∀ rows ∈ takenRows w.held, rows ≤ w.currentRowGroupRows
  rows_mem : w.currentRowGroupRows = 0 ∨ w.currentRowGroupRows ∈ takenRows w.held
  totalRows : w.totalRows = (w.rowGroups.map (·.numRows)).sum

theorem takenRows_empty {β : Type} (columns : List β) :
    takenRows (columns.map fun _ => ColumnRows.empty) = [] := by
  induction columns with
  | nil => rfl
  | cons c columns ih => exact ih

theorem mem_takenRows_modify {columns : List ColumnRows} {i : Nat} (rows n : Nat)
    (hi : i < columns.length) :
    rows ∈ takenRows (columns.modify i fun c => { c with complete := c.complete ++ [n] }) ↔
      rows ∈ takenRows columns ∨ rows = n := by
  induction columns generalizing i with
  | nil => simp at hi
  | cons c columns ih =>
    cases i with
    | zero =>
      simp only [takenRows, List.modify_zero_cons, List.flatMap_cons, List.mem_append,
        List.mem_singleton]
      tauto
    | succ i =>
      have hrec := ih (i := i) (by simpa using hi)
      simp only [takenRows, List.modify_succ_cons, List.flatMap_cons, List.mem_append] at hrec ⊢
      rw [hrec]
      tauto

theorem takenRows_leftover (columns : List ColumnRows) (i rows : Nat) :
    takenRows (columns.modify i fun c => { c with leftover := c.leftover + rows }) =
      takenRows columns := by
  induction columns generalizing i with
  | nil => simp
  | cons c columns ih =>
    cases i with
    | zero => simp [takenRows]
    | succ i =>
      have hrec := ih i
      simp only [takenRows, List.modify_succ_cons, List.flatMap_cons] at hrec ⊢
      rw [hrec]

theorem map_sum_modify (columns : List ColumnRows) (i n : Nat) :
    (columns.modify i fun c => { c with complete := c.complete ++ [n] }).map (·.complete.sum) =
      (columns.map (·.complete.sum)).modify i (· + n) := by
  induction columns generalizing i with
  | nil => simp
  | cons c columns ih =>
    cases i with
    | zero => simp
    | succ i => simpa using ih i

theorem map_sum_leftover (columns : List ColumnRows) (i rows : Nat) :
    (columns.modify i fun c => { c with leftover := c.leftover + rows }).map (·.complete.sum) =
      columns.map (·.complete.sum) := by
  induction columns generalizing i with
  | nil => simp
  | cons c columns ih =>
    cases i with
    | zero => simp
    | succ i => simpa using ih i

theorem counted_create {columns : List Column} (h : ∀ c ∈ columns, c.maxRepLevel ≤ 0)
    (rowGroupSize : Int) : (create columns rowGroupSize).Counted := by
  refine ⟨h, ?_, ?_, ?_, Or.inl rfl, rfl⟩
  · intro columns' hc
    simp [create] at hc
  · intro columns' hc
    simp [create] at hc
  · intro rows hrows
    simp [held, create, takenRows] at hrows

theorem Counted.ensureRowGroup {w : FileWriter} (h : w.Counted) : w.ensureRowGroup.Counted := by
  rw [FileWriter.ensureRowGroup]
  split
  · exact h
  · refine ⟨h.flat, ?_, ?_, ?_, Or.inl rfl, h.totalRows⟩
    · intro columns hc
      simp only [Option.some.injEq] at hc
      simp [← hc, resetCounters]
    · intro columns hc
      simp only [Option.some.injEq] at hc
      simp [← hc, resetCounters, ColumnRows.empty]
    · intro rows hrows
      change rows ∈ takenRows (w.columns.map fun _ => ColumnRows.empty) at hrows
      rw [takenRows_empty] at hrows
      simp at hrows

theorem rowGroup_ensureRowGroup (w : FileWriter) :
    ∃ columns, w.ensureRowGroup.rowGroup = some columns := by
  rw [FileWriter.ensureRowGroup]
  split
  · rename_i columns hc
    exact ⟨columns, hc⟩
  · exact ⟨_, rfl⟩

theorem columns_ensureRowGroup (w : FileWriter) : w.ensureRowGroup.columns = w.columns := by
  rw [FileWriter.ensureRowGroup]
  split <;> rfl

theorem rowGroups_ensureRowGroup (w : FileWriter) : w.ensureRowGroup.rowGroups = w.rowGroups := by
  rw [FileWriter.ensureRowGroup]
  split <;> rfl

theorem Counted.addLeftover {w : FileWriter} (h : w.Counted) (i rows : Nat) :
    (w.addLeftover i rows).Counted := by
  cases hr : w.rowGroup with
  | none =>
    have : w.addLeftover i rows = w := by
      rw [FileWriter.addLeftover, hr, Option.map_none, ← hr]
    rw [this]
    exact h
  | some columns =>
    have hheld : takenRows (w.addLeftover i rows).held = takenRows w.held := by
      simp [held, FileWriter.addLeftover, hr, takenRows_leftover]
    refine ⟨h.flat, ?_, ?_, ?_, ?_, h.totalRows⟩
    · intro columns' hc
      simp only [FileWriter.addLeftover, hr, Option.map_some, Option.some.injEq] at hc
      rw [← hc, List.length_modify]
      exact h.length_held columns hr
    · intro columns' hc
      simp only [FileWriter.addLeftover, hr, Option.map_some, Option.some.injEq] at hc
      rw [← hc, map_sum_leftover]
      exact h.written columns hr
    · rw [hheld]
      exact h.rows_ge
    · rw [hheld]
      exact h.rows_mem

theorem batchRows_of_flat {column : Column} (h : column.maxRepLevel ≤ 0) (batch : BatchArgs) :
    batchRows column batch = batch.numValues := by
  rw [batchRows]
  split
  · rw [if_neg (by omega)]
  · rfl

theorem Counted.countBatch {w : FileWriter} (h : w.Counted) {columns : List ColumnRows}
    (hr : w.rowGroup = some columns) {i : Nat} {column : Column} (hi : w.columns[i]? = some column)
    (batch : BatchArgs) : (w.countBatch i column batch).Counted := by
  obtain ⟨hlt, hget⟩ := List.getElem?_eq_some_iff.mp hi
  have hflat : column.maxRepLevel ≤ 0 := h.flat column (hget ▸ List.getElem_mem hlt)
  have hlen := h.length_held columns hr
  have hheld : w.held = columns := by rw [held, hr]; rfl
  have hheld' : (w.countBatch i column batch).held = columns.modify i
      fun c => { c with complete := c.complete ++ [batch.numValues] } := by
    rw [held, FileWriter.countBatch, hr]
    rfl
  have hrows : (w.countBatch i column batch).currentRowGroupRows =
      max w.currentRowGroupRows batch.numValues := by
    rw [FileWriter.countBatch, batchRows_of_flat hflat]
  have hmem := fun rows => mem_takenRows_modify rows batch.numValues
    (hlen ▸ hlt : i < columns.length)
  refine ⟨h.flat, ?_, ?_, ?_, ?_, h.totalRows⟩
  · intro columns' hc
    simp only [FileWriter.countBatch, hr, Option.map_some, Option.some.injEq] at hc
    rw [← hc, List.length_modify]
    exact hlen
  · intro columns' hc
    simp only [FileWriter.countBatch, hr, Option.map_some, Option.some.injEq] at hc
    rw [← hc, map_sum_modify, ← h.written columns hr]
    rfl
  · intro rows hrow
    rw [hheld', hmem] at hrow
    rw [hrows]
    rcases hrow with hrow | rfl
    · have := h.rows_ge rows (by rw [hheld]; exact hrow)
      omega
    · omega
  · rw [hrows, hheld', hmem]
    rcases Nat.le_total batch.numValues w.currentRowGroupRows with hle | hle
    · rw [Nat.max_eq_left hle]
      rcases h.rows_mem with h0 | hm
      · exact Or.inl h0
      · exact Or.inr (Or.inl (by rw [hheld] at hm; exact hm))
    · rw [Nat.max_eq_right hle]
      exact Or.inr (Or.inr rfl)

/-! ## A flush -/

/-- What a flush that goes through records. -/
def flushed (w : FileWriter) (columns : List ColumnRows) : RowGroupInfo :=
  ⟨w.currentRowGroupRows, columns.map (·.total)⟩

/-- A flush does nothing, or records the row group and starts another. -/
theorem flushRowGroup_cases (w : FileWriter) (finalized : Except Status Unit) :
    (w.flushRowGroup finalized).2 = w ∧
        (w.currentRowGroupRows = 0 ∨ w.rowGroup = none ∨ finalized ≠ .ok ()) ∨
      ∃ columns, w.rowGroup = some columns ∧ w.currentRowGroupRows ≠ 0 ∧ finalized = .ok () ∧
        (w.flushRowGroup finalized).2 = { w.resetCounters with
          rowGroup := some (columns.map fun _ => .empty)
          rowGroups := w.rowGroups ++ [w.flushed columns]
          totalRows := w.totalRows + w.currentRowGroupRows } := by
  rw [flushRowGroup]
  cases hr : w.rowGroup with
  | none => exact Or.inl ⟨rfl, Or.inr (Or.inl rfl)⟩
  | some columns =>
    simp only
    split
    · rename_i h0
      exact Or.inl ⟨rfl, Or.inl h0⟩
    · rename_i h0
      cases finalized with
      | error e => exact Or.inl ⟨rfl, Or.inr (Or.inr (by simp))⟩
      | ok u => exact Or.inr ⟨columns, rfl, h0, rfl, rfl⟩

theorem Counted.flushRowGroup {w : FileWriter} (h : w.Counted) (finalized : Except Status Unit) :
    (w.flushRowGroup finalized).2.Counted := by
  rcases w.flushRowGroup_cases finalized with ⟨heq, -⟩ | ⟨columns, hr, -, -, heq⟩
  · rw [heq]
    exact h
  · rw [heq]
    refine ⟨h.flat, ?_, ?_, ?_, Or.inl rfl, ?_⟩
    · intro columns' hc
      simp only [Option.some.injEq] at hc
      rw [← hc, List.length_map]
      exact h.length_held columns hr
    · intro columns' hc
      simp only [Option.some.injEq] at hc
      rw [← hc, List.map_map]
      change w.columns.map (fun _ => 0) = columns.map fun _ => 0
      rw [List.map_const', List.map_const', h.length_held columns hr]
    · intro rows hrows
      change rows ∈ takenRows (columns.map fun _ => ColumnRows.empty) at hrows
      rw [takenRows_empty] at hrows
      simp at hrows
    · simp [h.totalRows, flushed]

theorem sum_le_total (c : ColumnRows) : ∀ rows ∈ c.complete, rows ≤ c.total := by
  intro rows hrows
  have := List.single_le_sum (l := c.complete) (fun _ _ => Nat.zero_le _) rows hrows
  rw [ColumnRows.total]
  omega

/-- Of a balanced row group with rows, the count is right exactly when one batch carried all. -/
theorem flushed_right_iff {w : FileWriter} (h : w.Counted) {columns : List ColumnRows}
    (hr : w.rowGroup = some columns) (hrows : w.currentRowGroupRows ≠ 0) (hb : w.Balanced) :
    (w.flushed columns).Right ↔ w.OneBatchCarriesAll := by
  have hheld : w.held = columns := by rw [held, hr]; rfl
  obtain ⟨n, hn⟩ := hb
  obtain ⟨c, hc, hmem⟩ := List.mem_flatMap.mp (h.rows_mem.resolve_left hrows)
  constructor
  · intro hright
    refine Or.inr ⟨c, hc, ?_⟩
    have := hright c.total (List.mem_map.mpr ⟨c, hheld ▸ hc, rfl⟩)
    rw [this]
    exact hmem
  · rintro (h0 | ⟨c', hc', hall⟩)
    · exact absurd (h0 c hc _ hmem) hrows
    · have hle := h.rows_ge c'.total (List.mem_flatMap.mpr ⟨c', hc', hall⟩)
      have hge := sum_le_total c _ hmem
      have h1 := hn c hc
      have h2 := hn c' hc'
      intro m hm
      obtain ⟨c'', hc'', rfl⟩ := List.mem_map.mp hm
      have h3 := hn c'' (hheld ▸ hc'')
      change c''.total = w.currentRowGroupRows
      omega

/-- Of an aligned row group the count is right exactly when nothing is left over. -/
theorem flushed_right_of_aligned {w : FileWriter} (h : w.Counted) {columns : List ColumnRows}
    (hr : w.rowGroup = some columns) (ha : w.currentRowGroupIsAligned = true) :
    (w.flushed columns).Right ↔ w.NoLeftover := by
  have hheld : w.held = columns := by rw [held, hr]; rfl
  have hsum : ∀ c ∈ columns, c.complete.sum = w.currentRowGroupRows := by
    intro c hc
    simp only [currentRowGroupIsAligned, Bool.and_eq_true, List.all_eq_true, beq_iff_eq] at ha
    apply ha.2
    rw [h.written columns hr]
    exact List.mem_map.mpr ⟨c, hc, rfl⟩
  rw [NoLeftover, hheld]
  constructor
  · intro hright c hc
    have := hright c.total (List.mem_map.mpr ⟨c, hc, rfl⟩)
    change c.total = w.currentRowGroupRows at this
    have hs := hsum c hc
    rw [ColumnRows.total] at this
    omega
  · intro hleft m hm
    obtain ⟨c, hc, rfl⟩ := List.mem_map.mp hm
    have hs := hsum c hc
    have hl := hleft c hc
    change c.total = w.currentRowGroupRows
    rw [ColumnRows.total]
    omega

/-- All recorded row groups are right. -/
def AllRight (w : FileWriter) : Prop := ∀ g ∈ w.rowGroups, g.Right

theorem allRight_append {rowGroups : List RowGroupInfo} {g : RowGroupInfo} :
    (∀ g' ∈ rowGroups ++ [g], g'.Right) ↔ (∀ g' ∈ rowGroups, g'.Right) ∧ g.Right := by
  simp only [List.mem_append, List.mem_singleton, or_imp, forall_and, forall_eq]

/-- An explicit flush of a balanced row group. -/
theorem flushRowGroup_allRight {w : FileWriter} (h : w.Counted) (hb : w.Balanced)
    (finalized : Except Status Unit) : (w.flushRowGroup finalized).2.AllRight ↔
      w.AllRight ∧ (finalized = .ok () → w.OneBatchCarriesAll) := by
  rcases w.flushRowGroup_cases finalized with ⟨heq, hnot⟩ | ⟨columns, hr, hrows, hok, heq⟩
  · rw [heq, and_iff_left]
    intro hok
    rcases hnot with h0 | h0 | h0
    · refine Or.inl fun c hc rows hrows => ?_
      have := h.rows_ge rows (List.mem_flatMap.mpr ⟨c, hc, hrows⟩)
      omega
    · refine Or.inl fun c hc => ?_
      simp [held, h0] at hc
    · exact absurd hok h0
  · rw [heq, AllRight, AllRight]
    simp only [hok, true_implies]
    rw [allRight_append, flushed_right_iff h hr hrows hb]

/-! ## A step -/

theorem leftover_countBatch {w : FileWriter} {columns : List ColumnRows}
    (hr : w.rowGroup = some columns) (i : Nat) (column : Column) (batch : BatchArgs) :
    (w.countBatch i column batch).NoLeftover ↔ w.NoLeftover := by
  have hmodify : ∀ (l : List ColumnRows) (i : Nat),
      (∀ c ∈ l.modify i fun c => { c with complete := c.complete ++ [batch.numValues] },
        c.leftover = 0) ↔ ∀ c ∈ l, c.leftover = 0 := by
    intro l
    induction l with
    | nil => simp
    | cons c l ih =>
      intro i
      cases i with
      | zero => simp
      | succ i => simp only [List.modify_succ_cons, List.forall_mem_cons, ih i]
  have hheld : w.held = columns := by rw [held, hr]; rfl
  have hheld' : (w.countBatch i column batch).held = columns.modify i
      fun c => { c with complete := c.complete ++ [batch.numValues] } := by
    rw [held, countBatch, hr]
    rfl
  rw [NoLeftover, NoLeftover, hheld, hheld', hmodify]

theorem leftover_ensureRowGroup (w : FileWriter) : w.ensureRowGroup.NoLeftover ↔ w.NoLeftover := by
  rw [FileWriter.ensureRowGroup]
  split
  · rfl
  · rename_i hr
    constructor
    · intro _ c hc
      simp [held, hr] at hc
    · intro _ c hc
      obtain ⟨_, -, rfl⟩ := List.mem_map.mp hc
      rfl

/-- The steps of `carquet_writer_write_batch` that count. -/
theorem writeBatch_cases (w : FileWriter) (columnIndex : Int) (batch : BatchArgs)
    (outcome : WriteOutcome) (finalized : Except Status Unit) :
    (w.writeBatch columnIndex batch outcome finalized).2 = w ∧
        (∀ column, 0 ≤ columnIndex → w.columns[columnIndex.toNat]? ≠ some column) ∨
      (∃ status rows, outcome = .failed status rows ∧
        (w.writeBatch columnIndex batch outcome finalized).2 =
          w.ensureRowGroup.addLeftover columnIndex.toNat rows) ∨
      ∃ column, 0 ≤ columnIndex ∧ w.columns[columnIndex.toNat]? = some column ∧
        outcome = .taken ∧ (w.writeBatch columnIndex batch outcome finalized).2 =
          let w' := w.ensureRowGroup.countBatch columnIndex.toNat column batch
          if w'.autoFlushes then (w'.flushRowGroup finalized).2 else w' := by
  rw [writeBatch]
  split
  · rename_i hneg
    exact Or.inl ⟨rfl, fun column h0 => absurd h0 (by omega)⟩
  · rename_i hpos
    split
    · rename_i hnone
      exact Or.inl ⟨rfl, fun column _ => by rw [hnone]; simp⟩
    · rename_i column hsome
      cases outcome with
      | failed status rows => exact Or.inr (Or.inl ⟨status, rows, rfl, rfl⟩)
      | taken =>
        refine Or.inr (Or.inr ⟨column, by omega, hsome, rfl, ?_⟩)
        simp only
        split <;> rfl

theorem rowGroups_addLeftover (w : FileWriter) (i rows : Nat) :
    (w.addLeftover i rows).rowGroups = w.rowGroups := rfl

/-- **What one call preserves, and when it records only right row groups.** -/
theorem step_spec {w : FileWriter} (h : w.Counted) (c : Call)
    (hb : (∃ finalized, c = .newRowGroup finalized) → w.Balanced) :
    (w.step c).Counted ∧ ((w.step c).AllRight ↔ w.AllRight ∧ w.StepSafe c) := by
  cases c with
  | newRowGroup finalized =>
    exact ⟨h.flushRowGroup finalized, flushRowGroup_allRight h (hb ⟨finalized, rfl⟩) finalized⟩
  | writeBatch columnIndex batch outcome finalized =>
    change ((w.writeBatch columnIndex batch outcome finalized).2).Counted ∧
      ((w.writeBatch columnIndex batch outcome finalized).2.AllRight ↔ _)
    have hens := h.ensureRowGroup
    have hright : ∀ w' : FileWriter, w'.rowGroups = w.rowGroups → (w'.AllRight ↔ w.AllRight) := by
      intro w' heq
      rw [AllRight, AllRight, heq]
    rcases w.writeBatch_cases columnIndex batch outcome finalized with
      ⟨heq, hnone⟩ | ⟨status, rows, rfl, heq⟩ | ⟨column, hidx, hsome, rfl, heq⟩
    · rw [heq]
      refine ⟨h, iff_self_and.mpr fun _ column h0 hsome => ?_⟩
      exact absurd hsome (hnone column h0)
    · rw [heq]
      refine ⟨hens.addLeftover _ _, ?_⟩
      rw [hright _ ((rowGroups_addLeftover _ _ _).trans w.rowGroups_ensureRowGroup)]
      refine iff_self_and.mpr fun _ column _ _ hout => ?_
      simp at hout
    · obtain ⟨columns, hr⟩ := w.rowGroup_ensureRowGroup
      have hcol : w.ensureRowGroup.columns[columnIndex.toNat]? = some column := by
        rw [w.columns_ensureRowGroup]
        exact hsome
      have hcount := hens.countBatch hr hcol batch
      have hgroups : (w.ensureRowGroup.countBatch columnIndex.toNat column batch).rowGroups =
          w.rowGroups := w.rowGroups_ensureRowGroup
      have hsafe : w.StepSafe (.writeBatch columnIndex batch .taken finalized) ↔
          (finalized = .ok () →
            (w.ensureRowGroup.countBatch columnIndex.toNat column batch).autoFlushes = true →
            w.NoLeftover) := by
        constructor
        · exact fun hs => hs column hidx hsome rfl
        · intro hs column' _ hsome' _
          rw [hsome] at hsome'
          cases hsome'
          exact hs
      have hleft : (w.ensureRowGroup.countBatch columnIndex.toNat column batch).NoLeftover ↔
          w.NoLeftover := (leftover_countBatch hr _ _ _).trans w.leftover_ensureRowGroup
      rw [heq, hsafe, ← hleft]
      simp only
      generalize w.ensureRowGroup.countBatch columnIndex.toNat column batch = w' at *
      split
      · rename_i hauto
        refine ⟨hcount.flushRowGroup finalized, ?_⟩
        have haligned : w'.currentRowGroupIsAligned = true := by
          rw [autoFlushes, Bool.and_eq_true] at hauto
          exact hauto.2
        rcases w'.flushRowGroup_cases finalized with ⟨hsame, hnot⟩ | ⟨columns', hr', -, hok, hrec⟩
        · rw [hsame, hright w' hgroups]
          refine iff_self_and.mpr fun _ hok _ => ?_
          rcases hnot with h0 | h0 | h0
          · simp [currentRowGroupIsAligned, h0] at haligned
          · intro c hc
            simp [held, h0] at hc
          · exact absurd hok h0
        · rw [hrec]
          simp only [AllRight, hgroups, hok, hauto, true_implies]
          rw [allRight_append, flushed_right_of_aligned hcount hr' haligned]
      · rename_i hauto
        refine ⟨hcount, ?_⟩
        rw [hright w' hgroups]
        exact iff_self_and.mpr fun _ _ ha => absurd ha hauto

/-! ## Runs -/

theorem run_cons (w : FileWriter) (c : Call) (calls : List Call) :
    w.run (c :: calls) = (w.step c).run calls := rfl

/-- **What a run preserves, and when closing it leaves only right row groups.** -/
theorem run_spec {w : FileWriter} (h : w.Counted) {calls : List Call} (hb : w.BalancedRun calls)
    (finalized : Except Status Unit) {m : FileMetadata}
    (hclose : (w.run calls).close finalized = .ok m) :
    m.Right ↔ w.AllRight ∧ w.SafeRun calls := by
  induction calls generalizing w with
  | nil =>
    change w.close finalized = .ok m at hclose
    have hcount := h.flushRowGroup finalized
    have hright := flushRowGroup_allRight h hb finalized
    rw [close] at hclose
    split at hclose
    · simp at hclose
    · rename_i w' heq
      rw [heq] at hcount hright
      simp only [Except.ok.injEq] at hclose
      have hm : m.Right ↔ w'.AllRight := by
        rw [← hclose]
        exact ⟨fun hr => hr.rowGroups, fun hr => ⟨hr, hcount.totalRows⟩⟩
      rw [hm, hright, SafeRun]
      refine and_congr_right fun _ => ⟨fun hs => ?_, fun hs _ => hs⟩
      -- a close that succeeds without finalizing found no rows
      cases finalized with
      | ok u => exact hs rfl
      | error e =>
        rw [flushRowGroup] at heq
        split at heq
        · rename_i hnone
          refine Or.inl fun c hc => ?_
          simp [held, hnone] at hc
        · split at heq
          · rename_i h0
            refine Or.inl fun c hc rows hrows => ?_
            have := h.rows_ge rows (List.mem_flatMap.mpr ⟨c, hc, hrows⟩)
            omega
          · simp at heq
  | cons c calls ih =>
    have hsplit : ((∃ finalized, c = .newRowGroup finalized) → w.Balanced) ∧
        (w.step c).BalancedRun calls := by
      cases c with
      | newRowGroup finalized => exact ⟨fun _ => hb.1, hb.2⟩
      | writeBatch columnIndex batch outcome finalized =>
        exact ⟨fun ⟨_, hc⟩ => by simp at hc, hb⟩
    obtain ⟨hcount, hstep⟩ := step_spec h c hsplit.1
    rw [run_cons] at hclose
    rw [ih hcount hsplit.2 hclose, hstep, SafeRun, and_assoc]

/-- **In a run on flat columns that is balanced at every explicit flush and closes, the row
counts are right exactly when at each explicit flush some batch carried all rows of its column,
and no failed batch left rows behind before an automatic one.** -/
theorem close_right_iff {columns : List Column} (hflat : ∀ c ∈ columns, c.maxRepLevel ≤ 0)
    (rowGroupSize : Int) (calls : List Call)
    (hbalanced : (create columns rowGroupSize).BalancedRun calls)
    (finalized : Except Status Unit) (m : FileMetadata)
    (hclose : ((create columns rowGroupSize).run calls).close finalized = .ok m) :
    m.Right ↔ (create columns rowGroupSize).SafeRun calls := by
  rw [run_spec (counted_create hflat rowGroupSize) hbalanced finalized hclose]
  refine and_iff_right fun g hg => ?_
  simp [create] at hg

/-- A batch of an INT32 column. -/
def int32Batch (numValues : Nat) : Call :=
  .writeBatch 0 ⟨numValues, [], false, none⟩ .taken (.ok ())

/-- A file of one required INT32 column. -/
def int32File : FileWriter := create [⟨.int32, 0, 0, 0⟩] 0

/-- Four rows in one batch. -/
theorem oneBatch_right :
    FileMetadata.Right ⟨4, [⟨4, [4]⟩]⟩ ↔ int32File.SafeRun [int32Batch 4] :=
  close_right_iff (by decide) 0 [int32Batch 4] ⟨4, by decide⟩ (.ok ()) _ rfl

/-- Four rows in two batches: the row group says two. -/
theorem twoBatches_miscounted :
    int32File.BalancedRun [int32Batch 2, int32Batch 2] ∧
      (int32File.run [int32Batch 2, int32Batch 2]).close (.ok ()) = .ok ⟨2, [⟨2, [4]⟩]⟩ ∧
      ¬ FileMetadata.Right ⟨2, [⟨2, [4]⟩]⟩ := by
  refine ⟨⟨4, by decide⟩, rfl, fun h => ?_⟩
  have := h.rowGroups ⟨2, [4]⟩ (by simp) 4 (by simp)
  simp at this

end FileWriter

end Carquet
