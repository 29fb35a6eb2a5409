import Carquet.Writer.FileWriterSpec

/-!
# The size of the row group being written (`src/writer/file_writer.c:378-439, 1865-1881`)

`current_row_group_estimated_bytes` decides when a row group is flushed on its own. It is meant to
be a sum that stops at `INT64_MAX`, of estimates of what each batch supplies. `saturatingAddI64`
takes a summand of zero for an overflow, and `estimateColumnBatchBytes` counts a value for every
row, nulls included; so the sum is right exactly for the batches with something to count, no nulls
and no empty string, unless it is at its limit anyway.
-/

namespace Carquet

/-! ## What a batch supplies -/

/-- The values a caller passes for `num_values` rows: one for every level that is not a null. -/
def presentValues (column : Column) (numValues : Nat) (defLevels : Option (List Int)) : Nat :=
  match defLevels with
  | some levels =>
    if 0 < column.maxDefLevel then (levels.take numValues).countP (· == column.maxDefLevel)
    else numValues
  | none => numValues

theorem presentValues_le (column : Column) (numValues : Nat) (defLevels : Option (List Int)) :
    presentValues column numValues defLevels ≤ numValues := by
  unfold presentValues
  split
  · split
    · exact List.countP_le_length.trans (List.length_take_le _ _)
    · exact Nat.le_refl _
  · exact Nat.le_refl _

/-- A batch for a column. `cells i` is the `length` of `arrays[i]` of a BYTE_ARRAY column; behind
the values supplied it is what the memory there holds. The products of the estimate are `int64_t`,
and the program is defined only where they do not overflow. -/
structure SuppliedBatch (column : Column) where
  numValues : Nat
  defLevels : Option (List Int)
  repLevels : Option (List Int)
  cells : Nat → Int
  nonneg : ∀ i < presentValues column numValues defLevels, 0 ≤ cells i
  fits : (numValues : Int) * max 8 column.typeLength < 9223372036854775808

variable {column : Column}

namespace SuppliedBatch

/-- The values supplied. -/
def present (b : SuppliedBatch column) : Nat :=
  presentValues column b.numValues b.defLevels

/-- The batch as `estimate_column_batch_bytes` reads it. -/
def args (b : SuppliedBatch column) : BatchArgs :=
  ⟨b.numValues, (List.range b.numValues).map b.cells, b.defLevels.isSome, b.repLevels⟩

/-- The size of the first `count` values; an INT96 is not counted. -/
def valueBytes (b : SuppliedBatch column) (count : Nat) : Int :=
  match column.type with
  | .boolean => count
  | .int32 | .float => count * 4
  | .int64 | .double => count * 8
  | .fixedLenByteArray => if 0 < column.typeLength then count * column.typeLength else 0
  | .byteArray => ((List.range count).map fun i => 4 + b.cells i).sum
  | .int96 => 0

/-- The size of the levels. -/
def levelBytes (b : SuppliedBatch column) : Int :=
  (if 0 < column.maxDefLevel ∧ b.defLevels.isSome then (b.numValues : Int) * 2 else 0) +
    (if 0 < column.maxRepLevel ∧ b.repLevels.isSome then (b.numValues : Int) * 2 else 0)

/-- The size of the values and levels supplied. -/
def suppliedBytes (b : SuppliedBatch column) : Int := b.valueBytes b.present + b.levelBytes

/-- Whether `estimate_column_batch_bytes` meets a length of zero or less. -/
def MeetsEmpty (b : SuppliedBatch column) : Prop :=
  column.type = .byteArray ∧ ∃ i < b.numValues, b.cells i ≤ 0

end SuppliedBatch

/-! ## Saturating sums -/

theorem saturatingAddI64_pos {lhs rhs : Int} (h : 0 < rhs) :
    saturatingAddI64 lhs rhs = min (lhs + rhs) int64Max := by
  unfold saturatingAddI64
  split <;> omega

theorem saturatingAddI64_nonpos (lhs : Int) {rhs : Int} (h : rhs ≤ 0) :
    saturatingAddI64 lhs rhs = int64Max := if_pos (.inl h)

theorem saturatingAddI64_max (rhs : Int) : saturatingAddI64 int64Max rhs = int64Max := by
  unfold saturatingAddI64
  split <;> omega

theorem saturatingAddI64_bounds {lhs : Int} (rhs : Int) (h0 : 0 ≤ lhs) :
    0 ≤ saturatingAddI64 lhs rhs ∧ saturatingAddI64 lhs rhs ≤ int64Max := by
  unfold saturatingAddI64 int64Max
  split <;> omega

/-- What one cell of a BYTE_ARRAY column adds. -/
theorem foldl_cells (lengths : List Int) :
    ∀ total : Int, 0 ≤ total → total ≤ int64Max →
      lengths.foldl (fun total length => saturatingAddI64 (saturatingAddI64 total 4) length) total =
        if ∃ length ∈ lengths, length ≤ 0 then int64Max
        else min (total + (lengths.map fun length => 4 + length).sum) int64Max := by
  induction lengths with
  | nil =>
    intro total _ hmax
    simp [hmax]
  | cons length lengths ih =>
    intro total h0 hmax
    have hmax0 : (0 : Int) ≤ int64Max := by decide
    obtain ⟨h0', hmax'⟩ := saturatingAddI64_bounds length
      (@saturatingAddI64_bounds total 4 h0).1
    rw [List.foldl_cons, ih _ h0' hmax']
    simp only [List.mem_cons, exists_eq_or_imp, List.map_cons, List.sum_cons]
    by_cases hbad : ∃ x ∈ lengths, x ≤ 0
    · rw [if_pos hbad, if_pos (.inr hbad)]
    · rw [if_neg hbad]
      have hsum : 0 ≤ (lengths.map fun length => 4 + length).sum := by
        apply List.sum_nonneg
        intro x hx
        obtain ⟨y, hy, rfl⟩ := List.mem_map.1 hx
        have : ¬ y ≤ 0 := fun hle => hbad ⟨y, hy, hle⟩
        omega
      by_cases hlen : length ≤ 0
      · rw [if_pos (.inl hlen), saturatingAddI64_nonpos _ hlen]
        omega
      · rw [if_neg (not_or.2 ⟨hlen, hbad⟩), saturatingAddI64_pos (by omega),
          saturatingAddI64_pos (by omega)]
        omega

/-! ## The estimate in closed form -/

namespace SuppliedBatch

theorem valueBytes_nonneg (b : SuppliedBatch column) {count : Nat}
    (h : column.type = .byteArray → ∀ i < count, 0 ≤ b.cells i) : 0 ≤ b.valueBytes count := by
  unfold valueBytes
  cases htype : column.type <;> simp only
  case byteArray =>
    apply List.sum_nonneg
    intro x hx
    obtain ⟨i, hi, rfl⟩ := List.mem_map.1 hx
    have := h htype i (List.mem_range.1 hi)
    omega
  case fixedLenByteArray =>
    split
    · exact Int.mul_nonneg (by omega) (by omega)
    · exact Int.le_refl 0
  all_goals omega

theorem levelBytes_nonneg (b : SuppliedBatch column) : 0 ≤ b.levelBytes := by
  unfold levelBytes
  split <;> split <;> omega

/-- The product of a fixed-width column stays in an `int64_t`. -/
theorem valueBytes_le (b : SuppliedBatch column) (h : column.type ≠ .byteArray) :
    b.valueBytes b.numValues ≤ int64Max := by
  have hfits := b.fits
  have hwidth : (b.numValues : Int) * 8 ≤ b.numValues * max 8 column.typeLength :=
    Int.mul_le_mul_of_nonneg_left (by omega) (by omega)
  have hlength : (b.numValues : Int) * column.typeLength ≤ b.numValues * max 8 column.typeLength :=
    Int.mul_le_mul_of_nonneg_left (by omega) (by omega)
  unfold valueBytes int64Max
  cases htype : column.type <;> simp only
  case byteArray => exact absurd htype h
  case fixedLenByteArray => split <;> omega
  all_goals omega

/-- Levels on top of a sum: they are never zero bytes, so they are added as they should be. -/
theorem add_levels (b : SuppliedBatch column) (total : Int) (hpos : 0 < b.numValues) :
    (let total := if 0 < column.maxDefLevel ∧ b.args.hasDefLevels then
        saturatingAddI64 (min total int64Max) ((b.args.numValues : Int) * 2)
      else min total int64Max
    if 0 < column.maxRepLevel ∧ b.args.repLevels.isSome then
      saturatingAddI64 total ((b.args.numValues : Int) * 2)
    else total) = min (total + b.levelBytes) int64Max := by
  have hn : b.args.numValues = b.numValues := rfl
  have hd : b.args.hasDefLevels = b.defLevels.isSome := rfl
  have hr : b.args.repLevels = b.repLevels := rfl
  simp only [hn, hd, hr, levelBytes]
  rw [saturatingAddI64_pos (by omega), saturatingAddI64_pos (by omega)]
  split <;> split <;> omega

/-- **The estimate.** It is the size of a value for every row, cut off at `INT64_MAX`; or that
limit itself once it meets an empty string. -/
theorem estimate_eq (b : SuppliedBatch column) [Decidable b.MeetsEmpty] (hpos : 0 < b.numValues) :
    estimateColumnBatchBytes column b.args =
      if b.MeetsEmpty then int64Max
      else min (b.valueBytes b.numValues + b.levelBytes) int64Max := by
  have hn : b.args.numValues = b.numValues := rfl
  have hcells : (b.args.lengths.take b.args.numValues) = (List.range b.numValues).map b.cells := by
    rw [List.take_of_length_le (by simp [args])]
    rfl
  rw [estimateColumnBatchBytes, if_neg (by omega)]
  by_cases htype : column.type = .byteArray
  · have hmeets : b.MeetsEmpty ↔ ∃ length ∈ (List.range b.numValues).map b.cells, length ≤ 0 := by
      simp [MeetsEmpty, htype]
    have hfold := foldl_cells ((List.range b.numValues).map b.cells) 0 (by decide) (by decide)
    simp only [htype, hcells, hfold]
    by_cases hbad : b.MeetsEmpty
    · rw [if_pos (hmeets.1 hbad), if_pos hbad, saturatingAddI64_max, ite_self,
        saturatingAddI64_max, ite_self]
    · have hall : ∀ i < b.numValues, 0 ≤ b.cells i := by
        intro i hi
        by_contra hneg
        exact hbad ⟨htype, i, hi, by omega⟩
      have hbytes : b.valueBytes b.numValues =
          0 + (((List.range b.numValues).map b.cells).map fun length => 4 + length).sum := by
        rw [valueBytes, htype, List.map_map, Int.zero_add]
        rfl
      rw [if_neg (fun h => hbad (hmeets.2 h)), if_neg hbad, ← hbytes]
      exact b.add_levels _ hpos
  · have hnot : ¬ b.MeetsEmpty := fun h => htype h.1
    have hle := b.valueBytes_le htype
    have hadd := b.add_levels (b.valueBytes b.numValues) hpos
    rw [min_eq_left hle] at hadd
    rw [if_neg hnot, ← hadd]
    unfold valueBytes
    cases htype' : column.type <;> first | rfl | exact absurd htype' htype

theorem estimate_zero (b : SuppliedBatch column) (h : b.numValues = 0) :
    estimateColumnBatchBytes column b.args = 0 := if_pos h

/-! ## Nulls -/

/-- Bytes of a value of a fixed-width type, as far as they are counted. -/
def valueWidth (column : Column) : Int :=
  match column.type with
  | .boolean => 1
  | .int32 | .float => 4
  | .int64 | .double => 8
  | .fixedLenByteArray => if 0 < column.typeLength then column.typeLength else 0
  | .byteArray | .int96 => 0

theorem valueBytes_fixed (b : SuppliedBatch column) (h : column.type ≠ .byteArray) (count : Nat) :
    b.valueBytes count = count * valueWidth column := by
  unfold valueBytes valueWidth
  cases htype : column.type <;> simp only
  case byteArray => exact absurd htype h
  case fixedLenByteArray => split <;> simp
  all_goals omega

theorem valueWidth_nonneg (column : Column) : 0 ≤ valueWidth column := by
  unfold valueWidth
  cases column.type <;> simp only
  case fixedLenByteArray => split <;> omega
  all_goals omega

/-- Counting more cells counts more bytes, unless the values have no size. -/
theorem valueBytes_eq_iff (b : SuppliedBatch column) (h : ¬ b.MeetsEmpty) :
    b.valueBytes b.present ≤ b.valueBytes b.numValues ∧
      (b.valueBytes b.present = b.valueBytes b.numValues ↔
        b.present = b.numValues ∨ (column.type ≠ .byteArray ∧ valueWidth column = 0)) := by
  have hle : b.present ≤ b.numValues := presentValues_le column b.numValues b.defLevels
  by_cases htype : column.type = .byteArray
  · have hcells : ∀ i < b.numValues, 0 < b.cells i := by
      intro i hi
      by_contra hneg
      exact h ⟨htype, i, hi, by omega⟩
    have hgrow : ∀ d, b.present + d ≤ b.numValues →
        b.valueBytes b.present + d ≤ b.valueBytes (b.present + d) := by
      intro d
      induction d with
      | zero => intro _; simp
      | succ d ih =>
        intro hd
        have hih := ih (by omega)
        have hcell := hcells (b.present + d) (by omega)
        have hsucc : b.valueBytes (b.present + (d + 1)) =
            b.valueBytes (b.present + d) + (4 + b.cells (b.present + d)) := by
          unfold valueBytes
          simp only [htype]
          rw [← Nat.add_assoc, List.range_succ, List.map_append, List.sum_append]
          simp
        rw [hsucc]
        push_cast
        omega
    have hlast := hgrow (b.numValues - b.present) (by omega)
    rw [Nat.add_sub_cancel' hle] at hlast
    refine ⟨by omega, fun heq => .inl (by omega), ?_⟩
    rintro (heq | ⟨hno, -⟩)
    · rw [heq]
    · exact absurd htype hno
  · have hwidth := valueWidth_nonneg column
    rw [b.valueBytes_fixed htype, b.valueBytes_fixed htype]
    refine ⟨Int.mul_le_mul_of_nonneg_right (by omega) hwidth, ?_, ?_⟩
    · intro heq
      by_cases hzero : valueWidth column = 0
      · exact .inr ⟨htype, hzero⟩
      · exact .inl (by exact_mod_cast Int.eq_of_mul_eq_mul_right hzero heq)
    · rintro (heq | ⟨-, hzero⟩)
      · rw [heq]
      · rw [hzero, Int.mul_zero, Int.mul_zero]

theorem suppliedBytes_nonneg (b : SuppliedBatch column) : 0 ≤ b.suppliedBytes := by
  have hvalues := @SuppliedBatch.valueBytes_nonneg _ b b.present fun _ => b.nonneg
  have hlevels := b.levelBytes_nonneg
  unfold suppliedBytes
  omega

/-- The batches that are accounted for as supplied: those that take the sum to its limit anyway,
and those with bytes to count, no nulls (or values of no counted size) and no empty string. -/
def Accountable (b : SuppliedBatch column) (current : Int) : Prop :=
  int64Max ≤ current + b.suppliedBytes ∨
    (0 < b.suppliedBytes ∧ ¬ b.MeetsEmpty ∧
      (b.present = b.numValues ∨ (column.type ≠ .byteArray ∧ valueWidth column = 0)))

/-- The sum behind the batch is the saturating sum exactly for these. -/
theorem saturating_iff (b : SuppliedBatch column) {current : Int} (h0 : 0 ≤ current) :
    saturatingAddI64 current (estimateColumnBatchBytes column b.args) =
        min (current + b.suppliedBytes) int64Max ↔ b.Accountable current := by
  classical
  have hsupplied := b.suppliedBytes_nonneg
  have hmax : (0 : Int) < int64Max := by decide
  unfold Accountable
  by_cases hn : b.numValues = 0
  · have hpresent : b.present = 0 := by
      have : b.present ≤ b.numValues := presentValues_le column b.numValues b.defLevels
      omega
    have hzero : b.suppliedBytes = 0 := by
      unfold suppliedBytes levelBytes valueBytes
      rw [hpresent, hn]
      cases column.type <;> simp
    rw [b.estimate_zero hn, saturatingAddI64_nonpos _ (Int.le_refl 0), hzero]
    omega
  · rw [b.estimate_eq (by omega)]
    by_cases hempty : b.MeetsEmpty
    · rw [if_pos hempty, saturatingAddI64_pos hmax]
      constructor
      · intro _
        exact .inl (by omega)
      · rintro (hlimit | ⟨-, hno, -⟩)
        · omega
        · exact absurd hempty hno
    · obtain ⟨hle, hiff⟩ := b.valueBytes_eq_iff hempty
      have hlevels := b.levelBytes_nonneg
      have hdef : b.suppliedBytes = b.valueBytes b.present + b.levelBytes := rfl
      rw [if_neg hempty, ← hiff]
      by_cases hzero : b.valueBytes b.numValues + b.levelBytes ≤ 0
      · rw [saturatingAddI64_nonpos _ (by omega)]
        omega
      · rw [saturatingAddI64_pos (by omega)]
        constructor
        · intro heq
          by_cases hlimit : int64Max ≤ current + b.suppliedBytes
          · exact .inl hlimit
          · exact .inr ⟨by omega, hempty, by omega⟩
        · rintro (hlimit | ⟨-, -, heq⟩) <;> omega

end SuppliedBatch

/-! ## Runs -/

theorem zero_le_int64Max : (0 : Int) ≤ int64Max := by decide

namespace FileWriter

/-- What the calls leave alone, and the range of the size. -/
structure Sized (columns : List Column) (rowGroupSize : Int) (w : FileWriter) : Prop where
  columns_eq : w.columns = columns
  rowGroupSize_eq : w.rowGroupSize = rowGroupSize
  nonneg : 0 ≤ w.estimatedBytes
  le_max : w.estimatedBytes ≤ int64Max

variable {columns : List Column} {rowGroupSize : Int} {w : FileWriter}

theorem Sized.ensureRowGroup (h : w.Sized columns rowGroupSize) :
    w.ensureRowGroup.Sized columns rowGroupSize := by
  unfold FileWriter.ensureRowGroup
  split
  · exact h
  · exact ⟨h.columns_eq, h.rowGroupSize_eq, Int.le_refl 0, zero_le_int64Max⟩

theorem Sized.countBatch (h : w.Sized columns rowGroupSize) (index : Nat) (column : Column)
    (batch : BatchArgs) : (w.countBatch index column batch).Sized columns rowGroupSize := by
  obtain ⟨h1, h2⟩ :=
    saturatingAddI64_bounds (estimateColumnBatchBytes column batch) h.nonneg
  exact ⟨h.columns_eq, h.rowGroupSize_eq, h1, h2⟩

theorem Sized.flushRowGroup (h : w.Sized columns rowGroupSize) (finalized : Except Status Unit) :
    (w.flushRowGroup finalized).2.Sized columns rowGroupSize := by
  obtain ⟨heq, -⟩ | ⟨held, -, -, -, heq⟩ := flushRowGroup_cases w finalized
  · rw [heq]
    exact h
  · rw [heq]
    exact ⟨h.columns_eq, h.rowGroupSize_eq, Int.le_refl 0, zero_le_int64Max⟩

theorem Sized.step (h : w.Sized columns rowGroupSize) (call : Call) :
    (w.step call).Sized columns rowGroupSize := by
  cases call with
  | newRowGroup finalized => exact h.flushRowGroup finalized
  | writeBatch columnIndex batch outcome finalized =>
    obtain ⟨heq, -⟩ | ⟨status, rows, -, heq⟩ | ⟨column, -, -, -, heq⟩ :=
      writeBatch_cases w columnIndex batch outcome finalized
    · rw [FileWriter.step, heq]
      exact h
    · rw [FileWriter.step, heq]
      have hgroup := h.ensureRowGroup
      exact ⟨hgroup.columns_eq, hgroup.rowGroupSize_eq, hgroup.nonneg, hgroup.le_max⟩
    · rw [FileWriter.step, heq]
      have hcount := h.ensureRowGroup.countBatch columnIndex.toNat column batch
      simp only
      split
      · exact hcount.flushRowGroup finalized
      · exact hcount

/-- In every run the size is an `int64_t` of zero or more. -/
theorem sized_run (columns : List Column) (rowGroupSize : Int) (calls : List Call) :
    ((create columns rowGroupSize).run calls).Sized columns rowGroupSize := by
  have hrun : ∀ (calls : List Call) (w : FileWriter), w.Sized columns rowGroupSize →
      (w.run calls).Sized columns rowGroupSize := by
    intro calls
    induction calls with
    | nil => exact fun w h => h
    | cons call calls ih => exact fun w h => ih _ (h.step call)
  exact hrun calls _ ⟨rfl, rfl, Int.le_refl 0, zero_le_int64Max⟩

/-- A batch is accounted for: the size becomes the saturating sum with what it supplies, and in a
file of flat columns whose row groups have a size, a row group is flushed behind it exactly when
the columns are aligned and that sum is above the size. -/
def AccountsFor (w : FileWriter) (index : Nat) (b : SuppliedBatch column) : Prop :=
  let w' := w.countBatch index column b.args
  let sum := min (w.estimatedBytes + b.suppliedBytes) int64Max
  w'.estimatedBytes = sum ∧
    ((∀ c ∈ w.columns, c.maxRepLevel ≤ 0) → 0 < w.rowGroupSize →
      (w'.autoFlushes ↔ w'.currentRowGroupIsAligned ∧ w.rowGroupSize < sum))

/-- **When the size of a row group is a saturating sum.** After any calls on a writer, the next
batch of a column is accounted for exactly when it takes the sum to its limit anyway, or has bytes
to count, no nulls and no empty string. -/
theorem accountsFor_iff (columns : List Column) (rowGroupSize : Int) (calls : List Call)
    (index : Fin columns.length) (b : SuppliedBatch columns[index]) :
    let w := ((create columns rowGroupSize).run calls).ensureRowGroup
    w.AccountsFor index b ↔ b.Accountable w.estimatedBytes := by
  intro w
  have hsized : w.Sized columns rowGroupSize :=
    (sized_run columns rowGroupSize calls).ensureRowGroup
  have hsum := b.saturating_iff hsized.nonneg
  have hcount : (w.countBatch index columns[index] b.args).estimatedBytes =
      saturatingAddI64 w.estimatedBytes (estimateColumnBatchBytes columns[index] b.args) := rfl
  rw [← hsum, ← hcount]
  constructor
  · exact fun h => h.1
  · intro heq
    refine ⟨heq, fun hflat hsize => ?_⟩
    have hcolumns : (w.countBatch index columns[index] b.args).columns = w.columns := rfl
    have hgroupSize : (w.countBatch index columns[index] b.args).rowGroupSize = w.rowGroupSize :=
      rfl
    have hnonempty : w.columns.isEmpty = false := by
      have hlt := index.isLt
      rw [hsized.columns_eq, List.isEmpty_eq_false_iff]
      rintro rfl
      exact absurd hlt (by simp)
    have hsupports : (w.countBatch index columns[index] b.args).supportsAlignedAutoFlush = true := by
      rw [supportsAlignedAutoFlush, hcolumns, hgroupSize, hnonempty]
      simpa [hsize] using hflat
    rw [autoFlushes, hsupports, hgroupSize, heq]
    simp [and_comm]

/-- A column of required strings. -/
def stringColumn : Column := ⟨.byteArray, 0, 0, 0⟩

/-- One empty string. -/
def emptyString : SuppliedBatch stringColumn where
  numValues := 1
  defLevels := none
  repLevels := none
  cells := fun _ => 0
  nonneg := fun _ _ => Int.le_refl 0
  fits := by decide

/-- An empty string takes an empty row group of 128 MiB to its limit, and it is flushed. -/
theorem emptyString_unaccounted :
    ¬ ((create [stringColumn] 134217728).run []).ensureRowGroup.AccountsFor 0 emptyString := by
  rintro ⟨heq, -⟩
  revert heq
  decide

end FileWriter

end Carquet
