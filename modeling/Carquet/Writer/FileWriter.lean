import Carquet.Reader.PageDecode

/-!
# Row groups of a file

How `src/writer/file_writer.c` counts the rows of the row group that is being written.

* `estimateColumnBatchBytes` — `estimate_column_batch_bytes` (file_writer.c:380-439).
* `FileWriter.flushRowGroup` — `flush_row_group` (file_writer.c:997-1288).
* `FileWriter.writeBatch` — `carquet_writer_write_batch` (file_writer.c:1782-1886).
* `FileWriter.newRowGroup`, `FileWriter.close` — `carquet_writer_new_row_group`,
  `carquet_writer_close` (file_writer.c:1888-1960).

Of the row group writer only the rows each of its column writers was given are kept
(`ColumnRows`). Whether a column takes a batch and whether a row group can be finalized is given
with each call; writing to the file and allocating memory do not fail.
-/

namespace Carquet

/-- The rows a column writer was given since the last flush: those of each batch it took, and
those that batches it refused half way left behind. -/
structure ColumnRows where
  complete : List Nat
  leftover : Nat
  deriving DecidableEq, Repr

def ColumnRows.total (c : ColumnRows) : Nat := c.complete.sum + c.leftover

def ColumnRows.empty : ColumnRows := ⟨[], 0⟩

/-- `row_group_info_t`: the row count and the `num_values` of each column chunk. -/
structure RowGroupInfo where
  numRows : Nat
  numValues : List Nat
  deriving DecidableEq, Repr

/-- `carquet_writer_t`, as far as rows are counted. `rowGroup` is `current_row_group`. -/
structure FileWriter where
  columns : List Column
  rowGroupSize : Int
  rowGroup : Option (List ColumnRows)
  columnValuesWritten : List Nat
  currentRowGroupRows : Nat
  estimatedBytes : Int
  rowGroups : List RowGroupInfo
  totalRows : Nat
  deriving DecidableEq, Repr

/-- A writer that was just created. -/
def FileWriter.create (columns : List Column) (rowGroupSize : Int) : FileWriter :=
  ⟨columns, rowGroupSize, none, columns.map fun _ => 0, 0, 0, [], 0⟩

/-! ## Estimates -/

def int64Max : Int := 9223372036854775807

/-- `saturating_add_i64` (file_writer.c:378-383). It takes a second summand of zero or less for
an overflow. -/
def saturatingAddI64 (lhs rhs : Int) : Int :=
  if rhs ≤ 0 ∨ int64Max - rhs ≤ lhs then int64Max else lhs + rhs

/-- What a caller passes for one column: row count, the lengths in the `carquet_byte_array_t`
cells of a BYTE_ARRAY column, levels. -/
structure BatchArgs where
  numValues : Nat
  lengths : List Int
  hasDefLevels : Bool
  repLevels : Option (List Int)
  deriving DecidableEq, Repr

/-- `estimate_column_batch_bytes` (file_writer.c:385-439). -/
def estimateColumnBatchBytes (column : Column) (batch : BatchArgs) : Int :=
  if batch.numValues = 0 then 0
  else
    let n : Int := batch.numValues
    let total : Int :=
      match column.type with
      | .boolean => n
      | .int32 | .float => n * 4
      | .int64 | .double => n * 8
      | .fixedLenByteArray => if 0 < column.typeLength then n * column.typeLength else 0
      | .byteArray => (batch.lengths.take batch.numValues).foldl
          (fun total length => saturatingAddI64 (saturatingAddI64 total 4) length) 0
      | .int96 => 0
    let total :=
      if 0 < column.maxDefLevel ∧ batch.hasDefLevels then saturatingAddI64 total (n * 2) else total
    if 0 < column.maxRepLevel ∧ batch.repLevels.isSome then saturatingAddI64 total (n * 2)
    else total

/-! ## Steps -/

namespace FileWriter

/-- `writer_supports_aligned_auto_flush` (file_writer.c:441-453). -/
def supportsAlignedAutoFlush (w : FileWriter) : Bool :=
  decide (0 < w.rowGroupSize) && !w.columns.isEmpty && w.columns.all (·.maxRepLevel ≤ 0)

/-- `current_row_group_is_aligned` (file_writer.c:455-468). -/
def currentRowGroupIsAligned (w : FileWriter) : Bool :=
  decide (0 < w.currentRowGroupRows) && w.columnValuesWritten.all (· == w.currentRowGroupRows)

/-- The counters of a new row group (file_writer.c:988-992, 1281-1285). -/
def resetCounters (w : FileWriter) : FileWriter :=
  { w with
    columnValuesWritten := w.columns.map fun _ => 0
    currentRowGroupRows := 0
    estimatedBytes := 0 }

/-- The row group writer, made if there is none, as `ensure_row_group` does. -/
def ensureRowGroup (w : FileWriter) : FileWriter :=
  match w.rowGroup with
  | some _ => w
  | none => { w.resetCounters with rowGroup := some (w.columns.map fun _ => .empty) }

/-- `flush_row_group` (file_writer.c:997-1288); `finalized` is the status of finalizing the row
group writer. -/
def flushRowGroup (w : FileWriter) (finalized : Except Status Unit) :
    Except Status Unit × FileWriter :=
  match w.rowGroup with
  | none => (.ok (), w)
  | some columns =>
    if w.currentRowGroupRows = 0 then (.ok (), w)
    else
      match finalized with
      | .error e => (.error e, w)
      | .ok () =>
        (.ok (), { w.resetCounters with
          rowGroup := some (columns.map fun _ => .empty)
          rowGroups := w.rowGroups ++ [⟨w.currentRowGroupRows, columns.map (·.total)⟩]
          totalRows := w.totalRows + w.currentRowGroupRows })

/-- What became of a batch: the column writer took it, or failed after some of its rows. -/
inductive WriteOutcome where
  | taken
  | failed (status : Status) (rows : Nat)
  deriving DecidableEq, Repr

/-- The rows of a batch (file_writer.c:1849-1856). -/
def batchRows (column : Column) (batch : BatchArgs) : Nat :=
  match batch.repLevels with
  | some repLevels =>
    if 0 < column.maxRepLevel then (repLevels.take batch.numValues).countP (· == 0)
    else batch.numValues
  | none => batch.numValues

/-- Rows left behind by a batch that failed. -/
def addLeftover (w : FileWriter) (column rows : Nat) : FileWriter :=
  { w with rowGroup := w.rowGroup.map fun columns =>
      columns.modify column fun c => { c with leftover := c.leftover + rows } }

/-- The writer when a column has taken a batch (file_writer.c:1846-1868). -/
def countBatch (w : FileWriter) (index : Nat) (column : Column) (batch : BatchArgs) :
    FileWriter :=
  { w with
    rowGroup := w.rowGroup.map fun columns =>
      columns.modify index fun c => { c with complete := c.complete ++ [batch.numValues] }
    columnValuesWritten := w.columnValuesWritten.modify index (· + batch.numValues)
    currentRowGroupRows := max w.currentRowGroupRows (batchRows column batch)
    estimatedBytes := saturatingAddI64 w.estimatedBytes (estimateColumnBatchBytes column batch) }

/-- Whether the row group is flushed behind a batch (file_writer.c:1870-1872). -/
def autoFlushes (w : FileWriter) : Bool :=
  w.supportsAlignedAutoFlush && decide (w.rowGroupSize < w.estimatedBytes) &&
    w.currentRowGroupIsAligned

/-- `carquet_writer_write_batch` (file_writer.c:1782-1886). -/
def writeBatch (w : FileWriter) (columnIndex : Int) (batch : BatchArgs) (outcome : WriteOutcome)
    (finalized : Except Status Unit) : Except Status Unit × FileWriter :=
  if columnIndex < 0 then (.error .invalidArgument, w)
  else
    match w.columns[columnIndex.toNat]? with
    | none => (.error .invalidArgument, w)
    | some column =>
      let w := w.ensureRowGroup
      match outcome with
      | .failed status rows => (.error status, w.addLeftover columnIndex.toNat rows)
      | .taken =>
        let w := w.countBatch columnIndex.toNat column batch
        if w.autoFlushes then w.flushRowGroup finalized else (.ok (), w)

/-- `carquet_writer_new_row_group` (file_writer.c:1888-1898). -/
def newRowGroup (w : FileWriter) (finalized : Except Status Unit) :
    Except Status Unit × FileWriter := w.flushRowGroup finalized

/-- The row counts of the footer (file_writer.c:1308-1310, 1390 on). -/
structure FileMetadata where
  numRows : Nat
  rowGroups : List RowGroupInfo
  deriving DecidableEq, Repr

/-- `carquet_writer_close` (file_writer.c:1900-1960): the footer, if the last row group can be
finalized. -/
def close (w : FileWriter) (finalized : Except Status Unit) : Except Status FileMetadata :=
  match w.flushRowGroup finalized with
  | (.error e, _) => .error e
  | (.ok (), w) => .ok ⟨w.totalRows, w.rowGroups⟩

/-! ## Runs -/

/-- A call on the writer before it is closed. -/
inductive Call where
  | writeBatch (columnIndex : Int) (batch : BatchArgs) (outcome : WriteOutcome)
      (finalized : Except Status Unit)
  | newRowGroup (finalized : Except Status Unit)

def step (w : FileWriter) : Call → FileWriter
  | .writeBatch columnIndex batch outcome finalized =>
    (w.writeBatch columnIndex batch outcome finalized).2
  | .newRowGroup finalized => (w.newRowGroup finalized).2

/-- The writer after the calls, whatever they returned. -/
def run (w : FileWriter) (calls : List Call) : FileWriter := calls.foldl step w

end FileWriter

end Carquet
