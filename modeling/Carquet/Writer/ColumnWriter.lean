import Carquet.Encoding.Plain
import Carquet.Reader.PageDecode

/-!
# Cutting a batch into chunks for the page writer

* `writeBatch` — `carquet_column_writer_write_batch` (column_writer.c:807-889).
* `dictAccumulate` — `dict_accumulate` (column_writer.c:727-805).
* `dictFallbackToPlain` — `dict_fallback_to_plain` (column_writer.c:969-1037).

A pointer to an array is what lies behind it: the rest of the array. The page writer is a
parameter (`PageSink`): what is shown here holds for whatever it does with its chunks.
-/

namespace Carquet

/-- The arguments of a call that writes rows: packed values, row count, levels or `NULL`. -/
structure ChunkArgs (α : Type) where
  values : List α
  numValues : Nat
  defLevels : Option (List Int)
  repLevels : Option (List Int)
  deriving DecidableEq, Repr

/-- The page writer of a column: `carquet_page_writer_add_values`, `_estimated_size`,
`_num_values`, and `flush_current_page`. -/
structure PageSink (σ α : Type) where
  addValues : σ → ChunkArgs α → Except Status Unit × σ
  estimatedSize : σ → Nat
  numValues : σ → Nat
  flushCurrentPage : σ → Except Status Unit × σ

/-- The settings of a column writer that cut a batch. -/
structure ColumnWriterOptions where
  column : Column
  targetPageSize : Nat
  writeBatchSize : Int
  maxRowsPerPage : Int
  useDictionary : Bool
  deriving DecidableEq, Repr

/-- The rows buffered for the dictionary of a chunk. -/
structure DictBuffers (α : Type) where
  totalRows : Nat
  values : List α
  defLevels : List Int
  repLevels : List Int
  deriving DecidableEq, Repr

variable {σ α : Type}

/-- `num_non_null` of the rows of a call (column_writer.c:654-658, 733-738). -/
def numNonNull (maxDefLevel : Int) (args : ChunkArgs α) : Nat :=
  match args.defLevels with
  | some defLevels =>
    if 0 < maxDefLevel then countNonNulls (defLevels.take args.numValues) maxDefLevel
    else args.numValues
  | none => args.numValues

/-- The arguments `offset` cells and rows further on (column_writer.c:855-863). -/
def ChunkArgs.shift (args : ChunkArgs α) (offset chunk : Nat) : ChunkArgs α :=
  ⟨args.values.drop offset, chunk, args.defLevels.map (·.drop offset),
    args.repLevels.map (·.drop offset)⟩

/-- `max_chunk` (column_writer.c:830-848). -/
def maxChunk (w : ColumnWriterOptions) (numValues : Nat) : Nat :=
  let stride := physicalTypeStride w.column.type w.column.typeLength
  let chunk :=
    if 0 < stride then max (toI64 ((w.targetPageSize / stride : Nat) : Int)) 1024 else numValues
  if 0 < w.writeBatchSize ∧ w.writeBatchSize < chunk then w.writeBatchSize.toNat else chunk.toNat

/-- What a call did: its status, the page writer afterwards, the chunks given to the page
writer and those given to the bloom filter. -/
structure WriteTrace (σ α : Type) where
  status : Except Status Unit
  pages : σ
  pageChunks : List (ChunkArgs α)
  bloomChunks : List (ChunkArgs α)

/-- One more chunk, in front. -/
def WriteTrace.after (t : WriteTrace σ α) (args : ChunkArgs α) : WriteTrace σ α :=
  { t with pageChunks := args :: t.pageChunks, bloomChunks := args :: t.bloomChunks }

/-- Whether the page is full (column_writer.c:880-882). -/
def pageIsFull (w : ColumnWriterOptions) (sink : PageSink σ α) (s : σ) : Bool :=
  decide (w.targetPageSize ≤ sink.estimatedSize s ∨
    (0 < w.maxRowsPerPage ∧ w.maxRowsPerPage ≤ sink.numValues s))

/-- The loop of `carquet_column_writer_write_batch` (column_writer.c:853-886). -/
def writeChunks (w : ColumnWriterOptions) (sink : PageSink σ α) (args : ChunkArgs α) :
    Nat → σ → Nat → WriteTrace σ α
  | 0, s, _ => ⟨.ok (), s, [], []⟩
  | fuel + 1, s, offset =>
    if offset < args.numValues then
      let chunk := min (maxChunk w args.numValues) (args.numValues - offset)
      let chunkArgs := args.shift offset chunk
      match sink.addValues s chunkArgs with
      | (.error e, s) => ⟨.error e, s, [chunkArgs], []⟩
      | (.ok (), s) =>
        if pageIsFull w sink s then
          match sink.flushCurrentPage s with
          | (.error e, s) => ⟨.error e, s, [chunkArgs], [chunkArgs]⟩
          | (.ok (), s) => (writeChunks w sink args fuel s (offset + chunk)).after chunkArgs
        else (writeChunks w sink args fuel s (offset + chunk)).after chunkArgs
    else ⟨.ok (), s, [], []⟩

/-- `dict_accumulate` (column_writer.c:727-805). -/
def dictAccumulate (column : Column) (dict : DictBuffers α) (args : ChunkArgs α) :
    DictBuffers α where
  totalRows := dict.totalRows + args.numValues
  values := dict.values ++ args.values.take (numNonNull column.maxDefLevel args)
  defLevels :=
    if 0 < column.maxDefLevel then
      dict.defLevels ++ match args.defLevels with
        | some defLevels => defLevels.take args.numValues
        | none => List.replicate args.numValues column.maxDefLevel
    else dict.defLevels
  repLevels :=
    match args.repLevels with
    | some repLevels =>
      if 0 < column.maxRepLevel then dict.repLevels ++ repLevels.take args.numValues
      else dict.repLevels
    | none => dict.repLevels

/-- `carquet_column_writer_write_batch` (column_writer.c:807-889). With a dictionary the batch is
buffered whole. -/
def writeBatch (w : ColumnWriterOptions) (sink : PageSink σ α) (s : σ) (dict : DictBuffers α)
    (args : ChunkArgs α) : WriteTrace σ α × DictBuffers α :=
  if w.useDictionary then (⟨.ok (), s, [], [args]⟩, dictAccumulate w.column dict args)
  else (writeChunks w sink args args.numValues s 0, dict)

/-- Rows per page of the replay (column_writer.c:990-993). -/
def fallbackMaxRows (w : ColumnWriterOptions) : Nat :=
  let stride := physicalTypeStride w.column.type w.column.typeLength
  max (if 0 < stride then w.targetPageSize / stride else 8192) 1024

/-- The loop of `dict_fallback_to_plain` (column_writer.c:995-1035). It keeps a row cursor and a
value cursor, and flushes the page behind each chunk. -/
def replayChunks (w : ColumnWriterOptions) (sink : PageSink σ α) (dict : DictBuffers α) :
    Nat → σ → Nat → Nat → WriteTrace σ α
  | 0, s, _, _ => ⟨.ok (), s, [], []⟩
  | fuel + 1, s, rowOff, valOff =>
    if rowOff < dict.totalRows then
      let rows := min (fallbackMaxRows w) (dict.totalRows - rowOff)
      let defLevels := if 0 < w.column.maxDefLevel then some (dict.defLevels.drop rowOff) else none
      let repLevels :=
        if 0 < w.column.maxRepLevel ∧ dict.repLevels ≠ [] then some (dict.repLevels.drop rowOff)
        else none
      let nn := numNonNull w.column.maxDefLevel (⟨[], rows, defLevels, repLevels⟩ : ChunkArgs α)
      let args : ChunkArgs α :=
        ⟨if 0 < nn then dict.values.drop valOff else [], rows, defLevels, repLevels⟩
      match sink.addValues s args with
      | (.error e, s) => ⟨.error e, s, [args], []⟩
      | (.ok (), s) =>
        match sink.flushCurrentPage s with
        | (.error e, s) => ⟨.error e, s, [args], []⟩
        | (.ok (), s) =>
          let rest := replayChunks w sink dict fuel s (rowOff + rows) (valOff + nn)
          { rest with pageChunks := args :: rest.pageChunks }
    else ⟨.ok (), s, [], []⟩

/-- `dict_fallback_to_plain` (column_writer.c:969-1037). -/
def dictFallbackToPlain (w : ColumnWriterOptions) (sink : PageSink σ α) (s : σ)
    (dict : DictBuffers α) : WriteTrace σ α :=
  replayChunks w sink dict dict.totalRows s 0 0

end Carquet
