import Carquet.Writer.FileWriter
import Carquet.Writer.RowGroups

/-!
# The file writer with its row group

`Carquet.Writer.FileWriter` counts rows; here the counters stand beside the row group writer that is
being filled.

* `coerceTimestampValues` — `coerce_timestamp_values` (file_writer.c:1754-1780).
* `BatchWriter.writeBatch` — `carquet_writer_write_batch` (file_writer.c:1782-1886).
* `BatchWriter.flushRowGroup`, `BatchWriter.close` — `flush_row_group`, `carquet_writer_close`
  (file_writer.c:997-1288, 1900-1960).
-/

namespace Carquet

open LittleEndian

/-- The units of a coercion, milliseconds 0, microseconds 1 and nanoseconds 2, and
`allow_timestamp_truncation`. -/
structure TimestampCoercion where
  source : Nat
  target : Nat
  allowTruncation : Bool
  deriving DecidableEq, Repr

/-- `timestamp_unit_factor` (file_writer.c:1742-1750). -/
def timestampUnitFactor (a b : Nat) : Int := 1000 ^ (max a b - min a b)

/-- One value of `coerce_timestamp_values` (file_writer.c:1754-1780). -/
def coerceTimestamp (k : TimestampCoercion) (v : Int) : Except Status Int :=
  let factor := timestampUnitFactor k.source k.target
  if k.source < k.target then
    let lim := int64Max / factor
    if lim < v ∨ v < -lim then .error .invalidArgument else .ok (v * factor)
  else if k.allowTruncation = false ∧ v.tmod factor ≠ 0 then .error .invalidArgument
  else .ok (v.tdiv factor)

/-- `coerce_timestamp_values` (file_writer.c:1754-1780). -/
def coerceTimestampValues (k : TimestampCoercion) (values : List Int) : Except Status (List Int) :=
  values.mapM (coerceTimestamp k)

/-- `write_values` of a call (file_writer.c:1811-1838): a coerced array holds the present values. -/
def coerceArgs (env : ChunkEnv) (c : ChunkSettings) (coercion : Option TimestampCoercion)
    (args : ChunkArgs Value) : Except Status (ChunkArgs Value) :=
  match coercion with
  | none => .ok args
  | some k =>
    if c.column.type = .int64 ∧ c.logicalType = .timestamp ∧ k.source ≠ k.target ∧
        0 < args.numValues then do
      let present := args.present c.column.maxDefLevel
      env.grow (8 * present.length)
      let coerced ← coerceTimestampValues k (present.map (intOf 8 false))
      return { args with values := coerced.map fun v => leBytes 8 (toU64 v) }
    else .ok args

/-- What a caller passes, and what the call meets: memory and codecs, also of a flush behind it, and
how many bytes follow the chunks of that flush. -/
structure BatchCall where
  columnIndex : Int
  args : ChunkArgs Value
  env : ChunkEnv
  trailing : Nat

/-- The call as the file writer's estimates look at it. -/
def ChunkArgs.batchArgs (args : ChunkArgs Value) : BatchArgs :=
  ⟨args.numValues, args.values.map fun v => v.length, args.defLevels.isSome, args.repLevels⟩

/-- `carquet_writer_t`. `group` is `current_row_group` and holds the values; of `counts` the row
counters count. `written` are the chunks of the row groups that were flushed. -/
structure BatchWriter (γ : Type) where
  settings : List ChunkSettings
  coercions : List (Option TimestampCoercion)
  counts : FileWriter
  group : Option (RowGroupWriter γ)
  fileOffset : Int
  written : List (List (EmittedChunk γ))

variable {γ : Type}

namespace BatchWriter

/-- A writer that was just created. -/
def create (settings : List ChunkSettings) (coercions : List (Option TimestampCoercion))
    (rowGroupSize : Int) : BatchWriter γ :=
  ⟨settings, coercions, .create (settings.map ChunkSettings.column) rowGroupSize, none, 4, []⟩

/-- `ensure_row_group` (file_writer.c:883-995). -/
def ensureRowGroup (geo : GeoWalker γ) (w : BatchWriter γ) : BatchWriter γ :=
  match w.group with
  | some _ => w
  | none =>
    { w with
      group := some (.create geo w.settings w.fileOffset)
      counts := w.counts.resetCounters.ensureRowGroup }

/-- `flush_row_group` (file_writer.c:997-1288). -/
def flushRowGroup (geo : GeoWalker γ) (env : ChunkEnv) (trailing : Nat) (w : BatchWriter γ) :
    Except Status Unit × BatchWriter γ :=
  match w.group with
  | none => (.ok (), w)
  | some g =>
    if w.counts.currentRowGroupRows = 0 then (.ok (), w)
    else
      match g.flush geo env trailing with
      | (.error e, g) => (.error e, { w with group := some g })
      | (.ok chunks, g) =>
        (.ok (), { w with
          group := some g
          counts := (w.counts.flushRowGroup (.ok ())).2
          fileOffset := g.fileOffset
          written := w.written ++ [chunks] })

/-- What follows once the column has taken the batch (file_writer.c:1846-1884). -/
def countBatch (geo : GeoWalker γ) (w : BatchWriter γ) (index : Nat) (c : ChunkSettings)
    (call : BatchCall) : Except Status Unit × BatchWriter γ :=
  let w := { w with counts := w.counts.countBatch index c.column call.args.batchArgs }
  if w.counts.autoFlushes then w.flushRowGroup geo call.env call.trailing else (.ok (), w)

/-- `carquet_writer_write_batch` behind `ensure_row_group` (file_writer.c:1811-1884). -/
def writeToGroup (geo : GeoWalker γ) (w : BatchWriter γ) (g : RowGroupWriter γ) (index : Nat)
    (c : ChunkSettings) (call : BatchCall) : Except Status Unit × BatchWriter γ :=
  match coerceArgs call.env c (w.coercions[index]?.join) call.args with
  | .error e => (.error e, w)
  | .ok args =>
    match g.writeColumn geo ⟨call.env, index, args⟩ with
    | (.error e, g) => (.error e, { w with group := some g })
    | (.ok (), g) => countBatch geo { w with group := some g } index c call

/-- `carquet_writer_write_batch` (file_writer.c:1782-1886). -/
def writeBatch (geo : GeoWalker γ) (w : BatchWriter γ) (call : BatchCall) :
    Except Status Unit × BatchWriter γ :=
  if call.columnIndex < 0 then (.error .invalidArgument, w)
  else
    match w.settings[call.columnIndex.toNat]? with
    | none => (.error .invalidArgument, w)
    | some c =>
      let w := w.ensureRowGroup geo
      match w.group with
      | none => (.error .internal, w)
      | some g => w.writeToGroup geo g call.columnIndex.toNat c call

/-- What the footer is made of (file_writer.c:1302-1553): `num_rows` of the file and of each row
group, and the chunks. -/
structure ClosedFile (γ : Type) where
  numRows : Nat
  rowGroupRows : List Nat
  chunks : List (List (EmittedChunk γ))

/-- `carquet_writer_close` (file_writer.c:1900-1960), up to the bytes of the footer. -/
def close (geo : GeoWalker γ) (env : ChunkEnv) (trailing : Nat) (w : BatchWriter γ) :
    Except Status (ClosedFile γ) :=
  match w.flushRowGroup geo env trailing with
  | (.error e, _) => .error e
  | (.ok (), w) =>
    .ok ⟨w.counts.totalRows, w.counts.rowGroups.map RowGroupInfo.numRows, w.written⟩

/-! ## Runs -/

/-- A call on the writer before it is closed. -/
inductive Call where
  | writeBatch (call : BatchCall)
  | newRowGroup (env : ChunkEnv) (trailing : Nat)

/-- What a call returns, and the writer behind it. -/
def step (geo : GeoWalker γ) (w : BatchWriter γ) : Call → Except Status Unit × BatchWriter γ
  | .writeBatch call => w.writeBatch geo call
  | .newRowGroup env trailing => w.flushRowGroup geo env trailing

/-- The writer after the calls, whatever they returned. -/
def run (geo : GeoWalker γ) (w : BatchWriter γ) : List Call → BatchWriter γ
  | [] => w
  | call :: calls => (w.step geo call).2.run geo calls

end BatchWriter

end Carquet
