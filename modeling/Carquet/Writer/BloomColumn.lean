import Carquet.Metadata.BloomFilterSpec
import Carquet.Writer.ColumnWriterSpec

/-!
# The bloom filter of a column chunk

`bloom_filter_insert_chunk` (column_writer.c:640-702), and what the filter of a chunk knows when its
batches are written.

The chunk given to the filter is the chunk given to the page writer, so a batch of a nullable column
that is cut between its values loses some to both (`CursorsAgree`). A column of BOOLEAN or INT96 has
a filter, but no case in the switch: its filter stays empty. `bloomFilters_report` says that whatever
else is written is reported.
-/

namespace Carquet

open LevelStream LittleEndian

/-- The types with a case in `bloom_filter_insert_chunk` (column_writer.c:660-700). -/
def HasBloomCase : PhysicalType → Prop
  | .int32 | .int64 | .float | .double | .byteArray | .fixedLenByteArray => True
  | .boolean | .int96 => False

instance : DecidablePred HasBloomCase := fun type => by
  cases type <;> unfold HasBloomCase <;> infer_instance

/-- `bloom_filter_insert_chunk` (column_writer.c:640-702); a value of any type is hashed as it is in
memory. -/
def bloomFilterInsertChunk (column : Column) (f : BloomFilter) (args : ChunkArgs Value) :
    BloomFilter :=
  if HasBloomCase column.type then
    (args.values.take (numNonNull column.maxDefLevel args)).foldl BloomFilter.insertMemory f
  else f

/-- A column writer with a filter, and the values its chunk was given. -/
structure BloomColumn (σ : Type) where
  pages : σ
  dict : DictBuffers Value
  filter : BloomFilter
  written : List Value

/-- The rows of a call that count: those `total_values` is raised by (column_writer.c:818, 870). -/
def WriteTrace.rowsTaken {σ α : Type} (t : WriteTrace σ α) : Nat :=
  (t.bloomChunks.map (·.numValues)).sum

variable {σ : Type}

/-- `carquet_column_writer_write_batch` with a filter. A call that fails may have taken rows. -/
def BloomColumn.writeBatch (w : ColumnWriterOptions) (sink : PageSink σ Value) (c : BloomColumn σ)
    (b : Batch Value w.column.maxDefLevel) : BloomColumn σ :=
  let (t, dict) := Carquet.writeBatch w sink c.pages c.dict b.args
  { pages := t.pages
    dict := dict
    filter := t.bloomChunks.foldl (bloomFilterInsertChunk w.column) c.filter
    written := c.written ++ (b.rows.take t.rowsTaken).values }

/-- The batches of a chunk. -/
def BloomColumn.writeBatches (w : ColumnWriterOptions) (sink : PageSink σ Value)
    (c : BloomColumn σ) (batches : List (Batch Value w.column.maxDefLevel)) : BloomColumn σ :=
  batches.foldl (BloomColumn.writeBatch w sink) c

/-- The column writer of a new chunk. -/
def BloomColumn.start (pages : σ) (numBytes : Nat) : BloomColumn σ :=
  ⟨pages, ⟨0, [], [], []⟩, BloomFilter.create numBytes, []⟩

/-! ## What goes in stays in -/

open MembershipFilter BloomFilter

theorem insertMemory_mono {f : BloomFilter} {u : Value} (v : Value)
    (h : f.checkMemory u = true) : (f.insertMemory v).checkMemory u = true := by
  rw [checkMemory_iff] at h ⊢
  rw [numBlocks_insertMemory, show (f.insertMemory v).bits = _ from f.bits_insertHash _]
  exact h.mono le_sup_left

theorem checkMemory_insertMemory (f : BloomFilter) (v : Value) :
    (f.insertMemory v).checkMemory v = true := by
  rw [checkMemory_iff, numBlocks_insertMemory,
    show (f.insertMemory v).bits = _ from f.bits_insertHash _]
  exact reports_insert _ _

theorem foldl_insertMemory_reports (vs : List Value) (f : BloomFilter) :
    (∀ u, f.checkMemory u = true → (vs.foldl insertMemory f).checkMemory u = true) ∧
      ∀ v ∈ vs, (vs.foldl insertMemory f).checkMemory v = true := by
  induction vs generalizing f with
  | nil => exact ⟨fun _ h => h, fun v hv => absurd hv List.not_mem_nil⟩
  | cons v vs ih =>
    obtain ⟨hold, hnew⟩ := ih (f.insertMemory v)
    refine ⟨fun u h => hold u (insertMemory_mono v h), List.forall_mem_cons.mpr ⟨?_, hnew⟩⟩
    exact hold v (checkMemory_insertMemory f v)

/-- The values of chunks are reported, and what was reported still is. -/
theorem foldl_insertChunk_reports {column : Column} (hcase : HasBloomCase column.type)
    (chunks : List (ChunkArgs Value)) (f : BloomFilter) :
    (∀ u, f.checkMemory u = true →
      (chunks.foldl (bloomFilterInsertChunk column) f).checkMemory u = true) ∧
      ∀ v ∈ chunks.flatMap fun args => (args.read column.maxDefLevel).values,
        (chunks.foldl (bloomFilterInsertChunk column) f).checkMemory v = true := by
  induction chunks generalizing f with
  | nil => exact ⟨fun _ h => h, fun v hv => absurd hv List.not_mem_nil⟩
  | cons args chunks ih =>
    obtain ⟨hold, hnew⟩ := ih (bloomFilterInsertChunk column f args)
    have hinsert : bloomFilterInsertChunk column f args =
        ((args.read column.maxDefLevel).values).foldl insertMemory f := if_pos hcase
    obtain ⟨hkeeps, hone⟩ := foldl_insertMemory_reports (args.read column.maxDefLevel).values f
    rw [← hinsert] at hkeeps hone
    rw [List.flatMap_cons, List.forall_mem_append]
    exact ⟨fun u h => hold u (hkeeps u h), fun v hv => hold v (hone v hv), hnew⟩

/-! ## A chunk -/

/-- The chunks given to the filter are those of the batch. -/
theorem bloomChunks_right {w : ColumnWriterOptions} {b : Batch Value w.column.maxDefLevel}
    (h : w.useDictionary = true ∨ CursorsAgree w b) (sink : PageSink σ Value) (s : σ)
    (dict : DictBuffers Value) :
    ChunksRight b 0 (Carquet.writeBatch w sink s dict b.args).1.bloomChunks := by
  unfold Carquet.writeBatch
  by_cases hdict : w.useDictionary = true
  · rw [if_pos hdict]
    exact ⟨argsOf_full b, trivial⟩
  · rw [if_neg hdict]
    obtain ⟨-, hbloom, -⟩ := writeChunks_right (h.resolve_left hdict) sink b.rows.length s 0
      (by omega)
    rwa [Nat.zero_mul] at hbloom

/-- A batch keeps what is reported, and adds its rows. -/
theorem BloomColumn.writeBatch_reports {w : ColumnWriterOptions} {sink : PageSink σ Value}
    {c : BloomColumn σ} {b : Batch Value w.column.maxDefLevel} (hcase : HasBloomCase w.column.type)
    (h : w.useDictionary = true ∨ CursorsAgree w b)
    (hc : ∀ v ∈ c.written, c.filter.checkMemory v = true) :
    ∀ v ∈ (c.writeBatch w sink b).written, (c.writeBatch w sink b).filter.checkMemory v = true := by
  have hright := bloomChunks_right h sink c.pages c.dict
  obtain ⟨hkeeps, hnew⟩ := foldl_insertChunk_reports hcase
    (Carquet.writeBatch w sink c.pages c.dict b.args).1.bloomChunks c.filter
  rw [(hright.window).1, Stream.drop_zero] at hnew
  intro v hv
  rcases List.mem_append.mp hv with hv | hv
  · exact hkeeps v (hc v hv)
  · exact hnew v hv

theorem BloomColumn.writeBatches_reports {w : ColumnWriterOptions} {sink : PageSink σ Value}
    (hcase : HasBloomCase w.column.type) (batches : List (Batch Value w.column.maxDefLevel))
    (h : ∀ b ∈ batches, w.useDictionary = true ∨ CursorsAgree w b) {c : BloomColumn σ}
    (hc : ∀ v ∈ c.written, c.filter.checkMemory v = true) :
    ∀ v ∈ (c.writeBatches w sink batches).written,
      (c.writeBatches w sink batches).filter.checkMemory v = true := by
  induction batches generalizing c with
  | nil => exact hc
  | cons b bs ih =>
    obtain ⟨hb, hbs⟩ := List.forall_mem_cons.mp h
    exact ih hbs (BloomColumn.writeBatch_reports hcase hb hc)

/-! ## A type without a case -/

theorem foldl_insertChunk_of_no_case {column : Column} (h : ¬ HasBloomCase column.type)
    (chunks : List (ChunkArgs Value)) (f : BloomFilter) :
    chunks.foldl (bloomFilterInsertChunk column) f = f := by
  induction chunks generalizing f with
  | nil => rfl
  | cons args chunks ih =>
    rw [List.foldl_cons, ih]
    exact if_neg h

theorem BloomColumn.filter_of_no_case {w : ColumnWriterOptions} {sink : PageSink σ Value}
    (h : ¬ HasBloomCase w.column.type) (batches : List (Batch Value w.column.maxDefLevel))
    (c : BloomColumn σ) : (c.writeBatches w sink batches).filter = c.filter := by
  induction batches generalizing c with
  | nil => rfl
  | cons b bs ih =>
    have hone : (c.writeBatch w sink b).filter = c.filter := foldl_insertChunk_of_no_case h _ _
    exact (ih _).trans hone

/-- An empty filter denies everything. -/
theorem checkMemory_create (numBytes : Nat) (v : Value) :
    (BloomFilter.create numBytes).checkMemory v = false := by
  have hzero : ∀ n : Nat, leNat (List.replicate n 0) = 0 := by
    intro n
    induction n with
    | zero => rfl
    | succ n ih => rw [List.replicate_succ, leNat, ih]; rfl
  rw [Bool.eq_false_iff, ne_eq, checkMemory_iff]
  intro h
  -- the bit in the first word of the block
  have hpos := bitPos_lt (bloomSalt.getD 0 0) (xxhash64 v 0)
  have hbit := h (a := 256 * blockIndex (xxhash64 v 0) (BloomFilter.create numBytes).numBlocks +
    bitPos (bloomSalt.getD 0 0) (xxhash64 v 0)) ⟨by omega, by
      rw [show (256 * blockIndex (xxhash64 v 0) (BloomFilter.create numBytes).numBlocks +
        bitPos (bloomSalt.getD 0 0) (xxhash64 v 0)) % 256 / 32 = 0 by omega]
      omega⟩
  have hnone : (leNat (List.replicate (createSize numBytes) 0)).testBit _ = true := hbit
  rw [hzero, Nat.zero_testBit] at hnone
  cases hnone

/-! ## The filters -/

/-- **Bloom filters have no false negatives**: of what was inserted, over every sequence of operations;
and of the values of the rows a column took, over every sequence of batches, when the column's type has
a case in the switch and each batch is buffered for a dictionary or cut where no value is lost. -/
theorem bloomFilters_report {σ : Type} (f : BloomFilter) (vs : List BloomValue)
    (w : ColumnWriterOptions) (sink : PageSink σ Value) (pages : σ) (numBytes : Nat)
    (batches : List (Batch Value w.column.maxDefLevel)) :
    (Inserted f vs → ∀ v ∈ vs, f.check v = true) ∧
    (HasBloomCase w.column.type → (∀ b ∈ batches, w.useDictionary = true ∨ CursorsAgree w b) →
      ∀ v ∈ ((BloomColumn.start pages numBytes).writeBatches w sink batches).written,
        ((BloomColumn.start pages numBytes).writeBatches w sink batches).filter.checkMemory v =
          true) :=
  ⟨fun h => h.reports, fun hcase h =>
    BloomColumn.writeBatches_reports hcase batches h fun _ hv => absurd hv List.not_mem_nil⟩

/-- Of any other column the filter denies every value. -/
theorem bloomColumn_denies {w : ColumnWriterOptions} (h : ¬ HasBloomCase w.column.type)
    (sink : PageSink σ Value) (pages : σ) (numBytes : Nat)
    (batches : List (Batch Value w.column.maxDefLevel)) (v : Value) :
    ((BloomColumn.start pages numBytes).writeBatches w sink batches).filter.checkMemory v =
      false := by
  rw [BloomColumn.filter_of_no_case h]
  exact checkMemory_create numBytes v

/-! ## Values that are denied -/

theorem nullFirstValues_reps : ([0, 0, 0] : List Int).length = ([0, 1, 1] : List Int).length := rfl

theorem nullFirstValues_present : (⟨true, false⟩ : Wanted).defLevels = false →
    ∀ level ∈ ([0, 1, 1] : List Int), isPresent 1 level := by
  simp

/-- A null, then two values, in a nullable column. -/
def nullFirstValues : Batch Value 1 where
  rows := ⟨[0, 1, 1], [0, 0, 0], [[7, 0, 0, 0], [9, 0, 0, 0]], nullFirstValues_reps, rfl⟩
  passed := ⟨true, false⟩
  all_present := nullFirstValues_present

/-- An INT32 column, written row by row. -/
def rowByRow : ColumnWriterOptions := ⟨⟨.int32, 0, 1, 0⟩, 1048576, 1, 0, false⟩

/-- A value of INT96. -/
def oneTimestamp : Batch Value 0 where
  rows := ⟨[0], [0], [[1, 2, 3, 4, 5, 6, 7, 8, 9, 10, 11, 12]], rfl, rfl⟩
  passed := ⟨false, false⟩
  all_present := by
    intro _ level hlevel
    rw [List.mem_singleton.mp hlevel]
    decide

/-- A required column of INT96. -/
def timestamps : ColumnWriterOptions := ⟨⟨.int96, 0, 0, 0⟩, 1048576, 0, 0, false⟩

/-- The value behind the null is written and denied, and so is the INT96 value. -/
theorem bloomFilters_deny :
    (((BloomColumn.start () 32).writeBatches rowByRow (endlessPage Value)
        [nullFirstValues]).written = [[7, 0, 0, 0], [9, 0, 0, 0]] ∧
      ((BloomColumn.start () 32).writeBatches rowByRow (endlessPage Value)
        [nullFirstValues]).filter.checkMemory [7, 0, 0, 0] = false) ∧
    (((BloomColumn.start () 32).writeBatches timestamps (endlessPage Value)
        [oneTimestamp]).written = [[1, 2, 3, 4, 5, 6, 7, 8, 9, 10, 11, 12]] ∧
      ((BloomColumn.start () 32).writeBatches timestamps (endlessPage Value)
        [oneTimestamp]).filter.checkMemory [1, 2, 3, 4, 5, 6, 7, 8, 9, 10, 11, 12] = false) := by
  have hseven : ((BloomColumn.start () 32).writeBatches rowByRow (endlessPage Value)
      [nullFirstValues]).filter.checkMemory [7, 0, 0, 0] = false := by decide +kernel
  exact ⟨⟨by decide, hseven⟩, ⟨by decide, bloomColumn_denies (by decide) _ _ _ _ _⟩⟩

end Carquet
