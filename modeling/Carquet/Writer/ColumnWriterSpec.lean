import Carquet.Core.Entries
import Carquet.Writer.ColumnWriter

/-!
# Does each chunk get its own values?

`carquet_column_writer_write_batch` cuts a batch by rows. The values of a nullable column are
packed, so that behind a null the values of row `offset` are no longer at cell `offset`; the
loop moves the value pointer by the row offset all the same (column_writer.c:857-859).
`writeBatch_right_iff` says for which batches this does no harm. The replay of a dictionary that
did not pay off keeps two cursors and is always right (`dictFallbackToPlain_right`).
-/

namespace Carquet

open LevelStream

variable {α : Type} {maxDefLevel : Int}

/-! ## The property -/

/-- The arguments that pass these rows. -/
def argsOf (s : Entries α maxDefLevel) (passed : Wanted) : ChunkArgs α :=
  ⟨s.values, s.length, if passed.defLevels then some s.levels else none,
    if passed.repLevels then some s.reps else none⟩

/-- A batch: rows, and which level arrays the caller passes. Without definition levels every row
is present. -/
structure Batch (α : Type) (maxDefLevel : Int) where
  rows : Entries α maxDefLevel
  passed : Wanted
  all_present : passed.defLevels = false → ∀ level ∈ rows.levels, isPresent maxDefLevel level

def Batch.args (b : Batch α maxDefLevel) : ChunkArgs α := argsOf b.rows b.passed

/-- What a callee reads of its arguments: as many values as rows are present. -/
def ChunkArgs.read (maxDefLevel : Int) (args : ChunkArgs α) : ChunkArgs α :=
  ⟨args.values.take (numNonNull maxDefLevel args), args.numValues,
    args.defLevels.map (·.take args.numValues), args.repLevels.map (·.take args.numValues)⟩

/-- Consecutive chunks from row `offset` on, each given the rows of the batch that are its
own. -/
def ChunksRight (b : Batch α maxDefLevel) : Nat → List (ChunkArgs α) → Prop
  | _, [] => True
  | offset, args :: chunks =>
    args.read maxDefLevel = argsOf ((b.rows.drop offset).take args.numValues) b.passed ∧
      ChunksRight b (offset + args.numValues) chunks

/-- The chunks, one behind the other, are the batch. -/
structure Concatenates (b : Batch α maxDefLevel) (chunks : List (ChunkArgs α)) : Prop where
  numValues : (chunks.map (·.numValues)).sum = b.rows.length
  values : chunks.flatMap (fun args => (args.read maxDefLevel).values) = b.rows.values
  defLevels : b.passed.defLevels = true →
    chunks.flatMap (fun args => (args.read maxDefLevel).defLevels.getD []) = b.rows.levels
  repLevels : b.passed.repLevels = true →
    chunks.flatMap (fun args => (args.read maxDefLevel).repLevels.getD []) = b.rows.reps

/-- What a call should have done. -/
structure WriteRight {σ : Type} (b : Batch α maxDefLevel) (useDictionary : Bool)
    (t : WriteTrace σ α) : Prop where
  pages : ChunksRight b 0 t.pageChunks
  bloom : ChunksRight b 0 t.bloomChunks
  whole : useDictionary = false → t.status = .ok () → Concatenates b t.pageChunks

/-! ## The condition -/

/-- Rows `offset .. offset + n` do not notice that the value pointer is moved by rows: no null
comes before them, or none of them is present, or the packed values repeat themselves there at
the distance of the nulls before. -/
def ShiftHarmless (b : Batch α maxDefLevel) (offset n : Nat) : Prop :=
  let nulls := offset - b.rows.dense offset
  let present := (b.rows.drop offset).dense n
  nulls = 0 ∨ present = 0 ∨
    ∀ i < present, b.rows.values[offset + i]? = b.rows.values[offset + i - nulls]?

/-- Every chunk of the batch is such. -/
def CursorsAgree (w : ColumnWriterOptions) (b : Batch α maxDefLevel) : Prop :=
  ∀ k, k * maxChunk w b.rows.length < b.rows.length →
    ShiftHarmless b (k * maxChunk w b.rows.length)
      (min (maxChunk w b.rows.length) (b.rows.length - k * maxChunk w b.rows.length))

/-! ## One chunk -/

theorem dense_le_self (s : Entries α maxDefLevel) (n : Nat) : s.dense n ≤ n := by
  refine Nat.le_trans List.countP_le_length ?_
  rw [List.length_take]
  exact Nat.min_le_left _ _

/-- The count of values the callees read is that of the rows. -/
theorem numNonNull_shift (b : Batch α maxDefLevel) {offset n : Nat}
    (h : offset + n ≤ b.rows.length) :
    numNonNull maxDefLevel (b.args.shift offset n) = (b.rows.drop offset).dense n := by
  have hlen : ((b.rows.levels.drop offset).take n).length = n := by
    rw [List.length_take, List.length_drop]
    have : b.rows.levels.length = b.rows.length := rfl
    omega
  change _ = ((b.rows.levels.drop offset).take n).countP (isPresent maxDefLevel)
  cases hp : b.passed.defLevels with
  | true =>
    simp only [numNonNull, ChunkArgs.shift, Batch.args, argsOf, hp, if_true, Option.map_some]
    split
    · rename_i hnull
      rw [countP_isPresent_of_nullable hnull]
    · rename_i hreq
      rw [countP_isPresent_of_required hreq, hlen]
  | false =>
    have hall : ((b.rows.levels.drop offset).take n).countP (isPresent maxDefLevel) =
        ((b.rows.levels.drop offset).take n).length := by
      rw [List.countP_eq_length]
      intro level hlevel
      exact b.all_present hp level (List.mem_of_mem_drop (List.mem_of_mem_take hlevel))
    rw [hall, hlen]
    simp [numNonNull, ChunkArgs.shift, Batch.args, argsOf, hp]

/-- What is read of a chunk: its own levels, and values from cell `offset` on. -/
theorem read_shift (b : Batch α maxDefLevel) {offset n : Nat} (h : offset + n ≤ b.rows.length) :
    (b.args.shift offset n).read maxDefLevel =
      { argsOf ((b.rows.drop offset).take n) b.passed with
        values := (b.rows.values.drop offset).take ((b.rows.drop offset).dense n) } := by
  have hlen : ((b.rows.drop offset).take n).length = n := by
    rw [Stream.length_take, Stream.length_drop]
    omega
  rw [ChunkArgs.read, numNonNull_shift b h]
  simp only [ChunkArgs.shift, Batch.args, argsOf, hlen]
  cases b.passed.defLevels <;> cases b.passed.repLevels <;> rfl

theorem take_drop_eq_iff {values : List α} {i j c : Nat} :
    (values.drop i).take c = (values.drop j).take c ↔
      ∀ k < c, values[i + k]? = values[j + k]? := by
  constructor
  · intro h k hk
    have := congrArg (·[k]?) h
    simpa [List.getElem?_take, List.getElem?_drop, hk] using this
  · intro h
    apply List.ext_getElem?
    intro k
    by_cases hk : k < c
    · simpa [List.getElem?_take, List.getElem?_drop, hk] using h k hk
    · simp [hk]

/-- **A chunk gets its own rows exactly when the shift is harmless.** -/
theorem read_shift_eq_iff (b : Batch α maxDefLevel) {offset n : Nat}
    (h : offset + n ≤ b.rows.length) :
    (b.args.shift offset n).read maxDefLevel = argsOf ((b.rows.drop offset).take n) b.passed ↔
      ShiftHarmless b offset n := by
  have hdense := dense_le_self b.rows offset
  have hwindow : ((b.rows.drop offset).take n).values =
      (b.rows.values.drop (b.rows.dense offset)).take ((b.rows.drop offset).dense n) := rfl
  rw [read_shift b h, ShiftHarmless]
  have hiff : { argsOf ((b.rows.drop offset).take n) b.passed with
        values := (b.rows.values.drop offset).take ((b.rows.drop offset).dense n) } =
      argsOf ((b.rows.drop offset).take n) b.passed ↔
      ∀ i < (b.rows.drop offset).dense n,
        b.rows.values[offset + i]? = b.rows.values[b.rows.dense offset + i]? := by
    rw [← take_drop_eq_iff, ← hwindow]
    exact ⟨fun heq => congrArg ChunkArgs.values heq, fun heq => by rw [heq]; rfl⟩
  rw [hiff]
  constructor
  · intro hsame
    refine Or.inr (Or.inr fun i hi => ?_)
    rw [hsame i hi]
    congr 1
    omega
  · rintro (h0 | h0 | hrepeat) i hi
    · congr 1
      omega
    · omega
    · rw [hrepeat i hi]
      congr 1
      omega

/-! ## All chunks of a batch -/

theorem maxChunk_pos (w : ColumnWriterOptions) {n : Nat} (h : 0 < n) : 0 < maxChunk w n := by
  have hchunk : ∀ chunk : Int, 0 < chunk →
      0 < (if 0 < w.writeBatchSize ∧ w.writeBatchSize < chunk then w.writeBatchSize.toNat
        else chunk.toNat) := by
    intro chunk hpos
    split <;> omega
  apply hchunk
  split
  · exact Int.lt_of_lt_of_le (by decide) (Int.le_max_right _ _)
  · omega

theorem argsOf_full (b : Batch α maxDefLevel) :
    b.args.read maxDefLevel = argsOf ((b.rows.drop 0).take b.args.numValues) b.passed := by
  have hshift : b.args.shift 0 b.rows.length = b.args := by
    simp only [ChunkArgs.shift, Batch.args, argsOf, List.drop_zero]
    cases b.passed.defLevels <;> cases b.passed.repLevels <;> rfl
  have h := (@read_shift_eq_iff _ _ b 0 b.rows.length (by omega)).mpr
    (Or.inl (Nat.zero_sub _))
  rw [hshift] at h
  exact h

/-- The chunks from row `offset` on are right, and on success they are all rows from there. -/
def RightFrom {σ : Type} (b : Batch α maxDefLevel) (offset : Nat) (t : WriteTrace σ α) : Prop :=
  ChunksRight b offset t.pageChunks ∧ ChunksRight b offset t.bloomChunks ∧
    (t.status = .ok () → (t.pageChunks.map (·.numValues)).sum = b.rows.length - offset)

/-- A batch whose shifts are harmless, from chunk `k` on. -/
theorem writeChunks_right {σ : Type} {w : ColumnWriterOptions} {b : Batch α maxDefLevel}
    (h : CursorsAgree w b) (sink : PageSink σ α) (fuel : Nat) (s : σ) (k : Nat)
    (hfuel : b.rows.length ≤ fuel + k * maxChunk w b.rows.length) :
    RightFrom b (k * maxChunk w b.rows.length)
      (writeChunks w sink b.args fuel s (k * maxChunk w b.rows.length)) := by
  have hargs : b.args.numValues = b.rows.length := rfl
  induction fuel generalizing s k with
  | zero =>
    refine ⟨trivial, trivial, fun _ => ?_⟩
    simp only [writeChunks, List.map_nil, List.sum_nil]
    omega
  | succ fuel ih =>
    have hmul : (k + 1) * maxChunk w b.rows.length =
        k * maxChunk w b.rows.length + maxChunk w b.rows.length := Nat.succ_mul _ _
    have hshift := h k
    have hrest := fun s => ih s (k + 1)
    rw [hmul] at hrest
    rw [writeChunks, hargs]
    generalize hM : maxChunk w b.rows.length = M at *
    generalize k * M = offset at *
    by_cases hmore : offset < b.rows.length
    · have hpos : 0 < M := by
        rw [← hM]
        exact maxChunk_pos w (by omega)
      have hright := (@read_shift_eq_iff _ _ b offset (min M (b.rows.length - offset))
        (by omega)).mpr (hshift hmore)
      simp only [hmore, if_true]
      -- what remains after this chunk, whether or not it is the last one
      have hnext : ∀ s, RightFrom b (offset + min M (b.rows.length - offset))
          (writeChunks w sink b.args fuel s (offset + min M (b.rows.length - offset))) := by
        intro s
        rcases Nat.le_total M (b.rows.length - offset) with hle | hle
        · rw [Nat.min_eq_left hle]
          exact hrest s (by omega)
        · rw [Nat.min_eq_right hle]
          have hdone : writeChunks w sink b.args fuel s (offset + (b.rows.length - offset)) =
              ⟨.ok (), s, [], []⟩ := by
            cases fuel with
            | zero => rfl
            | succ fuel => rw [writeChunks, hargs, if_neg (by omega)]
          rw [hdone]
          refine ⟨trivial, trivial, fun _ => ?_⟩
          simp only [List.map_nil, List.sum_nil]
          omega
      cases sink.addValues s (b.args.shift offset (min M (b.rows.length - offset))) with
      | mk status s =>
        have hgo : ∀ s, RightFrom b offset ((writeChunks w sink b.args fuel s
            (offset + min M (b.rows.length - offset))).after
            (b.args.shift offset (min M (b.rows.length - offset)))) := by
          intro s
          obtain ⟨h1, h2, h3⟩ := hnext s
          refine ⟨⟨hright, h1⟩, ⟨hright, h2⟩, fun hok => ?_⟩
          simp only [WriteTrace.after, List.map_cons, List.sum_cons, h3 hok, ChunkArgs.shift]
          omega
        cases status with
        | error e => exact ⟨⟨hright, trivial⟩, trivial, fun hok => by simp at hok⟩
        | ok u =>
          simp only
          split
          · cases sink.flushCurrentPage s with
            | mk status s =>
              cases status with
              | error e =>
                exact ⟨⟨hright, trivial⟩, ⟨hright, trivial⟩, fun hok => by simp at hok⟩
              | ok u => exact hgo s
          · exact hgo s
    · simp only [hmore, if_false]
      refine ⟨trivial, trivial, fun _ => ?_⟩
      simp only [List.map_nil, List.sum_nil]
      omega

/-- Chunks that are right are a window of the batch. -/
theorem ChunksRight.window {b : Batch α maxDefLevel} {offset : Nat} {chunks : List (ChunkArgs α)}
    (h : ChunksRight b offset chunks) :
    let s := (b.rows.drop offset).take (chunks.map (·.numValues)).sum
    chunks.flatMap (fun args => (args.read maxDefLevel).values) = s.values ∧
      (b.passed.defLevels = true →
        chunks.flatMap (fun args => (args.read maxDefLevel).defLevels.getD []) = s.levels) ∧
      (b.passed.repLevels = true →
        chunks.flatMap (fun args => (args.read maxDefLevel).repLevels.getD []) = s.reps) := by
  induction chunks generalizing offset with
  | nil => simp [Stream.empty]
  | cons args chunks ih =>
    obtain ⟨hread, hrest⟩ := h
    obtain ⟨h1, h2, h3⟩ := ih hrest
    simp only [List.map_cons, List.sum_cons, List.flatMap_cons, Stream.take_add, Stream.drop_drop,
      hread, h1]
    refine ⟨rfl, fun hp => ?_, fun hp => ?_⟩
    · rw [h2 hp]
      simp [argsOf, hp, Stream.append]
    · rw [h3 hp]
      simp [argsOf, hp, Stream.append]

theorem ChunksRight.concatenates {b : Batch α maxDefLevel} {chunks : List (ChunkArgs α)}
    (h : ChunksRight b 0 chunks) (hsum : (chunks.map (·.numValues)).sum = b.rows.length) :
    Concatenates b chunks := by
  obtain ⟨h1, h2, h3⟩ := h.window
  rw [hsum, Stream.drop_zero, Stream.take_of_length_le (Nat.le_refl _)] at h1 h2 h3
  exact ⟨hsum, h1, h2, h3⟩

/-- A page writer that takes everything and never fills a page. -/
def endlessPage (α : Type) : PageSink Unit α :=
  ⟨fun s _ => (.ok (), s), fun _ => 0, fun _ => 0, fun s => (.ok (), s)⟩

/-- Such a writer sees every chunk. -/
theorem harmless_of_endlessPage {w : ColumnWriterOptions} {b : Batch α maxDefLevel}
    (fuel k : Nat) (hfuel : b.rows.length ≤ fuel + k * maxChunk w b.rows.length)
    (h : ChunksRight b (k * maxChunk w b.rows.length)
      (writeChunks w (endlessPage α) b.args fuel () (k * maxChunk w b.rows.length)).pageChunks)
    (j : Nat) (hk : k ≤ j) (hj : j * maxChunk w b.rows.length < b.rows.length) :
    ShiftHarmless b (j * maxChunk w b.rows.length)
      (min (maxChunk w b.rows.length) (b.rows.length - j * maxChunk w b.rows.length)) := by
  have hargs : b.args.numValues = b.rows.length := rfl
  have hpos := maxChunk_pos w (Nat.zero_lt_of_lt hj)
  induction fuel generalizing k with
  | zero =>
    have := Nat.mul_le_mul_right (maxChunk w b.rows.length) hk
    omega
  | succ fuel ih =>
    have hle := Nat.mul_le_mul_right (maxChunk w b.rows.length) hk
    have hflush : ∀ s, (endlessPage α).flushCurrentPage s = (.ok (), s) := fun _ => rfl
    have hadd : ∀ s args, (endlessPage α).addValues s args = (.ok (), s) := fun _ _ => rfl
    rw [writeChunks, hargs, if_pos (by omega)] at h
    simp only [hadd, hflush, ite_self] at h
    obtain ⟨hread, hrest⟩ := h
    rcases Nat.eq_or_lt_of_le hk with rfl | hlt
    · exact (read_shift_eq_iff b (by omega)).mp hread
    · have hmul : (k + 1) * maxChunk w b.rows.length =
          k * maxChunk w b.rows.length + maxChunk w b.rows.length := Nat.succ_mul _ _
      have hnext := Nat.mul_le_mul_right (maxChunk w b.rows.length) (show k + 1 ≤ j from hlt)
      have hchunk : k * maxChunk w b.rows.length +
          min (maxChunk w b.rows.length) (b.rows.length - k * maxChunk w b.rows.length) =
          (k + 1) * maxChunk w b.rows.length := by omega
      simp only [ChunkArgs.shift, hchunk] at hrest
      exact ih (k + 1) (by omega) hrest (Nat.succ_le_of_lt hlt)

/-- **Every chunk of a batch is given its own rows, whatever the page writer does, exactly when
the batch is buffered for a dictionary or the row shift of the value pointer is harmless at every
chunk.** -/
theorem writeBatch_right_iff (w : ColumnWriterOptions) (b : Batch α w.column.maxDefLevel) :
    (∀ (σ : Type) (sink : PageSink σ α) (s : σ) (dict : DictBuffers α),
        WriteRight b w.useDictionary (writeBatch w sink s dict b.args).1) ↔
      w.useDictionary = true ∨ CursorsAgree w b := by
  constructor
  · intro h
    rw [or_iff_not_imp_left]
    intro hplain k hk
    have hpages := (h Unit (endlessPage α) () ⟨0, [], [], []⟩).pages
    rw [writeBatch, if_neg hplain] at hpages
    exact harmless_of_endlessPage b.rows.length 0 (by omega)
      (by rw [Nat.zero_mul]; exact hpages) k (Nat.zero_le k) hk
  · intro h σ sink s dict
    rw [writeBatch]
    by_cases hdict : w.useDictionary = true
    · rw [if_pos hdict]
      exact ⟨trivial, ⟨argsOf_full b, trivial⟩, fun hplain => by simp [hdict] at hplain⟩
    · rw [if_neg hdict]
      have hagree := h.resolve_left hdict
      obtain ⟨h1, h2, h3⟩ := writeChunks_right hagree sink b.rows.length s 0 (by omega)
      simp only [Nat.zero_mul, Nat.sub_zero] at h1 h2 h3
      exact ⟨h1, h2, fun _ hok => h1.concatenates (h3 hok)⟩

/-- A null, then 7 and 9. -/
def nullFirstBatch : Batch Nat 1 where
  rows := ⟨[0, 1, 1], [0, 0, 0], [7, 9], rfl, rfl⟩
  passed := ⟨true, false⟩
  all_present := by simp

/-- An INT32 column with one row a chunk. -/
def oneRowChunks : ColumnWriterOptions := ⟨⟨.int32, 0, 1, 0⟩, 1048576, 1, 0, false⟩

/-- The row of 7 is given 9, and the row of 9 nothing. -/
theorem nullFirstBatch_shifted :
    ((writeBatch oneRowChunks (endlessPage Nat) () ⟨0, [], [], []⟩
        nullFirstBatch.args).1.pageChunks.map fun args => (args.read 1).values) =
      [[], [9], []] ∧
    ¬ WriteRight nullFirstBatch false (writeBatch oneRowChunks (endlessPage Nat) ()
      ⟨0, [], [], []⟩ nullFirstBatch.args).1 := by
  refine ⟨by decide, fun h => ?_⟩
  have hsecond := congrArg ChunkArgs.values h.pages.2.1
  revert hsecond
  decide

/-! ## The replay of a dictionary -/

/-- The buffers hold these rows. -/
structure DictBuffers.Holds (column : Column) (dict : DictBuffers α)
    (s : Entries α column.maxDefLevel) : Prop where
  totalRows : dict.totalRows = s.length
  values : dict.values = s.values
  defLevels : 0 < column.maxDefLevel → dict.defLevels = s.levels
  repLevels : 0 < column.maxRepLevel → dict.repLevels = s.reps

/-- A batch of a column is appended to the buffers. -/
theorem dictAccumulate_holds {column : Column} {dict : DictBuffers α}
    {s : Entries α column.maxDefLevel} (h : dict.Holds column s)
    (b : Batch α column.maxDefLevel)
    (hreps : 0 < column.maxRepLevel → b.passed.repLevels = true) :
    (dictAccumulate column dict b.args).Holds column (s.append b.rows) := by
  have hread := argsOf_full b
  rw [Stream.drop_zero, Stream.take_of_length_le (n := b.args.numValues) (Nat.le_refl _)] at hread
  refine ⟨?_, ?_, fun hdef => ?_, fun hrep => ?_⟩
  · rw [Stream.length_append, ← h.totalRows]
    rfl
  · have hvalues := congrArg ChunkArgs.values hread
    simp only [ChunkArgs.read, argsOf] at hvalues
    rw [dictAccumulate, hvalues, h.values]
    rfl
  · rw [dictAccumulate]
    simp only [hdef, if_true, h.defLevels hdef, Stream.append]
    cases hp : b.passed.defLevels with
    | true =>
      simp only [Batch.args, argsOf, hp, if_true]
      exact congrArg _ (List.take_of_length_le (Nat.le_refl _))
    | false =>
      simp only [Batch.args, argsOf, hp, Bool.false_eq_true, if_false]
      congr 1
      refine (List.eq_replicate_iff.mpr ⟨rfl, fun level hlevel => ?_⟩).symm
      have := b.all_present hp level hlevel
      simp only [isPresent, Bool.or_eq_true, decide_eq_true_eq, beq_iff_eq] at this
      omega
  · rw [dictAccumulate]
    simp only [Batch.args, argsOf, hreps hrep, hrep, if_true, h.repLevels hrep, Stream.append]
    exact congrArg _ (List.take_of_length_le (Nat.le_of_eq b.rows.length_reps))

/-- What the replay passes of the rows in the buffers. -/
def dictBatch (column : Column) (s : Entries α column.maxDefLevel) :
    Batch α column.maxDefLevel where
  rows := s
  passed := ⟨decide (0 < column.maxDefLevel), decide (0 < column.maxRepLevel ∧ s.reps ≠ [])⟩
  all_present := by
    intro h level _
    have : column.maxDefLevel ≤ 0 := by simpa using h
    simp [isPresent, this]

/-- The arguments of one chunk of the replay are its rows. -/
theorem replay_args {column : Column} {dict : DictBuffers α} {s : Entries α column.maxDefLevel}
    (h : dict.Holds column s) {rowOff rows : Nat} (hfit : rowOff + rows ≤ s.length) :
    let defLevels := if 0 < column.maxDefLevel then some (dict.defLevels.drop rowOff) else none
    let repLevels := if 0 < column.maxRepLevel ∧ dict.repLevels ≠ [] then
      some (dict.repLevels.drop rowOff) else none
    numNonNull column.maxDefLevel (⟨[], rows, defLevels, repLevels⟩ : ChunkArgs α) =
        (s.drop rowOff).dense rows ∧
      ChunkArgs.read column.maxDefLevel
        ⟨if 0 < (s.drop rowOff).dense rows then dict.values.drop (s.dense rowOff) else [], rows,
          defLevels, repLevels⟩ = argsOf ((s.drop rowOff).take rows) (dictBatch column s).passed := by
  intro defLevels repLevels
  have hshift : ((dictBatch column s).args.shift rowOff rows).defLevels = defLevels ∧
      ((dictBatch column s).args.shift rowOff rows).repLevels = repLevels := by
    simp only [ChunkArgs.shift, Batch.args, argsOf, dictBatch, defLevels, repLevels,
      decide_eq_true_eq]
    constructor
    · split
      · rename_i hdef
        rw [h.defLevels hdef]
        rfl
      · rfl
    · by_cases hrep : 0 < column.maxRepLevel
      · rw [h.repLevels hrep]
        split <;> rfl
      · simp [hrep]
  have hcount : ∀ values : List α, numNonNull column.maxDefLevel
      (⟨values, rows, defLevels, repLevels⟩ : ChunkArgs α) = (s.drop rowOff).dense rows := by
    intro values
    have hnum := numNonNull_shift (dictBatch column s) hfit
    rw [numNonNull, hshift.1] at hnum
    exact hnum
  refine ⟨hcount [], ?_⟩
  have hvalues : List.take ((s.drop rowOff).dense rows)
      (if 0 < (s.drop rowOff).dense rows then dict.values.drop (s.dense rowOff) else []) =
      ((s.drop rowOff).take rows).values := by
    rw [h.values]
    split
    · rfl
    · have h0 : (s.drop rowOff).dense rows = 0 := by omega
      simp [Stream.take, h0]
  have hread := read_shift (dictBatch column s) hfit
  have hlevels : ∀ values : List α, ChunkArgs.read column.maxDefLevel
      ⟨values, rows, defLevels, repLevels⟩ =
        { ((dictBatch column s).args.shift rowOff rows).read column.maxDefLevel with
          values := values.take ((s.drop rowOff).dense rows) } := by
    intro values
    simp only [ChunkArgs.read, hcount, hshift.1, hshift.2]
    rfl
  rw [hlevels, hvalues, hread]
  rfl

/-- **The replay gives every chunk its own rows.** -/
theorem dictFallbackToPlain_right {σ : Type} {w : ColumnWriterOptions} {dict : DictBuffers α}
    {s : Entries α w.column.maxDefLevel} (h : dict.Holds w.column s) (sink : PageSink σ α)
    (st : σ) : ChunksRight (dictBatch w.column s) 0 (dictFallbackToPlain w sink st dict).pageChunks := by
  have hloop : ∀ fuel st rowOff, rowOff ≤ s.length → ChunksRight (dictBatch w.column s) rowOff
      (replayChunks w sink dict fuel st rowOff (s.dense rowOff)).pageChunks := by
    intro fuel
    induction fuel with
    | zero => exact fun _ _ _ => trivial
    | succ fuel ih =>
      intro st rowOff hle
      rw [replayChunks, h.totalRows]
      by_cases hmore : rowOff < s.length
      · have hfit : rowOff + min (fallbackMaxRows w) (s.length - rowOff) ≤ s.length := by omega
        obtain ⟨hcount, hread⟩ := replay_args h hfit
        simp only [hmore, if_true, hcount]
        have hnext : s.dense rowOff + (s.drop rowOff).dense
            (min (fallbackMaxRows w) (s.length - rowOff)) =
            s.dense (rowOff + min (fallbackMaxRows w) (s.length - rowOff)) :=
          (s.dense_add _ _).symm
        cases sink.addValues st _ with
        | mk status st =>
          cases status with
          | error e => exact ⟨hread, trivial⟩
          | ok u =>
            simp only
            cases sink.flushCurrentPage st with
            | mk status st =>
              cases status with
              | error e => exact ⟨hread, trivial⟩
              | ok u =>
                simp only [hnext]
                exact ⟨hread, ih st _ hfit⟩
      · simp only [hmore, if_false]
        trivial
  rw [dictFallbackToPlain]
  exact hloop dict.totalRows st 0 (Nat.zero_le _)

end Carquet
