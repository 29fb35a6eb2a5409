import Carquet.Reader.BatchReaderSpec

/-!
# Retrieving a block

A rectangle of a file, put together from the batches that touch it.

* `initBlock`, `copyBlockRows` — `helper_init_block` and `helper_copy_block_rows`
  (helpers.c:358-466).
* `retrieveBlock` — `carquet_retrieve_block` (helpers.c:468-548), over the batch reader.
* `retrieveBlock_holds` — the block is the rectangle, however pages, row groups and batches cut the
  file.

Allocation succeeds. The cell `0` is what `calloc` leaves; a byte array without bytes is that cell.
-/

namespace Carquet

/-! ## Null bitmaps -/

/-- `(uint8_t)(1u << (index % 8))`. -/
def bitmapMask (index : Nat) : UInt8 := UInt8.ofNat (2 ^ (index % 8))

/-- `helper_bitmap_is_set` (helpers.c:217-219). -/
def bitmapIsSet (bitmap : Option Bytes) (index : Nat) : Bool :=
  match bitmap with
  | none => true
  | some bitmap => bitmap.getD (index / 8) 0 &&& bitmapMask index != 0

/-- `helper_bitmap_set` (helpers.c:221-228). -/
def bitmapSet (bitmap : Bytes) (index : Nat) (value : Bool) : Bytes :=
  bitmap.modify (index / 8) fun byte =>
    if value then byte ||| bitmapMask index else byte &&& ~~~bitmapMask index

theorem toNat_bitmapMask (index : Nat) : (bitmapMask index).toNat = 2 ^ (index % 8) := by
  have hpow : 2 ^ (index % 8) < 2 ^ 8 := Nat.pow_lt_pow_right (by decide) (Nat.mod_lt _ (by decide))
  exact Nat.mod_eq_of_lt hpow

theorem and_bitmapMask (byte : UInt8) (index : Nat) :
    (byte &&& bitmapMask index != 0) = byte.toNat.testBit (index % 8) := by
  have hand : (byte &&& bitmapMask index).toNat =
      (byte.toNat.testBit (index % 8)).toNat * 2 ^ (index % 8) := by
    rw [UInt8.toNat_and, toNat_bitmapMask, Nat.and_two_pow]
  have hpos : 0 < 2 ^ (index % 8) := Nat.two_pow_pos _
  cases hbit : byte.toNat.testBit (index % 8) with
  | false =>
    rw [hbit, Bool.toNat_false, Nat.zero_mul] at hand
    have hzero : byte &&& bitmapMask index = 0 := UInt8.toNat_inj.mp hand
    rw [hzero]
    rfl
  | true =>
    rw [hbit, Bool.toNat_true, Nat.one_mul] at hand
    refine bne_iff_ne.mpr fun hzero => ?_
    rw [hzero] at hand
    exact absurd hand (Nat.ne_of_lt hpos)

/-- The two readings of a bitmap agree. -/
theorem bitmapIsSet_eq {α : Type} (d : ColumnData α) (index : Nat) :
    bitmapIsSet d.nullBitmap index = d.isPresent index := by
  unfold bitmapIsSet ColumnData.isPresent
  cases d.nullBitmap with
  | none => rfl
  | some bitmap => exact and_bitmapMask _ _

@[simp] theorem length_bitmapSet (bitmap : Bytes) (index : Nat) (value : Bool) :
    (bitmapSet bitmap index value).length = bitmap.length := List.length_modify ..

/-- The byte that is set, bit by bit. -/
theorem testBit_setMask (byte : UInt8) (index i : Nat) (value : Bool) (hi : i < 8) :
    (if value then byte ||| bitmapMask index else byte &&& ~~~bitmapMask index).toNat.testBit i =
      if i = index % 8 then value else byte.toNat.testBit i := by
  have hmask : (bitmapMask index).toBitVec.getLsbD i = decide (index % 8 = i) := by
    show (bitmapMask index).toNat.testBit i = _
    rw [toNat_bitmapMask, Nat.testBit_two_pow]
  cases value with
  | true =>
    show ((byte ||| bitmapMask index).toBitVec.getLsbD i) = if i = index % 8 then true else
      byte.toBitVec.getLsbD i
    rw [UInt8.toBitVec_or, BitVec.getLsbD_or, hmask]
    by_cases h : i = index % 8
    · simp [h]
    · simp [h, Ne.symm h]
  | false =>
    show ((byte &&& ~~~bitmapMask index).toBitVec.getLsbD i) = if i = index % 8 then false else
      byte.toBitVec.getLsbD i
    rw [UInt8.toBitVec_and, UInt8.toBitVec_not, BitVec.getLsbD_and, BitVec.getLsbD_not, hmask]
    by_cases h : i = index % 8
    · simp [h]
    · simp [h, Ne.symm h, hi]

/-- **One bit is set**, and the others stay. -/
theorem bitmapIsSet_bitmapSet {bitmap : Bytes} {index : Nat} (h : index < 8 * bitmap.length)
    (value : Bool) (i : Nat) :
    bitmapIsSet (some (bitmapSet bitmap index value)) i =
      if i = index then value else bitmapIsSet (some bitmap) i := by
  simp only [bitmapIsSet, and_bitmapMask, bitmapSet, List.getD_eq_getElem?_getD,
    List.getElem?_modify, Option.map_eq_map]
  by_cases hbyte : index / 8 = i / 8
  · have hlt : i / 8 < bitmap.length := by omega
    simp only [List.getElem?_eq_getElem hlt, Option.map_some, Option.getD_some, if_pos hbyte]
    rw [testBit_setMask _ _ _ _ (Nat.mod_lt _ (by decide))]
    by_cases hbit : i = index
    · rw [if_pos (by rw [hbit]), if_pos hbit]
    · rw [if_neg (by omega), if_neg hbit]
  · simp only [if_neg hbyte, Option.map_id']
    rw [if_neg (by rintro rfl; exact hbyte rfl)]

@[simp] theorem length_foldl_bitmapSet (bitmap : Bytes) (rows : List Nat) (index : Nat → Nat)
    (f : Nat → Bool) :
    (rows.foldl (fun bitmap row => bitmapSet bitmap (index row) (f row)) bitmap).length =
      bitmap.length := by
  induction rows generalizing bitmap with
  | nil => rfl
  | cons row rows ih => exact (ih _).trans (length_bitmapSet ..)

/-- The bits of cells, one after the other. -/
theorem bitmapIsSet_foldl {bitmap : Bytes} {start count : Nat} (f : Nat → Bool)
    (h : start + count ≤ 8 * bitmap.length) (i : Nat) :
    bitmapIsSet (some ((List.range count).foldl
        (fun bitmap row => bitmapSet bitmap (start + row) (f row)) bitmap)) i =
      if start ≤ i ∧ i < start + count then f (i - start) else bitmapIsSet (some bitmap) i := by
  induction count with
  | zero => rw [if_neg (by omega)]; rfl
  | succ count ih =>
    rw [List.range_succ, List.foldl_append, List.foldl_cons, List.foldl_nil,
      bitmapIsSet_bitmapSet (by rw [length_foldl_bitmapSet]; omega), ih (by omega)]
    by_cases hi : i = start + count
    · rw [if_pos hi, if_pos (by omega), hi, Nat.add_sub_cancel_left]
    · by_cases hin : start ≤ i ∧ i < start + count
      · rw [if_neg hi, if_pos hin, if_pos (by omega)]
      · rw [if_neg hi, if_neg hin, if_neg (by omega)]

/-! ## Blocks -/

/-- `helper_type_size` (helpers.c:196-215). -/
def helperTypeSize (type : PhysicalType) : Nat :=
  match type with
  | .boolean => 1
  | .int32 => 4
  | .int64 => 8
  | .int96 => 12
  | .float => 4
  | .double => 8
  | .byteArray => 16
  | .fixedLenByteArray => 0

/-- `carquet_block_range_t`. -/
structure BlockRange where
  startRow : Int
  endRow : Int
  startColumn : Int
  endColumn : Int

/-- `carquet_block_options_t`: `batch_size` is an `int32_t`. -/
structure BlockOptions where
  batchSize : Int
  includeNullBitmap : Bool
  batchSize_lt : batchSize < 2147483648

/-- `carquet_block_column_t`; `type_length` stays 0. -/
structure BlockColumn (α : Type) where
  columnIndex : Int
  type : PhysicalType
  values : List α
  valuesSize : Nat
  nullBitmap : Option Bytes
  numValues : Nat

/-- `carquet_data_block_t`. -/
structure DataBlock (α : Type) where
  startRow : Int
  numRows : Int
  columns : List (BlockColumn α)

namespace BlockRange

/-- `requested_rows`. -/
def requestedRows (range : BlockRange) : Nat := (range.endRow - range.startRow).toNat

/-- `requested_columns` and `num_projected`. -/
def requestedColumns (range : BlockRange) : Nat := (range.endColumn - range.startColumn).toNat

/-- What is projected of a list with an entry for each column of the file. -/
def project {β : Type} (range : BlockRange) (xs : List β) : List β :=
  (xs.drop range.startColumn.toNat).take range.requestedColumns

/-- The rows of the range. -/
def rows {β : Type} (range : BlockRange) (xs : List β) : List β :=
  (xs.drop range.startRow.toNat).take range.requestedRows

end BlockRange

/-- Whether a bitmap is made (helpers.c:397). -/
def wantsNullBitmap (options : Option BlockOptions) : Bool :=
  match options with
  | none => true
  | some options => options.includeNullBitmap

/-- `config` of the batch reader (helpers.c:503-507). -/
def blockConfig (options : Option BlockOptions) : BatchConfig where
  batchSize :=
    match options with
    | none => 65536
    | some options => if 0 < options.batchSize then options.batchSize.toNat else 65536
  rowGroupFilter := none
  batchSize_pos := by
    cases options with
    | none => decide
    | some options => dsimp only; split <;> omega
  batchSize_lt := by
    cases options with
    | none => decide
    | some options =>
      have hlt := options.batchSize_lt
      dsimp only
      split <;> omega

variable {α : Type} [Zero α]

/-- A column of a block without rows (helpers.c:386-405); its memory is cleared. -/
def initColumn (rows : Nat) (bitmap : Bool) (sourceColumn : Int) (c : ProjectedColumn) :
    BlockColumn α :=
  ⟨sourceColumn, c.type, List.replicate rows 0, rows * helperTypeSize c.type,
    if bitmap then some (List.replicate ((rows + 7) / 8) 0) else none, 0⟩

/-- The columns from `sourceColumn` on (helpers.c:376-406). -/
def initColumns (rows : Nat) (bitmap : Bool) :
    Int → List ProjectedColumn → Except Status (List (BlockColumn α))
  | _, [] => .ok []
  | sourceColumn, c :: cs =>
    if helperTypeSize c.type = 0 then .error .notImplemented
    else do
      let columns ← initColumns rows bitmap (sourceColumn + 1) cs
      .ok (initColumn rows bitmap sourceColumn c :: columns)

/-- `helper_init_block` (helpers.c:358-409). -/
def initBlock (columns : List ProjectedColumn) (range : BlockRange)
    (options : Option BlockOptions) : Except Status (DataBlock α) := do
  let columns ← initColumns range.requestedRows (wantsNullBitmap options) range.startColumn
    (range.project columns)
  .ok ⟨range.startRow, 0, columns⟩

/-- The cells of a BYTE_ARRAY, one after the other (helpers.c:432-448). -/
def copyByteArrays (d : ColumnData α) (offset count start : Nat) (values : List α) : List α :=
  (List.range count).foldl (fun values row =>
    if bitmapIsSet d.nullBitmap (offset + row) then
      values.set (start + row) (d.data.getD (offset + row) 0)
    else values) values

/-- One column of `helper_copy_block_rows` (helpers.c:417-462). -/
def copyColumn (d : ColumnData α) (offset count : Nat) (column : BlockColumn α) :
    Except Status (BlockColumn α) :=
  if d.numValues < ((offset + count : Nat) : Int) then .error .invalidMetadata
  else
    let start := column.numValues
    .ok { column with
      values := if column.type = .byteArray then copyByteArrays d offset count start column.values
        else column.values.take start ++ (d.data.drop offset).take count ++
          column.values.drop (start + count)
      nullBitmap := column.nullBitmap.map fun bitmap =>
        (List.range count).foldl (fun bitmap row =>
          bitmapSet bitmap (start + row) (bitmapIsSet d.nullBitmap (offset + row))) bitmap
      numValues := column.numValues + count }

/-- The columns; a batch that has fewer is `CARQUET_ERROR_INVALID_ARGUMENT`
(batch_reader.c:1812-1814). -/
def copyColumns (offset count : Nat) :
    List (ColumnData α) → List (BlockColumn α) → Except Status (List (BlockColumn α))
  | _, [] => .ok []
  | [], _ :: _ => .error .invalidArgument
  | d :: ds, column :: columns => do
    let column ← copyColumn d offset count column
    let columns ← copyColumns offset count ds columns
    .ok (column :: columns)

/-- `helper_copy_block_rows` (helpers.c:411-466). -/
def copyBlockRows (batch : RowBatch α) (offset count : Nat) (block : DataBlock α) :
    Except Status (DataBlock α) := do
  let columns ← copyColumns offset count batch.columns block.columns
  .ok { block with numRows := block.numRows + count, columns := columns }

/-- What a batch has of the range (helpers.c:519-526). -/
def copyOverlap (range : BlockRange) (batch : RowBatch α) (batchStart : Int)
    (block : DataBlock α) : Except Status (DataBlock α) :=
  let batchEnd := batchStart + batch.numRows
  if range.startRow < batchEnd ∧ batchStart < range.endRow then
    let copyStart := if batchStart < range.startRow then range.startRow - batchStart else 0
    let copyEnd := if range.endRow < batchEnd then range.endRow - batchStart else batch.numRows
    copyBlockRows batch copyStart.toNat (copyEnd - copyStart).toNat block
  else .ok block

/-- The loop over the batches (helpers.c:516-548); `none` if the calls are too few. -/
def retrieveRows (started : Nat → Nat → Bool) (range : BlockRange) :
    Nat → Nat → BatchReader α → Int → DataBlock α → Option (Except Status (DataBlock α))
  | _, 0, _, _, _ => none
  | i, calls + 1, b, absoluteRow, block =>
    match b.next (started i) with
    | (.error e, _) => if e = .endOfData then some (.ok block) else some (.error e)
    | (.ok batch, b) =>
      match copyOverlap range batch absoluteRow block with
      | .error e => some (.error e)
      | .ok block =>
        if range.endRow ≤ absoluteRow + batch.numRows then some (.ok block)
        else retrieveRows started range (i + 1) calls b (absoluteRow + batch.numRows) block

/-- `carquet_retrieve_block` (helpers.c:468-548) of a file with these columns and row groups. -/
def retrieveBlock (mmap : Bool) (columns : List ProjectedColumn)
    (rowGroups : List (List (ColumnChunk α))) (range : BlockRange) (options : Option BlockOptions)
    (started : Nat → Nat → Bool) (calls : Nat) : Option (Except Status (DataBlock α)) :=
  if range.startRow < 0 ∨ range.endRow < range.startRow ∨ range.startColumn < 0 ∨
      range.endColumn ≤ range.startColumn then some (.error .invalidArgument)
  else if columns.length < range.endColumn then some (.error .columnNotFound)
  else
    match initBlock columns range options with
    | .error e => some (.error e)
    | .ok block => retrieveRows started range 0 calls
        (batchReaderCreate mmap (blockConfig options) (range.project columns)
          (rowGroups.map range.project)) 0 block

/-! ## What a block shows -/

/-- A column of a block with these rows of a file's column; the cells behind them are as `calloc`
left them. -/
structure BlockColumn.Holds (c : BlockColumn α) (requested : Nat) (bitmap : Bool) (index : Int)
    (column : Option ProjectedColumn) (rows : List (Option α)) : Prop where
  columnIndex_eq : c.columnIndex = index
  type_eq : column.map (·.type) = some c.type
  valuesSize_eq : c.valuesSize = requested * helperTypeSize c.type
  length_le : rows.length ≤ requested
  numValues_eq : c.numValues = rows.length
  values_eq : c.values =
    rows.map (fun row => row.getD 0) ++ List.replicate (requested - rows.length) 0
  isSome_nullBitmap : c.nullBitmap.isSome = bitmap
  length_nullBitmap : ∀ bits ∈ c.nullBitmap, bits.length = (requested + 7) / 8
  bits_eq : ∀ bits ∈ c.nullBitmap, ∀ i,
    bitmapIsSet (some bits) i = (rows.getD i none).isSome

/-- A block shows these rows of its columns. -/
structure DataBlock.Shows (block : DataBlock α) (range : BlockRange) (bitmap : Bool)
    (columns : List ProjectedColumn) (rows : Nat → List (Option α)) : Prop where
  startRow_eq : block.startRow = range.startRow
  length_eq : block.columns.length = columns.length
  numRows_eq : ∀ j < columns.length, block.numRows = (rows j).length
  columns_hold : ∀ (j : Nat) (c : BlockColumn α), block.columns[j]? = some c →
    c.Holds range.requestedRows bitmap (range.startColumn + j) columns[j]? (rows j)

theorem DataBlock.Shows.congr {block : DataBlock α} {range : BlockRange} {bitmap : Bool}
    {columns : List ProjectedColumn} {rows rows' : Nat → List (Option α)}
    (h : block.Shows range bitmap columns rows) (heq : ∀ j < columns.length, rows' j = rows j) :
    block.Shows range bitmap columns rows' := by
  refine ⟨h.startRow_eq, h.length_eq, fun j hj => ?_, fun j c hc => ?_⟩
  · rw [heq j hj]
    exact h.numRows_eq j hj
  · have hj := (List.getElem?_eq_some_iff.mp hc).1
    rw [heq j (h.length_eq ▸ hj)]
    exact h.columns_hold j c hc

/-! ## One column -/

/-- The cells of a BYTE_ARRAY go where nothing was written. -/
theorem copyByteArrays_eq (d : ColumnData α) (offset : Nat) {count rest : Nat} (cells : List α)
    (h : count ≤ rest) :
    copyByteArrays d offset count cells.length (cells ++ List.replicate rest 0) =
      cells ++ (List.range count).map (fun row =>
        if bitmapIsSet d.nullBitmap (offset + row) then d.data.getD (offset + row) 0 else 0) ++
        List.replicate (rest - count) 0 := by
  induction count with
  | zero => simp [copyByteArrays]
  | succ count ih =>
    have hrest : List.replicate (rest - count) (0 : α) =
        0 :: List.replicate (rest - (count + 1)) 0 := by
      rw [← List.replicate_succ]
      congr 1
      omega
    have ih := ih (by omega)
    unfold copyByteArrays at ih ⊢
    rw [List.range_succ, List.foldl_append, ih, List.map_append, hrest]
    simp only [List.foldl_cons, List.foldl_nil, List.map_cons, List.map_nil]
    split
    · rw [List.set_append_right _ _ (by simp)]
      simp
    · simp

omit [Zero α] in
/-- The rows that are copied, one by one. -/
theorem getD_window (piece : List (Option α)) (offset count j : Nat) :
    ((piece.drop offset).take count).getD j none =
      if j < count then piece.getD (offset + j) none else none := by
  simp only [List.getD_eq_getElem?_getD, List.getElem?_take, List.getElem?_drop]
  split <;> rfl

theorem ColumnData.Shows.isPresent_getD {d : ColumnData α} {piece : List (Option α)}
    (h : d.Shows piece) {i : Nat} (hi : i < piece.length) :
    d.isPresent i = (piece.getD i none).isSome := by
  rw [h.isPresent_eq i hi, List.getD_eq_getElem _ _ hi]

/-- **A column takes more rows.** -/
theorem BlockColumn.Holds.copy {c : BlockColumn α} {d : ColumnData α} {requested offset count : Nat}
    {bitmap : Bool} {index : Int} {column : Option ProjectedColumn} {rows piece : List (Option α)}
    (h : c.Holds requested bitmap index column rows) (hd : d.Shows piece)
    (hin : offset + count ≤ piece.length) (hfits : rows.length + count ≤ requested) :
    ∃ c', copyColumn d offset count c = .ok c' ∧
      c'.Holds requested bitmap index column (rows ++ (piece.drop offset).take count) := by
  have hcount : ((piece.drop offset).take count).length = count := by
    rw [List.length_take, List.length_drop]
    omega
  have hnum := hd.numValues_eq
  rw [copyColumn, if_neg (by omega)]
  refine ⟨_, rfl, h.columnIndex_eq, h.type_eq, h.valuesSize_eq, ?_, ?_, ?_, ?_, ?_, ?_⟩
  · rw [List.length_append, hcount]
    exact hfits
  · rw [List.length_append, hcount, ← h.numValues_eq]
  · -- the cells
    have hlength : (rows.map fun row => row.getD 0).length = rows.length := List.length_map ..
    have hcells : ((piece.drop offset).take count).map (fun row => row.getD 0) =
        (d.data.drop offset).take count := by
      rw [hd.data_eq, List.map_take, List.map_drop]
    rw [h.values_eq, h.numValues_eq, List.map_append, List.length_append, hcount]
    split
    · have hbytes : (List.range count).map (fun row =>
          if bitmapIsSet d.nullBitmap (offset + row) then d.data.getD (offset + row) 0 else 0) =
          ((piece.drop offset).take count).map fun row => row.getD 0 := by
        refine List.ext_getElem ?_ fun j hj _ => ?_
        · rw [List.length_map, List.length_map, List.length_range, hcount]
        rw [List.length_map, List.length_range] at hj
        have hlt : offset + j < piece.length := by omega
        simp only [List.getElem_map, List.getElem_range, List.getElem_take, List.getElem_drop]
        rw [bitmapIsSet_eq, hd.isPresent_eq _ hlt, hd.data_eq, List.getD_eq_getElem _ _ (by simpa),
          List.getElem_map]
        cases piece[offset + j] <;> rfl
      have hcopy := copyByteArrays_eq d offset (rows.map fun row => row.getD 0)
        (by omega : count ≤ requested - rows.length)
      rw [hlength] at hcopy
      rw [hcopy, hbytes, Nat.sub_sub]
    · have hbehind : (rows.map (fun row : Option α => row.getD 0) ++
          List.replicate (requested - rows.length) 0).drop (rows.length + count) =
          List.replicate (requested - (rows.length + count)) 0 := by
        rw [List.drop_append, List.drop_eq_nil_of_le (by rw [hlength]; omega), hlength,
          List.nil_append, List.drop_replicate]
        congr 1
        omega
      rw [List.take_left' hlength, hcells, hbehind]
  · rw [Option.isSome_map, h.isSome_nullBitmap]
  · intro bits hbits
    obtain ⟨old, hold, rfl⟩ := Option.mem_map.mp hbits
    rw [length_foldl_bitmapSet, h.length_nullBitmap old hold]
  · intro bits hbits i
    obtain ⟨old, hold, rfl⟩ := Option.mem_map.mp hbits
    have hroom := h.length_nullBitmap old hold
    rw [h.numValues_eq, bitmapIsSet_foldl _ (by omega), h.bits_eq old hold]
    by_cases hbefore : i < rows.length
    · rw [if_neg (by omega), List.getD_append _ _ _ _ hbefore]
    · rw [List.getD_append_right _ _ _ _ (by omega), getD_window]
      by_cases hcopied : i < rows.length + count
      · rw [if_pos (by omega), if_pos (by omega), bitmapIsSet_eq, hd.isPresent_getD (by omega)]
      · rw [if_neg (by omega), if_neg (by omega), List.getD_eq_default _ _ (by omega)]

/-! ## All columns -/

/-- **Every column takes the rows of its piece.** -/
theorem copyColumns_holds {requested offset count : Nat} {bitmap : Bool}
    {ds : List (ColumnData α)} {cs : List (BlockColumn α)} {index : Nat → Int}
    {column : Nat → Option ProjectedColumn} {seen pieces : Nat → List (Option α)}
    (hlen : ds.length = cs.length)
    (hcs : ∀ (j : Nat) (c : BlockColumn α), cs[j]? = some c →
      c.Holds requested bitmap (index j) (column j) (seen j))
    (hds : ∀ j (d : ColumnData α), ds[j]? = some d → d.Shows (pieces j))
    (hin : ∀ j < cs.length, offset + count ≤ (pieces j).length)
    (hfits : ∀ j < cs.length, (seen j).length + count ≤ requested) :
    ∃ cs', copyColumns offset count ds cs = .ok cs' ∧ cs'.length = cs.length ∧
      ∀ (j : Nat) (c : BlockColumn α), cs'[j]? = some c →
        c.Holds requested bitmap (index j) (column j)
          (seen j ++ ((pieces j).drop offset).take count) := by
  induction cs generalizing ds index column seen pieces with
  | nil =>
    refine ⟨[], ?_, rfl, fun j c hc => by cases hc⟩
    rw [List.eq_nil_of_length_eq_zero hlen]
    rfl
  | cons c cs ih =>
    cases ds with
    | nil => cases hlen
    | cons d ds =>
      obtain ⟨c', hcopy, hc'⟩ := (hcs 0 c rfl).copy (hds 0 d rfl) (hin 0 (Nat.succ_pos _))
        (hfits 0 (Nat.succ_pos _))
      obtain ⟨cs', hrest, hlen', hcs'⟩ := ih (Nat.succ.inj hlen) (fun j => hcs (j + 1))
        (fun j => hds (j + 1)) (fun j hj => hin (j + 1) (Nat.succ_lt_succ hj))
        (fun j hj => hfits (j + 1) (Nat.succ_lt_succ hj))
      refine ⟨c' :: cs', ?_, congrArg Nat.succ hlen', fun j => ?_⟩
      · simp only [copyColumns, hcopy, hrest, bind, Except.bind]
      · cases j with
        | zero =>
          intro b hb
          obtain rfl := Option.some.inj hb
          exact hc'
        | succ j => exact hcs' j

theorem initColumn_holds (requested : Nat) (bitmap : Bool) (source : Int)
    (column : ProjectedColumn) :
    (initColumn requested bitmap source column : BlockColumn α).Holds requested bitmap source
      (some column) [] := by
  have hzero : ∀ bits ∈ (initColumn requested bitmap source column : BlockColumn α).nullBitmap,
      bits = List.replicate ((requested + 7) / 8) 0 := by
    intro bits hbits
    cases bitmap with
    | false => cases hbits
    | true => exact (Option.some.inj hbits).symm
  refine ⟨rfl, rfl, rfl, Nat.zero_le _, rfl, rfl, ?_, ?_, ?_⟩
  · cases bitmap <;> rfl
  · intro bits hbits
    rw [hzero bits hbits, List.length_replicate]
  · intro bits hbits i
    rw [hzero bits hbits]
    simp only [bitmapIsSet, List.getD_eq_getElem?_getD, List.getElem?_replicate]
    split <;> simp

/-- The columns before anything is copied. -/
theorem initColumns_holds (requested : Nat) (bitmap : Bool) {columns : List ProjectedColumn}
    (htypes : ∀ c ∈ columns, c.type ≠ .fixedLenByteArray) (source : Int) :
    ∃ cs : List (BlockColumn α), initColumns requested bitmap source columns = .ok cs ∧
      cs.length = columns.length ∧ ∀ (j : Nat) (c : BlockColumn α), cs[j]? = some c →
        c.Holds requested bitmap (source + j) columns[j]? [] := by
  induction columns generalizing source with
  | nil => exact ⟨[], rfl, rfl, fun j c hc => by cases hc⟩
  | cons column columns ih =>
    obtain ⟨cs, hinit, hlen, hcs⟩ := ih (fun c hc => htypes c (List.mem_cons_of_mem _ hc))
      (source + 1)
    have hsize : helperTypeSize column.type ≠ 0 := by
      have htype := htypes column List.mem_cons_self
      cases hcase : column.type <;> first | exact absurd hcase htype | exact Nat.succ_ne_zero _
    refine ⟨initColumn requested bitmap source column :: cs, ?_, congrArg Nat.succ hlen,
      fun j c hc => ?_⟩
    · simp only [initColumns, if_neg hsize, hinit, bind, Except.bind]
    · cases j with
      | zero =>
        obtain rfl := Option.some.inj hc
        rw [Int.natCast_zero, Int.add_zero]
        exact initColumn_holds requested bitmap source column
      | succ j =>
        have hc' := hcs j c hc
        rw [add_assoc, add_comm 1] at hc'
        exact hc'

/-! ## One batch -/

omit [Zero α] in
/-- The rows of a range, when more rows of the file come. -/
theorem BlockRange.rows_append {β : Type} (range : BlockRange) (xs ys : List β) :
    range.rows (xs ++ ys) = range.rows xs ++ (ys.drop (range.startRow.toNat - xs.length)).take
      (range.requestedRows - (xs.length - range.startRow.toNat)) := by
  rw [rows, rows, List.drop_append, List.take_append, List.length_drop]

omit [Zero α] in
theorem BlockRange.length_rows {β : Type} (range : BlockRange) (xs : List β) :
    (range.rows xs).length = min range.requestedRows (xs.length - range.startRow.toNat) := by
  rw [rows, List.length_take, List.length_drop]

/-- Behind the range nothing is added. -/
theorem BlockRange.rows_append_of_le {β : Type} {range : BlockRange} (hstart : 0 ≤ range.startRow)
    {xs : List β} (h : range.endRow ≤ xs.length) (ys : List β) :
    range.rows (xs ++ ys) = range.rows xs := by
  have hnone : range.requestedRows - (xs.length - range.startRow.toNat) = 0 := by
    unfold requestedRows
    omega
  rw [rows_append, hnone, List.take_zero, List.append_nil]

/-- **A batch** adds its rows of the range. -/
theorem DataBlock.Shows.copyOverlap {block : DataBlock α} {range : BlockRange} {bitmap : Bool}
    {columns : List ProjectedColumn} {seen : Nat → List (Option α)} {batch : RowBatch α}
    {pieces : List (List (Option α))} {absoluteRow k : Nat}
    (h : block.Shows range bitmap columns fun j => range.rows (seen j))
    (hseen : ∀ j < columns.length, (seen j).length = absoluteRow)
    (hbatch : batch.Shows pieces) (hlen : pieces.length = columns.length)
    (hpieces : ∀ rows ∈ pieces, rows.length = k) (hrows : batch.numRows = k)
    (hstart : 0 ≤ range.startRow) (hend : range.startRow ≤ range.endRow) :
    ∃ block', copyOverlap range batch absoluteRow block = .ok block' ∧
      block'.Shows range bitmap columns fun j => range.rows (seen j ++ pieces.getD j []) := by
  have hpiece : ∀ j < columns.length, (pieces.getD j []).length = k := by
    intro j hj
    have hj' : j < pieces.length := by omega
    rw [List.getD_eq_getElem _ _ hj']
    exact hpieces _ (List.getElem_mem hj')
  have hcolumns : batch.columns.length = pieces.length := hbatch.columns.length_eq
  have hrequested : range.requestedRows = range.endRow.toNat - range.startRow.toNat := by
    unfold BlockRange.requestedRows
    omega
  rw [Carquet.copyOverlap, hrows]
  split
  · rename_i hoverlap
    obtain ⟨hbehind, hbefore⟩ := hoverlap
    -- the rows of the batch from `offset` on, `count` of them
    generalize hoffset : (if (absoluteRow : Int) < range.startRow then
      range.startRow - absoluteRow else 0) = copyStart
    generalize hcount : (if range.endRow < (absoluteRow : Int) + k then
      range.endRow - absoluteRow else (k : Int)) = copyEnd
    have hstart' : copyStart.toNat = range.startRow.toNat - absoluteRow := by
      rw [← hoffset]
      split <;> omega
    have hcount' : (copyEnd - copyStart).toNat =
        min (range.endRow.toNat - absoluteRow) k - (range.startRow.toNat - absoluteRow) := by
      rw [← hcount, ← hoffset]
      split <;> split <;> omega
    have hwindow : ∀ j < columns.length, range.rows (seen j ++ pieces.getD j []) =
        range.rows (seen j) ++
          ((pieces.getD j []).drop copyStart.toNat).take (copyEnd - copyStart).toNat := by
      intro j hj
      rw [range.rows_append, hseen j hj, hstart']
      congr 1
      rw [List.take_eq_take_iff, List.length_drop, hpiece j hj, hcount', hrequested]
      omega
    have hshown : ∀ (j : Nat) (d : ColumnData α), batch.columns[j]? = some d →
        d.Shows (pieces.getD j []) := by
      intro j d hd
      obtain ⟨hj, rfl⟩ := List.getElem?_eq_some_iff.mp hd
      rw [List.getD_eq_getElem _ _ (hcolumns ▸ hj)]
      exact (List.forall₂_iff_get.mp hbatch.columns).2 j hj (hcolumns ▸ hj)
    have hin : ∀ j < block.columns.length,
        copyStart.toNat + (copyEnd - copyStart).toNat ≤ (pieces.getD j []).length := by
      intro j hj
      rw [hpiece j (h.length_eq ▸ hj), hstart', hcount']
      omega
    have hfits : ∀ j < block.columns.length,
        (range.rows (seen j)).length + (copyEnd - copyStart).toNat ≤ range.requestedRows := by
      intro j hj
      rw [range.length_rows, hseen j (h.length_eq ▸ hj), hcount', hrequested]
      omega
    obtain ⟨cs', hcopy, hlen', hcs'⟩ := copyColumns_holds
      (hcolumns.trans (hlen.trans h.length_eq.symm)) h.columns_hold hshown hin hfits
    refine ⟨{ block with numRows := block.numRows + (copyEnd - copyStart).toNat, columns := cs' },
      ?_, h.startRow_eq, hlen'.trans h.length_eq, fun j hj => ?_, fun j c hc => ?_⟩
    · rw [copyBlockRows, hcopy]
      rfl
    · have hroom := hin j (h.length_eq.symm ▸ hj)
      have hnum := h.numRows_eq j hj
      rw [hwindow j hj, List.length_append, List.length_take, List.length_drop]
      dsimp only
      omega
    · have hj : j < columns.length := by
        have hj' : j < cs'.length := (List.getElem?_eq_some_iff.mp hc).1
        have hlength := h.length_eq
        omega
      rw [hwindow j hj]
      exact hcs' j c hc
  · -- the batch is in front of the range or behind it
    rename_i hapart
    refine ⟨block, rfl, ?_⟩
    refine h.congr fun j hj => ?_
    have hempty : ((pieces.getD j []).drop (range.startRow.toNat - (seen j).length)).take
        (range.requestedRows - ((seen j).length - range.startRow.toNat)) = [] := by
      refine List.eq_nil_of_length_eq_zero ?_
      rw [List.length_take, List.length_drop, hpiece j hj, hseen j hj, hrequested]
      omega
    rw [range.rows_append, hempty, List.append_nil]

/-! ## The run -/

/-- **The loop**, over a reader that can be read to its end. -/
theorem retrieveRows_shows {range : BlockRange} {bitmap : Bool} {columns : List ProjectedColumn}
    (started : Nat → Nat → Bool) (hpos : columns ≠ []) (hstart : 0 ≤ range.startRow)
    (hend : range.startRow ≤ range.endRow) {n i : Nat} {b : BatchReader α}
    {batches : List (RowBatch α)} {shown : List (List (List (Option α)))}
    (hdrain : b.drain started i n = some batches)
    (hshown : List.Forall₂ RowBatch.Shows batches shown)
    (heven : ∀ pieces ∈ shown, pieces.length = columns.length ∧
      ∃ k, ∀ rows ∈ pieces, rows.length = k) {absoluteRow : Nat}
    {seen : Nat → List (Option α)} {block : DataBlock α}
    (h : block.Shows range bitmap columns fun j => range.rows (seen j))
    (hseen : ∀ j < columns.length, (seen j).length = absoluteRow) :
    ∃ block', (∀ m ≥ n, retrieveRows started range i m b absoluteRow block = some (.ok block')) ∧
      block'.Shows range bitmap columns fun j =>
        range.rows (seen j ++ shown.flatMap fun pieces => pieces.getD j []) := by
  induction n generalizing i b batches shown absoluteRow seen block with
  | zero => cases hdrain
  | succ n ih =>
    unfold BatchReader.drain at hdrain
    split at hdrain
    · rename_i batch b' hnext
      obtain ⟨rest, hrest, rfl⟩ := Option.map_eq_some_iff.mp hdrain
      cases hshown with
      | cons hbatch hlater =>
        rename_i pieces shown
        obtain ⟨hlen, k, hpieces⟩ := heven pieces List.mem_cons_self
        have hrows : batch.numRows = k := by
          rw [hbatch.numRows_eq]
          cases pieces with
          | nil => exact absurd (List.eq_nil_of_length_eq_zero hlen.symm) hpos
          | cons rows pieces => rw [List.headD_cons, hpieces rows List.mem_cons_self]
        obtain ⟨block₁, hcopy, h₁⟩ :=
          h.copyOverlap hseen hbatch hlen hpieces hrows hstart hend
        have hseen₁ : ∀ j < columns.length,
            (seen j ++ pieces.getD j []).length = absoluteRow + k := by
          intro j hj
          have hj' : j < pieces.length := by omega
          rw [List.length_append, hseen j hj, List.getD_eq_getElem _ _ hj',
            hpieces _ (List.getElem_mem hj')]
        by_cases hdone : range.endRow ≤ ((absoluteRow + k : Nat) : Int)
        · -- the range is behind; the batches to come are not looked at
          refine ⟨block₁, fun m hm => ?_, ?_⟩
          · obtain ⟨m, rfl⟩ : ∃ l, m = l + 1 := ⟨m - 1, by omega⟩
            simp only [retrieveRows, hnext, hcopy, hrows]
            rw [if_pos (by omega)]
          · have hsame : ∀ j < columns.length, range.rows (seen j ++
                (pieces :: shown).flatMap fun pieces => pieces.getD j []) =
                range.rows (seen j ++ pieces.getD j []) := by
              intro j hj
              rw [List.flatMap_cons, ← List.append_assoc]
              exact BlockRange.rows_append_of_le hstart (by rw [hseen₁ j hj]; exact hdone) _
            exact h₁.congr hsame
        · obtain ⟨block₂, hrun, h₂⟩ := ih hrest hlater
            (fun p hp => heven p (List.mem_cons_of_mem _ hp)) h₁ hseen₁
          refine ⟨block₂, fun m hm => ?_, ?_⟩
          · obtain ⟨m, rfl⟩ : ∃ l, m = l + 1 := ⟨m - 1, by omega⟩
            simp only [retrieveRows, hnext, hcopy, hrows]
            rw [if_neg (by omega), ← Int.natCast_add]
            exact hrun m (by omega)
          · refine h₂.congr fun j _ => ?_
            rw [List.flatMap_cons, List.append_assoc]
    · rename_i hnext
      obtain rfl := Option.some.inj hdrain
      cases hshown
      refine ⟨block, fun m hm => ?_, ?_⟩
      · obtain ⟨m, rfl⟩ : ∃ l, m = l + 1 := ⟨m - 1, by omega⟩
        simp only [retrieveRows, hnext]
        rfl
      · refine h.congr fun j _ => ?_
        rw [List.flatMap_nil, List.append_nil]
    · cases hdrain

/-! ## The projected columns of a file -/

section Projection

omit [Zero α]

variable {range : BlockRange}

/-- A range of columns that the file has. -/
structure BlockRange.InColumns (range : BlockRange) (numColumns : Nat) : Prop where
  start_nonneg : 0 ≤ range.startColumn
  start_lt : range.startColumn < range.endColumn
  end_le : range.endColumn ≤ numColumns

theorem BlockRange.map_project {β γ : Type} (g : β → γ) (xs : List β) :
    (range.project xs).map g = range.project (xs.map g) := by
  rw [project, project, List.map_take, List.map_drop]

theorem BlockRange.mem_of_mem_project {β : Type} {xs : List β} {x : β}
    (h : x ∈ range.project xs) : x ∈ xs :=
  List.mem_of_mem_drop (List.mem_of_mem_take h)

theorem BlockRange.length_project {β : Type} {xs : List β} (h : range.InColumns xs.length) :
    (range.project xs).length = range.requestedColumns := by
  obtain ⟨h₁, h₂, h₃⟩ := h
  rw [project, List.length_take, List.length_drop]
  unfold requestedColumns
  omega

theorem BlockRange.getD_project {β : Type} {xs : List β} {j : Nat} (hj : j < range.requestedColumns)
    (d : β) : (range.project xs).getD j d = xs.getD (range.startColumn.toNat + j) d := by
  rw [project, List.getD_eq_getElem?_getD, List.getD_eq_getElem?_getD, List.getElem?_take,
    if_pos hj, List.getElem?_drop]

/-- The file, as far as it is projected. -/
def BlockRange.projectFile (range : BlockRange) (f : FlatFile α)
    (h : range.InColumns f.columns.length) : FlatFile α where
  columns := range.project f.columns
  rowGroups := f.rowGroups.map range.project
  columns_ne_nil := by
    have hlength := BlockRange.length_project h
    have hlt := h.start_lt
    rintro hnil
    rw [hnil] at hlength
    unfold BlockRange.requestedColumns at hlength
    rw [List.length_nil] at hlength
    omega
  columns_eq := by
    intro rowGroup hmem
    obtain ⟨group, hgroup, rfl⟩ := List.mem_map.mp hmem
    rw [BlockRange.map_project, f.columns_eq group hgroup]
  flat := fun c hc => f.flat c (BlockRange.mem_of_mem_project hc)
  length_eq := by
    intro rowGroup hmem c hc c' hc'
    obtain ⟨group, hgroup, rfl⟩ := List.mem_map.mp hmem
    exact f.length_eq group hgroup c (BlockRange.mem_of_mem_project hc) c'
      (BlockRange.mem_of_mem_project hc')

theorem selectedFrom_map {β γ : Type} (config : BatchConfig) (g : β → γ) (n : Nat) (xs : List β) :
    selectedFrom config n (xs.map g) = (selectedFrom config n xs).map g := by
  unfold selectedFrom
  induction xs generalizing n with
  | nil => rfl
  | cons x xs ih =>
    rw [List.map_cons, List.zipIdx_cons, List.zipIdx_cons, List.filter_cons, List.filter_cons]
    split
    · rw [List.map_cons, List.map_cons, List.map_cons, ih]
    · exact ih _

/-- A projected column has the content of the file's. -/
theorem content_projectFile {f : FlatFile α} (h : range.InColumns f.columns.length)
    (config : BatchConfig) {j : Nat} (hj : j < range.requestedColumns) :
    (range.projectFile f h).content config j =
      f.content config (range.startColumn.toNat + j) := by
  have hselected : (range.projectFile f h).selected config =
      (f.selected config).map range.project := selectedFrom_map config range.project 0 f.rowGroups
  unfold StoredFile.content
  rw [hselected, List.flatMap_map]
  refine List.flatMap_congr fun group _ => ?_
  rw [rowsOf, BlockRange.map_project, BlockRange.getD_project hj]
  rfl

theorem length_pieces {β : Type} {ks : List Nat} {columns pieces : List (List β)}
    (h : pieces ∈ slicesOf ks columns) : pieces.length = columns.length := by
  induction ks generalizing columns with
  | nil => cases h
  | cons k ks ih =>
    rcases List.mem_cons.mp h with rfl | h
    · rw [List.length_map]
    · rw [ih h, List.length_map]

/-- What all cuts have of a column is the column. -/
theorem flatMap_slices {config : BatchConfig} {kss : List (List Nat)}
    {groups : List (List (StoredColumn α))} (hcuts : List.Forall₂ (CutInto config) kss groups)
    (hlen : ∀ rowGroup ∈ groups, ∀ rows ∈ rowsOf rowGroup,
      rows.length = ((rowsOf rowGroup).headD []).length) (i : Nat) :
    ((List.zipWith slicesOf kss (groups.map rowsOf)).flatten.flatMap fun pieces =>
        pieces.getD i []) = groups.flatMap fun rowGroup => (rowsOf rowGroup).getD i [] := by
  induction hcuts with
  | nil => rfl
  | cons hcut htail ih =>
    rename_i ks rowGroup kss groups
    rw [List.map_cons, List.zipWith_cons_cons, List.flatten_cons, List.flatMap_append,
      List.flatMap_cons, ih fun rg hrg => hlen rg (List.mem_cons_of_mem _ hrg)]
    congr 1
    refine slicesOf_flatten ks _ i ?_
    rw [hcut.sum_eq]
    rcases Nat.lt_or_ge i (rowsOf rowGroup).length with hi | hi
    · rw [List.getD_eq_getElem _ _ hi]
      exact Nat.le_of_eq (hlen rowGroup List.mem_cons_self _ (List.getElem_mem hi))
    · rw [List.getD_eq_default _ _ hi]
      exact Nat.zero_le _

end Projection

/-! ## The block -/

/-- One page with three rows. -/
def threeRowsFile : FlatFile Nat :=
  oneColumnFile .int32 0 (onePageChunk [7, 9, 5] (by decide) (by decide))

/-- The second and the third row of the first column. -/
def tailRange : BlockRange := ⟨1, 3, 0, 1⟩

theorem tailOptions_lt : (2 : Int) < 2147483648 := by decide

def tailOptions : BlockOptions := ⟨2, true, tailOptions_lt⟩

end Carquet
