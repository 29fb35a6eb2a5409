import Carquet.Encoding.DeltaStrings
import Carquet.Encoding.Plain
import Carquet.Encoding.RleDecodeSpec

/-!
# Decoding a data page

`src/reader/page_reader.c`, from the decompressed payload of a page to levels and values.

* `readDataPageV1` — `carquet_read_data_page_v1` (page_reader.c:991-1261).
* `readDataPageV2` — `carquet_read_data_page_v2` (page_reader.c:1276-1597).

Both read the levels first (`v1Levels`, `v2Levels`) and share the switch over the value
encoding (`decodePageValues`). The values go into a buffer that was used before: `old` is what
it holds. The dictionary indices go into a buffer of their own that is kept from page to page
(`indicesBuffer`) and allocated without clearing when it is too small (`heap`).
-/

namespace Carquet

open LittleEndian

/-- What the page decoder knows of a column. -/
structure Column where
  type : PhysicalType
  typeLength : Int
  maxDefLevel : Int
  maxRepLevel : Int
  deriving DecidableEq, Repr

/-- A dictionary page that was read (page_reader.c:713-817). -/
structure Dictionary where
  data : Bytes
  count : Nat
  offsets : Option (List Nat)
  deriving DecidableEq, Repr

/-- The fields of `carquet_column_reader_t` the page decoder reads. `has_dictionary` is that
`dictionary` is there; the length of `indicesBuffer` is `indices_capacity`; `heap` is what a
fresh allocation of that buffer would hold. -/
structure PageReader where
  column : Column
  dictionary : Option Dictionary
  preserveDictionary : Bool
  indicesBuffer : List Nat
  heap : Nat → Nat

/-- `parquet_data_page_header_t`. -/
structure DataPageHeader where
  numValues : Nat
  encoding : Encoding
  definitionLevelEncoding : Encoding
  repetitionLevelEncoding : Encoding
  deriving DecidableEq, Repr

/-- `parquet_data_page_header_v2_t`, as far as it is read here. -/
structure DataPageHeaderV2 where
  numValues : Nat
  encoding : Encoding
  definitionLevelsByteLength : Int
  repetitionLevelsByteLength : Int
  deriving DecidableEq, Repr

/-! ## Levels -/

/-- `bit_width_for_max` (page_reader.c:401-409). -/
def bitWidthForMax (maxVal : Int) : Nat := if maxVal ≤ 0 then 0 else maxVal.toNat.log2 + 1

/-- `carquet_dispatch_count_non_nulls` (dispatch.c:315-323). -/
def countNonNulls (defLevels : List Int) (maxDefLevel : Int) : Nat :=
  defLevels.countP (· == maxDefLevel)

/-- `decode_levels_rle` (page_reader.c:610-640). -/
def decodeLevelsRle (data : Bytes) (bitWidth numValues : Nat) : Except Status (List Int) :=
  if bitWidth = 0 then .ok (List.replicate numValues 0)
  else
    let levels := rleDecodeLevels data bitWidth numValues
    if levels.length ≠ numValues then .error .decode else .ok levels

/-- Bit `pos` of a byte string, most significant bit of each byte first. -/
def msbBit (data : Bytes) (pos : Nat) : Nat := (data.getD (pos / 8) 0).toNat >>> (7 - pos % 8) % 2

/-- `carquet_decode_bitpacked_levels` (bitpack.c:529-556): the levels and the bytes used. -/
def decodeBitpackedLevels (data : Bytes) (bitWidth count : Nat) : Except Status (List Int × Nat) :=
  if bitWidth = 0 then .ok (List.replicate count 0, 0)
  else if 16 < bitWidth then .error .decode
  else
    let needed := (count * bitWidth + 7) / 8
    if data.length < needed then .error .decode
    else .ok ((List.range count).map fun i =>
      toI16 ((List.range bitWidth).foldl
        (fun v b => v * 2 + msbBit data (i * bitWidth + b)) 0 : Nat), needed)

/-- `decode_v1_level_section` (page_reader.c:661-706): the levels and what follows them. -/
def decodeV1LevelSection (data : Bytes) (encoding : Encoding) (bitWidth numValues : Nat) :
    Except Status (List Int × Bytes) :=
  if encoding = .bitPacked then do
    let (levels, consumed) ← decodeBitpackedLevels data bitWidth numValues
    .ok (levels, data.drop consumed)
  else if data.length < 4 then .error .decode
  else
    let sz := leNat (data.take 4)
    let data := data.drop 4
    if data.length < sz then .error .decode
    else do
      let levels ← decodeLevelsRle (data.take sz) bitWidth numValues
      .ok (levels, data.drop sz)

/-- A V2 level section of `byteLength` bytes (page_reader.c:1299-1321, 1333-1355); an empty
one means zeros. -/
def decodeV2LevelSection (data : Bytes) (byteLength : Int) (maxLevel : Int) (numValues : Nat) :
    Except Status (List Int × Bytes) :=
  if byteLength < 0 ∨ (data.length : Int) < byteLength then .error .decode
  else if 0 < byteLength then do
    let levels ← decodeLevelsRle (data.take byteLength.toNat) (bitWidthForMax maxLevel) numValues
    .ok (levels, data.drop byteLength.toNat)
  else .ok (List.replicate numValues 0, data)

/-- What the levels of a page say, and the bytes of its values. -/
structure PageLevels where
  numValues : Nat
  defLevels : List Int
  repLevels : List Int
  nonNulls : Nat
  payload : Bytes
  deriving DecidableEq, Repr

/-- Which level buffers the caller passes. -/
structure Wanted where
  defLevels : Bool
  repLevels : Bool
  deriving DecidableEq, Repr

/-- The count of present values (page_reader.c:1039-1043, 1372-1376). -/
def pageNonNulls (column : Column) (wanted : Wanted) (defLevels : List Int) (numValues : Nat) :
    Nat :=
  if wanted.defLevels ∧ 0 < column.maxDefLevel then countNonNulls defLevels column.maxDefLevel
  else numValues

/-- Levels of a V1 page (page_reader.c:1002-1043). -/
def v1Levels (column : Column) (page : Bytes) (header : DataPageHeader) (maxValues : Nat)
    (wanted : Wanted) : Except Status PageLevels := do
  let numValues := min header.numValues maxValues
  let (repLevels, page) ←
    if 0 < column.maxRepLevel ∧ wanted.repLevels then
      decodeV1LevelSection page header.repetitionLevelEncoding
        (bitWidthForMax column.maxRepLevel) numValues
    else .ok (if wanted.repLevels then List.replicate numValues 0 else [], page)
  let (defLevels, page) ←
    if 0 < column.maxDefLevel ∧ wanted.defLevels then
      decodeV1LevelSection page header.definitionLevelEncoding
        (bitWidthForMax column.maxDefLevel) numValues
    else .ok (if wanted.defLevels then List.replicate numValues column.maxDefLevel else [], page)
  .ok ⟨numValues, defLevels, repLevels, pageNonNulls column wanted defLevels numValues, page⟩

/-- Skipping a V2 section nobody asked for (page_reader.c:1322-1328, 1357-1362). -/
def skipV2Section (data : Bytes) (byteLength : Int) : Bytes :=
  if 0 < byteLength ∧ byteLength ≤ data.length then data.drop byteLength.toNat else data

/-- Levels of a V2 page (page_reader.c:1289-1376). -/
def v2Levels (column : Column) (page : Bytes) (header : DataPageHeaderV2) (maxValues : Nat)
    (wanted : Wanted) : Except Status PageLevels := do
  let numValues := min header.numValues maxValues
  let (repLevels, page) ←
    if 0 < column.maxRepLevel ∧ wanted.repLevels then
      decodeV2LevelSection page header.repetitionLevelsByteLength column.maxRepLevel numValues
    else .ok (if wanted.repLevels then List.replicate numValues 0 else [],
      skipV2Section page header.repetitionLevelsByteLength)
  let (defLevels, page) ←
    if 0 < column.maxDefLevel ∧ wanted.defLevels then
      decodeV2LevelSection page header.definitionLevelsByteLength column.maxDefLevel numValues
    else .ok (if wanted.defLevels then List.replicate numValues column.maxDefLevel else [],
      skipV2Section page header.definitionLevelsByteLength)
  .ok ⟨numValues, defLevels, repLevels, pageNonNulls column wanted defLevels numValues, page⟩

/-! ## Values -/

/-- Entry `idx` of a BYTE_ARRAY dictionary without an offset table (page_reader.c:1137-1145).
`4 + len` is a sum of 32 bits. -/
def scanDictionary : Nat → Bytes → Bytes
  | 0, data => data
  | n + 1, data => scanDictionary n (data.drop ((4 + leNat (data.take 4)) % 4294967296))

/-- The dictionary entry at `idx` (page_reader.c:1110-1148, 1150-1215). -/
def dictionaryEntry (column : Column) (dict : Dictionary) (idx : Nat) : Value :=
  if column.type = .byteArray then
    let entry := match dict.offsets with
      | some offsets => dict.data.drop (offsets.getD idx 0)
      | none => scanDictionary idx dict.data
    (entry.drop 4).take (leNat (entry.take 4))
  else
    let valueSize := physicalTypeStride column.type column.typeLength
    (dict.data.drop (idx * valueSize)).take valueSize

/-- The lookup loops and `carquet_dispatch_checked_gather_*` (dispatch.c:165-197): an index
past the dictionary is an error. -/
def gatherDictionary (column : Column) (dict : Dictionary) (indices : List Nat) :
    Except Status (List Value) :=
  if indices.any (dict.count ≤ ·) then .error .decode
  else .ok (indices.map (dictionaryEntry column dict))

/-- `decode_phase3_values` (page_reader.c:838-967): the values written. -/
def decodePhase3Values (column : Column) (encoding : Encoding) (payload : Bytes)
    (nonNulls : Nat) : Except Status (List Value) :=
  match encoding with
  | .deltaBinaryPacked =>
    match column.type with
    | .int32 => do
      let (values, _) ← deltaDecodeInt32 payload nonNulls
      .ok (values.map fun v => leBytes 4 (toU32 v))
    | .int64 => do
      let (values, _) ← deltaDecodeInt64 payload nonNulls
      .ok (values.map fun v => leBytes 8 (toU64 v))
    | _ => .error .invalidEncoding
  | .deltaLengthByteArray =>
    if column.type ≠ .byteArray then .error .invalidEncoding
    else do
      let (values, _) ← deltaLengthDecode payload nonNulls
      .ok values
  | .deltaByteArray =>
    if column.type ≠ .byteArray ∧ column.type ≠ .fixedLenByteArray then .error .invalidEncoding
    else if nonNulls = 0 then .ok []
    else do
      let workSize ← deltaStringsDecodedSize payload nonNulls
      let (values, _) ← deltaStringsDecode payload nonNulls workSize
      if column.type = .fixedLenByteArray ∧
          values.any (fun v => (v.length : Int) ≠ column.typeLength) then .error .decode
      else .ok values
  | .byteStreamSplit =>
    match column.type with
    | .float | .int32 => byteStreamSplit 4
    | .double | .int64 => byteStreamSplit 8
    | .fixedLenByteArray =>
      if column.typeLength ≤ 0 then .error .invalidArgument
      else byteStreamSplit column.typeLength.toNat
    | _ => .error .invalidEncoding
  | _ => .error .invalidEncoding
where
  byteStreamSplit (width : Nat) : Except Status (List Value) :=
    match byteStreamSplitDecode width payload nonNulls with
    | none => .error .decode
    | some values => .ok values

/-- The indices of a dictionary-encoded page in the reader's buffer (page_reader.c:1080-1100):
what the stream does not yield is what the buffer held. -/
def decodedIndices (r : PageReader) (stream : Bytes) (bitWidth : Int) (encodedCount : Nat) :
    List Nat :=
  let buffer := if encodedCount ≤ r.indicesBuffer.length then r.indicesBuffer
    else (List.range encodedCount).map r.heap
  overlay (rleDecodeAll stream bitWidth encodedCount) buffer

/-- The switch over the value encoding (page_reader.c:1045-1250, 1378-1586): the values buffer
and the indices buffer afterwards. -/
def decodePageValues (r : PageReader) (encoding : Encoding) (payload : Bytes) (old : List Value)
    (nonNulls : Nat) : Except Status (List Value × List Nat) :=
  match encoding with
  | .plain =>
    match decodePlain r.column.type r.column.typeLength payload nonNulls with
    | none => .error .decode
    | some values => .ok (overlay values old, r.indicesBuffer)
  | .rleDictionary | .plainDictionary =>
    match r.dictionary with
    | none => .error .dictionaryNotFound
    | some dict =>
      match payload with
      | [] => .error .decode
      | bitWidth :: stream =>
        if r.preserveDictionary then
          let decoded := rleDecodeAll stream bitWidth.toNat nonNulls
          .ok (overlay (decoded.map (leBytes 4)) old, r.indicesBuffer)
        else
          let indices := decodedIndices r stream bitWidth.toNat nonNulls
          -- no case of the lookup switch writes a BOOLEAN
          if r.column.type = .boolean then .ok (old, indices)
          else do
            let values ← gatherDictionary r.column dict (indices.take nonNulls)
            .ok (overlay values old, indices)
  | _ => do
    let values ← decodePhase3Values r.column encoding payload nonNulls
    .ok (overlay values old, r.indicesBuffer)

/-! ## Pages -/

/-- What a call leaves behind. -/
structure PageResult where
  defLevels : List Int
  repLevels : List Int
  values : List Value
  nonNulls : Nat
  valuesRead : Nat
  indicesBuffer : List Nat

/-- The values of a page whose levels are read. -/
def readPageValues (r : PageReader) (encoding : Encoding) (old : List Value)
    (levels : PageLevels) : Except Status PageResult := do
  let (values, indices) ← decodePageValues r encoding levels.payload old levels.nonNulls
  .ok ⟨levels.defLevels, levels.repLevels, values, levels.nonNulls, levels.numValues, indices⟩

/-- `carquet_read_data_page_v1` (page_reader.c:991-1261). -/
def readDataPageV1 (r : PageReader) (page : Bytes) (header : DataPageHeader) (old : List Value)
    (maxValues : Nat) (wanted : Wanted) : Except Status PageResult := do
  let levels ← v1Levels r.column page header maxValues wanted
  readPageValues r header.encoding old levels

/-- `carquet_read_data_page_v2` (page_reader.c:1276-1597). -/
def readDataPageV2 (r : PageReader) (page : Bytes) (header : DataPageHeaderV2)
    (old : List Value) (maxValues : Nat) (wanted : Wanted) : Except Status PageResult := do
  let levels ← v2Levels r.column page header maxValues wanted
  readPageValues r header.encoding old levels

/-- The header of a data page of either version. -/
inductive PageHeader where
  | v1 (header : DataPageHeader)
  | v2 (header : DataPageHeaderV2)
  deriving DecidableEq, Repr

def PageHeader.encoding : PageHeader → Encoding
  | .v1 header => header.encoding
  | .v2 header => header.encoding

def PageHeader.numValues : PageHeader → Nat
  | .v1 header => header.numValues
  | .v2 header => header.numValues

/-- The levels of a page of either version. -/
def pageLevels (column : Column) (page : Bytes) (header : PageHeader) (maxValues : Nat)
    (wanted : Wanted) : Except Status PageLevels :=
  match header with
  | .v1 header => v1Levels column page header maxValues wanted
  | .v2 header => v2Levels column page header maxValues wanted

/-- The page decoder of the version the header names. -/
def readDataPage (r : PageReader) (page : Bytes) (header : PageHeader) (old : List Value)
    (maxValues : Nat) (wanted : Wanted) : Except Status PageResult :=
  match header with
  | .v1 header => readDataPageV1 r page header old maxValues wanted
  | .v2 header => readDataPageV2 r page header old maxValues wanted

theorem readDataPage_eq (r : PageReader) (page : Bytes) (header : PageHeader) (old : List Value)
    (maxValues : Nat) (wanted : Wanted) :
    readDataPage r page header old maxValues wanted =
      (pageLevels r.column page header maxValues wanted >>=
        readPageValues r header.encoding old) := by
  cases header <;> rfl

end Carquet
