import Carquet.Lib.Access
import Carquet.Metadata.BloomFilter
import Carquet.Metadata.PageIndexFormat
import Carquet.Thrift.ParquetTypes

/-!
# Indexes and filters of an open file

* `readBytes` — `reader_read_bytes` (src/reader/file_reader.c:1059-1135).
* `getColumnChunk` — `reader_get_column_chunk` (file_reader.c:1141-1162).
* `getBloomFilter` — `carquet_reader_get_bloom_filter` (file_reader.c:1169-1301), with the parser of
  the filter's header in it (`scanHeader`).
* `getColumnIndex`, `getOffsetIndex` — `carquet_reader_get_column_index`,
  `carquet_reader_get_offset_index` (file_reader.c:1438-1528).

A null pointer without an error is `none`. A pointer of the header's parser is the list of the bytes
from it to the end; moved past the end, and a shift by 70 bits, it has no value in C (`outside`).
-/

open Access

namespace Carquet

/-- `reader_read_bytes` (file_reader.c:1059-1135). -/
def readBytes (file : Bytes) (offset size : Int) : Except Status Bytes :=
  if size ≤ 0 then .error .invalidArgument
  else if offset < 0 ∨ 9223372036854775807 - size < offset ∨ (file.length : Int) < offset ∨
      file.length - offset < size then .error .fileRead
  else .ok ((file.drop offset.toNat).take size.toNat)

/-- `reader_get_column_chunk` (file_reader.c:1141-1162). -/
def getColumnChunk (m : Parquet.FileMetadata) (rowGroup column : Int) :
    Except (Fault Status) Parquet.ColumnChunk := do
  if rowGroup < 0 ∨ (m.numRowGroups : Int) ≤ rowGroup then .error (.refused .rowGroupNotFound)
  else
    let rg ← readAt m.rowGroups rowGroup.toNat
    if column < 0 ∨ (rg.numColumns : Int) ≤ column then .error (.refused .columnNotFound)
    else readAt rg.columns column.toNat

/-! ## The header of a filter -/

/-- `while (p < end && (*p & 0x80)) p++; if (p < end) p++;`. -/
def passVarint (p : Bytes) : Bytes := (p.dropWhile fun b => 128 ≤ b.toNat).drop 1

/-- `p += n`. -/
def advanceBy (n : Nat) (p : Bytes) : Option Bytes := if n ≤ p.length then some (p.drop n) else none

/-- A varint of `bytes` bytes at most, or up to the end (file_reader.c:1236-1243). -/
def scanVarint : Nat → Nat → Nat → Bytes → Option (Nat × Bytes)
  | _, _, value, [] => some (value, [])
  | 0, _, _, _ :: _ => none
  | bytes + 1, shift, value, b :: p =>
    let value := value ||| ((b.toNat % 128) <<< shift) % 2 ^ 64
    if b.toNat < 128 then some (value, p) else scanVarint bytes (shift + 7) value p

/-- A value is stepped over, by its wire type (file_reader.c:1255-1264, 1267-1280). -/
def passValue (wireType : Nat) (p : Bytes) : Option Bytes :=
  match wireType with
  | 5 | 6 => some (passVarint p)
  | 7 => advanceBy 8 p
  | 3 => advanceBy 1 p
  | 8 => (scanVarint 10 0 0 p).bind fun r => advanceBy r.1 r.2
  | _ => some p

/-- The bytes behind a field's header, whose id follows it where its delta is 0. -/
def passFieldId (header : UInt8) (p : Bytes) : Bytes :=
  if header.toNat / 16 = 0 then passVarint p else p

/-- A nested struct is stepped over (file_reader.c:1248-1265); every turn takes a byte. -/
def passStruct : Nat → Nat → Bytes → Option Bytes
  | 0, _, p => some p
  | _, 0, p => some p
  | _, _, [] => some []
  | turns + 1, depth + 1, header :: p =>
    if header = 0 then passStruct turns depth p
    else
      let p := passFieldId header p
      if header.toNat % 16 = 12 then passStruct turns (depth + 2) p
      else (passValue (header.toNat % 16) p).bind (passStruct turns (depth + 1))

/-- `(int32_t)((val >> 1) ^ -(int64_t)(val & 1))`. -/
def filterSize (value : Nat) : Int32 := .ofInt (zigzagDecode64 value)

/-- The fields of a `BloomFilterHeader` up to its end (file_reader.c:1221-1284): `num_bytes`, and
what is behind the header. -/
def scanHeader : Nat → Int32 → Bytes → Option (Int32 × Bytes)
  | 0, numBytes, p => some (numBytes, p)
  | _, numBytes, [] => some (numBytes, [])
  | turns + 1, numBytes, header :: p =>
    if header = 0 then some (numBytes, p)
    else
      let p := passFieldId header p
      let wireType := header.toNat % 16
      if wireType = 5 ∧ numBytes = 0 then
        (scanVarint 10 0 0 p).bind fun r => scanHeader turns (filterSize r.1) r.2
      else if wireType = 12 then (passStruct p.length 1 p).bind (scanHeader turns numBytes)
      else (passValue wireType p).bind (scanHeader turns numBytes)

/-- The filter in a region of the file (file_reader.c:1209-1300). -/
def filterOfRegion (data : Bytes) : Except (Fault Status) BloomFilter :=
  match scanHeader data.length 0 data with
  | none => .error .outside
  | some (numBytes, p) =>
    if numBytes ≤ 0 ∨ (p.length : Int) < numBytes.toInt then .error (.refused .invalidMetadata)
    else settle (BloomFilter.read (p.take numBytes.toInt.toNat))

/-! ## Filters and indexes -/

/-- The filter of a chunk, if its metadata names one (file_reader.c:1190-1300). -/
def chunkFilter (file : Bytes) (md : Parquet.ColumnMetadata) :
    Except (Fault Status) (Option BloomFilter) :=
  match md.bloomFilterOffset with
  | none => .ok none
  | some offset =>
    let length := md.bloomFilterLength.getD 0
    if length ≤ 0 then .ok none
    else (settle (readBytes file offset.toInt length.toInt) >>= filterOfRegion).map some

/-- `carquet_reader_get_bloom_filter` (file_reader.c:1169-1301). -/
def getBloomFilter (file : Bytes) (m : Parquet.FileMetadata) (rowGroup column : Int) :
    Except (Fault Status) (Option BloomFilter) := do
  let chunk ← getColumnChunk m rowGroup column
  match chunk.metadata with
  | none => .error (.refused .invalidMetadata)
  | some md => chunkFilter file md

/-- The index in a region of the file (file_reader.c:1466-1478, 1511-1523). -/
def indexOfRegion {α : Type} (parse : Bytes → Option α) (data : Bytes) :
    Except (Fault Status) (Option α) :=
  match parse data with
  | none => .error (.refused .invalidMetadata)
  | some index => .ok (some index)

/-- An index, if the chunk names one (file_reader.c:1449-1478, 1494-1523). -/
def getIndex {α : Type} (parse : Bytes → Option α) (file : Bytes) (offset : Option Int64)
    (length : Option Int32) : Except (Fault Status) (Option α) :=
  match offset, length with
  | some offset, some length =>
    if length ≤ 0 then .ok none
    else do
      let data ← settle (readBytes file offset.toInt length.toInt)
      indexOfRegion parse data
  | _, _ => .ok none

/-- `carquet_reader_get_column_index` (file_reader.c:1438-1481). -/
def getColumnIndex (file : Bytes) (m : Parquet.FileMetadata) (rowGroup column : Int) :
    Except (Fault Status) (Option ParsedColumnIndex) := do
  let chunk ← getColumnChunk m rowGroup column
  getIndex columnIndexParse file chunk.columnIndexOffset chunk.columnIndexLength

/-- `carquet_reader_get_offset_index` (file_reader.c:1483-1528). -/
def getOffsetIndex (file : Bytes) (m : Parquet.FileMetadata) (rowGroup column : Int) :
    Except (Fault Status) (Option (List ParsedPageLocation)) := do
  let chunk ← getColumnChunk m rowGroup column
  getIndex offsetIndexParse file chunk.offsetIndexOffset chunk.offsetIndexLength

end Carquet
