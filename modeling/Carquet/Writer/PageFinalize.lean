import Carquet.Core.Crc32
import Carquet.Thrift.Encode

/-!
# Finalizing a page

* `appendDataPageHeader`, `appendDataPageHeaderV2` — page_writer.c:1496-1623.
* `finalizeV2ToBuffer`, `finalizeToBuffer` — page_writer.c:1627-1841.
* `emitDictionaryPage` — page_writer.c:1855-1934.

The codecs and the output buffer's `reserve` are parameters (`PageEnv`); appends find the memory
that they need.
-/

namespace Carquet

/-- The bytes of a minimum or a maximum; their length comes from an `int32_t`. -/
def StatBytes : Type := { data : Bytes // data.length < 2147483648 }

/-- `carquet_page_writer_t` (page_writer.c:112-185), as far as finalizing looks at it. `minMax`:
`has_min_max`, `min_value` and `max_value`. -/
structure PageBuffers where
  repLevelsBuffer : Bytes
  defLevelsBuffer : Bytes
  valuesBuffer : Bytes
  encoding : Int32
  compression : Compression
  numValues : Int64
  numNulls : Int64
  numRows : Int64
  dataPageV2 : Bool
  writeCrc : Bool
  writeStatistics : Bool
  minMax : Option (StatBytes × StatBytes)

/-- What the page writer calls: `carquet_buffer_reserve` on the output buffer and the codecs of
`compress_data`. -/
structure PageEnv where
  reserve : Nat → Except Status Unit
  compress : Compression → Bytes → Except Status Bytes

/-- The output buffer with the page appended, and the three results. -/
structure FinalizedPage where
  outputBuffer : Bytes
  pageSize : Nat
  uncompressedSize : Int
  compressedSize : Int
  deriving DecidableEq, Repr

/-- A size in `size_t`. -/
def toSize (x : Int) : Nat := (x % 18446744073709551616).toNat

/-- `compress_data` (page_writer.c:1287-1409). -/
def compressData (env : PageEnv) (codec : Compression) (input : Bytes) : Except Status Bytes :=
  if codec = .uncompressed then .ok input else env.compress codec input

/-- `has_min_max` where statistics are written. -/
def PageBuffers.statistics (w : PageBuffers) : Option (StatBytes × StatBytes) :=
  if w.writeStatistics then w.minMax else none

/-- The `Statistics` of a data page header, in its field `id` (page_writer.c:1536-1546,
1608-1618). -/
def writeStatisticsField (w : PageBuffers) (id : Int) (e : Encoder) : Encoder :=
  match w.statistics with
  | some minMax =>
    let e := (e.writeFieldHeader .struct id).writeStructBegin
    let e := (e.writeFieldHeader .i64 3).writeInt w.numNulls.toInt
    let e := (e.writeFieldHeader .binary 5).writeBinary minMax.2.1
    let e := (e.writeFieldHeader .binary 6).writeBinary minMax.1.1
    e.writeStructEnd
  | none => e

/-- What every page header begins with (page_writer.c:1513-1523, 1577-1587, 1894-1905). -/
def writePagePrologue (pageType uncompressedSize compressedSize : Int) (crc : Option UInt32)
    (e : Encoder) : Encoder :=
  let e := (e.writeFieldHeader .i32 1).writeInt pageType
  let e := (e.writeFieldHeader .i32 2).writeInt uncompressedSize
  let e := (e.writeFieldHeader .i32 3).writeInt compressedSize
  match crc with
  | some crc => (e.writeFieldHeader .i32 4).writeInt (toI32 crc.toNat)
  | none => e

/-- `enc.status` and the buffer that the encoder appended to. -/
def Encoder.finish (e : Encoder) : Except Status Bytes :=
  if e.status = .ok then .ok e.buffer else .error e.status

/-- `append_data_page_header` (page_writer.c:1496-1552). -/
def appendDataPageHeader (env : PageEnv) (output : Bytes) (w : PageBuffers)
    (uncompressedSize compressedSize : Int) (pageCrc : UInt32) : Except Status Bytes := do
  env.reserve (toSize (output.length + 128))
  let e := (⟨output, [], .ok⟩ : Encoder).writeStructBegin
  let e := writePagePrologue 0 uncompressedSize compressedSize
    (if w.writeCrc then some pageCrc else none) e
  let e := (e.writeFieldHeader .struct 5).writeStructBegin
  let e := (e.writeFieldHeader .i32 1).writeInt (toI32 w.numValues.toInt)
  let e := (e.writeFieldHeader .i32 2).writeInt w.encoding.toInt
  let e := (e.writeFieldHeader .i32 3).writeInt 3
  let e := (e.writeFieldHeader .i32 4).writeInt 3
  let e := writeStatisticsField w 5 e
  e.writeStructEnd.writeStructEnd.finish

/-- `append_data_page_header_v2` (page_writer.c:1558-1623). -/
def appendDataPageHeaderV2 (env : PageEnv) (output : Bytes) (w : PageBuffers)
    (uncompressedSize compressedSize : Int) (pageCrc : UInt32)
    (defLevelsLen repLevelsLen : Int) (isCompressed : Bool) : Except Status Bytes := do
  env.reserve (toSize (output.length + 128))
  let e := (⟨output, [], .ok⟩ : Encoder).writeStructBegin
  let e := writePagePrologue 3 uncompressedSize compressedSize
    (if w.writeCrc then some pageCrc else none) e
  let e := (e.writeFieldHeader .struct 8).writeStructBegin
  let e := (e.writeFieldHeader .i32 1).writeInt (toI32 w.numValues.toInt)
  let e := (e.writeFieldHeader .i32 2).writeInt (toI32 w.numNulls.toInt)
  let e := (e.writeFieldHeader .i32 3).writeInt (toI32 w.numRows.toInt)
  let e := (e.writeFieldHeader .i32 4).writeInt w.encoding.toInt
  let e := (e.writeFieldHeader .i32 5).writeInt defLevelsLen
  let e := (e.writeFieldHeader .i32 6).writeInt repLevelsLen
  let e := e.writeFieldHeader (if isCompressed then .boolTrue else .boolFalse) 7
  let e := writeStatisticsField w 8 e
  e.writeStructEnd.writeStructEnd.finish

/-- `is_compressed` of a page of the second version (page_writer.c:1642-1656). -/
def PageBuffers.isCompressed (w : PageBuffers) : Bool :=
  decide (w.compression ≠ .uncompressed ∧ 0 < w.valuesBuffer.length)

/-- `out_values` of such a page (page_writer.c:1644-1656). -/
def v2Values (env : PageEnv) (w : PageBuffers) : Except Status Bytes :=
  if w.isCompressed then compressData env w.compression w.valuesBuffer else .ok w.valuesBuffer

/-- `finalize_v2_to_buffer` (page_writer.c:1627-1694). -/
def finalizeV2ToBuffer (env : PageEnv) (w : PageBuffers) (output : Bytes) :
    Except Status FinalizedPage := do
  let repLen := w.repLevelsBuffer.length
  let defLen := w.defLevelsBuffer.length
  let outValues ← v2Values env w
  let uncompressedSize := toI32 (repLen + defLen + w.valuesBuffer.length : Nat)
  let compressedSize := toI32 (repLen + defLen + outValues.length : Nat)
  let crc :=
    if w.writeCrc then
      crc32Update (crc32Update (crc32Update 0 w.repLevelsBuffer) w.defLevelsBuffer)
        outValues
    else 0
  env.reserve (toSize (output.length + 128 + (repLen + defLen) + outValues.length))
  let buffer ← appendDataPageHeaderV2 env output w uncompressedSize compressedSize crc
    (toI32 defLen) (toI32 repLen) w.isCompressed
  let buffer := buffer ++ w.repLevelsBuffer ++ w.defLevelsBuffer ++ outValues
  return ⟨buffer, buffer.length - output.length, uncompressedSize, compressedSize⟩

/-- `compute_page_crc` without a payload (page_writer.c:1477-1494): the buffers that are not
empty. -/
def computePageCrc (w : PageBuffers) : UInt32 :=
  let update := fun crc data => if data = [] then crc else crc32Update crc data
  if w.writeCrc then update (update (update 0 w.repLevelsBuffer) w.defLevelsBuffer) w.valuesBuffer
  else 0

/-- `carquet_page_writer_finalize_to_buffer` (page_writer.c:1724-1841). -/
def finalizeToBuffer (env : PageEnv) (w : PageBuffers) (output : Bytes) :
    Except Status FinalizedPage :=
  if w.dataPageV2 then finalizeV2ToBuffer env w output
  else
    let payload := w.repLevelsBuffer ++ w.defLevelsBuffer ++ w.valuesBuffer
    if w.compression = .uncompressed then do
      let size := toI32 payload.length
      env.reserve (toSize (output.length + 128 + size))
      let buffer ← appendDataPageHeader env output w size size (computePageCrc w)
      let buffer := buffer ++ w.repLevelsBuffer ++ w.defLevelsBuffer ++ w.valuesBuffer
      return ⟨buffer, buffer.length - output.length, size, size⟩
    else do
      let compressed ← compressData env w.compression payload
      env.reserve (toSize (output.length + 128 + compressed.length))
      let buffer ← appendDataPageHeader env output w (toI32 payload.length)
        (toI32 compressed.length) (if w.writeCrc then crc32 compressed else 0)
      let buffer := buffer ++ compressed
      return ⟨buffer, buffer.length - output.length, toI32 payload.length,
        toI32 compressed.length⟩

/-- `carquet_page_writer_emit_dictionary_page` (page_writer.c:1855-1934). -/
def emitDictionaryPage (env : PageEnv) (w : PageBuffers) (output plainPayload : Bytes)
    (numEntries : Int32) : Except Status FinalizedPage := do
  let compressed ← compressData env w.compression plainPayload
  let uncompressedSize := toI32 plainPayload.length
  let compressedSize := toI32 compressed.length
  env.reserve (toSize (output.length + 128 + compressed.length))
  let e := (⟨output, [], .ok⟩ : Encoder).writeStructBegin
  let e := writePagePrologue 2 uncompressedSize compressedSize
    (if w.writeCrc then some (crc32 compressed) else none) e
  let e := (e.writeFieldHeader .struct 7).writeStructBegin
  let e := (e.writeFieldHeader .i32 1).writeInt numEntries.toInt
  let e := (e.writeFieldHeader .i32 2).writeInt 0
  let e := e.writeFieldHeader .boolFalse 3
  let buffer ← e.writeStructEnd.writeStructEnd.finish
  let buffer := buffer ++ compressed
  return ⟨buffer, buffer.length - output.length, uncompressedSize, compressedSize⟩

end Carquet
