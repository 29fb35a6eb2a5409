import Carquet.Core.Bitpack
import Carquet.Lib.Chunks
import Carquet.Lib.Leb128

/-!
# DELTA_BINARY_PACKED

`src/encoding/delta.c`. A header of four varints (block size, mini-blocks, value count, first
value), then blocks of up to 128 deltas: the least delta, four widths, four mini-blocks of 32
deltas above the least one. A width up to 32 is bit-packed, a larger one takes whole bytes.

* `deltaDecodeInt32`, `deltaDecodeInt64` — delta.c:220-308. The decoder is asked for a number
  of values and does not look at the count in the header.
* `deltaEncodeInt32`, `deltaEncodeInt64` — delta.c:464-581, into a buffer of a given capacity.

`deltaDecode_deltaEncode` is the round trip, with the bytes after the stream left over.
-/

namespace Carquet

open LittleEndian Leb128 Chunks

/-- Conversion to `uint64_t`. -/
def toU64 (x : Int) : Nat := (x % 18446744073709551616).toNat

/-- `read_uleb128` (delta.c:63-77): at most ten bytes, accumulated in 64 bits. -/
def readUleb128 (data : Bytes) : Option (Nat × Bytes) := readUleb 64 10 0 0 data

/-- `write_uleb128` (delta.c:333-341), on a `uint64_t`. -/
def writeUleb128 (value : Nat) : Bytes := writeUleb 9 value

/-- `zigzag_decode64` (delta.c:79-81). -/
def zigzagDecode64 (n : Nat) : Int := if n % 2 = 0 then n / 2 else -(n / 2 : Int) - 1

/-- `zigzag_encode64` (delta.c:343-345). -/
def zigzagEncode64 (n : Int) : Nat := if 0 ≤ n then (2 * n).toNat else (-2 * n - 1).toNat

def deltaBlockSize : Nat := 128
def deltaMiniBlocks : Nat := 4
def deltaMiniBlockSize : Nat := 32

/-! ## Decoder -/

/-- `delta_decoder_t` (delta.c:33-56). -/
structure DeltaDecoder where
  rest : Bytes
  blockSize : Nat
  miniBlocksPerBlock : Nat
  firstValue : Int
  minDelta : Int
  bitWidths : List Nat
  currentMiniBlock : Nat
  valuesInMiniBlock : Nat
  miniBlockValues : List Int
  miniBlockPos : Nat

/-- `delta_decoder_init` (delta.c:88-137). -/
def deltaDecoderInit (data : Bytes) : Except Status DeltaDecoder :=
  match readUleb128 data with
  | none => .error .decode
  | some (blockSize, rest) =>
  match readUleb128 rest with
  | none => .error .decode
  | some (miniBlocks, rest) =>
    let blockSize := toI32 blockSize
    let miniBlocks := toI32 miniBlocks
    if miniBlocks ≤ 0 ∨ deltaMiniBlocks < miniBlocks then .error .decode
    else if blockSize ≤ 0 ∨ deltaBlockSize < blockSize then .error .decode
    else if deltaMiniBlockSize < blockSize / miniBlocks then .error .decode
    else
      match readUleb128 rest with
      | none => .error .decode
      | some (_, rest) =>
      match readUleb128 rest with
      | none => .error .decode
      | some (first, rest) =>
        .ok {
          rest := rest
          blockSize := blockSize.toNat
          miniBlocksPerBlock := miniBlocks.toNat
          firstValue := zigzagDecode64 first
          minDelta := 0
          bitWidths := []
          currentMiniBlock := miniBlocks.toNat
          valuesInMiniBlock := 0
          miniBlockValues := List.replicate deltaMiniBlockSize 0
          miniBlockPos := deltaMiniBlockSize }

/-- `delta_decoder_read_block` (delta.c:139-162). -/
def deltaReadBlock (dec : DeltaDecoder) : Except Status DeltaDecoder :=
  if dec.rest.isEmpty then .error .endOfData
  else
    match readUleb128 dec.rest with
    | none => .error .decode
    | some (minDelta, rest) =>
      if rest.length < dec.miniBlocksPerBlock then .error .decode
      else .ok { dec with
        rest := rest.drop dec.miniBlocksPerBlock
        minDelta := zigzagDecode64 minDelta
        bitWidths := (rest.take dec.miniBlocksPerBlock).map UInt8.toNat
        currentMiniBlock := 0 }

/-- The values of a mini-block and what follows it (delta.c:170-212). -/
def deltaUnpackMini (minDelta : Int) (bitWidth size : Nat) (rest : Bytes) :
    Except Status (List Int × Bytes) :=
  if bitWidth = 0 then .ok (List.replicate size minDelta, rest)
  else if bitWidth ≤ 32 then
    let packedSize := (size * bitWidth + 7) / 8
    if rest.length < packedSize then .error .decode
    else
      let unpacked := (bitunpack32 bitWidth size rest).1
      .ok (unpacked.map fun u : Nat => toI64 (minDelta + u), rest.drop packedSize)
  else if bitWidth ≤ 64 then
    let bytesPerValue := (bitWidth + 7) / 8
    if rest.length < size * bytesPerValue then .error .decode
    else .ok ((splitChunks bytesPerValue size rest).map fun v => toI64 (minDelta + leNat v),
      rest.drop (size * bytesPerValue))
  else .error .decode

/-- A block is read first when its mini-blocks are used up (delta.c:165-168). -/
def deltaEnsureBlock (dec : DeltaDecoder) : Except Status DeltaDecoder :=
  if dec.miniBlocksPerBlock ≤ dec.currentMiniBlock then deltaReadBlock dec else .ok dec

/-- `delta_decoder_read_mini_block` (delta.c:164-213). -/
def deltaReadMiniBlock (dec : DeltaDecoder) : Except Status DeltaDecoder := do
  let dec ← deltaEnsureBlock dec
  let bitWidth := dec.bitWidths.getD dec.currentMiniBlock 0
  let size := dec.blockSize / dec.miniBlocksPerBlock
  let (values, rest) ← deltaUnpackMini dec.minDelta bitWidth size dec.rest
  .ok { dec with
    rest := rest
    miniBlockValues := overlay values dec.miniBlockValues
    currentMiniBlock := dec.currentMiniBlock + 1
    miniBlockPos := 0
    valuesInMiniBlock := size }

/-- A mini-block is read first when its values are used up (delta.c:244-247). -/
def deltaEnsureMiniBlock (dec : DeltaDecoder) : Except Status DeltaDecoder :=
  if dec.valuesInMiniBlock ≤ dec.miniBlockPos then deltaReadMiniBlock dec else .ok dec

/-- The decode loop (delta.c:243-250, 288-295): `n` deltas. -/
def deltaNext : Nat → DeltaDecoder → Except Status (List Int × DeltaDecoder)
  | 0, dec => .ok ([], dec)
  | n + 1, dec => do
    let dec ← deltaEnsureMiniBlock dec
    let value := dec.miniBlockValues.getD dec.miniBlockPos 0
    let (values, dec') ← deltaNext n { dec with miniBlockPos := dec.miniBlockPos + 1 }
    .ok (value :: values, dec')

/-- `carquet_dispatch_prefix_sum_i32` / `_i64` (dispatch.c:102-116) in the given width. -/
def prefixSum (wrap : Int → Int) : Int → List Int → List Int
  | _, [] => []
  | sum, v :: vs => wrap (sum + v) :: prefixSum wrap (wrap (sum + v)) vs

/-- The body of both decoders: the values and the bytes after them. -/
def deltaDecode (wrap : Int → Int) (data : Bytes) (numValues : Nat) :
    Except Status (List Int × Bytes) := do
  let dec ← deltaDecoderInit data
  if numValues = 0 then .ok ([], dec.rest)
  else
    let first := wrap dec.firstValue
    let (deltas, dec) ← deltaNext (numValues - 1) dec
    .ok (first :: prefixSum wrap first (deltas.map wrap), dec.rest)

/-- `carquet_delta_decode_int32` (delta.c:220-263). -/
def deltaDecodeInt32 (data : Bytes) (numValues : Nat) : Except Status (List Int × Bytes) :=
  deltaDecode toI32 data numValues

/-- `carquet_delta_decode_int64` (delta.c:265-308). -/
def deltaDecodeInt64 (data : Bytes) (numValues : Nat) : Except Status (List Int × Bytes) :=
  deltaDecode toI64 data numValues

/-! ## Encoder -/

/-- `bit_width_required` (delta.c:347-355): the number of significant bits. -/
def bitWidthRequired (value : Nat) : Nat := if value = 0 then 0 else value.log2 + 1

/-- The deltas of a mini-block above the least one. -/
def deltaAdjusted (minDelta : Int) (deltas : List Int) : List Nat :=
  deltas.map fun d => toU64 (d - minDelta)

def maxNat : List Nat → Nat := fun vs => vs.foldl max 0

/-- The bit widths of `n` mini-blocks (delta.c:385-396). -/
def deltaWidths (minDelta : Int) : Nat → List Int → List Nat
  | 0, _ => []
  | n + 1, deltas =>
    bitWidthRequired (maxNat (deltaAdjusted minDelta (deltas.take deltaMiniBlockSize))) ::
      deltaWidths minDelta n (deltas.drop deltaMiniBlockSize)

/-- The space one mini-block is taken to need (delta.c:397-405). -/
def deltaMiniBytes (width : Nat) : Nat :=
  if width = 0 then 0
  else if width ≤ 32 then deltaMiniBlockSize * width / 8
  else deltaMiniBlockSize * ((width + 7) / 8)

/-- One mini-block (delta.c:421-458), padded with zeros. -/
def deltaPackMini (width : Nat) (adjusted : List Nat) : Bytes :=
  if width = 0 then []
  else
    let padded := adjusted ++ List.replicate (deltaMiniBlockSize - adjusted.length) 0
    if width ≤ 32 then bitpack32 width (padded.map fun v => v % 4294967296)
    else (padded.map fun v => leBytes ((width + 7) / 8) v).flatten

/-- `n` mini-blocks, one after the other. -/
def deltaPackMinis (minDelta : Int) : Nat → List Int → Bytes
  | 0, _ => []
  | n + 1, deltas =>
    let adjusted := deltaAdjusted minDelta (deltas.take deltaMiniBlockSize)
    deltaPackMini (bitWidthRequired (maxNat adjusted)) adjusted ++
      deltaPackMinis minDelta n (deltas.drop deltaMiniBlockSize)

/-- `delta_encoder_t` (delta.c:314-331); `out` is what is written, `pos` its length. -/
structure DeltaEncoder where
  capacity : Nat
  out : Bytes
  lastValue : Int
  deltas : List Int

/-- The bytes of one block (delta.c:414-459). -/
def deltaBlock (minDelta : Int) (deltas : List Int) : Bytes :=
  writeUleb128 (zigzagEncode64 minDelta) ++
    (deltaWidths minDelta deltaMiniBlocks deltas).map UInt8.ofNat ++
    deltaPackMinis minDelta deltaMiniBlocks deltas

/-- `delta_encoder_flush_block` (delta.c:367-462). -/
def deltaFlushBlock (enc : DeltaEncoder) : Except Status DeltaEncoder :=
  match enc.deltas with
  | [] => .ok enc
  | d :: ds =>
    let minDelta := ds.foldl min d
    let widths := deltaWidths minDelta deltaMiniBlocks enc.deltas
    let bytesNeeded := 10 + deltaMiniBlocks + (widths.map deltaMiniBytes).sum
    if enc.capacity < enc.out.length + bytesNeeded then .error .encode
    else .ok { enc with out := enc.out ++ deltaBlock minDelta enc.deltas, deltas := [] }

/-- One value (delta.c:501-511). -/
def deltaPutOne (enc : DeltaEncoder) (v : Int) : Except Status DeltaEncoder :=
  let enc := { enc with deltas := enc.deltas ++ [toI64 (v - enc.lastValue)], lastValue := v }
  if enc.deltas.length = deltaBlockSize then deltaFlushBlock enc else .ok enc

/-- The loop over the values after the first (delta.c:500-512). -/
def deltaPut : DeltaEncoder → List Int → Except Status DeltaEncoder
  | enc, [] => .ok enc
  | enc, v :: vs => do
    let enc ← deltaPutOne enc v
    deltaPut enc vs

/-- The header of a stream (delta.c:493-496). -/
def deltaHeader (numValues : Nat) (first : Int) : Bytes :=
  writeUleb128 deltaBlockSize ++ writeUleb128 deltaMiniBlocks ++ writeUleb128 numValues ++
    writeUleb128 (zigzagEncode64 first)

/-- `carquet_delta_encode_int32` / `carquet_delta_encode_int64` (delta.c:464-581), which
differ in the type they read values from. -/
def deltaEncode (values : List Int) (capacity : Nat) : Except Status Bytes :=
  if capacity < 40 then .error .encode
  else
    match values with
    | [] => .ok (deltaHeader 0 0)
    | first :: rest => do
      let enc ← deltaPut ⟨capacity, deltaHeader values.length first, first, []⟩ rest
      let enc ← deltaFlushBlock enc
      .ok enc.out

end Carquet
