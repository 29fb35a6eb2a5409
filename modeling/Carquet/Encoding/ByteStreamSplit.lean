import Carquet.Core.Types
import Carquet.Encoding.Plain
import Carquet.Lib.StoreLoop

/-!
# BYTE_STREAM_SPLIT over byte buffers (`src/encoding/byte_stream_split.c`)

`carquet_byte_stream_split_encode` and `_decode` with their `_float` and `_double` forms, as the
loops of byte stores they are: the scalar transposes the dispatcher calls for widths 4 and 8
(`src/simd/dispatch.c:215-253`), the plain loop nest of every other width, and the cache-tiled
decoder, which gathers a tile of every stream before it transposes. All of them store the same
byte at the same position (`encodeByte`, `decodeByte`), so they differ only in the order of their
stores, and decoding undoes encoding.

The counts are `int64_t` and the widths `int32_t`; an output buffer is a list and its length is
its capacity.
-/

namespace Carquet.ByteStreamSplit

open StoreLoop

/-- `(size_t)count * (size_t)type_length`, the product of two `size_t`. -/
def requiredSize (count typeLength : Int) : Nat :=
  (count * typeLength % 18446744073709551616).toNat

/-! ## The scalar transposes (dispatch.c:215-253) -/

/-- `scalar_byte_split_encode_float` and `_double`, with their width as a parameter. -/
def scalarEncode (width : Nat) (values : Bytes) (count : Nat) (output : Bytes) : Bytes :=
  loop count (fun i output =>
    loop width (fun b output =>
      output.set (b * count + i) (values.getD (i * width + b) 0)) output) output

def scalarByteSplitEncodeFloat (values : Bytes) (count : Nat) (output : Bytes) : Bytes :=
  scalarEncode 4 values count output

def scalarByteSplitEncodeDouble (values : Bytes) (count : Nat) (output : Bytes) : Bytes :=
  scalarEncode 8 values count output

/-- `scalar_byte_split_decode_float` and `_double`; the values go to `dst + start`. -/
def scalarDecode (width : Nat) (data : Bytes) (count start : Nat) (dst : Bytes) : Bytes :=
  loop count (fun i dst =>
    loop width (fun b dst =>
      dst.set (start + (i * width + b)) (data.getD (b * count + i) 0)) dst) dst

def scalarByteSplitDecodeFloat (data : Bytes) (count start : Nat) (dst : Bytes) : Bytes :=
  scalarDecode 4 data count start dst

def scalarByteSplitDecodeDouble (data : Bytes) (count start : Nat) (dst : Bytes) : Bytes :=
  scalarDecode 8 data count start dst

/-! ## The generic loops -/

/-- The transposing loops (byte_stream_split.c:232-236). -/
def genericEncode (typeLength : Nat) (values : Bytes) (count : Nat) (output : Bytes) : Bytes :=
  loop typeLength (fun b output =>
    loop count (fun i output =>
      output.set (b * count + i) (values.getD (i * typeLength + b) 0)) output) output

/-- The loops that gather the streams again (byte_stream_split.c:269-273). -/
def genericDecode (typeLength : Nat) (data : Bytes) (count : Nat) (values : Bytes) : Bytes :=
  loop count (fun i values =>
    loop typeLength (fun b values =>
      values.set (i * typeLength + b) (data.getD (b * count + i) 0)) values) values

/-! ## The cache-tiled decoder (byte_stream_split.c:126-194) -/

def bssTileFloat : Nat := 65536
def bssTileDouble : Nat := 32768

/-- The `memcpy` of `n` bytes of every stream into the tile. -/
def gatherTile (width : Nat) (data : Bytes) (count offset n : Nat) (tile : Bytes) : Bytes :=
  loop width (fun s tile => copyInto 0 tile (s * n) data (s * count + offset) n) tile

/-- `while (offset < count)`: the tile keeps what the last round left in it. -/
def tileLoop (width tileSize : Nat) (data : Bytes) (count : Nat) :
    Nat → Nat → Bytes → Bytes → Bytes
  | 0, _, _, values => values
  | fuel + 1, offset, tile, values =>
    if offset < count then
      let n := if count - offset > tileSize then tileSize else count - offset
      let tile := gatherTile width data count offset n tile
      tileLoop width tileSize data count fuel (offset + n) tile
        (scalarDecode width tile n (offset * width) values)
    else values

/-- `carquet_bss_decode_float_tiled` and `_double_tiled`. A round takes at least one value, so
`count` rounds are enough. -/
def decodeTiled (width tileSize : Nat) (data : Bytes) (count : Nat) (values : Bytes) : Bytes :=
  if count ≤ tileSize then scalarDecode width data count 0 values
  else tileLoop width tileSize data count count 0 (List.replicate (width * tileSize) 0) values

def bssDecodeFloatTiled (data : Bytes) (count : Nat) (values : Bytes) : Bytes :=
  decodeTiled 4 bssTileFloat data count values

def bssDecodeDoubleTiled (data : Bytes) (count : Nat) (values : Bytes) : Bytes :=
  decodeTiled 8 bssTileDouble data count values

/-! ## The entry points -/

/-- `carquet_byte_stream_split_encode_float` (byte_stream_split.c:33-54): the output buffer and
the bytes written. -/
def encodeFloat (values : Bytes) (count : Int) (output : Bytes) : Except Status (Bytes × Nat) :=
  if output.length < requiredSize count 4 then .error .encode
  else .ok (scalarByteSplitEncodeFloat values count.toNat output, requiredSize count 4)

/-- `carquet_byte_stream_split_encode_double` (byte_stream_split.c:81-102). -/
def encodeDouble (values : Bytes) (count : Int) (output : Bytes) : Except Status (Bytes × Nat) :=
  if output.length < requiredSize count 8 then .error .encode
  else .ok (scalarByteSplitEncodeDouble values count.toNat output, requiredSize count 8)

/-- `carquet_byte_stream_split_decode_float` (byte_stream_split.c:56-74). -/
def decodeFloat (data values : Bytes) (count : Int) : Except Status Bytes :=
  if data.length < requiredSize count 4 then .error .decode
  else .ok (bssDecodeFloatTiled data count.toNat values)

/-- `carquet_byte_stream_split_decode_double` (byte_stream_split.c:104-122). -/
def decodeDouble (data values : Bytes) (count : Int) : Except Status Bytes :=
  if data.length < requiredSize count 8 then .error .decode
  else .ok (bssDecodeDoubleTiled data count.toNat values)

/-- `carquet_byte_stream_split_encode` (byte_stream_split.c:201-240). -/
def encode (values : Bytes) (count typeLength : Int) (output : Bytes) :
    Except Status (Bytes × Nat) :=
  if typeLength ≤ 0 then .error .invalidArgument
  else if output.length < requiredSize count typeLength then .error .encode
  else if typeLength = 4 then
    .ok (scalarByteSplitEncodeFloat values count.toNat output, requiredSize count typeLength)
  else if typeLength = 8 then
    .ok (scalarByteSplitEncodeDouble values count.toNat output, requiredSize count typeLength)
  else .ok (genericEncode typeLength.toNat values count.toNat output,
    requiredSize count typeLength)

/-- `carquet_byte_stream_split_decode` (byte_stream_split.c:242-275). -/
def decode (data : Bytes) (typeLength : Int) (values : Bytes) (count : Int) :
    Except Status Bytes :=
  if typeLength ≤ 0 then .error .invalidArgument
  else if data.length < requiredSize count typeLength then .error .decode
  else if typeLength = 4 then .ok (bssDecodeFloatTiled data count.toNat values)
  else if typeLength = 8 then .ok (bssDecodeDoubleTiled data count.toNat values)
  else .ok (genericDecode typeLength.toNat data count.toNat values)

/-! ## The positions of a byte matrix -/

theorem index_lt {rows columns r c : Nat} (hr : r < rows) (hc : c < columns) :
    r * columns + c < rows * columns := by
  calc r * columns + c < r * columns + columns := by omega
    _ = (r + 1) * columns := (Nat.succ_mul r columns).symm
    _ ≤ rows * columns := Nat.mul_le_mul_right columns hr

theorem index_div {columns c : Nat} (r : Nat) (hc : c < columns) :
    (r * columns + c) / columns = r := by
  rw [Nat.mul_comm, Nat.mul_add_div (by omega), Nat.div_eq_of_lt hc, Nat.add_zero]

theorem index_mod {columns c : Nat} (r : Nat) (hc : c < columns) :
    (r * columns + c) % columns = c := by
  rw [Nat.mul_comm, Nat.mul_add_mod, Nat.mod_eq_of_lt hc]

/-- The row-major positions of a matrix are those below its size. -/
theorem exists_index_iff {rows columns j : Nat} :
    (∃ r < rows, ∃ c < columns, j = r * columns + c) ↔ j < rows * columns := by
  constructor
  · rintro ⟨r, hr, c, hc, rfl⟩
    exact index_lt hr hc
  · intro hj
    have hcol : 0 < columns := Nat.pos_of_ne_zero fun h => by simp [h] at hj
    refine ⟨j / columns, (Nat.div_lt_iff_lt_mul hcol).2 hj, j % columns, Nat.mod_lt j hcol, ?_⟩
    rw [Nat.mul_comm, Nat.div_add_mod]

/-- The byte of the output at position `j`: byte `b` of value `i`, where `j = b * count + i`. -/
def encodeByte (width : Nat) (values : Bytes) (count j : Nat) : UInt8 :=
  values.getD (j % count * width + j / count) 0

/-- The byte of the values at position `j`: entry `i` of stream `b`, where `j = i * width + b`. -/
def decodeByte (width : Nat) (data : Bytes) (count j : Nat) : UInt8 :=
  data.getD (j % width * count + j / width) 0

theorem encodeByte_index (width : Nat) (values : Bytes) {count b i : Nat} (hi : i < count) :
    encodeByte width values count (b * count + i) = values.getD (i * width + b) 0 := by
  rw [encodeByte, index_div b hi, index_mod b hi]

theorem decodeByte_index (data : Bytes) (count : Nat) {width b i : Nat} (hb : b < width) :
    decodeByte width data count (i * width + b) = data.getD (b * count + i) 0 := by
  rw [decodeByte, index_div i hb, index_mod i hb]

/-! ## Each loop nest stores the bytes of the formula -/

theorem genericEncode_overwrites (width : Nat) (values : Bytes) (count : Nat) (output : Bytes) :
    Overwrites (encodeByte width values count) (· < width * count) output
      (genericEncode width values count output) := by
  refine Overwrites.congr (.loop fun b _ _ => .loop fun i hi _ =>
    .store (encodeByte_index width values hi).symm) fun j _ => ?_
  exact exists_index_iff

theorem scalarEncode_overwrites (width : Nat) (values : Bytes) (count : Nat) (output : Bytes) :
    Overwrites (encodeByte width values count) (· < width * count) output
      (scalarEncode width values count output) := by
  refine Overwrites.congr (.loop fun i hi _ => .loop fun b _ _ =>
    .store (encodeByte_index width values hi).symm) fun j _ => ?_
  rw [← exists_index_iff]
  constructor
  · rintro ⟨i, hi, b, hb, rfl⟩
    exact ⟨b, hb, i, hi, rfl⟩
  · rintro ⟨b, hb, i, hi, rfl⟩
    exact ⟨i, hi, b, hb, rfl⟩

theorem genericDecode_overwrites (width : Nat) (data : Bytes) (count : Nat) (values : Bytes) :
    Overwrites (decodeByte width data count) (· < count * width) values
      (genericDecode width data count values) := by
  refine Overwrites.congr (.loop fun i _ _ => .loop fun b hb _ =>
    .store (decodeByte_index data count hb).symm) fun j _ => ?_
  exact exists_index_iff

/-- A tile's transpose, when `tile` holds the tile's part of every stream of `data`. -/
theorem scalarDecode_overwrites {width count n offset : Nat} {data tile values : Bytes}
    (h : ∀ b < width, ∀ i < n, tile.getD (b * n + i) 0 = data.getD (b * count + (offset + i)) 0) :
    Overwrites (decodeByte width data count)
      (fun j => offset * width ≤ j ∧ j < (offset + n) * width) values
      (scalarDecode width tile n (offset * width) values) := by
  have hpos : ∀ i b, offset * width + (i * width + b) = (offset + i) * width + b := by
    intro i b
    rw [Nat.add_mul, Nat.add_assoc]
  refine Overwrites.congr (.loop fun i hi _ => .loop fun b hb _ => .store ?_) fun j _ => ?_
  · rw [hpos, decodeByte_index data count hb, h b hb i hi]
  · have hgrid := @exists_index_iff n width (j - offset * width)
    rw [Nat.add_mul]
    constructor
    · rintro ⟨i, hi, b, hb, rfl⟩
      have := index_lt hi hb
      omega
    · rintro ⟨h1, h2⟩
      obtain ⟨i, hi, b, hb, he⟩ := hgrid.2 (by omega)
      exact ⟨i, hi, b, hb, by omega⟩

theorem scalarDecode_overwrites_all (width : Nat) (data : Bytes) (count : Nat) (values : Bytes) :
    Overwrites (decodeByte width data count) (· < count * width) values
      (scalarDecode width data count 0 values) := by
  have h := @scalarDecode_overwrites width count count 0 data data values
    (fun b _ i _ => by rw [Nat.zero_add])
  rw [Nat.zero_mul, Nat.zero_add] at h
  exact h.congr fun j _ => by simp

/-! ## The tiles -/

/-- What the tile holds once the streams' parts are gathered. -/
theorem gatherTile_getD {width count offset n : Nat} {data tile : Bytes}
    (hroom : width * n ≤ tile.length) :
    (gatherTile width data count offset n tile).length = tile.length ∧
      ∀ b < width, ∀ i < n, (gatherTile width data count offset n tile).getD (b * n + i) 0 =
        data.getD (b * count + (offset + i)) 0 := by
  let g : Nat → UInt8 := fun j => data.getD (j / n * count + (offset + j % n)) 0
  have hg : ∀ b i, i < n → data.getD (b * count + offset + i) 0 = g (b * n + i) := by
    intro b i hi
    simp only [g]
    rw [index_div b hi, index_mod b hi, Nat.add_assoc]
  have hall : Overwrites g (fun j => ∃ b < width, ∃ i < n, j = b * n + i) tile
      (gatherTile width data count offset n tile) :=
    .loop fun b _ _ => overwrites_copyInto fun i hi => hg b i hi
  refine ⟨hall.length, fun b hb i hi => ?_⟩
  have hlt := index_lt hb hi
  rw [List.getD_eq_getElem?_getD, hall.hit _ ⟨b, hb, i, hi, rfl⟩ (by omega), Option.getD_some,
    ← hg b i hi, Nat.add_assoc]

/-- From `offset` on the loop overwrites the rest of the values, whatever the tile held. -/
theorem tileLoop_overwrites {width tileSize : Nat} (htile : 0 < tileSize) (data : Bytes)
    (count : Nat) {fuel offset : Nat} (tile values : Bytes) (hfuel : count - offset ≤ fuel)
    (hroom : width * tileSize ≤ tile.length) (hoff : offset ≤ count) :
    Overwrites (decodeByte width data count)
      (fun j => offset * width ≤ j ∧ j < count * width) values
      (tileLoop width tileSize data count fuel offset tile values) := by
  induction fuel generalizing offset tile values with
  | zero =>
    have heq : offset = count := by omega
    subst heq
    exact .refl fun j hj => by omega
  | succ fuel ih =>
    rw [tileLoop]
    by_cases hlt : offset < count
    · rw [if_pos hlt]
      generalize hn : (if count - offset > tileSize then tileSize else count - offset) = n
      have hbounds : 0 < n ∧ n ≤ tileSize ∧ offset + n ≤ count := by
        rw [← hn]
        split <;> omega
      obtain ⟨hpos, hle, hend⟩ := hbounds
      have hcap := Nat.mul_le_mul_left width hle
      obtain ⟨hlen, hget⟩ := @gatherTile_getD width count offset n data tile (by omega)
      have hstep := @scalarDecode_overwrites _ _ _ _ _ _ values hget
      have hrest := @ih (offset + n) (gatherTile width data count offset n tile)
        (scalarDecode width (gatherTile width data count offset n tile) n (offset * width) values)
        (by omega) (by omega) hend
      refine (hstep.trans hrest).congr fun j _ => ?_
      have h1 : offset * width ≤ (offset + n) * width := Nat.mul_le_mul_right width (by omega)
      have h2 : (offset + n) * width ≤ count * width := Nat.mul_le_mul_right width hend
      omega
    · have heq : offset = count := by omega
      subst heq
      rw [if_neg hlt]
      exact .refl fun j hj => by omega

/-- Tiling changes the order of the stores only. -/
theorem decodeTiled_overwrites {width tileSize : Nat} (htile : 0 < tileSize) (data : Bytes)
    (count : Nat) (values : Bytes) :
    Overwrites (decodeByte width data count) (· < count * width) values
      (decodeTiled width tileSize data count values) := by
  rw [decodeTiled]
  by_cases hsmall : count ≤ tileSize
  · rw [if_pos hsmall]
    exact scalarDecode_overwrites_all width data count values
  · rw [if_neg hsmall]
    have h := @tileLoop_overwrites width _ htile data count count 0
      (List.replicate (width * tileSize) 0) values (by omega) (by simp) (by omega)
    exact h.congr fun j _ => by simp

/-! ## The entry points agree with the generic loops -/

theorem scalarEncode_eq_generic (width : Nat) (values : Bytes) (count : Nat) (output : Bytes) :
    scalarEncode width values count output = genericEncode width values count output :=
  (scalarEncode_overwrites width values count output).unique
    (genericEncode_overwrites width values count output)

theorem decodeTiled_eq_generic {width tileSize : Nat} (htile : 0 < tileSize) (data : Bytes)
    (count : Nat) (values : Bytes) :
    decodeTiled width tileSize data count values = genericDecode width data count values :=
  (decodeTiled_overwrites htile data count values).unique
    (genericDecode_overwrites width data count values)

theorem requiredSize_of_fits {count width : Nat} (hsize : count * width < 9223372036854775808) :
    requiredSize count width = count * width := by
  have hcast : (count : Int) * (width : Int) = ((count * width : Nat) : Int) := by push_cast; rfl
  rw [requiredSize, hcast]
  omega

/-- Whatever loops it takes, `encode` stores what the generic ones store. -/
theorem encode_eq_generic {values output : Bytes} {count width : Nat} (hw : 0 < width)
    (hsize : count * width < 9223372036854775808) (hout : count * width ≤ output.length) :
    encode values count width output =
      .ok (genericEncode width values count output, count * width) := by
  have hreq := requiredSize_of_fits hsize
  rw [encode, if_neg (by omega), hreq, if_neg (by omega)]
  by_cases h4 : width = 4
  · subst h4
    rw [if_pos (by norm_num), scalarByteSplitEncodeFloat, Int.toNat_natCast,
      scalarEncode_eq_generic]
  · rw [if_neg (by omega)]
    by_cases h8 : width = 8
    · subst h8
      rw [if_pos (by norm_num), scalarByteSplitEncodeDouble, Int.toNat_natCast,
        scalarEncode_eq_generic]
    · rw [if_neg (by omega), Int.toNat_natCast, Int.toNat_natCast]

theorem decode_eq_generic {data values : Bytes} {count width : Nat} (hw : 0 < width)
    (hsize : count * width < 9223372036854775808) (hdata : count * width ≤ data.length) :
    decode data width values count = .ok (genericDecode width data count values) := by
  have hreq := requiredSize_of_fits hsize
  rw [decode, if_neg (by omega), hreq, if_neg (by omega)]
  by_cases h4 : width = 4
  · subst h4
    rw [if_pos (by norm_num), bssDecodeFloatTiled, Int.toNat_natCast,
      decodeTiled_eq_generic (by decide)]
  · rw [if_neg (by omega)]
    by_cases h8 : width = 8
    · subst h8
      rw [if_pos (by norm_num), bssDecodeDoubleTiled, Int.toNat_natCast,
        decodeTiled_eq_generic (by decide)]
    · rw [if_neg (by omega), Int.toNat_natCast, Int.toNat_natCast]

/-! ## Round trip -/

/-- The streams one after the other. -/
def streams (width : Nat) (values : Bytes) (count : Nat) : Bytes :=
  (List.range (width * count)).map (encodeByte width values count)

@[simp] theorem length_streams (width : Nat) (values : Bytes) (count : Nat) :
    (streams width values count).length = width * count := by
  simp [streams]

theorem streams_index {width count b i : Nat} (values : Bytes) (hb : b < width) (hi : i < count) :
    (streams width values count)[b * count + i]? = some (values.getD (i * width + b) 0) := by
  have hlt := index_lt hb hi
  rw [streams, List.getElem?_map, List.getElem?_range hlt, Option.map_some,
    encodeByte_index width values hi]

theorem genericEncode_eq {width count : Nat} (values : Bytes) {output : Bytes}
    (hout : width * count ≤ output.length) :
    genericEncode width values count output =
      streams width values count ++ output.drop (width * count) := by
  have h := genericEncode_overwrites width values count output
  rw [← length_streams width values count] at h hout ⊢
  exact h.eq_append hout fun j hj => by simp [streams]

/-- Gathering the streams of `values` gives `values` back. -/
theorem decodeByte_streams {width count j : Nat} {values : Bytes}
    (hv : values.length = count * width) (rest : Bytes) (hj : j < values.length) :
    decodeByte width (streams width values count ++ rest) count j = values[j] := by
  obtain ⟨i, hi, b, hb, rfl⟩ := exists_index_iff.2 (hv ▸ hj)
  have hlt := index_lt hb hi
  rw [decodeByte_index _ count hb, List.getD_append _ _ _ _ (by rw [length_streams]; exact hlt),
    List.getD_eq_getElem?_getD, streams_index values hb hi, Option.getD_some,
    List.getD_eq_getElem _ _ hj]

theorem genericDecode_streams {width count : Nat} {values buffer : Bytes}
    (hv : values.length = count * width) (rest : Bytes) (hbuf : values.length ≤ buffer.length) :
    genericDecode width (streams width values count ++ rest) count buffer =
      values ++ buffer.drop values.length := by
  have h := genericDecode_overwrites width (streams width values count ++ rest) count buffer
  rw [← hv] at h
  exact h.eq_append hbuf fun j hj => decodeByte_streams hv rest hj

/-! ## The values one by one -/

/-- Byte `b` of value `i` in the concatenation of values of one width. -/
theorem getD_flatten_of_width {width b i : Nat} {values : List Value}
    (hw : ∀ v ∈ values, v.length = width) (hi : i < values.length) (hb : b < width) :
    values.flatten.getD (i * width + b) 0 = values[i].getD b 0 := by
  have hmap : values =
      (List.range values.length).map fun i => values.getD i (List.replicate width 0) := by
    apply List.ext_getElem (by simp)
    intro j h1 h2
    simp [List.getElem_map, h1]
  have hlen : ∀ i, (values.getD i (List.replicate width 0)).length = width := by
    intro i
    by_cases h : i < values.length
    · rw [List.getD_eq_getElem _ _ h]
      exact hw _ (List.getElem_mem h)
    · rw [List.getD_eq_default _ _ (by omega), List.length_replicate]
  calc values.flatten.getD (i * width + b) 0
      = (((List.range values.length).map fun i =>
          values.getD i (List.replicate width 0)).flatten).getD (i * width + b) 0 := by
        rw [← hmap]
    _ = (values.getD i (List.replicate width 0)).getD b 0 := getD_flatten_map hlen hi hb
    _ = values[i].getD b 0 := by rw [List.getD_eq_getElem _ _ hi]

/-- The page writer's encoder of a list of values writes the streams of their concatenation. -/
theorem byteStreamSplitEncode_eq_streams {width : Nat} {values : List Value}
    (hw : ∀ v ∈ values, v.length = width) :
    byteStreamSplitEncode width values = streams width values.flatten values.length := by
  have hrow : ∀ b, (values.map fun v => v.getD b 0).length = values.length := by simp
  have hlen : (byteStreamSplitEncode width values).length = width * values.length := by
    rw [byteStreamSplitEncode, length_flatten_map (List.range width) hrow, List.length_range]
  apply List.ext_getElem?
  intro j
  by_cases hj : j < width * values.length
  · obtain ⟨b, hb, i, hi, rfl⟩ := exists_index_iff.2 hj
    have hget := getD_flatten_map (d := 0) hrow hb hi
    rw [streams_index _ hb hi, List.getElem?_eq_getElem (by omega),
      ← List.getD_eq_getElem _ 0 (by omega), byteStreamSplitEncode, hget,
      getD_flatten_of_width hw hi hb, List.getD_eq_getElem _ _ (by simpa using hi),
      List.getElem_map]
  · rw [List.getElem?_eq_none (by omega), List.getElem?_eq_none (by rw [length_streams]; omega)]

/-- The page reader's decoder of a list of values cuts up what `decode` writes. -/
theorem decode_eq_byteStreamSplitDecode {width count : Nat} {data buffer : Bytes}
    {values : List Value} (hw : 0 < width) (hsize : count * width < 9223372036854775808)
    (hbuf : count * width ≤ buffer.length)
    (h : byteStreamSplitDecode width data count = some values) :
    decode data width buffer count =
      .ok (values.flatten ++ buffer.drop (count * width)) := by
  rw [byteStreamSplitDecode] at h
  split at h
  · cases h
  next hdata =>
    obtain rfl := Option.some.inj h
    have hrow : ∀ i, ((List.range width).map fun b => data.getD (b * count + i) 0).length =
        width := by simp
    have hlen := length_flatten_map (List.range count) hrow
    rw [List.length_range] at hlen
    rw [decode_eq_generic hw hsize (by omega)]
    have hover := genericDecode_overwrites width data count buffer
    rw [← hlen] at hover hbuf ⊢
    rw [Except.ok.injEq]
    refine hover.eq_append hbuf fun j hj => ?_
    obtain ⟨i, hi, b, hb, rfl⟩ := exists_index_iff.2 (hlen ▸ hj)
    have hget := getD_flatten_map (d := 0) hrow hi hb
    rw [decodeByte_index data count hb, ← List.getD_eq_getElem _ 0 hj, hget,
      List.getD_eq_getElem ((List.range width).map _) _ (by simpa using hb), List.getElem_map,
      List.getElem_range]

/-- **BYTE_STREAM_SPLIT is one transposition, and decoding undoes it.** The specialised encoders
and the tiled decoders store what the generic loops of width 4 and 8 store, on any buffers. For
every width and every count whose values are an object in memory, into buffers with room, the
encoder writes byte `b` of value `i` at `b * count + i` and nothing else, and the decoder, given
those bytes (whatever follows them), writes the values back and nothing else. -/
theorem encode_decode_spec :
    (∀ (values output data buffer : Bytes) (count : Nat),
      scalarByteSplitEncodeFloat values count output = genericEncode 4 values count output ∧
      scalarByteSplitEncodeDouble values count output = genericEncode 8 values count output ∧
      bssDecodeFloatTiled data count buffer = genericDecode 4 data count buffer ∧
      bssDecodeDoubleTiled data count buffer = genericDecode 8 data count buffer) ∧
    (∀ (values output data buffer : Bytes) (count : Int),
      encodeFloat values count output = encode values count 4 output ∧
      encodeDouble values count output = encode values count 8 output ∧
      decodeFloat data buffer count = decode data 4 buffer count ∧
      decodeDouble data buffer count = decode data 8 buffer count) ∧
    ∀ (count width : Nat) (values output buffer : Bytes), 0 < width →
      values.length = count * width → count * width < 9223372036854775808 →
      values.length ≤ output.length → values.length ≤ buffer.length →
      ∃ out : Bytes, out.length = values.length ∧
        encode values count width output =
          .ok (out ++ output.drop out.length, out.length) ∧
        (∀ b < width, ∀ i < count, out[b * count + i]? = values[i * width + b]?) ∧
        ∀ rest, decode (out ++ rest) width buffer count =
          .ok (values ++ buffer.drop values.length) := by
  refine ⟨fun values output data buffer count => ⟨?_, ?_, ?_, ?_⟩,
    fun values output data buffer count => ⟨?_, ?_, ?_, ?_⟩, ?_⟩
  · exact scalarEncode_eq_generic 4 values count output
  · exact scalarEncode_eq_generic 8 values count output
  · exact decodeTiled_eq_generic (by decide) data count buffer
  · exact decodeTiled_eq_generic (by decide) data count buffer
  · rw [encode, if_neg (by decide), if_pos rfl, encodeFloat]
  · rw [encode, if_neg (by decide), if_neg (show ¬ (8 : Int) = 4 by decide), if_pos rfl,
      encodeDouble]
  · rw [decode, if_neg (by decide), if_pos rfl, decodeFloat]
  · rw [decode, if_neg (by decide), if_neg (show ¬ (8 : Int) = 4 by decide), if_pos rfl,
      decodeDouble]
  · intro count width values output buffer hw hv hsize hout hbuf
    have hcomm := Nat.mul_comm width count
    refine ⟨streams width values count, by rw [length_streams, hcomm, hv], ?_, ?_, ?_⟩
    · rw [encode_eq_generic hw hsize (by omega), genericEncode_eq values (by omega),
        length_streams, hcomm]
    · intro b hb i hi
      have hlt := index_lt hi hb
      rw [streams_index values hb hi, List.getD_eq_getElem _ _ (by omega),
        List.getElem?_eq_getElem (by omega)]
    · intro rest
      rw [decode_eq_generic hw hsize (by rw [List.length_append, length_streams]; omega),
        genericDecode_streams hv rest hbuf]

/-- Three values of three bytes, into buffers with a byte to spare. -/
theorem encode_decode_spec_triples :
    ∃ out : Bytes, out.length = 9 ∧
      encode [1, 2, 3, 4, 5, 6, 7, 8, 9] 3 3 (List.replicate 10 0) =
        .ok (out ++ (List.replicate 10 0).drop out.length, out.length) ∧
      (∀ b < 3, ∀ i < 3, out[b * 3 + i]? = ([1, 2, 3, 4, 5, 6, 7, 8, 9] : Bytes)[i * 3 + b]?) ∧
      ∀ rest, decode (out ++ rest) 3 (List.replicate 10 0) 3 =
        .ok ([1, 2, 3, 4, 5, 6, 7, 8, 9] ++ (List.replicate 10 0).drop 9) :=
  encode_decode_spec.2.2 3 3 [1, 2, 3, 4, 5, 6, 7, 8, 9] (List.replicate 10 0)
    (List.replicate 10 0) (by decide) (by decide) (by decide) (by decide) (by decide)

end Carquet.ByteStreamSplit
