import Carquet.Core.Types
import Carquet.Lib.Chunks

/-!
# PLAIN and BYTE_STREAM_SPLIT

`src/encoding/plain.c`, `src/encoding/byte_stream_split.c`. A fixed-width value is stored as
its memory image (the little-endian build), a BOOLEAN as one bit, a BYTE_ARRAY behind its
4-byte length. BYTE_STREAM_SPLIT stores byte 0 of every value, then byte 1, and so on.

Each decoder reads back what its encoder wrote, also when more bytes follow; for the
fixed-width types this makes streams written one after the other read as one, for
BYTE_STREAM_SPLIT it does not.
-/

namespace Carquet

open LittleEndian Chunks

/-- Bytes of a value in memory; 0 for BYTE_ARRAY, whose length is its own. -/
def physicalTypeStride (type : PhysicalType) (typeLength : Int) : Nat :=
  match type with
  | .boolean => 1
  | .int32 | .float => 4
  | .int64 | .double => 8
  | .int96 => 12
  | .fixedLenByteArray => typeLength.toNat
  | .byteArray => 0

/-! ## PLAIN -/

/-- `carquet_decode_plain_boolean` (plain.c:18-37): one byte a value. -/
def decodePlainBoolean (input : Bytes) (count : Nat) : Option (List Value) :=
  if input.length < (count + 7) / 8 then none
  else some ((List.range count).map fun i =>
    [UInt8.ofNat ((input.getD (i / 8) 0).toNat >>> (i % 8) % 2)])

/-- `carquet_decode_plain_int32` / `_int64` / `_int96` / `_float` / `_double` /
`_fixed_byte_array` (plain.c:39-230) at the type's width. -/
def decodePlainFixed (width : Nat) (input : Bytes) (count : Nat) : Option (List Value) :=
  if input.length < count * width then none else some (splitChunks width count input)

/-- `carquet_decode_plain_byte_array` (plain.c:177-211). -/
def decodePlainByteArray : Nat → Bytes → Option (List Value)
  | 0, _ => some []
  | count + 1, input =>
    if input.length < 4 then none
    else
      let len := toI32 (leNat (input.take 4))
      let input := input.drop 4
      if len < 0 ∨ (input.length : Int) < len then none
      else
        match decodePlainByteArray count (input.drop len.toNat) with
        | none => none
        | some values => some (input.take len.toNat :: values)

/-- `carquet_decode_plain` (plain.c:392-438). -/
def decodePlain (type : PhysicalType) (typeLength : Int) (input : Bytes) (count : Nat) :
    Option (List Value) :=
  match type with
  | .boolean => decodePlainBoolean input count
  | .int32 | .float => decodePlainFixed 4 input count
  | .int64 | .double => decodePlainFixed 8 input count
  | .int96 => decodePlainFixed 12 input count
  | .byteArray => decodePlainByteArray count input
  | .fixedLenByteArray =>
    if typeLength ≤ 0 then none else decodePlainFixed typeLength.toNat input count

/-- A group of up to eight flags, the first in bit 0. -/
def packByte : List Value → Nat
  | [] => 0
  | v :: vs => (if leNat v = 0 then 0 else 1) + 2 * packByte vs

/-- `carquet_dispatch_pack_bools` (dispatch.c:263-273), `n` bytes: any non-zero flag is true. -/
def packBools : Nat → List Value → Bytes
  | 0, _ => []
  | n + 1, values => UInt8.ofNat (packByte (values.take 8)) :: packBools n (values.drop 8)

/-- `carquet_encode_plain_boolean` (plain.c:226-250). -/
def encodePlainBoolean (input : List Value) : Bytes :=
  packBools ((input.length + 7) / 8) input

/-- `carquet_encode_plain_int32` … `_fixed_byte_array` (plain.c:252-383): the memory images. -/
def encodePlainFixed (input : List Value) : Bytes := input.flatten

/-- `carquet_encode_plain_byte_array` (plain.c:340-360). -/
def encodePlainByteArray (input : List Value) : Bytes :=
  (input.map fun v => leBytes 4 v.length ++ v).flatten

/-! ## BYTE_STREAM_SPLIT -/

/-- The transposition of `carquet_byte_stream_split_encode` (byte_stream_split.c:237-242). -/
def byteStreamSplitEncode (width : Nat) (values : List Value) : Bytes :=
  ((List.range width).map fun b => values.map fun v => v.getD b 0).flatten

/-- `carquet_byte_stream_split_decode` (byte_stream_split.c:248-285) and its `_float` and
`_double` forms. -/
def byteStreamSplitDecode (width : Nat) (data : Bytes) (count : Nat) : Option (List Value) :=
  if data.length < count * width then none
  else some ((List.range count).map fun i =>
    (List.range width).map fun b => data.getD (b * count + i) 0)

/-! ## Round trips -/

theorem decodePlainFixed_append {width count : Nat} {values : List Value}
    (hw : ∀ v ∈ values, v.length = width) (hc : values.length = count) (rest : Bytes) :
    decodePlainFixed width (encodePlainFixed values ++ rest) count = some values := by
  have hlen := length_flatten_of_width hw
  rw [decodePlainFixed, encodePlainFixed, ← hc, splitChunks_flatten hw, if_neg]
  rw [List.length_append, hlen]
  omega

theorem decodePlainByteArray_append {values : List Value}
    (hv : ∀ v ∈ values, v.length < 2147483648) (rest : Bytes) :
    decodePlainByteArray values.length (encodePlainByteArray values ++ rest) = some values := by
  induction values with
  | nil => rfl
  | cons v vs ih =>
    have hlen : v.length < 2147483648 := hv v (by simp)
    have ih := ih fun u hu => hv u (List.mem_cons_of_mem _ hu)
    have hcons : encodePlainByteArray (v :: vs) ++ rest =
        leBytes 4 v.length ++ (v ++ (encodePlainByteArray vs ++ rest)) := by
      simp [encodePlainByteArray]
    have h4 := length_leBytes 4 v.length
    have hread : leNat (leBytes 4 v.length) = v.length := leNat_leBytes_of_lt (by omega)
    have hrange : toI32 (v.length : Int) = (v.length : Int) :=
      toI32_of_range (by omega) (by omega)
    rw [List.length_cons, decodePlainByteArray, hcons,
      if_neg (by rw [List.length_append]; omega),
      List.take_append_of_le_length (by omega), List.take_of_length_le (by omega),
      List.drop_append_of_le_length (by omega), List.drop_of_length_le (by omega)]
    simp only [hread, hrange, List.nil_append, Int.toNat_natCast]
    rw [if_neg (by rw [List.length_append]; omega), List.take_left, List.drop_left, ih]

/-- Streams of BYTE_ARRAY written one after the other are one stream. -/
theorem encodePlainByteArray_append (as bs : List Value) :
    encodePlainByteArray as ++ encodePlainByteArray bs = encodePlainByteArray (as ++ bs) := by
  simp [encodePlainByteArray]

theorem encodePlainFixed_append (as bs : List Value) :
    encodePlainFixed as ++ encodePlainFixed bs = encodePlainFixed (as ++ bs) := by
  simp [encodePlainFixed]

/-! ### Booleans -/

/-- The image the decoder gives a flag. -/
def boolImage (v : Value) : Value := if leNat v = 0 then [0] else [1]

theorem length_packBools (n : Nat) (values : List Value) : (packBools n values).length = n := by
  induction n generalizing values with
  | zero => rfl
  | succ n ih => simp [packBools, ih]

theorem packByte_lt (values : List Value) : packByte values < 2 ^ values.length := by
  induction values with
  | nil => simp [packByte]
  | cons v vs ih =>
    simp only [packByte, List.length_cons, Nat.pow_succ]
    split <;> omega

theorem packByte_shiftRight {values : List Value} {j : Nat} {v : Value}
    (h : values[j]? = some v) : packByte values >>> j % 2 = if leNat v = 0 then 0 else 1 := by
  induction values generalizing j with
  | nil => simp at h
  | cons u us ih =>
    cases j with
    | zero =>
      simp only [List.getElem?_cons_zero, Option.some.injEq] at h
      subst h
      simp only [packByte, Nat.shiftRight_zero]
      split <;> omega
    | succ j =>
      have hdiv : packByte (u :: us) / 2 = packByte us := by
        simp only [packByte]
        split <;> omega
      rw [Nat.shiftRight_succ_inside, hdiv]
      exact ih (by simpa using h)

theorem getD_packBools {n i : Nat} {values : List Value} (h : i < n) :
    (packBools n values).getD i 0 = UInt8.ofNat (packByte ((values.drop (8 * i)).take 8)) := by
  induction n generalizing i values with
  | zero => omega
  | succ n ih =>
    cases i with
    | zero => simp [packBools]
    | succ i =>
      have h8 : 8 + 8 * i = 8 * (i + 1) := by omega
      simp only [packBools, List.getD_cons_succ]
      rw [ih (by omega), List.drop_drop, h8]

/-- BOOLEAN values read back as 0 or 1, whatever follows them. -/
theorem decodePlainBoolean_append (values : List Value) (rest : Bytes) :
    decodePlainBoolean (encodePlainBoolean values ++ rest) values.length =
      some (values.map boolImage) := by
  have hlen : (encodePlainBoolean values).length = (values.length + 7) / 8 :=
    length_packBools _ _
  rw [decodePlainBoolean, if_neg (by rw [List.length_append]; omega), Option.some.injEq]
  apply List.ext_getElem
  · simp
  · intro i h1 h2
    have hi : i < values.length := by simpa using h2
    simp only [List.getElem_map, List.getElem_range]
    rw [List.getD_append _ _ _ _ (by omega), encodePlainBoolean, getD_packBools (by omega)]
    generalize hg : (values.drop (8 * (i / 8))).take 8 = group
    have hget : group[i % 8]? = some values[i] := by
      rw [← hg, List.getElem?_take_of_lt (by omega), List.getElem?_drop,
        Nat.div_add_mod, List.getElem?_eq_getElem hi]
    have hlt : packByte group < 256 := by
      have h8 : group.length ≤ 8 := by
        rw [← hg, List.length_take]
        omega
      calc packByte group < 2 ^ group.length := packByte_lt group
        _ ≤ 2 ^ 8 := Nat.pow_le_pow_right (by omega) h8
    rw [UInt8.toNat_ofNat', Nat.mod_eq_of_lt hlt, packByte_shiftRight hget]
    unfold boolImage
    split <;> rfl

theorem packBools_append {as bs : List Value} {m n : Nat} (h : as.length = 8 * m) :
    packBools (m + n) (as ++ bs) = packBools m as ++ packBools n bs := by
  induction m generalizing as with
  | zero =>
    have hnil : as = [] := List.length_eq_zero_iff.mp (by omega)
    simp [hnil, packBools]
  | succ m ih =>
    have hadd : m + 1 + n = m + n + 1 := by omega
    rw [hadd, packBools, packBools, List.take_append_of_le_length (by omega),
      List.drop_append_of_le_length (by omega), ih (by rw [List.length_drop]; omega)]
    rfl

/-- Two BOOLEAN streams are one stream when the first fills its last byte. -/
theorem encodePlainBoolean_append {as bs : List Value} (h : as.length % 8 = 0) :
    encodePlainBoolean as ++ encodePlainBoolean bs = encodePlainBoolean (as ++ bs) := by
  have hm : (as.length + 7) / 8 = as.length / 8 := by omega
  have hn : ((as ++ bs).length + 7) / 8 = as.length / 8 + (bs.length + 7) / 8 := by
    rw [List.length_append]
    omega
  rw [encodePlainBoolean, encodePlainBoolean, encodePlainBoolean, hn, hm,
    packBools_append (by omega)]

/-! ### BYTE_STREAM_SPLIT -/

theorem length_flatten_map {α β : Type} {f : α → List β} {k : Nat} (xs : List α)
    (h : ∀ x, (f x).length = k) : ((xs.map f).flatten).length = xs.length * k := by
  induction xs with
  | nil => simp
  | cons x xs ih =>
    rw [List.map_cons, List.flatten_cons, List.length_append, ih, h, List.length_cons,
      Nat.succ_mul, Nat.add_comm]

theorem getD_flatten_map {α : Type} {f : Nat → List α} {k n : Nat} {d : α}
    (h : ∀ x, (f x).length = k) {b i : Nat} (hb : b < n) (hi : i < k) :
    (((List.range n).map f).flatten).getD (b * k + i) d = (f b).getD i d := by
  induction n generalizing b with
  | zero => omega
  | succ n ih =>
    rw [List.range_succ, List.map_append, List.flatten_append]
    have hlen : (((List.range n).map f).flatten).length = n * k := by
      simpa using length_flatten_map (List.range n) h
    by_cases hbn : b < n
    · have hlt : b * k + i < n * k := by
        calc b * k + i < b * k + k := by omega
          _ = (b + 1) * k := by rw [Nat.succ_mul]
          _ ≤ n * k := Nat.mul_le_mul_right k hbn
      rw [List.getD_append _ _ _ _ (by omega), ih hbn]
    · have heq : b = n := by omega
      subst heq
      rw [List.getD_append_right _ _ _ _ (by omega), hlen]
      simp

/-- A block of byte streams reads back, whatever follows it. -/
theorem byteStreamSplitDecode_append {width : Nat} {values : List Value}
    (hw : ∀ v ∈ values, v.length = width) (rest : Bytes) :
    byteStreamSplitDecode width (byteStreamSplitEncode width values ++ rest) values.length =
      some values := by
  have hrow : ∀ b, (values.map fun v => v.getD b 0).length = values.length := by simp
  have hlen : (byteStreamSplitEncode width values).length = width * values.length := by
    rw [byteStreamSplitEncode, length_flatten_map (List.range width) hrow, List.length_range]
  have hmul := Nat.mul_comm width values.length
  rw [byteStreamSplitDecode, if_neg (by rw [List.length_append]; omega), Option.some.injEq]
  apply List.ext_getElem
  · simp
  · intro i h1 h2
    have hi : i < values.length := h2
    have hv : values[i].length = width := hw _ (List.getElem_mem hi)
    simp only [List.getElem_map, List.getElem_range]
    apply List.ext_getElem
    · simp [hv]
    · intro b hb1 hb2
      have hb : b < width := by simpa using hb1
      have hlt : b * values.length + i < width * values.length := by
        calc b * values.length + i < b * values.length + values.length := by omega
          _ = (b + 1) * values.length := by rw [Nat.succ_mul]
          _ ≤ width * values.length := Nat.mul_le_mul_right _ hb
      simp only [List.getElem_map, List.getElem_range]
      rw [List.getD_append _ _ _ _ (by omega), byteStreamSplitEncode,
        getD_flatten_map hrow hb hi, List.getD_eq_getElem _ _ (by simpa using hi),
        List.getElem_map, List.getD_eq_getElem _ _ hb2]

end Carquet
