import Carquet.Encoding.Plain
import Carquet.Encoding.RleEncode
import Carquet.Lib.ChainedTable

/-!
# Dictionary encoding

`src/encoding/dictionary.c`. A builder gives every new value the next index and appends it to the
dictionary; a hash table of chains finds the values it has seen, and doubles when it is three
quarters full. The dictionary is PLAIN; the indices are a bit width byte and an RLE stream.
-/

namespace Carquet

open LittleEndian ChainedTable

/-! ## The builder -/

/-- `dict_entry_t` (dictionary.c:63-69); the size is that of `data`. -/
structure DictEntry where
  data : Bytes
  hash : UInt32
  index : Nat
  deriving DecidableEq, Repr

/-- `dict_builder_t` (dictionary.c:71-91). -/
structure DictBuilder where
  buckets : Table DictEntry
  count : Nat
  dictBuffer : Bytes
  indices : List Nat
  isVariableLength : Bool
  maxDictBytes : Nat
  abandoned : Bool
  deriving DecidableEq, Repr

def dictBuilderInitialBuckets : Nat := 1024
def dictBuilderMaxLoadNum : Nat := 3
def dictBuilderMaxLoadDen : Nat := 4

/-- `hash & mask`, the mask one below the number of buckets. -/
def dictBucket (numBuckets : Nat) (hash : UInt32) : Nat := hash.toNat &&& (numBuckets - 1)

/-- The bucket of an entry among `numBuckets`. -/
def dictSlot (numBuckets : Nat) (e : DictEntry) : Nat := dictBucket numBuckets e.hash

/-- `dict_builder_rehash` (dictionary.c:97-119). -/
def dictBuilderRehash (b : DictBuilder) (newBucketCount : Nat) : DictBuilder :=
  { b with buckets := rehash dictSlot b.buckets newBucketCount }

/-- `dict_hash_fixed32` (dictionary.c:126-135). -/
def dictHashFixed32 (data : Bytes) : UInt32 :=
  let h := UInt32.ofNat (leNat (data.take 4))
  let h := h ^^^ h >>> 16
  let h := h * 0x85ebca6b
  let h := h ^^^ h >>> 13
  let h := h * 0xc2b2ae35
  h ^^^ h >>> 16

/-- `dict_hash_fixed64` (dictionary.c:137-147). -/
def dictHashFixed64 (data : Bytes) : UInt32 :=
  let k := UInt64.ofNat (leNat (data.take 8))
  let k := k ^^^ k >>> 33
  let k := k * 0xff51afd7ed558ccd
  let k := k ^^^ k >>> 33
  let k := k * 0xc4ceb9fe1a85ec53
  let k := k ^^^ k >>> 33
  k.toUInt32

/-- `dict_hash` (dictionary.c:149-161): FNV-1a for every length but 4 and 8. -/
def dictHash (data : Bytes) : UInt32 :=
  if data.length = 4 then dictHashFixed32 data
  else if data.length = 8 then dictHashFixed64 data
  else data.foldl (fun h byte => (h ^^^ byte.toUInt32) * 0x01000193) 0x811c9dc5

/-- `dict_builder_init` (dictionary.c:163-193), and the budget of the capped encoder. -/
def dictBuilderInit (isVariableLength : Bool) (maxDictBytes : Nat) : DictBuilder :=
  ⟨List.replicate dictBuilderInitialBuckets [], 0, [], [], isVariableLength, maxDictBytes, false⟩

/-- The search of a chain (dictionary.c:230-238). -/
def DictBuilder.lookup (b : DictBuilder) (value : Bytes) : Option DictEntry :=
  let hash := dictHash value
  (bucket b.buckets (dictBucket b.buckets.length hash)).find? fun e =>
    e.hash == hash && e.data == value

/-- The table with room for one more entry (dictionary.c:240-249). -/
def DictBuilder.reserve (b : DictBuilder) : DictBuilder :=
  if (b.count + 1) * dictBuilderMaxLoadDen > b.buckets.length * dictBuilderMaxLoadNum then
    dictBuilderRehash b (b.buckets.length * 2)
  else b

/-- A value the builder has not seen (dictionary.c:251-285). -/
def DictBuilder.insert (b : DictBuilder) (value : Bytes) : DictBuilder :=
  let hash := dictHash value
  let index := b.count % 4294967296
  let dictBuffer := b.dictBuffer ++
    (if b.isVariableLength then leBytes 4 value.length else []) ++ value
  { b with
    buckets := push b.buckets (dictBucket b.buckets.length hash) ⟨value, hash, index⟩
    dictBuffer := dictBuffer
    indices := b.indices ++ [index]
    count := b.count + 1
    abandoned :=
      if b.maxDictBytes ≠ 0 ∧ b.maxDictBytes < dictBuffer.length then true else b.abandoned }

/-- `dict_builder_add` (dictionary.c:211-288). -/
def dictBuilderAdd (b : DictBuilder) (value : Bytes) : DictBuilder :=
  match b.lookup value with
  | some entry => { b with indices := b.indices ++ [entry.index] }
  | none => b.reserve.insert value

/-! ## Encoders -/

/-- `bit_width_for_count` (dictionary.c:290-299). -/
def bitWidthForCount (count : Nat) : Nat :=
  if count = 0 then 0
  else
    let width := if count - 1 = 0 then 0 else (count - 1).log2 + 1
    if 0 < width then width else 1

/-- The dictionary and the indices of a finished builder: the bit width of a 32-bit count, then the
RLE stream. -/
def DictBuilder.serialize (b : DictBuilder) : Bytes × Bytes :=
  let bitWidth := bitWidthForCount (b.count % 4294967296)
  (b.dictBuffer, UInt8.ofNat bitWidth :: rleEncodeAll bitWidth b.indices)

/-- What the encoders of one type do: the bytes for `dict_output` and for `indices_output`. -/
def dictionaryEncodeAll (isVariableLength : Bool) (values : List Value) : Bytes × Bytes :=
  (values.foldl dictBuilderAdd (dictBuilderInit isVariableLength 0)).serialize

/-- `carquet_dictionary_encode_int32` (dictionary.c:301-339). -/
def dictionaryEncodeInt32 : List Value → Bytes × Bytes := dictionaryEncodeAll false

/-- `carquet_dictionary_encode_int64` (dictionary.c:341-373). -/
def dictionaryEncodeInt64 : List Value → Bytes × Bytes := dictionaryEncodeAll false

/-- `carquet_dictionary_encode_float` (dictionary.c:375-407). -/
def dictionaryEncodeFloat : List Value → Bytes × Bytes := dictionaryEncodeAll false

/-- `carquet_dictionary_encode_double` (dictionary.c:409-441). -/
def dictionaryEncodeDouble : List Value → Bytes × Bytes := dictionaryEncodeAll false

/-- `carquet_dictionary_encode_byte_array` (dictionary.c:443-472). -/
def dictionaryEncodeByteArray : List Value → Bytes × Bytes := dictionaryEncodeAll true

/-- The encoder of a type, where there is one. -/
def dictionaryEncode : PhysicalType → Option (List Value → Bytes × Bytes)
  | .int32 => some dictionaryEncodeInt32
  | .int64 => some dictionaryEncodeInt64
  | .float => some dictionaryEncodeFloat
  | .double => some dictionaryEncodeDouble
  | .byteArray => some dictionaryEncodeByteArray
  | _ => none

/-- The loop of the capped encoder (dictionary.c:517-551), which stops at an abandoned builder. -/
def addUntilAbandoned : List Value → DictBuilder → DictBuilder
  | [], b => b
  | value :: rest, b => if b.abandoned then b else addUntilAbandoned rest (dictBuilderAdd b value)

/-- The types with a dictionary, and whether their values carry a length (dictionary.c:498-506). -/
def dictVariableLength : PhysicalType → Option Bool
  | .int32 | .float | .int64 | .double => some false
  | .byteArray => some true
  | _ => none

/-- `carquet_dictionary_encode_capped` (dictionary.c:481-564); `none` for `*abandoned`. -/
def dictionaryEncodeCapped (type : PhysicalType) (values : List Value) (maxDictBytes : Nat) :
    Except Status (Option (Bytes × Bytes)) :=
  if values.length = 0 then .error .invalidArgument
  else
    match dictVariableLength type with
    | none => .error .notImplemented
    | some varLen =>
      let b := addUntilAbandoned values (dictBuilderInit varLen maxDictBytes)
      .ok (if b.abandoned then none else some b.serialize)

/-! ## Decoders -/

/-- What the decoders of the fixed-width types do (dictionary.c:571-641), for values of `width` bytes.
`carquet_dispatch_checked_gather_*` (dispatch.c:165-203) refuses an index past the dictionary. -/
def dictionaryDecodeFixed (width : Nat) (dictData : Bytes) (dictCount : Int) (indicesData : Bytes)
    (outputCount : Int) : Except Status (List Value) :=
  if outputCount ≤ 0 then .ok []
  else if dictCount ≤ 0 then .error .decode
  else if dictData.length < dictCount.toNat * width then .error .decode
  else
    match indicesData with
    | [] => .error .decode
    | bitWidth :: stream =>
      let indices := rleDecodeAll stream bitWidth.toNat outputCount.toNat
      if (indices.length : Int) < outputCount then .error .decode
      else if indices.any (dictCount.toNat ≤ ·) then .error .decode
      else .ok (indices.map fun idx => (dictData.drop (idx * width)).take width)

/-- `carquet_dictionary_decode_int32` (dictionary.c:571-641). -/
def dictionaryDecodeInt32 := dictionaryDecodeFixed 4

/-- `carquet_dictionary_decode_int64` (dictionary.c:643-710). -/
def dictionaryDecodeInt64 := dictionaryDecodeFixed 8

/-- `carquet_dictionary_decode_float` (dictionary.c:712-779). -/
def dictionaryDecodeFloat := dictionaryDecodeFixed 4

/-- `carquet_dictionary_decode_double` (dictionary.c:781-848). -/
def dictionaryDecodeDouble := dictionaryDecodeFixed 8

/-- The decoder of a type, where there is one: the page reader looks strings up itself. -/
def dictionaryDecode :
    PhysicalType → Option (Bytes → Int → Bytes → Int → Except Status (List Value))
  | .int32 => some dictionaryDecodeInt32
  | .int64 => some dictionaryDecodeInt64
  | .float => some dictionaryDecodeFloat
  | .double => some dictionaryDecodeDouble
  | _ => none

end Carquet
