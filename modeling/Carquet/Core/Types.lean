import Carquet.Lib.LittleEndian

/-!
# Basic types

`include/carquet/types.h`, `include/carquet/error.h`. A C array of bytes is a `Bytes`; one
value of a column is its memory image (`Value`): the 4 or 8 little-endian bytes of a number,
one byte of a BOOLEAN, the contents of a BYTE_ARRAY. Machine integers are `Nat` or `Int`;
where the code narrows one, `toI16`, `toI32`, `toI64` and `toU32` say so.

Memory allocation is taken to succeed.
-/

namespace Carquet

open LittleEndian

abbrev Bytes := List UInt8

/-- The memory image of one value. -/
abbrev Value := Bytes

/-- `carquet_status_t` (error.h:28-85), the codes the modelled functions return. -/
inductive Status where
  | ok | invalidArgument | outOfMemory | notImplemented | internal
  | fileRead | fileWrite | fileSeek | fileTruncated
  | invalidMagic | invalidFooter | invalidSchema | invalidMetadata | invalidPage
  | invalidEncoding | thriftDecode | thriftEncode | thriftInvalidType | thriftTruncated
  | decode | encode | dictionaryNotFound
  | invalidRle | invalidDelta | compression | decompression | invalidCompressedData | unsupportedCodec
  | typeMismatch | columnNotFound | rowGroupNotFound | endOfData | crcMismatch | invalidState
  deriving DecidableEq, Repr

/-- `carquet_physical_type_t` (types.h). -/
inductive PhysicalType where
  | boolean | int32 | int64 | int96 | float | double | byteArray | fixedLenByteArray
  deriving DecidableEq, Repr

/-- `carquet_encoding_t` (types.h); `unknown` is every other code of a page header. -/
inductive Encoding where
  | plain | plainDictionary | rle | bitPacked | deltaBinaryPacked | deltaLengthByteArray
  | deltaByteArray | rleDictionary | byteStreamSplit | unknown
  deriving DecidableEq, Repr

/-- `carquet_compression_t` (types.h). -/
inductive Compression where
  | uncompressed | snappy | gzip | lzo | brotli | lz4 | zstd | lz4Raw | unknown
  deriving DecidableEq, Repr

/-- A computation that succeeds went through each of its steps. -/
theorem bind_eq_ok {α β : Type} {x : Except Status α} {f : α → Except Status β} {r : β} :
    (x >>= f) = .ok r ↔ ∃ a, x = .ok a ∧ f a = .ok r := by
  cases x with
  | error e => simp [bind, Except.bind]
  | ok a => simp [bind, Except.bind]

/-! ## Machine integers -/

/-- Conversion to `uint32_t`. -/
def toU32 (x : Int) : Nat := (x % 4294967296).toNat

/-- Conversion to `int16_t`. -/
def toI16 (x : Int) : Int := (x + 32768) % 65536 - 32768

/-- Conversion to `int32_t`. -/
def toI32 (x : Int) : Int := (x + 2147483648) % 4294967296 - 2147483648

/-- Conversion to `int64_t`. -/
def toI64 (x : Int) : Int :=
  (x + 9223372036854775808) % 18446744073709551616 - 9223372036854775808

theorem toI32_of_range {x : Int} (h1 : -2147483648 ≤ x) (h2 : x < 2147483648) :
    toI32 x = x := by
  unfold toI32
  omega

theorem toI64_of_range {x : Int} (h1 : -9223372036854775808 ≤ x)
    (h2 : x < 9223372036854775808) : toI64 x = x := by
  unfold toI64
  omega

theorem toI16_of_range {x : Int} (h1 : -32768 ≤ x) (h2 : x < 32768) : toI16 x = x := by
  unfold toI16
  omega

theorem toI32_range (x : Int) : -2147483648 ≤ toI32 x ∧ toI32 x < 2147483648 := by
  unfold toI32
  omega

/-! ## Buffers written over -/

/-- Writing `new` from the start of a buffer that holds `old`: what lies beyond is kept. -/
def overlay {α : Type} (new old : List α) : List α := new ++ old.drop new.length

@[simp] theorem overlay_nil {α : Type} (old : List α) : overlay [] old = old := rfl

theorem length_overlay {α : Type} (new old : List α) :
    (overlay new old).length = max new.length old.length := by
  simp only [overlay, List.length_append, List.length_drop]
  omega

/-- The part of the buffer that was written is what was written. -/
theorem take_overlay {α : Type} {n : Nat} {new : List α} (old : List α) (h : n ≤ new.length) :
    (overlay new old).take n = new.take n := by
  rw [overlay, List.take_append_of_le_length h]

end Carquet
