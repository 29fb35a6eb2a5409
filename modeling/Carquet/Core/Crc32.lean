import Carquet.Core.Types

/-!
# CRC-32

`carquet_crc32_update` and `carquet_crc32` (crc32.c:20-47), in the form of the build without
compression; zlib's `crc32` computes the same sum.
-/

namespace Carquet

/-- The eight turns for one byte (crc32.c:35-38). -/
def crc32Byte (c : UInt32) (byte : UInt8) : UInt32 :=
  (List.range 8).foldl (fun c _ => (c >>> 1) ^^^ (0xedb88320 &&& (0 - (c &&& 1))))
    (c ^^^ byte.toUInt32)

/-- `carquet_crc32_update` (crc32.c:32-42). -/
def crc32Update (crc : UInt32) (data : Bytes) : UInt32 :=
  data.foldl crc32Byte (crc ^^^ 0xffffffff) ^^^ 0xffffffff

/-- `carquet_crc32` (crc32.c:45-47). -/
def crc32 (data : Bytes) : UInt32 := crc32Update 0 data

@[simp] theorem crc32Update_nil (crc : UInt32) : crc32Update crc [] = crc := by
  simp [crc32Update, UInt32.xor_assoc]

/-- **Sums go on where they stopped.** -/
theorem crc32Update_append (crc : UInt32) (a b : Bytes) :
    crc32Update crc (a ++ b) = crc32Update (crc32Update crc a) b := by
  simp [crc32Update, UInt32.xor_assoc]

/-- The check value of the standard. -/
example : crc32 [0x31, 0x32, 0x33, 0x34, 0x35, 0x36, 0x37, 0x38, 0x39] = 0xcbf43926 := by
  decide +kernel

end Carquet
