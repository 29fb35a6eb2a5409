import Carquet.Core.Types
import Carquet.Lib.LittleEndian

/-!
# xxHash64

`carquet_xxhash64` (src/util/xxhash.c:56-118), the hash of the bloom filters. Four lanes run over stripes
of 32 bytes; what is left is mixed in by eight bytes, four bytes and single bytes.
-/

namespace Carquet

open LittleEndian

def xxhPrime1 : UInt64 := 0x9E3779B185EBCA87
def xxhPrime2 : UInt64 := 0xC2B2AE3D27D4EB4F
def xxhPrime3 : UInt64 := 0x165667B19E3779F9
def xxhPrime4 : UInt64 := 0x85EBCA77C2B2AE63
def xxhPrime5 : UInt64 := 0x27D4EB2F165667C5

/-- `xxh64_rotl` (xxhash.c:20-22). -/
def xxh64Rotl (x r : UInt64) : UInt64 := x <<< r ||| x >>> (64 - r)

/-- `xxh64_round` (xxhash.c:24-29). -/
def xxh64Round (acc input : UInt64) : UInt64 :=
  xxh64Rotl (acc + input * xxhPrime2) 31 * xxhPrime1

/-- `xxh64_merge_round` (xxhash.c:31-36). -/
def xxh64MergeRound (acc val : UInt64) : UInt64 :=
  (acc ^^^ xxh64Round 0 val) * xxhPrime1 + xxhPrime4

/-- `read64_le` (xxhash.c:38-47). -/
def read64Le (p : Bytes) : UInt64 := UInt64.ofNat (leNat (p.take 8))

/-- `read32_le` (xxhash.c:49-54). -/
def read32Le (p : Bytes) : UInt64 := UInt64.ofNat (leNat (p.take 4))

/-- The four lanes over `n` stripes (xxhash.c:68-73), and what lies behind them. -/
def xxh64Stripes : Nat → UInt64 → UInt64 → UInt64 → UInt64 → Bytes →
    (UInt64 × UInt64 × UInt64 × UInt64) × Bytes
  | 0, v1, v2, v3, v4, p => ((v1, v2, v3, v4), p)
  | n + 1, v1, v2, v3, v4, p =>
    xxh64Stripes n (xxh64Round v1 (read64Le p)) (xxh64Round v2 (read64Le (p.drop 8)))
      (xxh64Round v3 (read64Le (p.drop 16))) (xxh64Round v4 (read64Le (p.drop 24))) (p.drop 32)

/-- The remaining eight-byte chunks (xxhash.c:89-94). -/
def xxh64Chunks : Nat → UInt64 → Bytes → UInt64 × Bytes
  | 0, h, p => (h, p)
  | n + 1, h, p =>
    xxh64Chunks n (xxh64Rotl (h ^^^ xxh64Round 0 (read64Le p)) 27 * xxhPrime1 + xxhPrime4) (p.drop 8)

/-- The remaining four bytes (xxhash.c:97-101). -/
def xxh64Half (h : UInt64) (p : Bytes) : UInt64 × Bytes :=
  if 4 ≤ p.length then
    (xxh64Rotl (h ^^^ read32Le p * xxhPrime1) 23 * xxhPrime2 + xxhPrime3, p.drop 4)
  else (h, p)

/-- The remaining bytes (xxhash.c:104-108). -/
def xxh64Tail (h : UInt64) (p : Bytes) : UInt64 :=
  p.foldl (fun h b => xxh64Rotl (h ^^^ b.toUInt64 * xxhPrime5) 11 * xxhPrime1) h

/-- The final mix (xxhash.c:111-115). -/
def xxh64Mix (h : UInt64) : UInt64 :=
  let h := (h ^^^ h >>> 33) * xxhPrime2
  let h := (h ^^^ h >>> 29) * xxhPrime3
  h ^^^ h >>> 32

/-- `carquet_xxhash64` (xxhash.c:56-118). -/
def xxhash64 (data : Bytes) (seed : UInt64) : UInt64 :=
  let (h, p) :=
    if 32 ≤ data.length then
      let ((v1, v2, v3, v4), p) := xxh64Stripes (data.length / 32) (seed + xxhPrime1 + xxhPrime2)
        (seed + xxhPrime2) seed (seed - xxhPrime1) data
      let h := xxh64Rotl v1 1 + xxh64Rotl v2 7 + xxh64Rotl v3 12 + xxh64Rotl v4 18
      (xxh64MergeRound (xxh64MergeRound (xxh64MergeRound (xxh64MergeRound h v1) v2) v3) v4, p)
    else (seed + xxhPrime5, data)
  let h := h + UInt64.ofNat data.length
  let (h, p) := xxh64Chunks (p.length / 8) h p
  let (h, p) := xxh64Half h p
  xxh64Mix (xxh64Tail h p)

/-- The hash of no bytes. -/
example : xxhash64 [] 0 = 0xEF46DB3751D8E999 := by decide

end Carquet
