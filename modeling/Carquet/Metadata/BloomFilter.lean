import Carquet.Core.XxHash
import Carquet.Lib.Chunks

/-!
# Bloom filters

`src/metadata/bloom_filter.c`, split block bloom filters. The bit array is cut into blocks of eight
words; the upper half of a hash picks the block, the lower half one bit in each of its words.

* `BloomFilter.create`, `.fromData`, `.insertHash`, `.checkHash`, `.write`, `.read`, `.merge` are the
  functions of those names.
* The inserts and checks of the kinds of values (bloom_filter.c:207-284) hash the bytes of the value
  in memory: `BloomValue.memory`.

Allocation does not fail here, and no filter is `NULL`. A filter carries that its array is one of
whole blocks, as `carquet_bloom_filter_create` and `_from_data` see to.
-/

namespace Carquet

open LittleEndian Chunks

def bloomFilterBlockSize : Nat := 32

/-- `SALT` (bloom_filter.c:31-34). -/
def bloomSalt : List Nat :=
  [0x47b6137b, 0x44974d91, 0x8824ad5b, 0xa2b7289d, 0x705495c7, 0x2df1424b, 0x9efc4947, 0x5c6bfb31]

/-- `carquet_bloom_filter` (bloom_filter.c:44-49); `num_bytes` and `num_blocks` follow from the
data. -/
structure BloomFilter where
  data : Bytes
  whole : bloomFilterBlockSize ∣ data.length
  nonempty : 0 < data.length

namespace BloomFilter

def numBytes (f : BloomFilter) : Nat := f.data.length

def numBlocks (f : BloomFilter) : Nat := f.numBytes / bloomFilterBlockSize

/-- `bloom_filter_block_index` (bloom_filter.c:59-62), in 64 bits. -/
def blockIndex (hash : UInt64) (numBlocks : Nat) : Nat :=
  hash.toNat / 4294967296 * numBlocks % 18446744073709551616 / 4294967296

/-- `bit_pos` of a word (bloom_filter.c:73-75). -/
def bitPos (salt : Nat) (hash : UInt64) : Nat :=
  salt * (hash.toNat % 4294967296) % 4294967296 / 134217728

/-- The words of a block, as memory holds them. -/
def blockWords (block : Bytes) : List Nat := (splitChunks 4 8 block).map leNat

/-- `bloom_filter_block_insert` (bloom_filter.c:68-79). -/
def blockInsert (words : List Nat) (hash : UInt64) : List Nat :=
  List.zipWith (fun salt word => word ||| 2 ^ bitPos salt hash) bloomSalt words

/-- `bloom_filter_block_check` (bloom_filter.c:84-95). -/
def blockCheck (words : List Nat) (hash : UInt64) : Bool :=
  (bloomSalt.zip words).all fun sw => sw.2 &&& 2 ^ bitPos sw.1 hash ≠ 0

/-- `num_bytes` of a new filter (bloom_filter.c:104-108). -/
def createSize (numBytes : Nat) : Nat :=
  (max numBytes bloomFilterBlockSize + bloomFilterBlockSize - 1) / bloomFilterBlockSize *
    bloomFilterBlockSize

theorem createSize_pos (numBytes : Nat) : 0 < createSize numBytes := by
  unfold createSize bloomFilterBlockSize
  omega

/-- `carquet_bloom_filter_create` (bloom_filter.c:102-126). -/
def create (numBytes : Nat) : BloomFilter where
  data := List.replicate (createSize numBytes) 0
  whole := by
    rw [List.length_replicate]
    exact Dvd.intro_left _ rfl
  nonempty := by
    rw [List.length_replicate]
    exact createSize_pos numBytes

/-- `carquet_bloom_filter_from_data` (bloom_filter.c:149-179). -/
def fromData (data : Bytes) : Option BloomFilter :=
  if h : data.length < bloomFilterBlockSize ∨ data.length % bloomFilterBlockSize ≠ 0 then none
  else some ⟨data, Nat.dvd_of_mod_eq_zero (by omega), by unfold bloomFilterBlockSize at h; omega⟩

/-- The bytes behind `block_idx * BLOOM_FILTER_BLOCK_SIZE`. -/
def block (f : BloomFilter) (idx : Nat) : Bytes :=
  (f.data.drop (idx * bloomFilterBlockSize)).take bloomFilterBlockSize

/-- The bit array with the words of a block stored. -/
def storeBlock (f : BloomFilter) (idx : Nat) (words : List Nat) : Bytes :=
  f.data.take (idx * bloomFilterBlockSize) ++ (words.map (leBytes 4)).flatten ++
    f.data.drop (idx * bloomFilterBlockSize + bloomFilterBlockSize)

theorem length_blockWords (block : Bytes) : (blockWords block).length = 8 := by
  rw [blockWords, List.length_map, length_splitChunks]

theorem length_blockInsert {words : List Nat} (h : words.length = 8) (hash : UInt64) :
    (blockInsert words hash).length = 8 := by
  rw [blockInsert, List.length_zipWith, h]
  rfl

theorem length_wordBytes (words : List Nat) :
    (words.map (leBytes 4)).flatten.length = 4 * words.length := by
  have hwidth : ∀ p ∈ words.map (leBytes 4), p.length = 4 := by
    intro p hp
    obtain ⟨v, -, rfl⟩ := List.mem_map.mp hp
    exact length_leBytes 4 v
  rw [length_flatten_of_width hwidth, List.length_map, Nat.mul_comm]

theorem numBlocks_mul (f : BloomFilter) : f.numBlocks * bloomFilterBlockSize = f.data.length :=
  Nat.div_mul_cancel f.whole

theorem numBlocks_pos (f : BloomFilter) : 0 < f.numBlocks := by
  have hmul := f.numBlocks_mul
  have hpos := f.nonempty
  refine Nat.pos_of_ne_zero fun h0 => ?_
  rw [h0] at hmul
  omega

/-- The block is one of the filter. -/
theorem blockIndex_lt (hash : UInt64) {n : Nat} (h : 0 < n) : blockIndex hash n < n := by
  have hhash : hash.toNat < 18446744073709551616 := hash.toNat_lt
  have htop : hash.toNat / 4294967296 < 4294967296 := by omega
  have hmul : hash.toNat / 4294967296 * n < 4294967296 * n := Nat.mul_lt_mul_of_pos_right htop h
  unfold blockIndex
  rw [Nat.div_lt_iff_lt_mul (by decide), Nat.mul_comm n]
  exact Nat.lt_of_le_of_lt (Nat.mod_le _ _) hmul

theorem length_storeBlock (f : BloomFilter) {idx : Nat} {words : List Nat} (hidx : idx < f.numBlocks)
    (hwords : words.length = 8) : (f.storeBlock idx words).length = f.data.length := by
  have hmul := f.numBlocks_mul
  have hle : (idx + 1) * bloomFilterBlockSize ≤ f.numBlocks * bloomFilterBlockSize :=
    Nat.mul_le_mul_right _ hidx
  rw [Nat.succ_mul] at hle
  rw [storeBlock, List.length_append, List.length_append, List.length_take, List.length_drop,
    length_wordBytes, hwords]
  unfold bloomFilterBlockSize at *
  omega

/-- `carquet_bloom_filter_insert_hash` (bloom_filter.c:195-205). -/
def insertHash (f : BloomFilter) (hash : UInt64) : BloomFilter :=
  let idx := blockIndex hash f.numBlocks
  let words := blockInsert (blockWords (f.block idx)) hash
  have hlength : (f.storeBlock idx words).length = f.data.length :=
    f.length_storeBlock (blockIndex_lt hash f.numBlocks_pos)
      (length_blockInsert (length_blockWords _) hash)
  { data := f.storeBlock idx words
    whole := hlength ▸ f.whole
    nonempty := hlength ▸ f.nonempty }

/-- `carquet_bloom_filter_check_hash` (bloom_filter.c:243-253). -/
def checkHash (f : BloomFilter) (hash : UInt64) : Bool :=
  blockCheck (blockWords (f.block (blockIndex hash f.numBlocks))) hash

/-- `carquet_bloom_filter_write` (bloom_filter.c:309-327): what is written to a buffer of some
capacity. -/
def write (f : BloomFilter) (capacity : Nat) : Except Status Bytes :=
  if capacity < f.numBytes then .error .encode else .ok f.data

/-- `carquet_bloom_filter_read` (bloom_filter.c:329-345). -/
def read (data : Bytes) : Except Status BloomFilter :=
  match fromData data with
  | none => .error .outOfMemory
  | some f => .ok f

theorem length_zipWith_or {a b : Bytes} (h : a.length = b.length) :
    (List.zipWith (· ||| ·) a b).length = a.length := by
  rw [List.length_zipWith, h, Nat.min_self]

/-- `carquet_bloom_filter_merge` (bloom_filter.c:352-370). -/
def merge (dest src : BloomFilter) : Except Status BloomFilter :=
  if h : dest.numBytes ≠ src.numBytes then .error .invalidArgument
  else
    have hlength := length_zipWith_or (Decidable.not_not.mp h)
    .ok {
      data := List.zipWith (· ||| ·) dest.data src.data
      whole := hlength ▸ dest.whole
      nonempty := hlength ▸ dest.nonempty }

end BloomFilter

/-! ## Values -/

/-- A value that can be inserted: of INT32 and INT64 the number, of FLOAT and DOUBLE the bits. -/
inductive BloomValue where
  | i32 (value : Int)
  | i64 (value : Int)
  | float (bits : UInt32)
  | double (bits : UInt64)
  | bytes (data : Bytes)
  deriving DecidableEq, Repr

/-- The bytes of a value in memory. -/
def BloomValue.memory : BloomValue → Bytes
  | .i32 v => leBytes 4 (v % 4294967296).toNat
  | .i64 v => leBytes 8 (v % 18446744073709551616).toNat
  | .float bits => leBytes 4 bits.toNat
  | .double bits => leBytes 8 bits.toNat
  | .bytes data => data

namespace BloomFilter

def insertMemory (f : BloomFilter) (v : Value) : BloomFilter := f.insertHash (xxhash64 v 0)

def checkMemory (f : BloomFilter) (v : Value) : Bool := f.checkHash (xxhash64 v 0)

/-- `carquet_bloom_filter_insert_i32`, `_i64`, `_float`, `_double`, `_bytes`
(bloom_filter.c:207-236). -/
def insert (f : BloomFilter) (v : BloomValue) : BloomFilter := f.insertMemory v.memory

/-- `carquet_bloom_filter_check_i32`, `_i64`, `_float`, `_double`, `_bytes`
(bloom_filter.c:255-284). -/
def check (f : BloomFilter) (v : BloomValue) : Bool := f.checkMemory v.memory

end BloomFilter

end Carquet
