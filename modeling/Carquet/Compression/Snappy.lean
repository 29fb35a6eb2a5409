import Carquet.Core.Types
import Carquet.Lib.BackReference
import Carquet.Lib.LittleEndian

/-!
# Snappy

* `snappyCompress` — `carquet_snappy_compress` (snappy.c:622-843).
* `snappyDecompress` — `carquet_snappy_decompress` (snappy.c:452-595).

The compressor only appends to its output: the bytes that a fast store writes beyond `op` are
overwritten or left out. The decompressor reads its output back, so that is a memory, and each
fast copy is modelled as the loads and stores it consists of. `vectorShuffle` is
`SNAPPY_HAVE_VECTOR_SHUFFLE` (snappy.c:59-63): whether the build has a 16-byte shuffle.
-/

namespace Carquet

open LittleEndian BackReference

/-! ## Compression -/

/-- `snappy_write_varint` (snappy.c:223-231). -/
def snappyWriteVarint (value : Nat) : Bytes :=
  if value < 128 then [UInt8.ofNat value]
  else UInt8.ofNat (value % 128 + 128) :: snappyWriteVarint (value / 128)

/-- `load32` (snappy.c:120-122) at an index. -/
def load32 (src : Bytes) (i : Nat) : Nat := leNat ((src.drop i).take 4)

/-- `load64` (snappy.c:124-126) at an index. -/
def load64 (src : Bytes) (i : Nat) : Nat := leNat ((src.drop i).take 8)

/-- `snappy_hash` (snappy.c:601-603). -/
def snappyHash (val : Nat) : Nat := val * 0x1e35a7bd % 4294967296 / 2 ^ 18

/-- `SNAPPY_CTZ64`: the zeros below the lowest bit that is set. -/
def ctz : Nat → Nat → Nat
  | 0, _ => 0
  | fuel + 1, x => if x % 2 = 1 then 0 else ctz fuel (x / 2) + 1

/-- The loop over single bytes of `fast_match_length` (snappy.c:618). -/
def matchLengthBytes (src : Bytes) (limit : Nat) : Nat → Nat → Nat → Nat
  | 0, _, _ => 0
  | fuel + 1, p, m =>
    if p < limit ∧ src[p]? = src[m]? then matchLengthBytes src limit fuel (p + 1) (m + 1) + 1 else 0

/-- `fast_match_length` (snappy.c:606-620), `match` and `p` as indices. -/
def fastMatchLength (src : Bytes) (limit : Nat) : Nat → Nat → Nat → Nat
  | 0, _, _ => 0
  | fuel + 1, p, m =>
    if p + 8 ≤ limit then
      let diff := load64 src p ^^^ load64 src m
      if diff ≠ 0 then ctz 64 diff / 8 else fastMatchLength src limit fuel (p + 8) (m + 8) + 8
    else matchLengthBytes src limit (limit - p) p m

/-- `snappy_emit_literal` (snappy.c:622-636). -/
def snappyEmitLiteral (literal : Bytes) : Bytes :=
  let n := literal.length - 1
  if n < 60 then UInt8.ofNat (n * 4) :: literal
  else
    let count := n.log2 / 8 + 1
    UInt8.ofNat ((59 + count) * 4) :: (leBytes count n ++ literal)

/-- A copy with a two-byte offset (snappy.c:641-643, 648-650, 667-669). -/
def snappyCopy2 (offset len : Nat) : Bytes :=
  [UInt8.ofNat ((len - 1) * 4 + 2), UInt8.ofNat (offset % 256), UInt8.ofNat (offset / 256)]

/-- The last element of `snappy_emit_copy` (snappy.c:655-670). -/
def snappyCopyTail (offset len : Nat) : Bytes :=
  if len < 12 ∧ offset < 2048 then
    [UInt8.ofNat ((len - 4) * 4 + 1 + offset / 256 * 32), UInt8.ofNat (offset % 256)]
  else snappyCopy2 offset len

/-- `snappy_emit_copy` (snappy.c:638-673). -/
def snappyEmitCopy (offset : Nat) (len : Nat) : Bytes :=
  if 68 ≤ len then snappyCopy2 offset 64 ++ snappyEmitCopy offset (len - 64)
  else if 64 < len then snappyCopy2 offset 60 ++ snappyCopyTail offset (len - 60)
  else snappyCopyTail offset len
termination_by len

/-- `hash_table`: a position in the block for each hash. -/
abbrev HashTable := Nat → Nat

/-- `hash_table[h] = (uint16_t)position`. -/
def HashTable.set (table : HashTable) (h position : Nat) : HashTable :=
  Function.update table h (position % 65536)

/-- The sixteen positions at the start (snappy.c:699-719), from `ip` on: where the match is and
what it matches, and the table. The bytes that `data >> 8` brings down are those at `ip`. -/
def snappyStart (src : Bytes) : Nat → Nat → HashTable → Option (Nat × Nat) × HashTable
  | 0, _, table => (none, table)
  | fuel + 1, ip, table =>
    let dword := load32 src ip
    let h := snappyHash dword
    let candidate := table h
    let table := table.set h ip
    if load32 src candidate = dword then (some (ip, candidate), table)
    else snappyStart src fuel (ip + 1) table

/-- The search for a match (snappy.c:723-744, 772-793), up to `ilimit`. -/
def snappySearch (src : Bytes) (ilimit : Nat) :
    Nat → Nat → Nat → HashTable → Option (Nat × Nat) × HashTable
  | 0, _, _, table => (none, table)
  | fuel + 1, ip, skip, table =>
    let h := snappyHash (load32 src ip)
    let bytesBetween := skip / 32
    let nextIp := ip + bytesBetween
    if ilimit < nextIp then (none, table)
    else
      let candidate := table h
      let table := table.set h ip
      if load32 src ip = load32 src candidate then (some (ip, candidate), table)
      else snappySearch src ilimit fuel nextIp (skip + bytesBetween) table

/-- `emit_remainder` (snappy.c:795-798). -/
def snappyRemainder (src : Bytes) (anchor : Nat) : Bytes :=
  if anchor < src.length then snappyEmitLiteral (src.drop anchor) else []

/-- What follows `emit_match` (snappy.c:750-798): the copies of the match at `ip`, further
matches right behind it, and the search for the next one. -/
def snappyEmitMatch (src : Bytes) (ilimit : Nat) : Nat → Nat → Nat → HashTable → Bytes
  | 0, _, _, _ => []
  | fuel + 1, ip, candidate, table =>
    let matchLen := 4 + fastMatchLength src src.length src.length (ip + 4) (candidate + 4)
    let offset := ip - candidate
    let ip := ip + matchLen
    let copy := snappyEmitCopy offset matchLen
    if ilimit ≤ ip then copy ++ snappyRemainder src ip
    else
      let table := table.set (snappyHash (load32 src (ip - 1))) (ip - 1)
      let h := snappyHash (load32 src ip)
      let candidate := table h
      let table := table.set h ip
      if load32 src ip = load32 src candidate ∧ ip - candidate ≤ 65535 then
        copy ++ snappyEmitMatch src ilimit fuel ip candidate table
      else
        match snappySearch src ilimit src.length (ip + 1) 32 table with
        | (none, _) => copy ++ snappyRemainder src ip
        | (some (next, candidate), table) =>
          copy ++ (snappyEmitLiteral ((src.drop ip).take (next - ip)) ++
            snappyEmitMatch src ilimit fuel next candidate table)

/-- `snappy_compress_block` (snappy.c:675-799). -/
def snappyCompressBlock (src : Bytes) : Bytes :=
  if src.length = 0 then []
  else if src.length < 15 then snappyEmitLiteral src
  else
    let ilimit := src.length - 15
    let table := HashTable.set (fun _ => 0) (snappyHash (load32 src 0)) 0
    let start := if 17 ≤ ilimit then snappyStart src 16 1 table else (none, table)
    match start with
    | (some (ip, candidate), table) =>
      snappyEmitLiteral (src.take ip) ++ snappyEmitMatch src ilimit src.length ip candidate table
    | (none, table) =>
      match snappySearch src ilimit src.length (if 17 ≤ ilimit then 17 else 1) 32 table with
      | (none, _) => snappyRemainder src 0
      | (some (ip, candidate), table) =>
        snappyEmitLiteral (src.take ip) ++ snappyEmitMatch src ilimit src.length ip candidate table

/-- The blocks of `carquet_snappy_compress` (snappy.c:829-837). -/
def snappyCompressBlocks (src : Bytes) : Bytes :=
  if src = [] then []
  else snappyCompressBlock (src.take 65536) ++ snappyCompressBlocks (src.drop 65536)
termination_by src.length
decreasing_by
  rename_i h
  rw [List.length_drop]
  have := List.length_pos_of_ne_nil h
  omega

/-- `carquet_snappy_compress_bound` (snappy.c:850-852). -/
def snappyCompressBound (srcSize : Nat) : Nat := 32 + srcSize + srcSize / 6

/-- `carquet_snappy_compress` (snappy.c:801-843). -/
def snappyCompress (src : Bytes) (dstCapacity : Nat) : Except Status Bytes :=
  if dstCapacity < snappyCompressBound src.length then .error .compression
  else .ok (snappyWriteVarint (src.length % 4294967296) ++ snappyCompressBlocks src)

/-! ## Decompression -/

/-- `snappy_read_varint` (snappy.c:201-221), the bytes still to read counted down: the fifth must
be less than 16. -/
def snappyReadVarint : Nat → Nat → Nat → Bytes → Option (Nat × Bytes)
  | _, _, _, [] => none
  | 0, shift, result, b :: rest =>
    if b.toNat < 16 then some (result + b.toNat % 128 * 2 ^ shift, rest) else none
  | n + 1, shift, result, b :: rest =>
    if b.toNat < 128 then some (result + b.toNat % 128 * 2 ^ shift, rest)
    else snappyReadVarint n (shift + 7) (result + b.toNat % 128 * 2 ^ shift) rest

/-- `kLengthMinusOffset` (snappy.c:156-190). -/
def kLengthMinusOffset : List Int := [
  -255,     4,     1,   255,  -254,     5,     2,   255,
  -253,     6,     3,   255,  -252,     7,     4,   255,
  -251,     8,     5,   255,  -250,     9,     6,   255,
  -249,    10,     7,   255,  -248,    11,     8,   255,
  -247,  -252,     9,   255,  -246,  -251,    10,   255,
  -245,  -250,    11,   255,  -244,  -249,    12,   255,
  -243,  -248,    13,   255,  -242,  -247,    14,   255,
  -241,  -246,    15,   255,  -240,  -245,    16,   255,
  -239,  -508,    17,   255,  -238,  -507,    18,   255,
  -237,  -506,    19,   255,  -236,  -505,    20,   255,
  -235,  -504,    21,   255,  -234,  -503,    22,   255,
  -233,  -502,    23,   255,  -232,  -501,    24,   255,
  -231,  -764,    25,   255,  -230,  -763,    26,   255,
  -229,  -762,    27,   255,  -228,  -761,    28,   255,
  -227,  -760,    29,   255,  -226,  -759,    30,   255,
  -225,  -758,    31,   255,  -224,  -757,    32,   255,
  -223, -1020,    33,   255,  -222, -1019,    34,   255,
  -221, -1018,    35,   255,  -220, -1017,    36,   255,
  -219, -1016,    37,   255,  -218, -1015,    38,   255,
  -217, -1014,    39,   255,  -216, -1013,    40,   255,
  -215, -1276,    41,   255,  -214, -1275,    42,   255,
  -213, -1274,    43,   255,  -212, -1273,    44,   255,
  -211, -1272,    45,   255,  -210, -1271,    46,   255,
  -209, -1270,    47,   255,  -208, -1269,    48,   255,
  -207, -1532,    49,   255,  -206, -1531,    50,   255,
  -205, -1530,    51,   255,  -204, -1529,    52,   255,
  -203, -1528,    53,   255,  -202, -1527,    54,   255,
  -201, -1526,    55,   255,  -200, -1525,    56,   255,
  -199, -1788,    57,   255,  -198, -1787,    58,   255,
  -197, -1786,    59,   255,  -196, -1785,    60,   255,
   255, -1784,    61,   255,   255, -1783,    62,   255,
   255, -1782,    63,   255,   255, -1781,    64,   255]

/-- `kLengthMinusOffset[tag] & 0xFF`. -/
def copyLength (tag : Nat) : Nat := (kLengthMinusOffset.getD tag 0 % 256).toNat

/-- `snappy_masks_offset0` (snappy.c:241-258). -/
def snappyMasksOffset0 : List (List Nat) := [
  [0,0,0,0,0,0,0,0,0,0,0,0,0,0,0,0],
  [0,0,0,0,0,0,0,0,0,0,0,0,0,0,0,0],
  [0,1,0,1,0,1,0,1,0,1,0,1,0,1,0,1],
  [0,1,2,0,1,2,0,1,2,0,1,2,0,1,2,0],
  [0,1,2,3,0,1,2,3,0,1,2,3,0,1,2,3],
  [0,1,2,3,4,0,1,2,3,4,0,1,2,3,4,0],
  [0,1,2,3,4,5,0,1,2,3,4,5,0,1,2,3],
  [0,1,2,3,4,5,6,0,1,2,3,4,5,6,0,1],
  [0,1,2,3,4,5,6,7,0,1,2,3,4,5,6,7],
  [0,1,2,3,4,5,6,7,8,0,1,2,3,4,5,6],
  [0,1,2,3,4,5,6,7,8,9,0,1,2,3,4,5],
  [0,1,2,3,4,5,6,7,8,9,10,0,1,2,3,4],
  [0,1,2,3,4,5,6,7,8,9,10,11,0,1,2,3],
  [0,1,2,3,4,5,6,7,8,9,10,11,12,0,1,2],
  [0,1,2,3,4,5,6,7,8,9,10,11,12,13,0,1],
  [0,1,2,3,4,5,6,7,8,9,10,11,12,13,14,0]]

/-- `snappy_masks_offset16` (snappy.c:261-278). -/
def snappyMasksOffset16 : List (List Nat) := [
  [0,0,0,0,0,0,0,0,0,0,0,0,0,0,0,0],
  [0,0,0,0,0,0,0,0,0,0,0,0,0,0,0,0],
  [0,1,0,1,0,1,0,1,0,1,0,1,0,1,0,1],
  [1,2,0,1,2,0,1,2,0,1,2,0,1,2,0,1],
  [0,1,2,3,0,1,2,3,0,1,2,3,0,1,2,3],
  [1,2,3,4,0,1,2,3,4,0,1,2,3,4,0,1],
  [4,5,0,1,2,3,4,5,0,1,2,3,4,5,0,1],
  [2,3,4,5,6,0,1,2,3,4,5,6,0,1,2,3],
  [0,1,2,3,4,5,6,7,0,1,2,3,4,5,6,7],
  [7,8,0,1,2,3,4,5,6,7,8,0,1,2,3,4],
  [6,7,8,9,0,1,2,3,4,5,6,7,8,9,0,1],
  [5,6,7,8,9,10,0,1,2,3,4,5,6,7,8,9],
  [4,5,6,7,8,9,10,11,0,1,2,3,4,5,6,7],
  [3,4,5,6,7,8,9,10,11,12,0,1,2,3,4,5],
  [2,3,4,5,6,7,8,9,10,11,12,13,0,1,2,3],
  [1,2,3,4,5,6,7,8,9,10,11,12,13,14,0,1]]

/-- The output buffer. -/
abbrev Memory := Nat → UInt8

/-- `_mm_shuffle_epi8`, `vqtbl1q_u8` or `wasm_i8x16_swizzle` with a mask of indices below 16. -/
def shuffle (pattern : Bytes) (mask : List Nat) : Bytes := mask.map fun i => pattern.getD i 0

/-- `incremental_copy_slow` (snappy.c:325-329), the bytes that are left counted down. -/
def incrementalCopySlow : Nat → Nat → Nat → Memory → Memory
  | 0, _, _, m => m
  | n + 1, src, op, m => incrementalCopySlow n (src + 1) (op + 1) (copyBlock 1 src op m)

/-- The four conditional blocks of 16 bytes (snappy.c:421-424, 550-553), `length` bytes wanted. -/
def copyBlocks16 (src op length : Nat) (m : Memory) : Memory :=
  let m := copyBlock 16 src op m
  let m := if 16 < length then copyBlock 16 (src + 16) (op + 16) m else m
  let m := if 32 < length then copyBlock 16 (src + 32) (op + 32) m else m
  if 48 < length then copyBlock 16 (src + 48) (op + 48) m else m

/-- The blocks near the end of the buffer (snappy.c:429-436), and where they end. -/
def copyBlocksToEnd (bufLimit : Nat) : Nat → Nat → Nat → Memory → Nat × Nat × Memory
  | 0, src, op, m => (src, op, m)
  | fuel + 1, src, op, m =>
    if op + 16 < bufLimit then
      copyBlocksToEnd bufLimit fuel (src + 16) (op + 16) (copyBlock 16 src op m)
    else (src, op, m)

/-- The copy of a pattern of at least `big_pattern` bytes (snappy.c:419-446). -/
def incrementalCopyBig (src op opLimit bufLimit : Nat) (m : Memory) : Memory :=
  if opLimit + 15 ≤ bufLimit then copyBlocks16 src op (opLimit - op) m
  else
    let (src, op, m) := copyBlocksToEnd bufLimit bufLimit src op m
    if opLimit ≤ op then m
    else if op + 8 ≤ bufLimit then
      incrementalCopySlow (opLimit - (op + 8)) (src + 8) (op + 8) (copyBlock 8 src op m)
    else incrementalCopySlow (opLimit - op) src op m

/-- The copy of a short pattern with shuffles (snappy.c:344-391). -/
def incrementalCopyPattern (src op opLimit : Nat) (m : Memory) : Memory :=
  let patternSize := op - src
  let reshuffle := snappyMasksOffset16.getD patternSize []
  let pattern := shuffle ((List.range 16).map fun i => m (src + i))
    (snappyMasksOffset0.getD patternSize [])
  let m := writeBytes pattern op m
  let pattern := if op + 16 < opLimit then shuffle pattern reshuffle else pattern
  let m := if op + 16 < opLimit then writeBytes pattern (op + 16) m else m
  let pattern := if op + 32 < opLimit then shuffle pattern reshuffle else pattern
  let m := if op + 32 < opLimit then writeBytes pattern (op + 32) m else m
  let pattern := if op + 48 < opLimit then shuffle pattern reshuffle else pattern
  if op + 48 < opLimit then writeBytes pattern (op + 48) m else m

/-- `while (pattern_size < 8) { .. }` (snappy.c:396-400). -/
def doublePattern (src : Nat) : Nat → Nat → Nat → Memory → Nat × Nat × Memory
  | 0, op, patternSize, m => (op, patternSize, m)
  | fuel + 1, op, patternSize, m =>
    if patternSize < 8 then
      doublePattern src fuel (op + patternSize) (patternSize * 2) (copyBlock 8 src op m)
    else (op, patternSize, m)

/-- The blocks of 8 bytes (snappy.c:406-410). -/
def copyBlocks8 (opLimit bufLimit : Nat) : Nat → Nat → Nat → Memory → Nat × Nat × Memory
  | 0, src, op, m => (src, op, m)
  | fuel + 1, src, op, m =>
    if op + 8 ≤ opLimit ∧ op + 8 ≤ bufLimit then
      copyBlocks8 opLimit bufLimit fuel (src + 8) (op + 8) (copyBlock 8 src op m)
    else (src, op, m)

/-- The copy of a short pattern without shuffles (snappy.c:394-415). -/
def incrementalCopyDoubling (src op opLimit bufLimit : Nat) (m : Memory) : Memory :=
  if op + 11 ≤ bufLimit then
    let (op, patternSize, m) := doublePattern src 8 op (op - src) m
    if opLimit ≤ op then m
    else
      let (src, op, m) := copyBlocks8 opLimit bufLimit opLimit (op - patternSize) op m
      if opLimit ≤ op then m else incrementalCopySlow (opLimit - op) src op m
  else incrementalCopySlow (opLimit - op) src op m

/-- `incremental_copy` (snappy.c:331-447). -/
def incrementalCopy (vectorShuffle : Bool) (src op opLimit bufLimit : Nat) (m : Memory) : Memory :=
  if vectorShuffle then
    if op - src < 16 then
      if opLimit + 15 ≤ bufLimit then incrementalCopyPattern src op opLimit m
      else incrementalCopySlow (opLimit - op) src op m
    else incrementalCopyBig src op opLimit bufLimit m
  else if op - src < 8 then incrementalCopyDoubling src op opLimit bufLimit m
  else incrementalCopyBig src op opLimit bufLimit m

/-- The copy of an element with a one-byte or two-byte offset (snappy.c:545-566). -/
def copyMatch (vectorShuffle : Bool) (offset length op opEnd : Nat) (m : Memory) : Memory :=
  let opLimitMinSlop := if 64 ≤ opEnd then opEnd - 63 else 0
  if 16 ≤ offset ∧ op + length ≤ opLimitMinSlop then copyBlocks16 (op - offset) op length m
  else if length ≤ 64 ∧ op + length ≤ opLimitMinSlop ∧ length ≤ offset then
    copyBlock 64 (op - offset) op m
  else incrementalCopy vectorShuffle (op - offset) op (op + length) opEnd m

/-- The state of the decoder: the input behind `ip`, `op`, and the output buffer. -/
structure SnappyState where
  rest : Bytes
  op : Nat
  memory : Memory

/-- A literal (snappy.c:497-528), the length's first form in `tag`. -/
def decodeLiteral (opEnd : Nat) (tag : Nat) (s : SnappyState) : Except Status SnappyState :=
  let short := tag / 4 + 1
  let extraBytes := short - 60
  if 61 ≤ short ∧ s.rest.length < extraBytes then .error .invalidCompressedData
  else
    let literalLen := if 61 ≤ short then (leNat (s.rest.take extraBytes) + 1) % 4294967296 else short
    let ip := if 61 ≤ short then s.rest.drop extraBytes else s.rest
    if literalLen ≤ 16 ∧ 16 ≤ ip.length ∧ s.op + 16 ≤ opEnd then
      .ok ⟨ip.drop literalLen, s.op + literalLen, writeBytes (ip.take 16) s.op s.memory⟩
    else if ip.length < literalLen ∨ opEnd < s.op + literalLen then .error .invalidCompressedData
    else .ok ⟨ip.drop literalLen, s.op + literalLen,
      writeBytes (ip.take literalLen) s.op s.memory⟩

/-- The checks of a copy, and the copy (snappy.c:537-567, 575-583). -/
def decodeCopy (opEnd : Nat) (offset length : Nat) (copy : Memory → Memory) (rest : Bytes)
    (s : SnappyState) : Except Status SnappyState :=
  if offset = 0 ∨ s.op < offset then .error .invalidCompressedData
  else if opEnd < s.op + length then .error .invalidCompressedData
  else .ok ⟨rest, s.op + length, copy s.memory⟩

/-- One element (snappy.c:493-584). -/
def decodeElement (vectorShuffle : Bool) (opEnd : Nat) (tag : Nat) (s : SnappyState) :
    Except Status SnappyState :=
  if tag % 4 = 0 then decodeLiteral opEnd tag s
  else if tag % 4 = 1 then
    match s.rest with
    | b :: rest =>
      let offset := tag / 32 * 256 + b.toNat
      decodeCopy opEnd offset (copyLength tag)
        (copyMatch vectorShuffle offset (copyLength tag) s.op opEnd) rest s
    | [] => .error .invalidCompressedData
  else if tag % 4 = 2 then
    match s.rest with
    | b₀ :: b₁ :: rest =>
      let offset := b₀.toNat + b₁.toNat * 256
      decodeCopy opEnd offset (copyLength tag)
        (copyMatch vectorShuffle offset (copyLength tag) s.op opEnd) rest s
    | _ => .error .invalidCompressedData
  else if s.rest.length < 4 then .error .invalidCompressedData
  else
    let length := tag / 4 % 64 + 1
    let offset := leNat (s.rest.take 4)
    decodeCopy opEnd offset length
      (incrementalCopy vectorShuffle (s.op - offset) s.op (s.op + length) opEnd) (s.rest.drop 4) s

/-- The loop over the elements (snappy.c:492-585). -/
def decodeElements (vectorShuffle : Bool) (opEnd : Nat) : Nat → SnappyState → Except Status SnappyState
  | 0, s => .ok s
  | fuel + 1, s =>
    match s.rest with
    | [] => .ok s
    | tag :: rest =>
      if s.op < opEnd then
        decodeElement vectorShuffle opEnd tag.toNat { s with rest := rest } >>=
          decodeElements vectorShuffle opEnd fuel
      else .ok s

/-- `carquet_snappy_decompress` (snappy.c:456-595): the size and the output buffer. Each element
takes a byte, so as many turns as bytes are enough. -/
def snappyDecompress (vectorShuffle : Bool) (src : Bytes) (dst : Memory) (dstCapacity : Nat) :
    Except Status (Nat × Memory) :=
  if src = [] then .ok (0, dst)
  else
    match snappyReadVarint 4 0 0 src with
    | none => .error .invalidCompressedData
    | some (uncompressedLen, rest) =>
      if dstCapacity < uncompressedLen then .error .invalidCompressedData
      else do
        let s ← decodeElements vectorShuffle uncompressedLen src.length ⟨rest, 0, dst⟩
        if s.op ≠ uncompressedLen ∨ s.rest ≠ [] then .error .invalidCompressedData
        else .ok (uncompressedLen, s.memory)

end Carquet
