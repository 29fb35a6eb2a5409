import Carquet.Compression.SnappyBounds
import Carquet.Compression.SnappyRoundTrip

/-!
# Snappy: what the compressor stores

`snappyCompress` says what the compressor appends. Here it is once more with the stores it makes
for that (snappy.c:622-843): four bytes where two are kept, sixteen for the first literal. A store
that reaches past `limit` has no result, as in the decompressor's copies.

`snappyCompressIn_eq`: with `limit` at `carquet_snappy_compress_bound` every store has one, and
what is left in the destination is what was to be appended. A store reaches at most fifteen bytes
past what it is for (`Emits`), and the output keeps clear of the bound by more than that.
-/

namespace Carquet

open LittleEndian BackReference

/-! ## The compressor with its stores -/

/-- `op` and the destination. -/
abbrev Output := Nat × Memory

/-- `op` moves on by `n` over what was stored. -/
def storeAnd (limit : Nat) (bytes : Bytes) (n : Nat) (o : Output) : Option Output :=
  (storeIn limit bytes o.1 o.2).map fun m => (o.1 + n, m)

/-- `snappy_emit_literal` (snappy.c:622-636). -/
def snappyEmitLiteralIn (limit : Nat) (literal : Bytes) (o : Output) : Option Output :=
  let n := literal.length - 1
  if n < 60 then do
    let o ← storeAnd limit [UInt8.ofNat (n * 4)] 1 o
    storeAnd limit literal literal.length o
  else do
    let count := n.log2 / 8 + 1
    let o ← storeAnd limit [UInt8.ofNat ((59 + count) * 4)] 1 o
    let o ← storeAnd limit (leBytes 4 n) count o
    storeAnd limit literal literal.length o

/-- The last element of `snappy_emit_copy` (snappy.c:655-670). -/
def snappyCopyTailIn (limit offset len : Nat) (o : Output) : Option Output :=
  if len < 12 ∧ offset < 2048 then
    storeAnd limit (leBytes 4 (len * 4 + offset * 256 + (offset / 8 &&& 224) - 15)) 2 o
  else if len < 12 then storeAnd limit (leBytes 4 (2 + (len - 1) * 4 + offset * 256)) 3 o
  else storeAnd limit (snappyCopy2 offset len) 3 o

/-- `snappy_emit_copy` (snappy.c:638-673). -/
def snappyEmitCopyIn (limit offset : Nat) (len : Nat) (o : Output) : Option Output :=
  if 68 ≤ len then
    (storeAnd limit (snappyCopy2 offset 64) 3 o).bind (snappyEmitCopyIn limit offset (len - 64))
  else if 64 < len then
    (storeAnd limit (snappyCopy2 offset 60) 3 o).bind (snappyCopyTailIn limit offset (len - 60))
  else snappyCopyTailIn limit offset len o
termination_by len

/-- `emit_remainder` (snappy.c:795-798). -/
def snappyRemainderIn (limit : Nat) (src : Bytes) (anchor : Nat) (o : Output) : Option Output :=
  if anchor < src.length then snappyEmitLiteralIn limit (src.drop anchor) o else some o

/-- What follows `emit_match` (snappy.c:750-798). -/
def snappyEmitMatchIn (limit : Nat) (src : Bytes) (ilimit : Nat) :
    Nat → Nat → Nat → HashTable → Output → Option Output
  | 0, _, _, _, o => some o
  | fuel + 1, ip, candidate, table, o =>
    let matchLen := 4 + fastMatchLength src src.length src.length (ip + 4) (candidate + 4)
    let offset := ip - candidate
    let ip := ip + matchLen
    (snappyEmitCopyIn limit offset matchLen o).bind fun o =>
      if ilimit ≤ ip then snappyRemainderIn limit src ip o
      else
        let table := table.set (snappyHash (load32 src (ip - 1))) (ip - 1)
        let h := snappyHash (load32 src ip)
        let candidate := table h
        let table := table.set h ip
        if load32 src ip = load32 src candidate ∧ ip - candidate ≤ 65535 then
          snappyEmitMatchIn limit src ilimit fuel ip candidate table o
        else
          match snappySearch src ilimit src.length (ip + 1) 32 table with
          | (none, _) => snappyRemainderIn limit src ip o
          | (some (next, candidate), table) =>
            (snappyEmitLiteralIn limit ((src.drop ip).take (next - ip)) o).bind
              (snappyEmitMatchIn limit src ilimit fuel next candidate table)

/-- The first literal when the match is among the first sixteen positions (snappy.c:710-713): the
tag, and sixteen bytes whatever its length. -/
def snappyStartLiteralIn (limit : Nat) (src : Bytes) (ip : Nat) (o : Output) : Option Output := do
  let o ← storeAnd limit [UInt8.ofNat ((ip - 1) * 4)] 1 o
  storeAnd limit (src.take 16) ip o

/-- `snappy_compress_block` (snappy.c:675-799). -/
def snappyCompressBlockIn (limit : Nat) (src : Bytes) (o : Output) : Option Output :=
  if src.length = 0 then some o
  else if src.length < 15 then snappyEmitLiteralIn limit src o
  else
    let ilimit := src.length - 15
    let table := HashTable.set (fun _ => 0) (snappyHash (load32 src 0)) 0
    let start := if 17 ≤ ilimit then snappyStart src 16 1 table else (none, table)
    match start with
    | (some (ip, candidate), table) =>
      (snappyStartLiteralIn limit src ip o).bind
        (snappyEmitMatchIn limit src ilimit src.length ip candidate table)
    | (none, table) =>
      match snappySearch src ilimit src.length (if 17 ≤ ilimit then 17 else 1) 32 table with
      | (none, _) => snappyRemainderIn limit src 0 o
      | (some (ip, candidate), table) =>
        (snappyEmitLiteralIn limit (src.take ip) o).bind
          (snappyEmitMatchIn limit src ilimit src.length ip candidate table)

/-- The blocks of `carquet_snappy_compress` (snappy.c:829-837). -/
def snappyCompressBlocksIn (limit : Nat) (src : Bytes) (o : Output) : Option Output :=
  if src = [] then some o
  else (snappyCompressBlockIn limit (src.take 65536) o).bind
    (snappyCompressBlocksIn limit (src.drop 65536))
termination_by src.length
decreasing_by
  rename_i h
  rw [List.length_drop]
  have := List.length_pos_of_ne_nil h
  omega

/-- `carquet_snappy_compress` (snappy.c:801-843): no store may reach past the bound. -/
def snappyCompressIn (src : Bytes) (dst : Memory) (dstCapacity : Nat) :
    Option (Except Status Output) :=
  if dstCapacity < snappyCompressBound src.length then some (.error .compression)
  else
    let limit := snappyCompressBound src.length
    let varint := snappyWriteVarint (src.length % 4294967296)
    ((storeAnd limit varint varint.length (0, dst)).bind (snappyCompressBlocksIn limit src)).map
      Except.ok

/-! ## Emitting -/

/-- From `o` on, this stream was emitted: `op` is behind it, and what was before it is still
there. -/
def Emits (o : Output) (stream : Bytes) (result : Option Output) : Prop :=
  ∃ m, result = some (o.1 + stream.length, m) ∧
    cells m (o.1 + stream.length) = cells o.2 o.1 ++ stream

theorem Emits.nil (o : Output) : Emits o [] (some o) := ⟨o.2, rfl, by simp⟩

theorem Emits.bind {o : Output} {stream stream' : Bytes} {result : Option Output}
    {next : Output → Option Output} (h : Emits o stream result)
    (hnext : ∀ m, Emits (o.1 + stream.length, m) stream' (next (o.1 + stream.length, m))) :
    Emits o (stream ++ stream') (result.bind next) := by
  obtain ⟨m, rfl, hcells⟩ := h
  obtain ⟨m', hresult, hcells'⟩ := hnext m
  refine ⟨m', ?_, ?_⟩
  · rw [Option.bind_some, hresult, List.length_append, Nat.add_assoc]
  · rw [List.length_append, ← Nat.add_assoc, hcells', hcells, List.append_assoc]

/-- A store of which the first bytes are meant. -/
theorem emits_store {limit n : Nat} {bytes stream : Bytes} {o : Output}
    (hstream : bytes.take n = stream) (hn : n ≤ bytes.length)
    (hroom : o.1 + bytes.length ≤ limit) : Emits o stream (storeAnd limit bytes n o) := by
  have hlen : stream.length = n := by rw [← hstream, List.length_take, Nat.min_eq_left hn]
  refine ⟨writeBytes bytes o.1 o.2, ?_, ?_⟩
  · rw [storeAnd, storeIn_eq o.2 hroom, hlen]
    rfl
  · rw [hlen, cells_writeBytes hn, hstream]

theorem emits_whole {limit : Nat} (stream : Bytes) {o : Output}
    (hroom : o.1 + stream.length ≤ limit) :
    Emits o stream (storeAnd limit stream stream.length o) :=
  emits_store (List.take_length) (Nat.le_refl _) hroom

theorem take_leBytes {k n : Nat} (h : k ≤ n) (v : Nat) : (leBytes n v).take k = leBytes k v := by
  induction k generalizing n v with
  | zero => rfl
  | succ k ih =>
    obtain ⟨n, rfl⟩ : ∃ n', n = n' + 1 := ⟨n - 1, by omega⟩
    rw [leBytes, List.take_succ_cons, ih (by omega), leBytes]

/-! ## Elements -/

theorem emits_literal {limit : Nat} {literal : Bytes} {o : Output} (hlen : literal.length ≤ 65536)
    (hroom : o.1 + (snappyEmitLiteral literal).length ≤ limit) :
    Emits o (snappyEmitLiteral literal) (snappyEmitLiteralIn limit literal o) := by
  unfold snappyEmitLiteral snappyEmitLiteralIn at *
  dsimp only at hroom ⊢
  by_cases hshort : literal.length - 1 < 60
  · rw [if_pos hshort, List.length_cons] at hroom
    rw [if_pos hshort, if_pos hshort]
    refine (emits_whole [_] (by rw [List.length_singleton]; omega)).bind fun m => ?_
    exact emits_whole literal (by rw [List.length_singleton]; dsimp only; omega)
  · have hcount := literal_count_le (n := literal.length - 1) (by omega)
    rw [if_neg hshort, List.length_cons, List.length_append, length_leBytes] at hroom
    rw [if_neg hshort, if_neg hshort]
    refine (emits_whole [_] (by rw [List.length_singleton]; omega)).bind fun m => ?_
    refine Emits.bind (emits_store (take_leBytes (by omega) _) ?_ ?_) fun m => emits_whole _ ?_
    · rw [length_leBytes]
      omega
    · rw [length_leBytes, List.length_singleton]
      dsimp only
      omega
    · rw [length_leBytes, List.length_singleton]
      dsimp only
      omega

theorem offset_high_bits : ∀ offset < 2048, offset / 8 &&& 224 = offset / 256 * 32 := by
  decide +kernel

theorem emits_copyTail {limit offset len : Nat} {o : Output} (hmin : 4 ≤ len)
    (hroom : o.1 + (snappyCopyTail offset len).length + 2 ≤ limit) :
    Emits o (snappyCopyTail offset len) (snappyCopyTailIn limit offset len o) := by
  unfold snappyCopyTail snappyCopyTailIn at *
  by_cases hnear : len < 12 ∧ offset < 2048
  · rw [if_pos hnear] at hroom
    rw [if_pos hnear, if_pos hnear, offset_high_bits offset hnear.2]
    refine emits_store ?_ (by simp) (by simpa using hroom)
    have hlow : (len * 4 + offset * 256 + offset / 256 * 32 - 15) % 256 =
        (len - 4) * 4 + 1 + offset / 256 * 32 := by omega
    have hhigh : (len * 4 + offset * 256 + offset / 256 * 32 - 15) / 256 % 256 = offset % 256 := by
      omega
    simp [leBytes, hlow, hhigh]
  · rw [if_neg hnear] at hroom
    rw [if_neg hnear, if_neg hnear]
    have hthree : (snappyCopy2 offset len).length = 3 := rfl
    by_cases hshort : len < 12
    · rw [if_pos hshort]
      refine emits_store ?_ (by simp) (by rw [length_leBytes]; omega)
      have hlow : (2 + (len - 1) * 4 + offset * 256) % 256 = (len - 1) * 4 + 2 := by omega
      have hmid : (2 + (len - 1) * 4 + offset * 256) / 256 % 256 = offset % 256 := by omega
      have hhigh : (2 + (len - 1) * 4 + offset * 256) / 256 / 256 = offset / 256 := by omega
      have hbyte : UInt8.ofNat (offset / 256 % 256) = UInt8.ofNat (offset / 256) :=
        UInt8.toNat_inj.mp (by simp)
      simp only [leBytes, hlow, hmid, hhigh, hbyte, snappyCopy2, List.take_succ_cons,
        List.take_zero]
    · rw [if_neg hshort]
      exact emits_whole _ (by omega)

theorem emits_copy {limit offset len : Nat} {o : Output} (hmin : 4 ≤ len)
    (hroom : o.1 + (snappyEmitCopy offset len).length + 2 ≤ limit) :
    Emits o (snappyEmitCopy offset len) (snappyEmitCopyIn limit offset len o) := by
  rw [snappyEmitCopy] at hroom ⊢
  rw [snappyEmitCopyIn]
  by_cases hlong : 68 ≤ len
  · rw [if_pos hlong, List.length_append] at hroom
    rw [if_pos hlong, if_pos hlong]
    refine (emits_whole _ (by omega)).bind fun m => emits_copy (by omega) ?_
    dsimp only
    omega
  · rw [if_neg hlong] at hroom
    rw [if_neg hlong, if_neg hlong]
    by_cases hmiddle : 64 < len
    · rw [if_pos hmiddle, List.length_append] at hroom
      rw [if_pos hmiddle, if_pos hmiddle]
      refine (emits_whole _ (by omega)).bind fun m => emits_copyTail (by omega) ?_
      dsimp only
      omega
    · rw [if_neg hmiddle] at hroom
      rw [if_neg hmiddle, if_neg hmiddle]
      exact emits_copyTail hmin hroom
termination_by len

theorem emits_remainder {limit anchor : Nat} {src : Bytes} {o : Output} (hlen : src.length ≤ 65536)
    (hroom : o.1 + (snappyRemainder src anchor).length ≤ limit) :
    Emits o (snappyRemainder src anchor) (snappyRemainderIn limit src anchor o) := by
  unfold snappyRemainder snappyRemainderIn at *
  by_cases hleft : anchor < src.length
  · rw [if_pos hleft] at hroom
    rw [if_pos hleft, if_pos hleft]
    exact emits_literal (by rw [List.length_drop]; omega) hroom
  · rw [if_neg hleft, if_neg hleft]
    exact Emits.nil o

theorem emits_match {limit ilimit fuel ip candidate : Nat} {src : Bytes} {table : HashTable}
    {o : Output} (hlen : src.length ≤ 65536)
    (hroom : o.1 + (snappyEmitMatch src ilimit fuel ip candidate table).length + 2 ≤ limit) :
    Emits o (snappyEmitMatch src ilimit fuel ip candidate table)
      (snappyEmitMatchIn limit src ilimit fuel ip candidate table o) := by
  induction fuel generalizing ip candidate table o with
  | zero => exact Emits.nil o
  | succ fuel ih =>
    rw [snappyEmitMatch] at hroom ⊢
    rw [snappyEmitMatchIn]
    have hmin : 4 ≤ 4 + fastMatchLength src src.length src.length (ip + 4) (candidate + 4) := by omega
    generalize 4 + fastMatchLength src src.length src.length (ip + 4) (candidate + 4) = matchLen
      at hroom hmin ⊢
    dsimp only at hroom ⊢
    by_cases hend : ilimit ≤ ip + matchLen
    · rw [if_pos hend, List.length_append] at hroom
      simp only [if_pos hend]
      exact (emits_copy hmin (by omega)).bind fun m =>
        emits_remainder hlen (by dsimp only; omega)
    · rw [if_neg hend] at hroom
      simp only [if_neg hend]
      generalize (table.set (snappyHash (load32 src (ip + matchLen - 1))) (ip + matchLen - 1)) =
        table' at hroom ⊢
      by_cases hagain : load32 src (ip + matchLen) =
          load32 src (table' (snappyHash (load32 src (ip + matchLen)))) ∧
            ip + matchLen - table' (snappyHash (load32 src (ip + matchLen))) ≤ 65535
      · rw [if_pos hagain, List.length_append] at hroom
        simp only [if_pos hagain]
        exact (emits_copy hmin (by omega)).bind fun m => ih (by dsimp only; omega)
      · rw [if_neg hagain] at hroom
        simp only [if_neg hagain]
        generalize snappySearch src ilimit src.length (ip + matchLen + 1) 32
          (table'.set (snappyHash (load32 src (ip + matchLen))) (ip + matchLen)) = found
            at hroom ⊢
        rcases found with ⟨_ | ⟨next, candidate'⟩, table''⟩
        · dsimp only at hroom ⊢
          rw [List.length_append] at hroom
          exact (emits_copy hmin (by omega)).bind fun m =>
            emits_remainder hlen (by dsimp only; omega)
        · dsimp only at hroom ⊢
          rw [List.length_append, List.length_append] at hroom
          refine (emits_copy hmin (by omega)).bind fun m => (emits_literal ?_ ?_).bind fun m => ih ?_
          · rw [List.length_take, List.length_drop]
            omega
          · dsimp only
            omega
          · dsimp only
            omega

/-- Sixteen bytes are stored for a first literal of at most sixteen. -/
theorem emits_startLiteral {limit ip : Nat} {src : Bytes} {o : Output} (hip : 1 ≤ ip)
    (hshort : ip ≤ 16) (hlen : 16 ≤ src.length)
    (hroom : o.1 + (snappyEmitLiteral (src.take ip)).length + 15 ≤ limit) :
    Emits o (snappyEmitLiteral (src.take ip)) (snappyStartLiteralIn limit src ip o) := by
  have htake : (src.take ip).length = ip := by
    rw [List.length_take]
    omega
  have hform : snappyEmitLiteral (src.take ip) =
      [UInt8.ofNat ((ip - 1) * 4)] ++ src.take ip := by
    unfold snappyEmitLiteral
    rw [htake]
    exact if_pos (by omega)
  rw [hform, List.length_append, List.length_singleton, htake] at hroom
  rw [hform]
  refine (emits_whole _ (by rw [List.length_singleton]; omega)).bind fun m => emits_store ?_ ?_ ?_
  · rw [List.take_take, Nat.min_eq_left hshort]
  · rw [List.length_take]
    omega
  · rw [List.length_take, List.length_singleton]
    dsimp only
    omega

/-! ## Blocks -/

theorem snappyStart_range {src : Bytes} {fuel ip position candidate : Nat} {table table' : HashTable}
    (h : snappyStart src fuel ip table = (some (position, candidate), table')) :
    ip ≤ position ∧ position < ip + fuel := by
  induction fuel generalizing ip table with
  | zero => simp [snappyStart] at h
  | succ fuel ih =>
    rw [snappyStart] at h
    split at h
    · simp only [Prod.mk.injEq, Option.some.injEq] at h
      omega
    · have := ih h
      omega

theorem emits_block {limit : Nat} {src : Bytes} {o : Output} (hlen : src.length ≤ 65536)
    (hroom : o.1 + (snappyCompressBlock src).length + 15 ≤ limit) :
    Emits o (snappyCompressBlock src) (snappyCompressBlockIn limit src o) := by
  unfold snappyCompressBlock snappyCompressBlockIn at *
  by_cases hempty : src.length = 0
  · rw [if_pos hempty, if_pos hempty]
    exact Emits.nil o
  · rw [if_neg hempty] at hroom
    rw [if_neg hempty, if_neg hempty]
    by_cases hshort : src.length < 15
    · rw [if_pos hshort] at hroom
      rw [if_pos hshort, if_pos hshort]
      exact emits_literal hlen (by omega)
    · rw [if_neg hshort] at hroom
      rw [if_neg hshort, if_neg hshort]
      dsimp only at hroom ⊢
      generalize HashTable.set (fun _ => 0) (snappyHash (load32 src 0)) 0 = table₀ at hroom ⊢
      obtain ⟨start, hstart⟩ : ∃ start, (if 17 ≤ src.length - 15 then snappyStart src 16 1 table₀
          else (none, table₀)) = start := ⟨_, rfl⟩
      rw [hstart] at hroom ⊢
      obtain ⟨found, table⟩ := start
      cases found with
      | some position =>
        obtain ⟨ip, candidate⟩ := position
        split at hstart
        · obtain ⟨hlow, hhigh⟩ := snappyStart_range hstart
          dsimp only at hroom ⊢
          rw [List.length_append] at hroom
          exact (emits_startLiteral hlow (by omega) (by omega) (by omega)).bind fun m =>
            emits_match hlen (by dsimp only; omega)
        · cases hstart
      | none =>
        dsimp only at hroom ⊢
        generalize snappySearch src (src.length - 15) src.length
          (if 17 ≤ src.length - 15 then 17 else 1) 32 table = found at hroom ⊢
        rcases found with ⟨_ | ⟨ip, candidate⟩, table'⟩
        · exact emits_remainder hlen (by dsimp only at hroom; omega)
        · dsimp only at hroom ⊢
          rw [List.length_append] at hroom
          refine (emits_literal ?_ (by omega)).bind fun m => emits_match hlen (by dsimp only; omega)
          rw [List.length_take]
          omega

theorem emits_blocks {limit : Nat} (src : Bytes) {o : Output}
    (hroom : o.1 + (snappyCompressBlocks src).length + 15 ≤ limit) :
    Emits o (snappyCompressBlocks src) (snappyCompressBlocksIn limit src o) := by
  rw [snappyCompressBlocks] at hroom ⊢
  rw [snappyCompressBlocksIn]
  by_cases hempty : src = []
  · rw [if_pos hempty, if_pos hempty]
    exact Emits.nil o
  · have hpos := List.length_pos_of_ne_nil hempty
    rw [if_neg hempty, List.length_append] at hroom
    rw [if_neg hempty, if_neg hempty]
    have hblock : (src.take 65536).length ≤ 65536 := by
      rw [List.length_take]
      omega
    exact (emits_block hblock (by omega)).bind fun m =>
      emits_blocks (src.drop 65536) (by dsimp only; omega)
termination_by src.length
decreasing_by
  rw [List.length_drop]
  omega

/-- The output with the fifteen bytes that may be stored behind it. -/
theorem length_snappyCompress_slack (src : Bytes) :
    (snappyWriteVarint (src.length % 4294967296)).length + (snappyCompressBlocks src).length + 15 ≤
      snappyCompressBound src.length := by
  have hvarint := length_snappyWriteVarint_le 4
    (show src.length % 4294967296 < 2 ^ (7 * (4 + 1)) by omega)
  have hblocks := (snappyCompressBlocks_spec [] src).2
  unfold snappyCompressBound
  omega

/-- **Every store of the compressor ends within `carquet_snappy_compress_bound` bytes** of the start
of the destination, for every input, and the stores leave there what the compressor returns. -/
theorem snappyCompressIn_eq (src : Bytes) (dst : Memory) (dstCapacity : Nat) :
    match snappyCompress src dstCapacity with
    | .error status => snappyCompressIn src dst dstCapacity = some (.error status)
    | .ok out => ∃ m, snappyCompressIn src dst dstCapacity = some (.ok (out.length, m)) ∧
        cells m out.length = out ∧ out.length ≤ snappyCompressBound src.length := by
  unfold snappyCompress snappyCompressIn
  by_cases hcapacity : dstCapacity < snappyCompressBound src.length
  · rw [if_pos hcapacity, if_pos hcapacity]
  · have hslack := length_snappyCompress_slack src
    rw [if_neg hcapacity, if_neg hcapacity]
    have hvarint := @emits_whole (snappyCompressBound src.length)
      (snappyWriteVarint (src.length % 4294967296)) (0, dst) (by dsimp only; omega)
    obtain ⟨m, hresult, hcells⟩ := hvarint.bind fun m =>
      @emits_blocks (snappyCompressBound src.length) src _ (by dsimp only; omega)
    simp only [Nat.zero_add] at hresult hcells
    refine ⟨m, ?_, hcells, by rw [List.length_append]; omega⟩
    dsimp only
    rw [hresult]
    rfl

end Carquet
