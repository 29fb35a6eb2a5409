import Carquet.Compression.SnappyFormat

/-!
# The accesses of the Snappy decoder

The decoder of snappy.c:325-595 once more, with every load and store checked: an access outside the
input, or outside the `capacity` bytes of the destination, is `none`. The fast paths store up to 63
bytes more than they are asked for; `snappyDecompressIn_eq` is that no access is ever outside, for any
input, valid or not, and that the checks are all that is added.
-/

namespace Carquet

open LittleEndian BackReference

/-! ## Checked accesses -/

/-- A load of `n` bytes at `src` and a store at `dst`. -/
def moveIn (capacity n src dst : Nat) (m : Memory) : Option Memory :=
  if src + n ≤ capacity ∧ dst + n ≤ capacity then some (copyBlock n src dst m) else none

/-- A load of `n` bytes of the destination. -/
def loadIn (capacity n src : Nat) (m : Memory) : Option Bytes :=
  if src + n ≤ capacity then some ((List.range n).map fun i => m (src + i)) else none

/-- A store. -/
def storeIn (capacity : Nat) (bytes : Bytes) (dst : Nat) (m : Memory) : Option Memory :=
  if dst + bytes.length ≤ capacity then some (writeBytes bytes dst m) else none

/-- The same under a condition. -/
def moveWhen (c : Prop) [Decidable c] (capacity n src dst : Nat) (m : Memory) : Option Memory :=
  if c then moveIn capacity n src dst m else some m

def storeWhen (c : Prop) [Decidable c] (capacity : Nat) (bytes : Bytes) (dst : Nat) (m : Memory) :
    Option Memory :=
  if c then storeIn capacity bytes dst m else some m

/-- A load of `n` bytes of the input. -/
def loadInput (n : Nat) (rest : Bytes) : Option Bytes :=
  if n ≤ rest.length then some (rest.take n) else none

/-! ## The copies -/

/-- `incremental_copy_slow` (snappy.c:325-329). -/
def incrementalCopySlowIn (capacity : Nat) : Nat → Nat → Nat → Memory → Option Memory
  | 0, _, _, m => some m
  | n + 1, src, op, m =>
    moveIn capacity 1 src op m >>= incrementalCopySlowIn capacity n (src + 1) (op + 1)

/-- The four conditional blocks of 16 bytes (snappy.c:421-424, 550-553). -/
def copyBlocks16In (capacity src op length : Nat) (m : Memory) : Option Memory := do
  let m ← moveIn capacity 16 src op m
  let m ← moveWhen (16 < length) capacity 16 (src + 16) (op + 16) m
  let m ← moveWhen (32 < length) capacity 16 (src + 32) (op + 32) m
  moveWhen (48 < length) capacity 16 (src + 48) (op + 48) m

/-- The blocks near the end of the buffer (snappy.c:429-436). -/
def copyBlocksToEndIn (capacity bufLimit : Nat) :
    Nat → Nat → Nat → Memory → Option (Nat × Nat × Memory)
  | 0, src, op, m => some (src, op, m)
  | fuel + 1, src, op, m =>
    if op + 16 < bufLimit then
      moveIn capacity 16 src op m >>= copyBlocksToEndIn capacity bufLimit fuel (src + 16) (op + 16)
    else some (src, op, m)

/-- The copy of a pattern of at least `big_pattern` bytes (snappy.c:419-446). -/
def incrementalCopyBigIn (capacity src op opLimit bufLimit : Nat) (m : Memory) : Option Memory :=
  if opLimit + 15 ≤ bufLimit then copyBlocks16In capacity src op (opLimit - op) m
  else do
    let (src, op, m) ← copyBlocksToEndIn capacity bufLimit bufLimit src op m
    if opLimit ≤ op then some m
    else if op + 8 ≤ bufLimit then
      moveIn capacity 8 src op m >>=
        incrementalCopySlowIn capacity (opLimit - (op + 8)) (src + 8) (op + 8)
    else incrementalCopySlowIn capacity (opLimit - op) src op m

/-- The copy of a short pattern with shuffles (snappy.c:344-391). -/
def incrementalCopyPatternIn (capacity src op opLimit : Nat) (m : Memory) : Option Memory := do
  let patternSize := op - src
  let reshuffle := snappyMasksOffset16.getD patternSize []
  let raw ← loadIn capacity 16 src m
  let pattern := shuffle raw (snappyMasksOffset0.getD patternSize [])
  let m ← storeIn capacity pattern op m
  let pattern := if op + 16 < opLimit then shuffle pattern reshuffle else pattern
  let m ← storeWhen (op + 16 < opLimit) capacity pattern (op + 16) m
  let pattern := if op + 32 < opLimit then shuffle pattern reshuffle else pattern
  let m ← storeWhen (op + 32 < opLimit) capacity pattern (op + 32) m
  let pattern := if op + 48 < opLimit then shuffle pattern reshuffle else pattern
  storeWhen (op + 48 < opLimit) capacity pattern (op + 48) m

/-- `while (pattern_size < 8) { .. }` (snappy.c:396-400). -/
def doublePatternIn (capacity src : Nat) : Nat → Nat → Nat → Memory → Option (Nat × Nat × Memory)
  | 0, op, patternSize, m => some (op, patternSize, m)
  | fuel + 1, op, patternSize, m =>
    if patternSize < 8 then
      moveIn capacity 8 src op m >>=
        doublePatternIn capacity src fuel (op + patternSize) (patternSize * 2)
    else some (op, patternSize, m)

/-- The blocks of 8 bytes (snappy.c:406-410). -/
def copyBlocks8In (capacity opLimit bufLimit : Nat) :
    Nat → Nat → Nat → Memory → Option (Nat × Nat × Memory)
  | 0, src, op, m => some (src, op, m)
  | fuel + 1, src, op, m =>
    if op + 8 ≤ opLimit ∧ op + 8 ≤ bufLimit then
      moveIn capacity 8 src op m >>= copyBlocks8In capacity opLimit bufLimit fuel (src + 8) (op + 8)
    else some (src, op, m)

/-- The copy of a short pattern without shuffles (snappy.c:394-415). -/
def incrementalCopyDoublingIn (capacity src op opLimit bufLimit : Nat) (m : Memory) :
    Option Memory :=
  if op + 11 ≤ bufLimit then do
    let (op, patternSize, m) ← doublePatternIn capacity src 8 op (op - src) m
    if opLimit ≤ op then some m
    else do
      let (src, op, m) ← copyBlocks8In capacity opLimit bufLimit opLimit (op - patternSize) op m
      if opLimit ≤ op then some m else incrementalCopySlowIn capacity (opLimit - op) src op m
  else incrementalCopySlowIn capacity (opLimit - op) src op m

/-- `incremental_copy` (snappy.c:331-447). -/
def incrementalCopyIn (vectorShuffle : Bool) (capacity src op opLimit bufLimit : Nat) (m : Memory) :
    Option Memory :=
  if vectorShuffle then
    if op - src < 16 then
      if opLimit + 15 ≤ bufLimit then incrementalCopyPatternIn capacity src op opLimit m
      else incrementalCopySlowIn capacity (opLimit - op) src op m
    else incrementalCopyBigIn capacity src op opLimit bufLimit m
  else if op - src < 8 then incrementalCopyDoublingIn capacity src op opLimit bufLimit m
  else incrementalCopyBigIn capacity src op opLimit bufLimit m

/-- The copy of an element with a one-byte or two-byte offset (snappy.c:545-566). -/
def copyMatchIn (vectorShuffle : Bool) (capacity offset length op opEnd : Nat) (m : Memory) :
    Option Memory :=
  let opLimitMinSlop := if 64 ≤ opEnd then opEnd - 63 else 0
  if 16 ≤ offset ∧ op + length ≤ opLimitMinSlop then
    copyBlocks16In capacity (op - offset) op length m
  else if length ≤ 64 ∧ op + length ≤ opLimitMinSlop ∧ length ≤ offset then
    moveIn capacity 64 (op - offset) op m
  else incrementalCopyIn vectorShuffle capacity (op - offset) op (op + length) opEnd m

/-! ## The elements -/

/-- A literal (snappy.c:497-528). -/
def decodeLiteralIn (capacity opEnd : Nat) (tag : Nat) (s : SnappyState) :
    Option (Except Status SnappyState) :=
  let short := tag / 4 + 1
  let extraBytes := short - 60
  if 61 ≤ short ∧ s.rest.length < extraBytes then some (.error .invalidCompressedData)
  else do
    let raw ← loadInput (if 61 ≤ short then extraBytes else 0) s.rest
    let literalLen := if 61 ≤ short then (leNat raw + 1) % 4294967296 else short
    let ip := if 61 ≤ short then s.rest.drop extraBytes else s.rest
    if literalLen ≤ 16 ∧ 16 ≤ ip.length ∧ s.op + 16 ≤ opEnd then do
      let block ← loadInput 16 ip
      let m ← storeIn capacity block s.op s.memory
      some (.ok ⟨ip.drop literalLen, s.op + literalLen, m⟩)
    else if ip.length < literalLen ∨ opEnd < s.op + literalLen then
      some (.error .invalidCompressedData)
    else do
      let block ← loadInput literalLen ip
      let m ← storeIn capacity block s.op s.memory
      some (.ok ⟨ip.drop literalLen, s.op + literalLen, m⟩)

/-- The checks of a copy, and the copy (snappy.c:537-567, 575-583). -/
def decodeCopyIn (opEnd : Nat) (offset length : Nat) (copy : Memory → Option Memory) (rest : Bytes)
    (s : SnappyState) : Option (Except Status SnappyState) :=
  if offset = 0 ∨ s.op < offset then some (.error .invalidCompressedData)
  else if opEnd < s.op + length then some (.error .invalidCompressedData)
  else do
    let m ← copy s.memory
    some (.ok ⟨rest, s.op + length, m⟩)

/-- One element (snappy.c:493-584). -/
def decodeElementIn (vectorShuffle : Bool) (capacity opEnd : Nat) (tag : Nat) (s : SnappyState) :
    Option (Except Status SnappyState) :=
  if tag % 4 = 0 then decodeLiteralIn capacity opEnd tag s
  else if tag % 4 = 1 then
    if s.rest.length < 1 then some (.error .invalidCompressedData)
    else do
      let trailer ← loadInput 1 s.rest
      let offset := tag / 32 * 256 + leNat trailer
      decodeCopyIn opEnd offset (copyLength tag)
        (copyMatchIn vectorShuffle capacity offset (copyLength tag) s.op opEnd) (s.rest.drop 1) s
  else if tag % 4 = 2 then
    if s.rest.length < 2 then some (.error .invalidCompressedData)
    else do
      let trailer ← loadInput 2 s.rest
      let offset := leNat trailer
      decodeCopyIn opEnd offset (copyLength tag)
        (copyMatchIn vectorShuffle capacity offset (copyLength tag) s.op opEnd) (s.rest.drop 2) s
  else if s.rest.length < 4 then some (.error .invalidCompressedData)
  else do
    let length := tag / 4 % 64 + 1
    let trailer ← loadInput 4 s.rest
    let offset := leNat trailer
    decodeCopyIn opEnd offset length
      (incrementalCopyIn vectorShuffle capacity (s.op - offset) s.op (s.op + length) opEnd)
      (s.rest.drop 4) s

/-- The loop over the elements (snappy.c:492-585). -/
def decodeElementsIn (vectorShuffle : Bool) (capacity opEnd : Nat) :
    Nat → SnappyState → Option (Except Status SnappyState)
  | 0, s => some (.ok s)
  | fuel + 1, s =>
    match s.rest with
    | [] => some (.ok s)
    | tag :: rest =>
      if s.op < opEnd then
        match decodeElementIn vectorShuffle capacity opEnd tag.toNat { s with rest := rest } with
        | none => none
        | some (.error status) => some (.error status)
        | some (.ok s) => decodeElementsIn vectorShuffle capacity opEnd fuel s
      else some (.ok s)

/-- `carquet_snappy_decompress` (snappy.c:456-595). The length in front is read byte by byte, each behind
its check. -/
def snappyDecompressIn (vectorShuffle : Bool) (src : Bytes) (dst : Memory) (dstCapacity : Nat) :
    Option (Except Status (Nat × Memory)) :=
  if src = [] then some (.ok (0, dst))
  else
    match snappyReadVarint 4 0 0 src with
    | none => some (.error .invalidCompressedData)
    | some (uncompressedLen, rest) =>
      if dstCapacity < uncompressedLen then some (.error .invalidCompressedData)
      else
        (decodeElementsIn vectorShuffle dstCapacity uncompressedLen src.length ⟨rest, 0, dst⟩).map
          fun result => do
            let s ← result
            if s.op ≠ uncompressedLen ∨ s.rest ≠ [] then .error .invalidCompressedData
            else .ok (uncompressedLen, s.memory)

/-! ## No access is outside -/

section

variable {capacity : Nat}

theorem moveIn_eq {n src dst : Nat} (m : Memory) (hsrc : src ≤ dst) (hdst : dst + n ≤ capacity) :
    moveIn capacity n src dst m = some (copyBlock n src dst m) :=
  if_pos ⟨by omega, hdst⟩

theorem storeIn_eq {bytes : Bytes} {dst : Nat} (m : Memory) (h : dst + bytes.length ≤ capacity) :
    storeIn capacity bytes dst m = some (writeBytes bytes dst m) := if_pos h

theorem loadInput_eq {n : Nat} {rest : Bytes} (h : n ≤ rest.length) :
    loadInput n rest = some (rest.take n) := if_pos h

theorem incrementalCopySlowIn_eq {n src op : Nat} (m : Memory) (hsrc : src ≤ op)
    (h : op + n ≤ capacity) :
    incrementalCopySlowIn capacity n src op m = some (incrementalCopySlow n src op m) := by
  induction n generalizing src op m with
  | zero => rfl
  | succ n ih =>
    rw [incrementalCopySlowIn, moveIn_eq m hsrc (by omega)]
    exact ih _ (by omega) (by omega)

theorem copyBlocks16In_eq {src op length : Nat} (m : Memory) (hsrc : src ≤ op) (hpos : 0 < length)
    (h : op + length + 15 ≤ capacity) :
    copyBlocks16In capacity src op length m = some (copyBlocks16 src op length m) := by
  have hblock : ∀ (k : Nat) (m : Memory), moveWhen (k < length) capacity 16 (src + k) (op + k) m =
      some (if k < length then copyBlock 16 (src + k) (op + k) m else m) := by
    intro k m
    unfold moveWhen
    split
    · exact moveIn_eq m (by omega) (by omega)
    · rfl
  rw [copyBlocks16In, moveIn_eq m hsrc (by omega)]
  simp only [hblock, Option.bind_eq_bind, Option.bind_some]
  rfl

theorem copyBlocksToEndIn_eq {bufLimit fuel src op : Nat} (m : Memory) (hsrc : src ≤ op)
    (h : bufLimit ≤ capacity) :
    copyBlocksToEndIn capacity bufLimit fuel src op m = some (copyBlocksToEnd bufLimit fuel src op m) ∧
      (copyBlocksToEnd bufLimit fuel src op m).1 ≤ (copyBlocksToEnd bufLimit fuel src op m).2.1 := by
  induction fuel generalizing src op m with
  | zero => exact ⟨rfl, hsrc⟩
  | succ fuel ih =>
    unfold copyBlocksToEndIn copyBlocksToEnd
    split
    · rw [moveIn_eq m hsrc (by omega)]
      exact ih _ (by omega)
    · exact ⟨rfl, hsrc⟩

theorem incrementalCopyBigIn_eq {src op opLimit bufLimit : Nat} (m : Memory) (hsrc : src ≤ op)
    (hpos : op < opLimit) (hlimit : opLimit ≤ bufLimit) (h : bufLimit ≤ capacity) :
    incrementalCopyBigIn capacity src op opLimit bufLimit m =
      some (incrementalCopyBig src op opLimit bufLimit m) := by
  unfold incrementalCopyBigIn incrementalCopyBig
  split
  · exact copyBlocks16In_eq m hsrc (by omega) (by omega)
  · obtain ⟨hblocks, hsrc'⟩ := @copyBlocksToEndIn_eq _ _ bufLimit _ _ m hsrc h
    rw [hblocks]
    generalize copyBlocksToEnd bufLimit bufLimit src op m = blocks at hsrc'
    obtain ⟨src', op', m'⟩ := blocks
    simp only [Option.bind_eq_bind, Option.bind_some] at hsrc' ⊢
    split
    · rfl
    · split
      · rw [moveIn_eq m' hsrc' (by omega)]
        exact incrementalCopySlowIn_eq _ (by omega) (by omega)
      · exact incrementalCopySlowIn_eq m' hsrc' (by omega)

theorem length_shuffle (pattern : Bytes) (mask : List Nat) :
    (shuffle pattern mask).length = mask.length := List.length_map ..

theorem length_snappyMasks : ∀ off < 16, (snappyMasksOffset0.getD off []).length = 16 ∧
    (snappyMasksOffset16.getD off []).length = 16 := by decide

theorem incrementalCopyPatternIn_eq {src op opLimit : Nat} (m : Memory) (hsrc : src ≤ op)
    (hsize : op - src < 16) (hpos : op < opLimit) (h : opLimit + 15 ≤ capacity) :
    incrementalCopyPatternIn capacity src op opLimit m =
      some (incrementalCopyPattern src op opLimit m) := by
  obtain ⟨h0, h16⟩ := length_snappyMasks _ hsize
  have hstore : ∀ (k : Nat) (pattern : Bytes) (m : Memory), pattern.length = 16 →
      storeWhen (op + k < opLimit) capacity pattern (op + k) m =
        some (if op + k < opLimit then writeBytes pattern (op + k) m else m) := by
    intro k pattern m hlen
    unfold storeWhen
    split
    · exact storeIn_eq m (by omega)
    · rfl
  have hnext : ∀ (k : Nat) (pattern : Bytes), pattern.length = 16 → (if op + k < opLimit then
      shuffle pattern (snappyMasksOffset16.getD (op - src) []) else pattern).length = 16 := by
    intro k pattern hlen
    split
    · rw [length_shuffle, h16]
    · exact hlen
  have hload : loadIn capacity 16 src m = some ((List.range 16).map fun i => m (src + i)) :=
    if_pos (by omega)
  have hlen₀ : ∀ raw, (shuffle raw (snappyMasksOffset0.getD (op - src) [])).length = 16 := by
    intro raw
    rw [length_shuffle, h0]
  have hlen₁ := hnext 16 _ (hlen₀ ((List.range 16).map fun i => m (src + i)))
  have hlen₂ := hnext 32 _ hlen₁
  have hlen₃ := hnext 48 _ hlen₂
  rw [incrementalCopyPatternIn, hload]
  simp only [Option.bind_eq_bind, Option.bind_some]
  rw [storeIn_eq m (by rw [hlen₀]; omega)]
  simp only [Option.bind_some]
  rw [hstore 16 _ _ hlen₁]
  simp only [Option.bind_some]
  rw [hstore 32 _ _ hlen₂]
  simp only [Option.bind_some]
  rw [hstore 48 _ _ hlen₃]
  rfl

/-- A pattern that is doubled `k` times and still short has grown by 3 bytes at most. -/
theorem doublePatternIn_eq {src op₀ size₀ op size k fuel : Nat} (m : Memory) (hpos : 0 < size₀)
    (hsrc : src + size₀ = op₀) (hsize : size = size₀ * 2 ^ k) (hop : op = src + size)
    (h : op₀ + 11 ≤ capacity) :
    doublePatternIn capacity src fuel op size m = some (doublePattern src fuel op size m) ∧
      (doublePattern src fuel op size m).1 =
        src + (doublePattern src fuel op size m).2.1 := by
  induction fuel generalizing op size k m with
  | zero => exact ⟨rfl, hop⟩
  | succ fuel ih =>
    unfold doublePatternIn doublePattern
    split
    · rename_i h8
      have hk : k < 3 := by
        by_contra hk
        have hpow : 2 ^ 3 ≤ 2 ^ k := Nat.pow_le_pow_right (by decide) (by omega)
        have := Nat.le_mul_of_pos_left (2 ^ k) hpos
        omega
      have hgrown : size ≤ size₀ + 3 := by
        obtain rfl | rfl | rfl : k = 0 ∨ k = 1 ∨ k = 2 := by omega
        all_goals omega
      rw [moveIn_eq m (by omega) (by omega)]
      exact ih (k := k + 1) _ (by rw [hsize, Nat.pow_succ, Nat.mul_assoc]) (by omega)
    · exact ⟨rfl, hop⟩

theorem copyBlocks8In_eq {opLimit bufLimit fuel src op : Nat} (m : Memory) (hsrc : src ≤ op)
    (h : bufLimit ≤ capacity) :
    copyBlocks8In capacity opLimit bufLimit fuel src op m =
        some (copyBlocks8 opLimit bufLimit fuel src op m) ∧
      (copyBlocks8 opLimit bufLimit fuel src op m).1 ≤
        (copyBlocks8 opLimit bufLimit fuel src op m).2.1 := by
  induction fuel generalizing src op m with
  | zero => exact ⟨rfl, hsrc⟩
  | succ fuel ih =>
    unfold copyBlocks8In copyBlocks8
    split
    · rw [moveIn_eq m hsrc (by omega)]
      exact ih _ (by omega)
    · exact ⟨rfl, hsrc⟩

theorem incrementalCopyDoublingIn_eq {src op opLimit bufLimit : Nat} (m : Memory) (hsrc : src < op)
    (hlimit : opLimit ≤ bufLimit) (hpos : op < opLimit) (h : bufLimit ≤ capacity) :
    incrementalCopyDoublingIn capacity src op opLimit bufLimit m =
      some (incrementalCopyDoubling src op opLimit bufLimit m) := by
  unfold incrementalCopyDoublingIn incrementalCopyDoubling
  split
  · obtain ⟨hdouble, hop⟩ := @doublePatternIn_eq capacity _ _ _ _ _ 0 8 m
      (show 0 < op - src by omega) (show src + (op - src) = op by omega) (Nat.mul_one _).symm
      (show op = src + (op - src) by omega) (by omega)
    rw [hdouble]
    generalize doublePattern src 8 op (op - src) m = doubled at hop
    obtain ⟨op', size, m'⟩ := doubled
    simp only [Option.bind_eq_bind, Option.bind_some] at hop ⊢
    split
    · rfl
    · obtain ⟨hblocks, hsrc'⟩ := @copyBlocks8In_eq _ opLimit _ opLimit _ _ m'
        (show op' - size ≤ op' by omega) h
      rw [hblocks]
      generalize copyBlocks8 opLimit bufLimit opLimit (op' - size) op' m' = blocks at hsrc'
      obtain ⟨src₂, op₂, m₂⟩ := blocks
      simp only [Option.bind_some] at hsrc' ⊢
      split
      · rfl
      · exact incrementalCopySlowIn_eq m₂ hsrc' (by omega)
  · exact incrementalCopySlowIn_eq m (by omega) (by omega)

theorem incrementalCopyIn_eq (v : Bool) {src op opLimit bufLimit : Nat} (m : Memory)
    (hsrc : src < op) (hpos : op < opLimit) (hlimit : opLimit ≤ bufLimit) (h : bufLimit ≤ capacity) :
    incrementalCopyIn v capacity src op opLimit bufLimit m =
      some (incrementalCopy v src op opLimit bufLimit m) := by
  have hbig := incrementalCopyBigIn_eq m (Nat.le_of_lt hsrc) hpos hlimit h
  unfold incrementalCopyIn incrementalCopy
  split
  · split
    · split
      · exact incrementalCopyPatternIn_eq m (by omega) ‹_› hpos (by omega)
      · exact incrementalCopySlowIn_eq m (by omega) (by omega)
    · exact hbig
  · split
    · exact incrementalCopyDoublingIn_eq m hsrc hlimit hpos h
    · exact hbig

/-- **No copy leaves the buffer.** -/
theorem copyMatchIn_eq (v : Bool) {offset length op opEnd : Nat} (m : Memory) (hoff : 0 < offset)
    (hle : offset ≤ op) (hpos : 0 < length) (hroom : op + length ≤ opEnd) (h : opEnd ≤ capacity) :
    copyMatchIn v capacity offset length op opEnd m = some (copyMatch v offset length op opEnd m) := by
  have hslop : ∀ n, 0 < n → n ≤ (if 64 ≤ opEnd then opEnd - 63 else 0) → n + 63 ≤ opEnd := by
    intro n hn hle
    split at hle <;> omega
  unfold copyMatchIn copyMatch
  generalize (if 64 ≤ opEnd then opEnd - 63 else 0) = opLimitMinSlop at hslop ⊢
  dsimp only
  split
  · rename_i hfast
    have := hslop _ (by omega) hfast.2
    exact copyBlocks16In_eq m (by omega) hpos (by omega)
  · split
    · rename_i hfast
      have := hslop _ (by omega) hfast.2.1
      exact moveIn_eq m (by omega) (by omega)
    · exact incrementalCopyIn_eq v m (by omega) (by omega) hroom h

theorem decodeLiteralIn_eq {opEnd tag : Nat} (s : SnappyState) (h : opEnd ≤ capacity) :
    decodeLiteralIn capacity opEnd tag s = some (decodeLiteral opEnd tag s) := by
  unfold decodeLiteralIn decodeLiteral
  dsimp only
  split
  · rfl
  · rename_i hheader
    have hsize : (if 61 ≤ tag / 4 + 1 then tag / 4 + 1 - 60 else 0) = tag / 4 + 1 - 60 := by
      split <;> omega
    rw [hsize, loadInput_eq (by omega)]
    simp only [Option.bind_eq_bind, Option.bind_some]
    generalize (if 61 ≤ tag / 4 + 1 then
      (leNat (s.rest.take (tag / 4 + 1 - 60)) + 1) % 4294967296 else tag / 4 + 1) = literalLen
    generalize (if 61 ≤ tag / 4 + 1 then s.rest.drop (tag / 4 + 1 - 60) else s.rest) = ip
    split
    · rename_i hfast
      rw [loadInput_eq hfast.2.1, Option.bind_some,
        storeIn_eq _ (by rw [List.length_take]; omega), Option.bind_some]
    · split
      · rfl
      · rename_i hroom
        rw [loadInput_eq (by omega), Option.bind_some,
          storeIn_eq _ (by rw [List.length_take]; omega), Option.bind_some]

theorem decodeCopyIn_eq {opEnd offset length : Nat} {copyIn : Memory → Option Memory}
    {copy : Memory → Memory} (rest : Bytes) (s : SnappyState)
    (h : 0 < offset → offset ≤ s.op → s.op + length ≤ opEnd → copyIn s.memory = some (copy s.memory)) :
    decodeCopyIn opEnd offset length copyIn rest s = some (decodeCopy opEnd offset length copy rest s) := by
  unfold decodeCopyIn decodeCopy
  split
  · rfl
  · split
    · rfl
    · rw [h (by omega) (by omega) (by omega)]
      rfl

theorem decodeElementIn_eq (v : Bool) {opEnd : Nat} (tag : UInt8) (s : SnappyState)
    (h : opEnd ≤ capacity) :
    decodeElementIn v capacity opEnd tag.toNat s = some (decodeElement v opEnd tag.toNat s) := by
  have hbyte := tag.toNat_lt
  unfold decodeElementIn decodeElement
  split
  · exact decodeLiteralIn_eq s h
  · split
    · rename_i h1
      have hlength := copyLength_of_copy1 tag.toNat hbyte h1
      cases hrest : s.rest with
      | nil => rfl
      | cons b rest =>
        have hb : leNat [b] = b.toNat := by simp [leNat]
        rw [if_neg (by simp), loadInput_eq (by simp)]
        simp only [Option.bind_eq_bind, Option.bind_some, List.take_succ_cons, List.take_zero, hb]
        exact decodeCopyIn_eq rest s fun hpos hle hroom =>
          copyMatchIn_eq v s.memory hpos hle (by omega) hroom h
    · split
      · rename_i h2
        have hlength := copyLength_of_copy2 tag.toNat hbyte h2
        rcases hrest : s.rest with _ | ⟨b₀, _ | ⟨b₁, rest⟩⟩
        · rfl
        · rfl
        · have hb : leNat [b₀, b₁] = b₀.toNat + b₁.toNat * 256 := by
            simp [leNat]
            omega
          rw [if_neg (by simp), loadInput_eq (by simp)]
          simp only [Option.bind_eq_bind, Option.bind_some, List.take_succ_cons, List.take_zero, hb]
          exact decodeCopyIn_eq rest s fun hpos hle hroom =>
            copyMatchIn_eq v s.memory hpos hle (by omega) hroom h
      · split
        · rfl
        · rw [loadInput_eq (by omega)]
          exact decodeCopyIn_eq _ s fun hpos hle hroom =>
            incrementalCopyIn_eq v s.memory (by omega) (by omega) hroom h

theorem decodeElementsIn_eq (v : Bool) {opEnd fuel : Nat} (s : SnappyState) (h : opEnd ≤ capacity) :
    decodeElementsIn v capacity opEnd fuel s = some (decodeElements v opEnd fuel s) := by
  induction fuel generalizing s with
  | zero => rfl
  | succ fuel ih =>
    unfold decodeElementsIn decodeElements
    cases s.rest with
    | nil => rfl
    | cons tag rest =>
      simp only
      split
      · rw [decodeElementIn_eq v tag _ h]
        cases hone : decodeElement v opEnd tag.toNat { s with rest := rest } with
        | error status => rfl
        | ok s' => exact ih s'
      · rfl

end

/-- **No access is outside** the input or the destination, whatever the input. -/
theorem snappyDecompressIn_eq (v : Bool) (src : Bytes) (dst : Memory) (dstCapacity : Nat) :
    snappyDecompressIn v src dst dstCapacity = some (snappyDecompress v src dst dstCapacity) := by
  unfold snappyDecompressIn snappyDecompress
  split
  · rfl
  · cases snappyReadVarint 4 0 0 src with
    | none => rfl
    | some preamble =>
      obtain ⟨uncompressedLen, rest⟩ := preamble
      simp only
      split
      · rfl
      · rw [decodeElementsIn_eq v _ (by omega)]
        rfl

/-! ## The builds of `incremental_copy` -/

/-- What the decoder passes to `incremental_copy`: a copy of at most 64 bytes from what is out, with
room for it. -/
structure CopyCall where
  offset : Nat
  length : Nat
  op : Nat
  bufLimit : Nat
  offset_pos : 0 < offset
  offset_le : offset ≤ op
  length_pos : 0 < length
  length_le : length ≤ 64
  room : op + length ≤ bufLimit

namespace CopyCall

def src (c : CopyCall) : Nat := c.op - c.offset

/-- The copy of a build, with or without vector shuffles. -/
def copy (c : CopyCall) (vectorShuffle : Bool) (m : Memory) : Memory :=
  incrementalCopy vectorShuffle c.src c.op (c.op + c.length) c.bufLimit m

/-- The copy byte by byte. -/
def slow (c : CopyCall) (m : Memory) : Memory := incrementalCopySlow c.length c.src c.op m

/-- The builds leave the same bytes, in the destination and before it. -/
def Agree (c : CopyCall) : Prop :=
  ∀ (m : Memory) (vectorShuffle : Bool),
    cells (c.copy vectorShuffle m) (c.op + c.length) = cells (c.slow m) (c.op + c.length)

theorem src_add (c : CopyCall) : c.src + c.offset = c.op := by
  have hle := c.offset_le
  unfold src
  omega

theorem slow_copied (c : CopyCall) (m : Memory) :
    Copied m c.src c.offset (c.offset + c.length) (c.slow m) :=
  incrementalCopySlow_copied c.length (Copied.start m c.src c.offset) c.offset_pos (Nat.le_refl _)
    c.src_add c.src_add.symm (Nat.dvd_refl _) (Nat.le_refl _) c.offset_pos

theorem slow_cells (c : CopyCall) (m : Memory) :
    cells (c.slow m) (c.op + c.length) = repeatBack c.offset c.length (cells m c.op) := by
  have := (c.slow_copied m).cells_eq c.offset_pos
  rwa [c.src_add] at this

/-- Where a copy reaches twice its offset, the byte by byte copy is at the pattern's start again. -/
theorem slow_again {c : CopyCall} (h : c.offset < c.length) (m : Memory) :
    c.slow m (c.op + c.offset) = m c.src := by
  have hpos := c.offset_pos
  have hsrc := c.src_add
  obtain ⟨hbefore, hrepeats⟩ := c.slow_copied m
  have hagain := hrepeats (2 * c.offset) (by omega)
  rw [Nat.mul_mod_left] at hagain
  rw [show c.op + c.offset = c.src + 2 * c.offset by omega, hagain, Nat.add_zero,
    hbefore _ (by omega)]

/-- A copy that reads ahead keeps the byte that was at `op` before it. -/
theorem big_ahead {offset length src op bufLimit : Nat} (m : Memory)
    (h : ReadsAhead offset length op bufLimit) (hsrc : src + offset = op) :
    incrementalCopyBig src op (op + length) bufLimit m (op + offset) = m op := by
  obtain ⟨h8, h16, hlt, hroom⟩ := h
  have hfirst : copyBlock 16 src op m (op + offset) = m op := by
    unfold copyBlock
    rw [if_pos (by omega)]
    congr 1
    omega
  have hlater : ∀ (k : Nat) (c : Prop) [Decidable c] (m' : Memory), 16 ≤ k →
      (if c then copyBlock 16 (src + k) (op + k) m' else m') (op + offset) = m' (op + offset) := by
    intro k c _ m' hk
    split
    · exact copyBlock_of_lt (by omega)
    · rfl
  unfold incrementalCopyBig
  split
  · unfold copyBlocks16
    rw [hlater 48 _ _ (by omega), hlater 32 _ _ (by omega), hlater 16 _ _ (by omega), hfirst]
  · obtain ⟨fuel, rfl⟩ : ∃ fuel, bufLimit = fuel + 1 := ⟨bufLimit - 1, by omega⟩
    unfold copyBlocksToEnd
    rw [if_pos hroom]
    obtain ⟨hop', hbefore⟩ := copyBlocksToEnd_before (fuel + 1) fuel (src + 16) (op + 16)
      (copyBlock 16 src op m)
    generalize copyBlocksToEnd (fuel + 1) fuel (src + 16) (op + 16)
      (copyBlock 16 src op m) = blocks at hop' hbefore
    obtain ⟨src', op', m'⟩ := blocks
    simp only at hop' hbefore ⊢
    have hkept : m' (op + offset) = m op := by rw [hbefore _ (by omega), hfirst]
    split
    · exact hkept
    · split
      · rw [incrementalCopySlow_before _ _ (by omega), copyBlock_of_lt (by omega), hkept]
      · rw [incrementalCopySlow_before _ _ (by omega), hkept]

/-- In the portable build the byte behind the pattern is the one that was at `op` before the copy. -/
theorem not_agree_of_readsAhead {c : CopyCall}
    (hahead : ReadsAhead c.offset c.length c.op c.bufLimit) : ¬ c.Agree := by
  intro hagree
  have hpos := c.offset_pos
  have hsrc := c.src_add
  have h8 := hahead.1
  have hlt := hahead.2.2.1
  have hkept : c.copy false (fun j => if j = c.op then 1 else 0) (c.op + c.offset) = 1 := by
    rw [copy, incrementalCopy, if_neg (by decide), if_neg (by omega), big_ahead _ hahead hsrc,
      if_pos rfl]
  have hwant : c.slow (fun j => if j = c.op then 1 else 0) (c.op + c.offset) = 0 := by
    rw [slow_again hlt, if_neg (by omega)]
  have hsame := cell_eq_of_cells (hagree (fun j => if j = c.op then 1 else 0) false)
    (show c.op + c.offset < c.op + c.length by omega)
  rw [hkept, hwant] at hsame
  exact absurd hsame (by decide)

end CopyCall

/-- **The builds agree** on a copy, for every content of the buffer, just if it does not read ahead; and
no build accesses anything beyond the permitted end. -/
theorem incrementalCopy_agree_iff (c : CopyCall) :
    (c.Agree ↔ ¬ ReadsAhead c.offset c.length c.op c.bufLimit) ∧
    ∀ (vectorShuffle : Bool) (m : Memory),
      incrementalCopyIn vectorShuffle c.bufLimit c.src c.op (c.op + c.length) c.bufLimit m =
        some (c.copy vectorShuffle m) := by
  have hpos := c.offset_pos
  have hlen := c.length_pos
  have hsrc := c.src_add
  refine ⟨⟨fun hagree hahead => CopyCall.not_agree_of_readsAhead hahead hagree,
    fun hsafe m v => ?_⟩, fun v m => ?_⟩
  · rw [c.slow_cells]
    exact incrementalCopy_cells v m hpos c.offset_le c.length_le (.inr hsafe)
  · exact incrementalCopyIn_eq v m (by omega) (by omega) c.room (Nat.le_refl _)

/-- A pattern of eight bytes, to be written four times more. -/
def eightFourTimes : CopyCall where
  offset := 8
  length := 32
  op := 8
  bufLimit := 40
  offset_pos := by decide
  offset_le := by decide
  length_pos := by decide
  length_le := by decide
  room := by decide

/-- The builds disagree on it. -/
theorem eightFourTimes_disagree : ¬ eightFourTimes.Agree :=
  CopyCall.not_agree_of_readsAhead (by decide)

end Carquet
