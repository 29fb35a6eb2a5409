import Carquet.Encoding.DeltaStrings
import Carquet.Lib.Access

/-!
# The delta decoders, with their accesses

The decoders once more, with positions in the input and with their arrays: every byte that is read
and every cell that is written is looked up, and what is outside is a fault. The number of values is
the `int32_t` of the source.

* `deltaDecodeAt` — `carquet_delta_decode_int32`, `carquet_delta_decode_int64` (delta.c:220-308).
* `deltaLengthDecodeAt` — `carquet_delta_length_decode` (delta_length.c:52-126).
* `deltaStringsDecodeAt` — `carquet_delta_strings_decode` (delta_strings.c:81-218).

`deltaDecodeAt_eq`, `deltaLengthDecodeAt_eq` and `deltaStringsDecodeAt_eq`: for numbers that are not
negative these are the decoders over what is left of the input, so no access is outside. Allocations
succeed and pointers are not `NULL`.
-/

namespace Carquet

open LittleEndian Leb128 Chunks Access

/-! ## DELTA_BINARY_PACKED -/

/-- `read_uleb128` (delta.c:63-77), from `pos` on: the value and the position behind it. -/
def readUlebAt (data : Bytes) : Nat → Nat → Nat → Nat → Except (Fault Status) (Option (Nat × Nat))
  | 0, _, _, _ => .ok none
  | fuel + 1, pos, shift, value =>
    if pos < data.length then do
      let b ← readAt data pos
      let value := value ||| ((b.toNat % 128) <<< shift) % 2 ^ 64
      if b.toNat < 128 then .ok (some (value, pos + 1))
      else readUlebAt data fuel (pos + 1) (shift + 7) value
    else .ok none

def readUleb128At (data : Bytes) (pos : Nat) : Except (Fault Status) (Option (Nat × Nat)) :=
  readUlebAt data 10 pos 0 0

/-- A varint that has to be there. -/
def needUleb128At (data : Bytes) (pos : Nat) : Except (Fault Status) (Nat × Nat) := do
  match ← readUleb128At data pos with
  | some r => .ok r
  | none => .error (.refused .decode)

/-- `delta_decoder_t` (delta.c:33-56). -/
structure DeltaState where
  pos : Nat
  blockSize : Nat
  miniBlocksPerBlock : Nat
  firstValue : Int
  minDelta : Int
  bitWidths : List Nat
  currentMiniBlock : Nat
  valuesInMiniBlock : Nat
  miniBlockValues : List Int
  miniBlockPos : Nat

/-- `delta_decoder_init` (delta.c:88-137). -/
def deltaDecoderInitAt (data : Bytes) : Except (Fault Status) DeltaState := do
  let (blockSize, pos) ← needUleb128At data 0
  let (miniBlocks, pos) ← needUleb128At data pos
  let blockSize := toI32 blockSize
  let miniBlocks := toI32 miniBlocks
  if miniBlocks ≤ 0 ∨ deltaMiniBlocks < miniBlocks then .error (.refused .decode)
  else if blockSize ≤ 0 ∨ deltaBlockSize < blockSize then .error (.refused .decode)
  else if deltaMiniBlockSize < blockSize / miniBlocks then .error (.refused .decode)
  else do
    let (_, pos) ← needUleb128At data pos
    let (first, pos) ← needUleb128At data pos
    .ok {
      pos := pos
      blockSize := blockSize.toNat
      miniBlocksPerBlock := miniBlocks.toNat
      firstValue := zigzagDecode64 first
      minDelta := 0
      bitWidths := List.replicate deltaMiniBlocks 0
      currentMiniBlock := miniBlocks.toNat
      valuesInMiniBlock := 0
      miniBlockValues := List.replicate deltaMiniBlockSize 0
      miniBlockPos := deltaMiniBlockSize }

/-- `delta_decoder_read_block` (delta.c:139-162). -/
def deltaReadBlockAt (data : Bytes) (s : DeltaState) : Except (Fault Status) DeltaState :=
  if data.length ≤ s.pos then .error (.refused .endOfData)
  else do
    let (minDelta, pos) ← needUleb128At data s.pos
    if data.length < pos + s.miniBlocksPerBlock then .error (.refused .decode)
    else do
      let widths ← sliceAt data pos s.miniBlocksPerBlock
      let bitWidths ← copyAt s.bitWidths 0 (widths.map UInt8.toNat)
      .ok { s with
        pos := pos + s.miniBlocksPerBlock
        minDelta := zigzagDecode64 minDelta
        bitWidths := bitWidths
        currentMiniBlock := 0 }

/-- The whole groups of `carquet_bitunpack_32` (bitpack.c:243-249). -/
def bitunpackGroupsAt (data : Bytes) (w : Nat) : Nat → Nat → Except (Fault Status) (List Nat)
  | 0, _ => .ok []
  | n + 1, pos => do
    let group ← sliceAt data pos w
    let values ← bitunpackGroupsAt data w n (pos + w)
    .ok (bitunpack8 w group ++ values)

/-- `carquet_bitunpack_32` (bitpack.c:215-264) for a width that is not 0. -/
def bitunpack32At (data : Bytes) (w count pos : Nat) : Except (Fault Status) (List Nat) := do
  let values ← bitunpackGroupsAt data w (count / 8) pos
  if count % 8 = 0 then .ok values
  else do
    let tail ← sliceAt data (pos + count / 8 * w) ((count % 8 * w + 7) / 8)
    .ok (values ++ (bitunpack8 w tail).take (count % 8))

/-- The values of whole bytes (delta.c:194-202). -/
def wideAt (data : Bytes) (bytesPerValue : Nat) : Nat → Nat → Except (Fault Status) (List Nat)
  | 0, _ => .ok []
  | n + 1, pos => do
    let value ← sliceAt data pos bytesPerValue
    let values ← wideAt data bytesPerValue n (pos + bytesPerValue)
    .ok (leNat value :: values)

/-- The values of a mini-block and the position behind it (delta.c:170-206). -/
def deltaUnpackMiniAt (data : Bytes) (minDelta : Int) (bitWidth size pos : Nat) :
    Except (Fault Status) (List Int × Nat) :=
  if bitWidth = 0 then .ok (List.replicate size minDelta, pos)
  else if bitWidth ≤ 32 then
    let packedSize := (size * bitWidth + 7) / 8
    if data.length < pos + packedSize then .error (.refused .decode)
    else do
      let unpacked ← bitunpack32At data bitWidth size pos
      .ok (unpacked.map fun u : Nat => toI64 (minDelta + u), pos + packedSize)
  else if bitWidth ≤ 64 then
    let bytesPerValue := (bitWidth + 7) / 8
    if data.length < pos + size * bytesPerValue then .error (.refused .decode)
    else do
      let values ← wideAt data bytesPerValue size pos
      .ok (values.map fun v : Nat => toI64 (minDelta + v), pos + size * bytesPerValue)
  else .error (.refused .decode)

def deltaEnsureBlockAt (data : Bytes) (s : DeltaState) : Except (Fault Status) DeltaState :=
  if s.miniBlocksPerBlock ≤ s.currentMiniBlock then deltaReadBlockAt data s else .ok s

/-- `delta_decoder_read_mini_block` (delta.c:164-213). -/
def deltaReadMiniBlockAt (data : Bytes) (s : DeltaState) : Except (Fault Status) DeltaState := do
  let s ← deltaEnsureBlockAt data s
  let bitWidth ← readAt s.bitWidths s.currentMiniBlock
  let size := s.blockSize / s.miniBlocksPerBlock
  let (values, pos) ← deltaUnpackMiniAt data s.minDelta bitWidth size s.pos
  let miniBlockValues ← copyAt s.miniBlockValues 0 values
  .ok { s with
    pos := pos
    miniBlockValues := miniBlockValues
    currentMiniBlock := s.currentMiniBlock + 1
    miniBlockPos := 0
    valuesInMiniBlock := size }

def deltaEnsureMiniBlockAt (data : Bytes) (s : DeltaState) : Except (Fault Status) DeltaState :=
  if s.valuesInMiniBlock ≤ s.miniBlockPos then deltaReadMiniBlockAt data s else .ok s

/-- The decode loop (delta.c:243-250, 288-295): `n` deltas, stored from `values[i]` on. -/
def deltaNextAt (wrap : Int → Int) (data : Bytes) :
    Nat → Nat → DeltaState → List Int → Except (Fault Status) (List Int × DeltaState)
  | 0, _, s, values => .ok (values, s)
  | n + 1, i, s, values => do
    let s ← deltaEnsureMiniBlockAt data s
    let value ← readAt s.miniBlockValues s.miniBlockPos
    let values ← storeAt values i (wrap value)
    deltaNextAt wrap data n (i + 1) { s with miniBlockPos := s.miniBlockPos + 1 } values

/-- `carquet_dispatch_prefix_sum_i32` / `_i64` (dispatch.c:102-116), from `values[i]` on. -/
def prefixSumAt (wrap : Int → Int) :
    Nat → Nat → Int → List Int → Except (Fault Status) (List Int)
  | 0, _, _, values => .ok values
  | n + 1, i, sum, values => do
    let v ← readAt values i
    let values ← storeAt values i (wrap (sum + v))
    prefixSumAt wrap n (i + 1) (wrap (sum + v)) values

/-- The body of both decoders: `values` and the bytes consumed. -/
def deltaDecodeAt (wrap : Int → Int) (data : Bytes) (numValues : Int) (values : List Int) :
    Except (Fault Status) (List Int × Nat) := do
  let s ← deltaDecoderInitAt data
  if numValues = 0 then .ok (values, s.pos)
  else do
    let first := wrap s.firstValue
    let values ← storeAt values 0 first
    let (values, s) ← deltaNextAt wrap data (numValues - 1).toNat 1 s values
    let values ← prefixSumAt wrap (numValues - 1).toNat 1 first values
    .ok (values, s.pos)

/-! ## The strings -/

/-- `lengths[i]` for every value, checked and summed (delta_length.c:93-101). -/
def sumLengths : List Int → Except (Fault Status) Nat
  | [] => .ok 0
  | length :: lengths => do
    if length < 0 then .error (.refused .decode)
    else
      let sum ← sumLengths lengths
      .ok (length.toNat + sum)

/-- The loop over the values (delta_length.c:113-118): where each one lies, from `offset` on. -/
def pointAt : List Int → Nat → Nat → List (Nat × Nat) → Except (Fault Status) (List (Nat × Nat))
  | [], _, _, values => .ok values
  | length :: lengths, i, offset, values => do
    let values ← storeAt values i (offset, length.toNat)
    pointAt lengths (i + 1) (offset + length.toNat) values

/-- `carquet_delta_length_decode` (delta_length.c:52-126). A value is a position in the input and a
length. -/
def deltaLengthDecodeAt (data : Bytes) (numValues : Int) (values : List (Nat × Nat)) :
    Except (Fault Status) (List (Nat × Nat) × Nat) :=
  if numValues < 0 then .error (.refused .invalidArgument)
  else if numValues = 0 then do
    let (_, consumed) ← deltaDecodeAt toI32 data 0 []
    .ok (values, consumed)
  else do
    let (lengths, consumed) ← deltaDecodeAt toI32 data numValues
      (List.replicate numValues.toNat 0)
    let total ← sumLengths lengths
    if data.length < consumed + total then .error (.refused .decode)
    else do
      let values ← pointAt lengths 0 consumed values
      .ok (values, consumed + total)

/-- The lengths, checked, and the sum of those of the suffixes (delta_strings.c:152-160). -/
def sumSuffixes : List Int → List Int → Except (Fault Status) Nat
  | prefixLen :: prefixes, suffixLen :: suffixes => do
    if suffixLen < 0 ∨ prefixLen < 0 then .error (.refused .decode)
    else
      let sum ← sumSuffixes prefixes suffixes
      .ok (suffixLen.toNat + sum)
  | _, _ => .ok 0

/-- The loop over the values (delta_strings.c:176-210). `prev` is where the value before lies, `work`
the work buffer. -/
def rebuildAt (data : Bytes) : List (Int × Int) → Nat → Nat → Nat → Option (Nat × Nat) → Bytes →
    List (Nat × Nat) → Except (Fault Status) (List (Nat × Nat) × Bytes)
  | [], _, _, _, _, work, values => .ok (values, work)
  | (prefixLen, suffixLen) :: more, i, pos, workOffset, prev, work, values => do
    let totalLen := ((prefixLen + suffixLen) % 4294967296).toNat
    if work.length < workOffset + totalLen then .error (.refused .outOfMemory)
    else if 0 < prefixLen ∧ (prev = none ∨ toI32 (prev.getD (0, 0)).2 < prefixLen) then
      .error (.refused .decode)
    else do
      let shared ← sliceAt work (prev.getD (0, 0)).1 prefixLen.toNat
      let work ← copyAt work workOffset shared
      let suffix ← sliceAt data pos suffixLen.toNat
      let work ← copyAt work (workOffset + prefixLen.toNat) suffix
      let values ← storeAt values i (workOffset, totalLen)
      rebuildAt data more (i + 1) (pos + suffixLen.toNat) (workOffset + totalLen)
        (some (workOffset, totalLen)) work values

/-- `carquet_delta_strings_decode` (delta_strings.c:81-218). A value is a position in the work buffer
and a length. -/
def deltaStringsDecodeAt (data : Bytes) (numValues : Int) (values : List (Nat × Nat))
    (work : Bytes) : Except (Fault Status) (List (Nat × Nat) × Bytes × Nat) :=
  if numValues < 0 then .error (.refused .invalidArgument)
  else if numValues = 0 then do
    let (_, c1) ← deltaDecodeAt toI32 data 0 []
    let (_, c2) ← deltaDecodeAt toI32 (data.drop c1) 0 []
    .ok (values, work, c1 + c2)
  else do
    let cells := List.replicate numValues.toNat 0
    let (prefixes, c1) ← deltaDecodeAt toI32 data numValues cells
    let (suffixes, c2) ← deltaDecodeAt toI32 (data.drop c1) numValues cells
    let total ← sumSuffixes prefixes suffixes
    if data.length < c1 + c2 + total then .error (.refused .decode)
    else do
      let (values, work) ← rebuildAt data (prefixes.zip suffixes) 0 (c1 + c2) 0 none work values
      .ok (values, work, c1 + c2 + total)

/-! ## The same decoders -/

/-- Where a rest of the input begins. -/
def posIn (data rest : Bytes) : Nat := data.length - rest.length

theorem drop_posIn {data rest : Bytes} (h : rest <:+ data) : data.drop (posIn data rest) = rest :=
  (List.suffix_iff_eq_drop.mp h).symm

theorem posIn_add {data rest : Bytes} (h : rest <:+ data) :
    posIn data rest + rest.length = data.length := by
  have := h.length_le
  unfold posIn
  omega

theorem posIn_drop {data rest : Bytes} (h : rest <:+ data) {n : Nat} (hn : n ≤ rest.length) :
    posIn data (rest.drop n) = posIn data rest + n := by
  have := h.length_le
  unfold posIn
  rw [List.length_drop]
  omega

theorem sliceAt_posIn {data rest : Bytes} (h : rest <:+ data) {n : Nat} (hn : n ≤ rest.length) :
    sliceAt (ε := Status) data (posIn data rest) n = .ok (rest.take n) := by
  have := posIn_add h
  rw [sliceAt_of_le (by omega), drop_posIn h]

theorem readUlebAt_eq (data : Bytes) (fuel pos shift value : Nat) (h : pos ≤ data.length) :
    readUlebAt data fuel pos shift value =
      .ok ((readUleb 64 fuel shift value (data.drop pos)).map fun r => (r.1, posIn data r.2)) := by
  induction fuel generalizing pos shift value with
  | zero => rfl
  | succ fuel ih =>
    unfold readUlebAt
    by_cases hpos : pos < data.length
    · have hrest : (data.drop (pos + 1)).length = data.length - (pos + 1) := List.length_drop
      rw [if_pos hpos, readAt_of_lt hpos, List.drop_eq_getElem_cons hpos]
      unfold readUleb
      dsimp only [bind, Except.bind]
      split
      · rw [Option.map_some, posIn, hrest, show data.length - (data.length - (pos + 1)) = pos + 1 by
          omega]
      · exact ih (pos + 1) (shift + 7) _ hpos
    · rw [if_neg hpos, List.drop_eq_nil_of_le (Nat.le_of_not_lt hpos)]
      rfl

theorem needUleb128At_eq {data rest : Bytes} (h : rest <:+ data) :
    needUleb128At data (posIn data rest) =
      match readUleb128 rest with
      | some r => .ok (r.1, posIn data r.2)
      | none => .error (.refused .decode) := by
  have hle : posIn data rest ≤ data.length := Nat.sub_le ..
  unfold needUleb128At readUleb128At
  rw [readUlebAt_eq data 10 _ 0 0 hle, drop_posIn h, readUleb128]
  cases readUleb 64 10 0 0 rest with
  | none => rfl
  | some r => rfl

/-- A decoder as the state it stands for. -/
def DeltaDecoder.stateIn (data : Bytes) (dec : DeltaDecoder) : DeltaState where
  pos := posIn data dec.rest
  blockSize := dec.blockSize
  miniBlocksPerBlock := dec.miniBlocksPerBlock
  firstValue := dec.firstValue
  minDelta := dec.minDelta
  bitWidths := dec.bitWidths ++ List.replicate (deltaMiniBlocks - dec.bitWidths.length) 0
  currentMiniBlock := dec.currentMiniBlock
  valuesInMiniBlock := dec.valuesInMiniBlock
  miniBlockValues := dec.miniBlockValues
  miniBlockPos := dec.miniBlockPos

/-- What keeps the accesses of a decoder inside: its header was checked. -/
structure DeltaDecoder.Fits (data : Bytes) (dec : DeltaDecoder) : Prop where
  suffix : dec.rest <:+ data
  miniBlocks : 0 < dec.miniBlocksPerBlock ∧ dec.miniBlocksPerBlock ≤ deltaMiniBlocks
  miniBlockSize : dec.blockSize / dec.miniBlocksPerBlock ≤ deltaMiniBlockSize
  values : dec.miniBlockValues.length = deltaMiniBlockSize
  valuesInMiniBlock : dec.valuesInMiniBlock ≤ deltaMiniBlockSize
  widths : dec.bitWidths.length = 0 ∨ dec.bitWidths.length = dec.miniBlocksPerBlock
  current : dec.currentMiniBlock < dec.miniBlocksPerBlock →
    dec.bitWidths.length = dec.miniBlocksPerBlock

theorem readUleb128_suffix {data rest : Bytes} {v : Nat} (h : readUleb128 data = some (v, rest)) :
    rest <:+ data := readUleb_suffix h

theorem deltaDecoderInitAt_eq (data : Bytes) :
    deltaDecoderInitAt data = settle ((deltaDecoderInit data).map (DeltaDecoder.stateIn data)) := by
  unfold deltaDecoderInitAt deltaDecoderInit
  have hstart : 0 = posIn data data := (Nat.sub_self _).symm
  rw [show needUleb128At data 0 = needUleb128At data (posIn data data) from congrArg _ hstart,
    needUleb128At_eq (List.suffix_refl data)]
  cases h1 : readUleb128 data with
  | none => rfl
  | some r1 =>
    obtain ⟨blockSize, rest1⟩ := r1
    have hsuffix1 := readUleb128_suffix h1
    dsimp only [bind, Except.bind]
    rw [needUleb128At_eq hsuffix1]
    cases h2 : readUleb128 rest1 with
    | none => rfl
    | some r2 =>
      obtain ⟨miniBlocks, rest2⟩ := r2
      have hsuffix2 := (readUleb128_suffix h2).trans hsuffix1
      dsimp only
      split
      · rfl
      · split
        · rfl
        · split
          · rfl
          · rw [needUleb128At_eq hsuffix2]
            cases h3 : readUleb128 rest2 with
            | none => rfl
            | some r3 =>
              obtain ⟨total, rest3⟩ := r3
              have hsuffix3 := (readUleb128_suffix h3).trans hsuffix2
              dsimp only
              rw [needUleb128At_eq hsuffix3]
              cases h4 : readUleb128 rest3 with
              | none => rfl
              | some r4 => simp only [Except.map, settle_ok, DeltaDecoder.stateIn, List.length_nil,
                  Nat.sub_zero, List.nil_append]

theorem fits_init {data : Bytes} {dec : DeltaDecoder} (h : deltaDecoderInit data = .ok dec) :
    dec.Fits data := by
  unfold deltaDecoderInit at h
  cases h1 : readUleb128 data with
  | none => rw [h1] at h; cases h
  | some r1 =>
    rw [h1] at h
    dsimp only at h
    cases h2 : readUleb128 r1.2 with
    | none => rw [h2] at h; cases h
    | some r2 =>
      rw [h2] at h
      dsimp only at h
      split at h
      · cases h
      · rename_i hminis
        split at h
        · cases h
        · rename_i hblock
          split at h
          · cases h
          · rename_i hsize
            cases h3 : readUleb128 r2.2 with
            | none => rw [h3] at h; cases h
            | some r3 =>
              rw [h3] at h
              dsimp only at h
              cases h4 : readUleb128 r3.2 with
              | none => rw [h4] at h; cases h
              | some r4 =>
                rw [h4] at h
                cases h
                generalize toI32 r2.1 = miniBlocks at *
                generalize toI32 r1.1 = blockSize at *
                push Not at hminis hblock hsize
                unfold deltaMiniBlocks at hminis
                have hquot : ((blockSize.toNat / miniBlocks.toNat : Nat) : Int) =
                    blockSize / miniBlocks := by
                  rw [Int.natCast_ediv, Int.toNat_of_nonneg (by omega),
                    Int.toNat_of_nonneg (by omega)]
                refine ⟨?_, ⟨by dsimp only; omega, ?_⟩, ?_, List.length_replicate, Nat.zero_le _,
                  .inl rfl, fun hlt => absurd hlt (Nat.lt_irrefl _)⟩
                · exact (readUleb128_suffix h4).trans ((readUleb128_suffix h3).trans
                    ((readUleb128_suffix h2).trans (readUleb128_suffix h1)))
                · unfold deltaMiniBlocks
                  dsimp only
                  omega
                · dsimp only
                  omega

theorem fits_readBlock {data : Bytes} {dec dec' : DeltaDecoder} (h : dec.Fits data)
    (hread : deltaReadBlock dec = .ok dec') :
    dec'.Fits data ∧ dec'.currentMiniBlock = 0 ∧ dec'.miniBlockPos = dec.miniBlockPos ∧
      dec'.blockSize = dec.blockSize ∧ dec'.miniBlocksPerBlock = dec.miniBlocksPerBlock := by
  unfold deltaReadBlock at hread
  split at hread
  · cases hread
  · split at hread
    · cases hread
    · rename_i minDelta rest hvarint
      split at hread
      · cases hread
      · rename_i hroom
        cases hread
        have hwidths : ((rest.take dec.miniBlocksPerBlock).map UInt8.toNat).length =
            dec.miniBlocksPerBlock := by
          rw [List.length_map, List.length_take]
          omega
        exact ⟨⟨(List.drop_suffix ..).trans ((readUleb128_suffix hvarint).trans h.suffix),
          h.miniBlocks, h.miniBlockSize, h.values, h.valuesInMiniBlock, .inr hwidths,
          fun _ => hwidths⟩, rfl, rfl, rfl, rfl⟩

theorem deltaReadBlockAt_eq {data : Bytes} {dec : DeltaDecoder} (h : dec.Fits data) :
    deltaReadBlockAt data (dec.stateIn data) =
      settle ((deltaReadBlock dec).map (DeltaDecoder.stateIn data)) := by
  have hend := posIn_add h.suffix
  unfold deltaReadBlockAt deltaReadBlock
  by_cases hempty : dec.rest = []
  · rw [if_pos (by show data.length ≤ posIn data dec.rest; rw [hempty]; exact Nat.le_refl _),
      if_pos (by rw [hempty]; rfl)]
    rfl
  · have hpos := List.length_pos_of_ne_nil hempty
    rw [if_neg (by show ¬ data.length ≤ posIn data dec.rest; omega),
      if_neg (by rwa [List.isEmpty_iff]),
      show (dec.stateIn data).pos = posIn data dec.rest from rfl, needUleb128At_eq h.suffix]
    cases hvarint : readUleb128 dec.rest with
    | none => rfl
    | some r =>
      obtain ⟨minDelta, rest⟩ := r
      have hsuffix := (readUleb128_suffix hvarint).trans h.suffix
      have hend' := posIn_add hsuffix
      dsimp only [bind, Except.bind]
      rw [show (dec.stateIn data).miniBlocksPerBlock = dec.miniBlocksPerBlock from rfl]
      by_cases hroom : rest.length < dec.miniBlocksPerBlock
      · rw [if_pos hroom, if_pos (by omega)]
        rfl
      · have hle := Nat.le_of_not_lt hroom
        have hcount : ((rest.take dec.miniBlocksPerBlock).map UInt8.toNat).length =
            dec.miniBlocksPerBlock := by
          rw [List.length_map, List.length_take]
          omega
        have hcells : (dec.stateIn data).bitWidths.length = deltaMiniBlocks := by
          show (dec.bitWidths ++ List.replicate _ 0).length = _
          rw [List.length_append, List.length_replicate]
          have := h.miniBlocks
          rcases h.widths with hw | hw <;> omega
        have hrest : (dec.stateIn data).bitWidths.drop dec.miniBlocksPerBlock =
            List.replicate (deltaMiniBlocks - dec.miniBlocksPerBlock) 0 := by
          show (dec.bitWidths ++ List.replicate _ 0).drop _ = _
          rcases h.widths with hw | hw
          · rw [List.eq_nil_of_length_eq_zero hw, List.nil_append, List.drop_replicate]
            rfl
          · rw [List.drop_left' hw, hw]
        rw [if_neg hroom, if_neg (by omega), sliceAt_posIn hsuffix hle]
        dsimp only
        rw [copyAt_of_le (by rw [hcount, hcells, Nat.zero_add]; exact h.miniBlocks.2)]
        dsimp only [Except.map, settle]
        rw [hcount, List.take_zero, List.nil_append, Nat.zero_add, hrest]
        simp only [DeltaDecoder.stateIn, hcount, posIn_drop hsuffix hle]

theorem bitunpackGroupsAt_eq (data : Bytes) (w n pos : Nat) (h : pos + n * w ≤ data.length) :
    bitunpackGroupsAt data w n pos = .ok (bitunpackGroups w n (data.drop pos)) := by
  induction n generalizing pos with
  | zero => rfl
  | succ n ih =>
    have hmul : (n + 1) * w = n * w + w := Nat.succ_mul n w
    have hgroup : ((data.drop pos).take w).length = w := by
      rw [List.length_take, List.length_drop]
      omega
    have hfirst : bitunpack8 w ((data.drop pos).take w) = bitunpack8 w (data.drop pos) := by
      conv_rhs => rw [← List.take_append_drop w (data.drop pos)]
      exact (bitunpack8_append _ _ hgroup).symm
    rw [bitunpackGroupsAt, bitunpackGroups, sliceAt_of_le (by omega), ih (pos + w) (by omega)]
    dsimp only [bind, Except.bind]
    rw [hfirst, List.drop_drop]

theorem bitunpack32At_eq {data : Bytes} {w count pos : Nat} (hw : w ≠ 0)
    (h : pos + (count * w + 7) / 8 ≤ data.length) :
    bitunpack32At data w count pos = .ok (bitunpack32 w count (data.drop pos)).1 := by
  have hbytes : (count * w + 7) / 8 = count / 8 * w + (count % 8 * w + 7) / 8 := by
    have hsplit : count * w = 8 * (count / 8 * w) + count % 8 * w := by
      conv_lhs => rw [← Nat.div_add_mod count 8]
      ring
    omega
  unfold bitunpack32At bitunpack32
  rw [bitunpackGroupsAt_eq data w (count / 8) pos (by omega), if_neg hw]
  dsimp only [bind, Except.bind]
  split
  · rfl
  · rw [sliceAt_of_le (by omega), List.drop_drop]

theorem wideAt_eq (data : Bytes) (width n pos : Nat) (h : pos + n * width ≤ data.length) :
    wideAt data width n pos = .ok ((splitChunks width n (data.drop pos)).map leNat) := by
  induction n generalizing pos with
  | zero => rfl
  | succ n ih =>
    have hmul : (n + 1) * width = n * width + width := Nat.succ_mul n width
    rw [wideAt, splitChunks, sliceAt_of_le (by omega), ih (pos + width) (by omega)]
    dsimp only [bind, Except.bind]
    rw [List.map_cons, List.drop_drop]

theorem deltaUnpackMiniAt_eq {data rest : Bytes} (h : rest <:+ data) (minDelta : Int)
    (bitWidth size : Nat) :
    deltaUnpackMiniAt data minDelta bitWidth size (posIn data rest) =
      settle ((deltaUnpackMini minDelta bitWidth size rest).map fun r => (r.1, posIn data r.2)) := by
  have hend := posIn_add h
  unfold deltaUnpackMiniAt deltaUnpackMini
  split
  · rfl
  · rename_i hzero
    split
    · dsimp only
      by_cases hroom : rest.length < (size * bitWidth + 7) / 8
      · rw [if_pos hroom, if_pos (by omega)]
        rfl
      · rw [if_neg hroom, if_neg (by omega), bitunpack32At_eq hzero (by omega), drop_posIn h]
        dsimp only [bind, Except.bind, Except.map, settle]
        rw [posIn_drop h (Nat.le_of_not_lt hroom)]
    · split
      · dsimp only
        by_cases hroom : rest.length < size * ((bitWidth + 7) / 8)
        · rw [if_pos hroom, if_pos (by omega)]
          rfl
        · rw [if_neg hroom, if_neg (by omega), wideAt_eq _ _ _ _ (by omega), drop_posIn h]
          dsimp only [bind, Except.bind, Except.map, settle]
          rw [posIn_drop h (Nat.le_of_not_lt hroom), List.map_map]
          rfl
      · rfl

theorem length_bitunpackGroups8 (w n : Nat) (input : Bytes) :
    (bitunpackGroups w n input).length = n * 8 := by
  induction n generalizing input with
  | zero => rfl
  | succ n ih =>
    rw [bitunpackGroups, List.length_append, length_bitunpack8, ih]
    ring

theorem length_bitunpack32 (w count : Nat) (input : Bytes) :
    (bitunpack32 w count input).1.length = count := by
  unfold bitunpack32
  split
  · exact List.length_replicate
  · dsimp only
    split
    · rw [length_bitunpackGroups8]
      omega
    · rw [List.length_append, length_bitunpackGroups8, List.length_take, length_bitunpack8]
      omega

/-- A mini-block has as many values as it should, and lies inside. -/
theorem deltaUnpackMini_ok {rest rest' : Bytes} {minDelta : Int} {bitWidth size : Nat}
    {values : List Int} (h : deltaUnpackMini minDelta bitWidth size rest = .ok (values, rest')) :
    values.length = size ∧ rest' <:+ rest := by
  unfold deltaUnpackMini at h
  split at h
  · cases h
    exact ⟨List.length_replicate, List.suffix_refl _⟩
  · rename_i hzero
    split at h
    · dsimp only at h
      split at h
      · cases h
      · cases h
        refine ⟨?_, List.drop_suffix ..⟩
        rw [List.length_map, length_bitunpack32]
    · split at h
      · dsimp only at h
        split at h
        · cases h
        · cases h
          exact ⟨by rw [List.length_map, length_splitChunks], List.drop_suffix ..⟩
      · cases h

theorem deltaEnsureBlockAt_eq {data : Bytes} {dec : DeltaDecoder} (h : dec.Fits data) :
    deltaEnsureBlockAt data (dec.stateIn data) =
      settle ((deltaEnsureBlock dec).map (DeltaDecoder.stateIn data)) := by
  unfold deltaEnsureBlockAt deltaEnsureBlock
  rw [show (dec.stateIn data).miniBlocksPerBlock = dec.miniBlocksPerBlock from rfl,
    show (dec.stateIn data).currentMiniBlock = dec.currentMiniBlock from rfl]
  split
  · exact deltaReadBlockAt_eq h
  · rfl

theorem fits_ensureBlock {data : Bytes} {dec dec' : DeltaDecoder} (h : dec.Fits data)
    (hensure : deltaEnsureBlock dec = .ok dec') :
    dec'.Fits data ∧ dec'.currentMiniBlock < dec'.miniBlocksPerBlock ∧
      dec'.blockSize = dec.blockSize ∧ dec'.miniBlocksPerBlock = dec.miniBlocksPerBlock := by
  unfold deltaEnsureBlock at hensure
  split at hensure
  · obtain ⟨hfits, hcurrent, -, hblock, hminis⟩ := fits_readBlock h hensure
    exact ⟨hfits, by rw [hcurrent]; exact hfits.miniBlocks.1, hblock, hminis⟩
  · rename_i hlt
    cases hensure
    exact ⟨h, Nat.lt_of_not_le hlt, rfl, rfl⟩

theorem fits_readMiniBlock {data : Bytes} {dec dec' : DeltaDecoder} (h : dec.Fits data)
    (hread : deltaReadMiniBlock dec = .ok dec') :
    dec'.Fits data ∧ dec'.miniBlockPos = 0 ∧
      dec'.valuesInMiniBlock = dec.blockSize / dec.miniBlocksPerBlock ∧
      dec'.blockSize = dec.blockSize ∧ dec'.miniBlocksPerBlock = dec.miniBlocksPerBlock := by
  obtain ⟨dec₁, hensure, hread⟩ := bind_eq_ok.mp hread
  obtain ⟨⟨values, rest⟩, hunpack, hread⟩ := bind_eq_ok.mp hread
  cases hread
  obtain ⟨hfits, hcurrent, hblock, hminis⟩ := fits_ensureBlock h hensure
  obtain ⟨hlength, hsuffix⟩ := deltaUnpackMini_ok hunpack
  have hsize := hfits.miniBlockSize
  refine ⟨⟨hsuffix.trans hfits.suffix, hfits.miniBlocks, hsize, ?_, hsize, hfits.widths,
    fun _ => hfits.current hcurrent⟩, rfl, ?_, hblock, hminis⟩
  · dsimp only
    rw [length_overlay, hlength, hfits.values]
    omega
  · dsimp only
    rw [hblock, hminis]

theorem deltaReadMiniBlockAt_eq {data : Bytes} {dec : DeltaDecoder} (h : dec.Fits data) :
    deltaReadMiniBlockAt data (dec.stateIn data) =
      settle ((deltaReadMiniBlock dec).map (DeltaDecoder.stateIn data)) := by
  unfold deltaReadMiniBlockAt deltaReadMiniBlock
  rw [deltaEnsureBlockAt_eq h]
  cases hensure : deltaEnsureBlock dec with
  | error e => rfl
  | ok dec₁ =>
    obtain ⟨hfits, hcurrent, -, -⟩ := fits_ensureBlock h hensure
    have hwidths := hfits.current hcurrent
    have hlt : dec₁.currentMiniBlock < dec₁.bitWidths.length := by omega
    have hcells : dec₁.currentMiniBlock < (dec₁.stateIn data).bitWidths.length := by
      show _ < (dec₁.bitWidths ++ List.replicate _ 0).length
      rw [List.length_append]
      omega
    have hwidth : (dec₁.stateIn data).bitWidths[dec₁.currentMiniBlock] =
        dec₁.bitWidths.getD dec₁.currentMiniBlock 0 := by
      rw [List.getD_eq_getElem _ _ hlt]
      exact List.getElem_append_left hlt
    dsimp only [bind, Except.bind, Except.map, settle]
    rw [show (dec₁.stateIn data).currentMiniBlock = dec₁.currentMiniBlock from rfl,
      readAt_of_lt hcells, hwidth]
    dsimp only
    rw [show (dec₁.stateIn data).pos = posIn data dec₁.rest from rfl,
      show (dec₁.stateIn data).minDelta = dec₁.minDelta from rfl,
      show (dec₁.stateIn data).blockSize = dec₁.blockSize from rfl,
      show (dec₁.stateIn data).miniBlocksPerBlock = dec₁.miniBlocksPerBlock from rfl,
      show (dec₁.stateIn data).miniBlockValues = dec₁.miniBlockValues from rfl,
      deltaUnpackMiniAt_eq hfits.suffix]
    cases hunpack : deltaUnpackMini dec₁.minDelta (dec₁.bitWidths.getD dec₁.currentMiniBlock 0)
        (dec₁.blockSize / dec₁.miniBlocksPerBlock) dec₁.rest with
    | error e => rfl
    | ok r =>
      obtain ⟨values, rest⟩ := r
      obtain ⟨hlength, -⟩ := deltaUnpackMini_ok hunpack
      have hsize := hfits.miniBlockSize
      have hvalues := hfits.values
      dsimp only [Except.map, settle]
      rw [copyAt_of_le (by omega), List.take_zero, List.nil_append, Nat.zero_add]
      rfl

theorem deltaEnsureMiniBlockAt_eq {data : Bytes} {dec : DeltaDecoder} (h : dec.Fits data) :
    deltaEnsureMiniBlockAt data (dec.stateIn data) =
      settle ((deltaEnsureMiniBlock dec).map (DeltaDecoder.stateIn data)) := by
  unfold deltaEnsureMiniBlockAt deltaEnsureMiniBlock
  rw [show (dec.stateIn data).valuesInMiniBlock = dec.valuesInMiniBlock from rfl,
    show (dec.stateIn data).miniBlockPos = dec.miniBlockPos from rfl]
  split
  · exact deltaReadMiniBlockAt_eq h
  · rfl

/-- Once a mini-block was made sure of, the next value is one of its cells. -/
theorem fits_ensureMiniBlock {data : Bytes} {dec dec' : DeltaDecoder} (h : dec.Fits data)
    (hensure : deltaEnsureMiniBlock dec = .ok dec') :
    dec'.Fits data ∧ dec'.miniBlockPos < deltaMiniBlockSize ∧
      dec'.blockSize = dec.blockSize ∧ dec'.miniBlocksPerBlock = dec.miniBlocksPerBlock := by
  unfold deltaEnsureMiniBlock at hensure
  split at hensure
  · obtain ⟨hfits, hpos, -, hblock, hminis⟩ := fits_readMiniBlock h hensure
    exact ⟨hfits, by rw [hpos]; decide, hblock, hminis⟩
  · rename_i hlt
    cases hensure
    have := h.valuesInMiniBlock
    exact ⟨h, by omega, rfl, rfl⟩

theorem fits_taken {data : Bytes} {dec : DeltaDecoder} (h : dec.Fits data) (pos : Nat) :
    ({ dec with miniBlockPos := pos } : DeltaDecoder).Fits data :=
  ⟨h.suffix, h.miniBlocks, h.miniBlockSize, h.values, h.valuesInMiniBlock, h.widths, h.current⟩

theorem fits_next {data : Bytes} {n : Nat} {dec dec' : DeltaDecoder} {values : List Int}
    (h : dec.Fits data) (hnext : deltaNext n dec = .ok (values, dec')) : dec'.Fits data := by
  induction n generalizing dec values with
  | zero =>
    cases hnext
    exact h
  | succ n ih =>
    obtain ⟨dec₁, vs, dec₂, hensure, hmore, heq⟩ := deltaNext_succ.mp hnext
    cases heq
    exact ih (fits_taken (fits_ensureMiniBlock h hensure).1 _) hmore

/-- The loop fills the cells from `i` on. -/
theorem deltaNextAt_eq {wrap : Int → Int} {data : Bytes} {n : Nat} {dec : DeltaDecoder}
    (h : dec.Fits data) (done old : List Int) (hold : old.length = n) :
    deltaNextAt wrap data n done.length (dec.stateIn data) (done ++ old) =
      settle ((deltaNext n dec).map fun r =>
        (done ++ r.1.map wrap, r.2.stateIn data)) := by
  induction n generalizing dec done old with
  | zero =>
    rw [List.eq_nil_of_length_eq_zero hold]
    rfl
  | succ n ih =>
    obtain ⟨cell, old, rfl⟩ : ∃ cell more, old = cell :: more := by
      cases old with
      | nil => cases hold
      | cons cell more => exact ⟨cell, more, rfl⟩
    unfold deltaNextAt deltaNext
    rw [deltaEnsureMiniBlockAt_eq h]
    cases hensure : deltaEnsureMiniBlock dec with
    | error e => rfl
    | ok dec₁ =>
      obtain ⟨hfits, hpos, -, -⟩ := fits_ensureMiniBlock h hensure
      have hlt : dec₁.miniBlockPos < dec₁.miniBlockValues.length := by
        rw [hfits.values]
        exact hpos
      dsimp only [bind, Except.bind, Except.map, settle]
      rw [show (dec₁.stateIn data).miniBlockValues = dec₁.miniBlockValues from rfl,
        show (dec₁.stateIn data).miniBlockPos = dec₁.miniBlockPos from rfl, readAt_of_lt hlt]
      dsimp only
      rw [storeAt_append, List.getD_eq_getElem _ _ hlt]
      dsimp only
      have hrest := ih (fits_taken hfits (dec₁.miniBlockPos + 1))
        (done ++ [wrap dec₁.miniBlockValues[dec₁.miniBlockPos]]) old (by simpa using hold)
      rw [List.length_append, List.length_singleton, List.append_assoc, List.singleton_append]
        at hrest
      refine hrest.trans ?_
      cases deltaNext n { dec₁ with miniBlockPos := dec₁.miniBlockPos + 1 } with
      | error e => rfl
      | ok r =>
        dsimp only [Except.map, settle]
        rw [List.append_assoc]
        rfl

theorem prefixSumAt_eq (wrap : Int → Int) (sum : Int) (done vs : List Int) :
    prefixSumAt wrap vs.length done.length sum (done ++ vs) =
      .ok (done ++ prefixSum wrap sum vs) := by
  induction vs generalizing sum done with
  | nil => rfl
  | cons v vs ih =>
    rw [List.length_cons, prefixSumAt, readAt_append]
    dsimp only [bind, Except.bind]
    rw [storeAt_append]
    dsimp only
    have hrest := ih (wrap (sum + v)) (done ++ [wrap (sum + v)])
    rw [List.length_append, List.length_singleton, List.append_assoc, List.singleton_append]
      at hrest
    rw [hrest, prefixSum, List.append_assoc]
    rfl

/-- **The integer decoders keep inside**: the input and the `n` cells they were given. -/
theorem deltaDecodeAt_eq (wrap : Int → Int) (data : Bytes) (n : Nat) (values : List Int)
    (hvalues : values.length = n) :
    deltaDecodeAt wrap data n values =
      settle ((deltaDecode wrap data n).map fun r => (r.1, posIn data r.2)) := by
  unfold deltaDecodeAt deltaDecode
  rw [deltaDecoderInitAt_eq]
  cases hinit : deltaDecoderInit data with
  | error e => rfl
  | ok dec =>
    have hfits := fits_init hinit
    dsimp only [bind, Except.bind, Except.map, settle]
    cases n with
    | zero =>
      rw [List.eq_nil_of_length_eq_zero hvalues]
      rfl
    | succ n =>
      obtain ⟨cell, old, rfl⟩ : ∃ cell more, values = cell :: more := by
        cases values with
        | nil => cases hvalues
        | cons cell more => exact ⟨cell, more, rfl⟩
      have hstore := @storeAt_append Status _ [] old cell
        (wrap dec.firstValue)
      rw [List.nil_append, List.length_nil, List.nil_append] at hstore
      have hnext := @deltaNextAt_eq wrap _ _ _ hfits [wrap dec.firstValue] old
        (Nat.succ.inj hvalues)
      rw [List.length_singleton, List.singleton_append] at hnext
      rw [if_neg (by omega), if_neg (by omega),
        show (dec.stateIn data).firstValue = dec.firstValue from rfl, hstore,
        show ((n + 1 : Nat) - 1 : Int).toNat = n by omega, Nat.add_sub_cancel]
      dsimp only
      rw [hnext]
      cases hdeltas : deltaNext n dec with
      | error e => rfl
      | ok r =>
        obtain ⟨deltas, dec'⟩ := r
        have hlength := length_deltaNext hdeltas
        have hsum := prefixSumAt_eq wrap (wrap dec.firstValue) [wrap dec.firstValue]
          (deltas.map wrap)
        rw [List.length_map, hlength, List.length_singleton, List.singleton_append] at hsum
        dsimp only [Except.map, settle]
        rw [List.singleton_append, hsum]
        rfl

theorem suffix_deltaDecode {wrap : Int → Int} {data rest : Bytes} {n : Nat} {values : List Int}
    (h : deltaDecode wrap data n = .ok (values, rest)) : rest <:+ data := by
  obtain ⟨dec, hinit, h⟩ := bind_eq_ok.mp h
  have hfits := fits_init hinit
  split at h
  · cases h
    exact hfits.suffix
  · obtain ⟨⟨deltas, dec'⟩, hnext, h⟩ := bind_eq_ok.mp h
    cases h
    exact (fits_next hfits hnext).suffix

/-! ## The strings, where they lie -/

/-- The bytes of a value. -/
def spanOf (mem : Bytes) (span : Nat × Nat) : Bytes := (mem.drop span.1).take span.2

/-- Consecutive spans of the given lengths. -/
def spansFrom : Nat → List Nat → List (Nat × Nat)
  | _, [] => []
  | pos, n :: ns => (pos, n) :: spansFrom (pos + n) ns

/-- Spans that lie in an array. -/
def SpansIn (size : Nat) (spans : List (Nat × Nat)) : Prop := ∀ s ∈ spans, s.1 + s.2 ≤ size

theorem map_spanOf_spansFrom (data : Bytes) (pos : Nat) (ns : List Nat) :
    (spansFrom pos ns).map (spanOf data) = carve ns (data.drop pos) := by
  induction ns generalizing pos with
  | nil => rfl
  | cons n ns ih => rw [spansFrom, List.map_cons, ih, carve, List.drop_drop, spanOf]

theorem spansIn_spansFrom {size pos : Nat} {ns : List Nat} (h : pos + ns.sum ≤ size) :
    SpansIn size (spansFrom pos ns) := by
  induction ns generalizing pos with
  | nil => exact fun s hs => absurd hs List.not_mem_nil
  | cons n ns ih =>
    rw [List.sum_cons] at h
    exact List.forall_mem_cons.mpr ⟨by dsimp only; omega, ih (by omega)⟩

theorem sumLengths_eq (lengths : List Int) :
    sumLengths lengths = if lengths.any (· < 0) then .error (.refused .decode)
      else .ok (lengths.map Int.toNat).sum := by
  induction lengths with
  | nil => rfl
  | cons length lengths ih =>
    rw [sumLengths, ih, List.any_cons, List.map_cons, List.sum_cons]
    by_cases hneg : length < 0
    · rw [if_pos hneg, if_pos (by simp [hneg])]
    · rw [if_neg hneg]
      cases hany : lengths.any (· < 0) with
      | true => rw [if_pos rfl, if_pos (by simp)]; rfl
      | false =>
        rw [if_neg (by decide), if_neg (by simp [hneg])]
        rfl

theorem pointAt_eq (lengths : List Int) (offset : Nat) (done old : List (Nat × Nat))
    (hold : old.length = lengths.length) :
    pointAt lengths done.length offset (done ++ old) =
      .ok (done ++ spansFrom offset (lengths.map Int.toNat)) := by
  induction lengths generalizing offset done old with
  | nil =>
    rw [List.eq_nil_of_length_eq_zero hold]
    rfl
  | cons length lengths ih =>
    obtain ⟨cell, old, rfl⟩ : ∃ cell more, old = cell :: more := by
      cases old with
      | nil => cases hold
      | cons cell more => exact ⟨cell, more, rfl⟩
    have hrest := ih (offset + length.toNat) (done ++ [(offset, length.toNat)]) old
      (Nat.succ.inj hold)
    rw [List.length_append, List.length_singleton, List.append_assoc, List.singleton_append]
      at hrest
    rw [pointAt, storeAt_append]
    dsimp only [bind, Except.bind]
    rw [hrest, List.append_assoc]
    rfl

/-- **DELTA_LENGTH_BYTE_ARRAY keeps inside**, and so do the values that it points at. -/
theorem deltaLengthDecodeAt_eq (data : Bytes) (n : Nat) (values : List (Nat × Nat))
    (hvalues : values.length = n) : ∃ x : Except Status (List (Nat × Nat) × Nat),
    deltaLengthDecodeAt data n values = settle x ∧
    x.map (fun r => (r.1.map (spanOf data), r.2)) =
      (deltaLengthDecode data n).map (fun r => (r.1, posIn data r.2)) ∧
    ∀ r, x = .ok r → SpansIn data.length r.1 := by
  have hdecode := deltaDecodeAt_eq toI32 data n (List.replicate n 0) List.length_replicate
  unfold deltaLengthDecodeAt deltaLengthDecode
  rw [if_neg (by omega)]
  by_cases hn : n = 0
  · subst hn
    obtain rfl := List.eq_nil_of_length_eq_zero hvalues
    rw [List.replicate_zero, Nat.cast_zero] at hdecode
    rw [if_pos Nat.cast_zero, hdecode]
    unfold deltaDecodeInt32
    cases hresult : deltaDecode toI32 data 0 with
    | error e => exact ⟨.error e, rfl, rfl, fun r hr => by cases hr⟩
    | ok r =>
      obtain ⟨lengths, rest⟩ := r
      obtain rfl := List.eq_nil_of_length_eq_zero (length_deltaDecode hresult)
      refine ⟨.ok ([], posIn data rest), rfl, ?_, ?_⟩
      · dsimp only [bind, Except.bind]
        rw [if_neg (by decide), if_neg (by simp)]
        rfl
      · intro r hr
        cases hr
        exact fun s hs => absurd hs List.not_mem_nil
  · rw [if_neg (by omega), Int.toNat_natCast, hdecode]
    unfold deltaDecodeInt32
    cases hresult : deltaDecode toI32 data n with
    | error e => exact ⟨.error e, rfl, rfl, fun r hr => by cases hr⟩
    | ok r =>
      obtain ⟨lengths, rest⟩ := r
      have hlength := length_deltaDecode hresult
      have hsuffix := suffix_deltaDecode hresult
      have hend := posIn_add hsuffix
      dsimp only [bind, Except.bind, Except.map, settle]
      rw [sumLengths_eq]
      by_cases hneg : lengths.any (· < 0) = true
      · rw [if_pos hneg, if_pos hneg]
        exact ⟨.error .decode, rfl, rfl, fun r hr => by cases hr⟩
      · rw [if_neg hneg, if_neg hneg]
        dsimp only
        by_cases hroom : rest.length < (lengths.map Int.toNat).sum
        · rw [if_pos hroom, if_pos (by omega)]
          exact ⟨.error .decode, rfl, rfl, fun r hr => by cases hr⟩
        · have hpoint := pointAt_eq lengths (posIn data rest) [] values (by omega)
          rw [List.nil_append, List.nil_append, List.length_nil] at hpoint
          rw [if_neg hroom, if_neg (by omega), hpoint]
          refine ⟨.ok (_, _), rfl, ?_, ?_⟩
          · dsimp only
            rw [map_spanOf_spansFrom, drop_posIn hsuffix,
              posIn_drop hsuffix (Nat.le_of_not_lt hroom)]
          · intro r hr
            cases hr
            exact spansIn_spansFrom (by omega)

/-- Both lengths of a value, as the decoder has them. -/
def castPair (p : Nat × Nat) : Int × Int := (p.1, p.2)

/-- What the loop over the strings does is what `rebuildStrings` says: `written` is what the work
buffer holds, `prev` where the value before lies in it. -/
theorem rebuildAt_eq {data : Bytes} (pairs : List (Nat × Nat))
    (hpairs : ∀ p ∈ pairs, p.1 < 2147483648 ∧ p.2 < 2147483648) (pos : Nat)
    (hpos : pos + (pairs.map Prod.snd).sum ≤ data.length) (written free : Bytes)
    (prev : Option (Nat × Nat)) (hprev : ∀ s, prev = some s →
      s.1 + s.2 ≤ written.length ∧ s.2 < 4294967296)
    (done old : List (Nat × Nat)) (hold : old.length = pairs.length)
    (hdone : SpansIn written.length done) :
    ∃ x : Except Status (List (Nat × Nat) × Bytes),
      rebuildAt data (pairs.map castPair) done.length pos written.length prev (written ++ free)
        (done ++ old) = settle x ∧
      x.map (fun r => r.1.map (spanOf r.2)) =
        (rebuildStrings pairs (data.drop pos) (prev.map (spanOf written)) written.length
          (written.length + free.length)).map (done.map (spanOf written) ++ ·) ∧
      ∀ r, x = .ok r → r.2.length = written.length + free.length ∧
        SpansIn (written.length + free.length) r.1 ∧ r.1.length = done.length + old.length := by
  induction pairs generalizing pos written free prev done old with
  | nil =>
    obtain rfl := List.eq_nil_of_length_eq_zero hold
    have hspans : done.map (spanOf (written ++ free)) = done.map (spanOf written) := by
      refine List.map_congr_left fun s hs => ?_
      have := hdone s hs
      unfold spanOf
      rw [List.drop_append_of_le_length (by omega), List.take_append_of_le_length (by
        rw [List.length_drop]; omega)]
    refine ⟨.ok (done, written ++ free), by rw [List.append_nil]; rfl, ?_, ?_⟩
    · dsimp only [Except.map, rebuildStrings]
      rw [hspans, List.append_nil]
    · intro r hr
      cases hr
      refine ⟨List.length_append, fun s hs => ?_, rfl⟩
      have := hdone s hs
      omega
  | cons pair pairs ih =>
    obtain ⟨prefixLen, suffixLen⟩ := pair
    obtain ⟨cell, old, rfl⟩ : ∃ cell more, old = cell :: more := by
      cases old with
      | nil => cases hold
      | cons cell more => exact ⟨cell, more, rfl⟩
    obtain ⟨hlt, hmore⟩ := List.forall_mem_cons.mp hpairs
    rw [List.map_cons, List.sum_cons] at hpos
    dsimp only at hlt hpos
    have htotal : (((prefixLen : Int) + suffixLen) % 4294967296).toNat = prefixLen + suffixLen := by
      omega
    rw [List.map_cons, castPair]
    unfold rebuildAt rebuildStrings
    dsimp only
    rw [htotal, List.length_append]
    by_cases hroom : written.length + free.length < written.length + (prefixLen + suffixLen)
    · rw [if_pos hroom, if_pos hroom]
      exact ⟨.error .outOfMemory, rfl, rfl, fun r hr => by cases hr⟩
    · rw [if_neg hroom, if_neg hroom]
      have hspan : ∀ s, prev = some s → (spanOf written s).length = s.2 := by
        intro s hs
        have := (hprev s hs).1
        unfold spanOf
        rw [List.length_take, List.length_drop]
        omega
      have hguard : (0 < (prefixLen : Int) ∧
            (prev = none ∨ toI32 ((prev.getD (0, 0)).2 : Nat) < prefixLen)) ↔
          (0 < prefixLen ∧ (prev.map (spanOf written) = none ∨
            toI32 (((prev.map (spanOf written)).getD []).length : Nat) < prefixLen)) := by
        cases prev with
        | none => simp
        | some s =>
          have hs := hspan s rfl
          simp only [Option.map_some, Option.getD_some, hs]
          simp
      by_cases hbad : 0 < prefixLen ∧ (prev.map (spanOf written) = none ∨
          toI32 (((prev.map (spanOf written)).getD []).length : Nat) < prefixLen)
      · rw [if_pos hbad, if_pos (hguard.mpr hbad)]
        exact ⟨.error .decode, rfl, rfl, fun r hr => by cases hr⟩
      · rw [if_neg hbad, if_neg (fun h => hbad (hguard.mp h))]
        -- the prefix lies in the value before
        have hshared : sliceAt (ε := Status) (written ++ free) (prev.getD (0, 0)).1 prefixLen =
              .ok (((prev.map (spanOf written)).getD []).take prefixLen) ∧
            (((prev.map (spanOf written)).getD []).take prefixLen).length = prefixLen := by
          by_cases hzero : prefixLen = 0
          · subst hzero
            have hstart : (prev.getD (0, 0)).1 ≤ written.length := by
              cases prev with
              | none => exact Nat.zero_le _
              | some s =>
                have := (hprev s rfl).1
                exact Nat.le_trans (Nat.le_add_right ..) this
            rw [sliceAt_of_le (by rw [List.length_append]; omega), List.take_zero, List.take_zero]
            exact ⟨rfl, rfl⟩
          · cases prev with
            | none => exact absurd ⟨by omega, .inl rfl⟩ hbad
            | some s =>
              obtain ⟨hin, hlarge⟩ := hprev s rfl
              have hs := hspan s rfl
              have hle : prefixLen ≤ s.2 := by
                by_contra hgt
                refine hbad ⟨by omega, .inr ?_⟩
                rw [Option.map_some, Option.getD_some, hs]
                unfold toI32
                omega
              rw [Option.map_some, Option.getD_some, Option.getD_some,
                sliceAt_of_le (by rw [List.length_append]; omega),
                List.drop_append_of_le_length (by omega),
                List.take_append_of_le_length (by rw [List.length_drop]; omega)]
              unfold spanOf
              rw [List.take_take, Nat.min_eq_left hle]
              refine ⟨rfl, ?_⟩
              rw [List.length_take, List.length_drop]
              omega
        obtain ⟨hslice, hsharedlen⟩ := hshared
        generalize ((prev.map (spanOf written)).getD []).take prefixLen = shared at hslice hsharedlen
        have hsuffixlen : ((data.drop pos).take suffixLen).length = suffixLen := by
          rw [List.length_take, List.length_drop]
          omega
        have hcopy := @copyAt_append Status _ written (free.take prefixLen)
          (free.drop prefixLen) shared (by rw [List.length_take, hsharedlen]; omega)
        rw [List.take_append_drop] at hcopy
        have hcopy' := @copyAt_append Status _ (written ++ shared)
          ((free.drop prefixLen).take suffixLen)
          ((free.drop prefixLen).drop suffixLen) ((data.drop pos).take suffixLen)
          (by rw [List.length_take, List.length_drop, hsuffixlen]; omega)
        rw [List.take_append_drop, List.append_assoc, List.length_append, hsharedlen,
          List.append_assoc] at hcopy'
        have hstore := @storeAt_append Status _ done old cell
          (written.length, prefixLen + suffixLen)
        dsimp only [bind, Except.bind]
        rw [Int.toNat_natCast, Int.toNat_natCast, hslice]
        dsimp only
        rw [hcopy]
        dsimp only
        rw [sliceAt_of_le (by omega)]
        dsimp only
        rw [hcopy']
        dsimp only
        rw [hstore]
        dsimp only
        generalize hsuffix : (data.drop pos).take suffixLen = suffix at hsuffixlen
        have hspans : ∀ s : Nat × Nat, s.1 + s.2 ≤ written.length →
            spanOf (written ++ (shared ++ suffix)) s = spanOf written s := by
          intro s hs
          unfold spanOf
          rw [List.drop_append_of_le_length (by omega), List.take_append_of_le_length (by
            rw [List.length_drop]; omega)]
        have hnew : spanOf (written ++ (shared ++ suffix)) (written.length, prefixLen + suffixLen) =
            shared ++ suffix := by
          unfold spanOf
          rw [List.drop_left' rfl, List.take_of_length_le (by
            rw [List.length_append]; dsimp only; omega)]
        have hlen : (written ++ (shared ++ suffix)).length =
            written.length + (prefixLen + suffixLen) := by
          rw [List.length_append, List.length_append]
          omega
        obtain ⟨x, hrun, hmap, hok⟩ := ih hmore (pos + suffixLen) (by omega)
          (written ++ (shared ++ suffix)) ((free.drop prefixLen).drop suffixLen)
          (some (written.length, prefixLen + suffixLen))
          (by
            intro s hs
            cases hs
            rw [hlen]
            dsimp only
            omega)
          (done ++ [(written.length, prefixLen + suffixLen)]) old (Nat.succ.inj hold)
          (by
            intro s hs
            rw [hlen]
            rcases List.mem_append.mp hs with hs | hs
            · have := hdone s hs
              omega
            · rw [List.mem_singleton.mp hs])
        have hfree : ((free.drop prefixLen).drop suffixLen).length =
            free.length - (prefixLen + suffixLen) := by
          rw [List.length_drop, List.length_drop]
          omega
        rw [hlen, hfree, show written.length + (prefixLen + suffixLen) +
          (free.length - (prefixLen + suffixLen)) = written.length + free.length by omega]
          at hmap hok
        rw [hlen, List.length_append, List.length_singleton, List.append_assoc, List.append_assoc,
          List.append_assoc, List.singleton_append] at hrun
        rw [List.length_append, List.length_singleton] at hok
        refine ⟨x, hrun, hmap.trans ?_, ?_⟩
        · rw [Option.map_some, hnew, List.drop_drop, List.map_append, List.map_singleton, hnew]
          have hdonemap : done.map (spanOf (written ++ (shared ++ suffix))) =
              done.map (spanOf written) :=
            List.map_congr_left fun s hs => hspans s (hdone s hs)
          rw [hdonemap]
          cases rebuildStrings pairs (data.drop (pos + suffixLen)) (some (shared ++ suffix))
              (written.length + (prefixLen + suffixLen)) (written.length + free.length) with
          | error e => rfl
          | ok vs =>
            dsimp only [Except.map]
            rw [List.append_assoc]
            rfl
        · intro r hr
          obtain ⟨h1, h2, h3⟩ := hok r hr
          refine ⟨h1, h2, ?_⟩
          rw [h3, List.length_cons]
          omega

theorem sumSuffixes_eq (prefixes suffixes : List Int) (h : prefixes.length = suffixes.length) :
    sumSuffixes prefixes suffixes =
      if suffixes.any (· < 0) ∨ prefixes.any (· < 0) then .error (.refused .decode)
      else .ok (suffixes.map Int.toNat).sum := by
  induction prefixes generalizing suffixes with
  | nil =>
    rw [List.eq_nil_of_length_eq_zero h.symm]
    rfl
  | cons prefixLen prefixes ih =>
    obtain ⟨suffixLen, suffixes, rfl⟩ : ∃ c more, suffixes = c :: more := by
      cases suffixes with
      | nil => cases h
      | cons c more => exact ⟨c, more, rfl⟩
    rw [sumSuffixes, ih suffixes (Nat.succ.inj h), List.any_cons, List.any_cons, List.map_cons,
      List.sum_cons]
    by_cases hneg : suffixLen < 0 ∨ prefixLen < 0
    · rw [if_pos hneg, if_pos (by rcases hneg with hneg | hneg <;> simp [hneg])]
    · rw [if_neg hneg]
      push Not at hneg
      by_cases hany : suffixes.any (· < 0) = true ∨ prefixes.any (· < 0) = true
      · rw [if_pos hany, if_pos (by rcases hany with hany | hany <;> simp [hany])]
        rfl
      · rw [if_neg hany, if_neg (by
          push Not at hany
          simp [hany, Int.not_lt.mpr hneg.1, Int.not_lt.mpr hneg.2])]
        rfl

theorem deltaDecodeInt32_lt {data rest : Bytes} {n : Nat} {values : List Int}
    (h : deltaDecodeInt32 data n = .ok (values, rest)) : ∀ v ∈ values, v < 2147483648 := by
  have hwrap : ∀ x, toI32 x < 2147483648 := by
    intro x
    unfold toI32
    omega
  have hsum : ∀ (vs : List Int) (sum : Int), ∀ v ∈ prefixSum toI32 sum vs, v < 2147483648 := by
    intro vs
    induction vs with
    | nil => exact fun _ v hv => absurd hv List.not_mem_nil
    | cons u us ih => exact fun sum => List.forall_mem_cons.mpr ⟨hwrap _, ih _⟩
  obtain ⟨dec, -, h⟩ := bind_eq_ok.mp h
  split at h
  · cases h
    exact fun v hv => absurd hv List.not_mem_nil
  · obtain ⟨⟨deltas, dec'⟩, -, h⟩ := bind_eq_ok.mp h
    cases h
    exact List.forall_mem_cons.mpr ⟨hwrap _, hsum _ _⟩

/-- **DELTA_BYTE_ARRAY keeps inside**: the input, the work buffer and the `n` cells it was given. -/
theorem deltaStringsDecodeAt_eq (data : Bytes) (n : Nat) (values : List (Nat × Nat)) (work : Bytes)
    (hvalues : values.length = n) : ∃ x : Except Status (List (Nat × Nat) × Bytes × Nat),
    deltaStringsDecodeAt data n values work = settle x ∧
    x.map (fun r => (r.1.map (spanOf r.2.1), r.2.2)) =
      (deltaStringsDecode data n work.length).map (fun r => (r.1, posIn data r.2)) ∧
    ∀ r, x = .ok r → r.2.1.length = work.length ∧ SpansIn work.length r.1 := by
  have hposIn : ∀ {rest more : Bytes}, rest <:+ data → more <:+ rest →
      posIn data rest + posIn rest more = posIn data more := by
    intro rest more h1 h2
    have hle1 := h1.length_le
    have hle2 := h2.length_le
    unfold posIn
    omega
  have hdecode := deltaDecodeAt_eq toI32 data n (List.replicate n 0) List.length_replicate
  unfold deltaStringsDecodeAt deltaStringsDecode deltaStringsLengths
  rw [if_neg (by omega)]
  by_cases hn : n = 0
  · subst hn
    obtain rfl := List.eq_nil_of_length_eq_zero hvalues
    rw [List.replicate_zero, Nat.cast_zero] at hdecode
    rw [if_pos Nat.cast_zero, hdecode]
    unfold deltaDecodeInt32
    cases hresult : deltaDecode toI32 data 0 with
    | error e => exact ⟨.error e, rfl, rfl, fun r hr => by cases hr⟩
    | ok r =>
      obtain ⟨prefixes, rest⟩ := r
      obtain rfl := List.eq_nil_of_length_eq_zero (length_deltaDecode hresult)
      have hsuffix := suffix_deltaDecode hresult
      have hdecode' := deltaDecodeAt_eq toI32 rest 0 [] rfl
      rw [Nat.cast_zero] at hdecode'
      dsimp only [bind, Except.bind, Except.map, settle]
      rw [drop_posIn hsuffix, hdecode']
      cases hresult' : deltaDecode toI32 rest 0 with
      | error e => exact ⟨.error e, rfl, rfl, fun r hr => by cases hr⟩
      | ok r =>
        obtain ⟨suffixes, more⟩ := r
        obtain rfl := List.eq_nil_of_length_eq_zero (length_deltaDecode hresult')
        have hsuffix' := suffix_deltaDecode hresult'
        refine ⟨.ok ([], work, posIn data rest + posIn rest more), rfl, ?_, ?_⟩
        · rw [hposIn hsuffix hsuffix']
          rfl
        · intro r hr
          cases hr
          exact ⟨rfl, fun s hs => absurd hs List.not_mem_nil⟩
  · rw [if_neg (by omega), Int.toNat_natCast]
    dsimp only
    rw [hdecode]
    unfold deltaDecodeInt32
    cases hresult : deltaDecode toI32 data n with
    | error e => exact ⟨.error e, rfl, rfl, fun r hr => by cases hr⟩
    | ok r =>
      obtain ⟨prefixes, rest⟩ := r
      have hlength := length_deltaDecode hresult
      have hsuffix := suffix_deltaDecode hresult
      have hdecode' := deltaDecodeAt_eq toI32 rest n (List.replicate n 0) List.length_replicate
      dsimp only [bind, Except.bind, Except.map, settle]
      rw [drop_posIn hsuffix, hdecode']
      cases hresult' : deltaDecode toI32 rest n with
      | error e => exact ⟨.error e, rfl, rfl, fun r hr => by cases hr⟩
      | ok r =>
        obtain ⟨suffixes, more⟩ := r
        have hlength' := length_deltaDecode hresult'
        have hsuffix' := suffix_deltaDecode hresult'
        have hend := posIn_add (hsuffix'.trans hsuffix)
        dsimp only [bind, Except.bind, Except.map, settle]
        rw [sumSuffixes_eq prefixes suffixes (by omega)]
        by_cases hneg : suffixes.any (· < 0) = true ∨ prefixes.any (· < 0) = true
        · rw [if_pos hneg, if_pos hneg]
          exact ⟨.error .decode, rfl, rfl, fun r hr => by cases hr⟩
        · rw [if_neg hneg, if_neg hneg]
          dsimp only
          rw [hposIn hsuffix hsuffix']
          by_cases hroom : more.length < (suffixes.map Int.toNat).sum
          · rw [if_pos hroom, if_pos (by omega)]
            exact ⟨.error .decode, rfl, rfl, fun r hr => by cases hr⟩
          · rw [if_neg hroom, if_neg (by omega)]
            push Not at hneg
            have hcast : ∀ {vs : List Int}, vs.any (· < 0) ≠ true →
                ∀ v ∈ vs, ((v.toNat : Nat) : Int) = v := by
              intro vs hvs v hv
              refine Int.toNat_of_nonneg ?_
              by_contra hlt
              exact hvs (List.any_eq_true.mpr ⟨v, hv, by simpa using hlt⟩)
            have hpairs : prefixes.zip suffixes =
                ((prefixes.map Int.toNat).zip (suffixes.map Int.toNat)).map castPair := by
              rw [List.zip_map, List.map_map]
              refine ((List.map_congr_left fun p hp => ?_).trans (List.map_id _)).symm
              obtain ⟨h1, h2⟩ := List.of_mem_zip hp
              show ((p.1.toNat : Int), (p.2.toNat : Int)) = p
              rw [hcast hneg.2 p.1 h1, hcast hneg.1 p.2 h2]
            have hlt : ∀ p ∈ (prefixes.map Int.toNat).zip (suffixes.map Int.toNat),
                p.1 < 2147483648 ∧ p.2 < 2147483648 := by
              intro p hp
              obtain ⟨h1, h2⟩ := List.of_mem_zip hp
              obtain ⟨v, hv, hv'⟩ := List.mem_map.mp h1
              obtain ⟨u, hu, hu'⟩ := List.mem_map.mp h2
              have := deltaDecodeInt32_lt hresult v hv
              have := deltaDecodeInt32_lt hresult' u hu
              omega
            have hzip : ((prefixes.map Int.toNat).zip (suffixes.map Int.toNat)).length = n := by
              rw [List.length_zip, List.length_map, List.length_map]
              omega
            have hsnd : ((prefixes.map Int.toNat).zip (suffixes.map Int.toNat)).map Prod.snd =
                suffixes.map Int.toNat := by
              rw [List.map_snd_zip]
              rw [List.length_map, List.length_map]
              omega
            obtain ⟨x, hrun, hmap, hok⟩ := @rebuildAt_eq data _ hlt (posIn data more)
              (by rw [hsnd]; omega) [] work none (fun s hs => by cases hs) [] values
              (by rw [hzip, hvalues]) (fun s hs => absurd hs List.not_mem_nil)
            rw [← hpairs, List.nil_append, List.nil_append, List.length_nil] at hrun
            rw [drop_posIn (hsuffix'.trans hsuffix), Option.map_none, List.length_nil,
              Nat.zero_add, List.map_nil] at hmap
            rw [List.length_nil, Nat.zero_add] at hok
            rw [List.length_nil] at hrun
            rw [hrun]
            cases x with
            | error e =>
              refine ⟨.error e, rfl, ?_, fun r hr => by cases hr⟩
              cases hrebuild : rebuildStrings ((prefixes.map Int.toNat).zip
                  (suffixes.map Int.toNat)) more none 0 work.length with
              | error e' =>
                rw [hrebuild] at hmap
                obtain rfl : e = e' := Except.error.inj hmap
                rfl
              | ok vs =>
                rw [hrebuild] at hmap
                cases hmap
            | ok r =>
              obtain ⟨spans, work'⟩ := r
              obtain ⟨hworklen, hspans, -⟩ := hok _ rfl
              refine ⟨.ok (spans, work', _), rfl, ?_, ?_⟩
              · cases hrebuild : rebuildStrings ((prefixes.map Int.toNat).zip
                    (suffixes.map Int.toNat)) more none 0 work.length with
                | error e' =>
                  rw [hrebuild] at hmap
                  cases hmap
                | ok vs =>
                  rw [hrebuild] at hmap
                  have hvs : spans.map (spanOf work') = vs := Except.ok.inj hmap
                  dsimp only [Except.map]
                  rw [hvs, posIn_drop (hsuffix'.trans hsuffix) (Nat.le_of_not_lt hroom)]
              · intro r hr
                cases hr
                exact ⟨hworklen, hspans⟩

end Carquet
