import Carquet.Core.BitpackTouch
import Carquet.Encoding.RleEncode

/-!
# Levels behind a length prefix

`carquet_rle_decode_levels_prefixed` (rle.c:747-775) and the bytes it reads: the level decoder once
more, over the bytes behind the prefix as far as there are any, told a size that it trusts. A read
past the end of the input is the fault `outside`.

The prefix is tested by `4 + rle_length > input_size`, a sum in 32 bits: a prefix of `2^32 - 4` or
more wraps and passes (`rleDecodeLevelsPrefixed_iff`). With every other prefix the decoder is told
a size that is there, and reads nothing else (`rleDecodeLevelsIn_eq`).
-/

namespace Carquet

open LittleEndian Access

/-! ## Model -/

/-- The header loop (rle.c:530-538) from `pos` on. -/
def readLevelHeaderIn (input : Bytes) (inputSize : Nat) :
    Nat → Nat → Nat → Nat → Except (Fault Empty) (Nat × Nat)
  | 0, _, header, pos => .ok (header, pos)
  | fuel + 1, shift, header, pos =>
    if pos < inputSize then do
      let b ← readAt input pos
      let header := header ||| ((b.toNat % 128) <<< shift) % 2 ^ 32
      if b.toNat < 128 then .ok (header, pos + 1)
      else readLevelHeaderIn input inputSize fuel (shift + 7) header (pos + 1)
    else .ok (header, pos)

/-- The bulk path (rle.c:575-592): `n` values in chunks of 256. -/
def bulkLevelsIn (d : Dispatch) (bitWidth : Nat) (input : Bytes) :
    Nat → Nat → Nat → Except (Fault Empty) (List Nat × Nat)
  | 0, _, pos => .ok ([], pos)
  | fuel + 1, n, pos =>
    if n = 0 then .ok ([], pos)
    else do
      let chunk := min n 256
      let (tmp, used) ← bitunpack32In d bitWidth chunk (input.drop pos)
      let (more, pos) ← bulkLevelsIn d bitWidth input fuel (n - chunk) (pos + used)
      .ok (tmp ++ more, pos)

/-- `carquet_bitunpack8_32` on a group at `pos`. -/
def bitunpack8In (d : Dispatch) (bitWidth : Nat) (input : Bytes) (pos : Nat) :
    Except (Fault Empty) (List Nat) :=
  if bitWidth = 0 then .ok (List.replicate 8 0)
  else readGroups (d.groupKernel bitWidth) bitWidth input 1 pos

/-- The per-group loop (rle.c:594-612). -/
def groupLevelsIn (d : Dispatch) (bitWidth : Nat) (input : Bytes) (inputSize : Nat) :
    Nat → Nat → Nat → Except (Fault Empty) (List Nat × Nat)
  | 0, _, pos => .ok ([], pos)
  | numGroups + 1, count, pos =>
    if count = 0 then .ok ([], pos)
    else if inputSize < pos + bitWidth then .ok ([], pos)
    else do
      let temp ← bitunpack8In d bitWidth input pos
      let (more, pos) ← groupLevelsIn d bitWidth input inputSize numGroups (count - min 8 count)
        (pos + bitWidth)
      .ok (temp.take (min 8 count) ++ more, pos)

/-- A bit-packed run (rle.c:563-612). -/
def packedLevelsIn (d : Dispatch) (bitWidth : Nat) (input : Bytes) (inputSize n count pos : Nat) :
    Except (Fault Empty) (List Nat × Nat) :=
  if 1 ≤ bitWidth ∧ n ≤ (inputSize - pos) / bitWidth ∧ n * 8 ≤ count then
    bulkLevelsIn d bitWidth input (n * 8) (n * 8) pos
  else groupLevelsIn d bitWidth input inputSize n count pos

/-- The outer loop (rle.c:528-613); `count` is `max_values - count`. -/
def decodeLevelRunsIn (d : Dispatch) (bitWidth : Nat) (input : Bytes) (inputSize : Nat) :
    Nat → Nat → Nat → Except (Fault Empty) (List Nat)
  | 0, _, _ => .ok []
  | fuel + 1, count, pos =>
    if count = 0 ∨ inputSize ≤ pos then .ok []
    else do
      let (header, pos) ← readLevelHeaderIn input inputSize 5 0 0 pos
      let n := header / 2
      if n = 0 then decodeLevelRunsIn d bitWidth input inputSize fuel count pos
      else if header % 2 = 0 then
        let valueBytes := rleValueBytes bitWidth
        if inputSize < pos + valueBytes then .ok []
        else do
          let value ← sliceAt input pos valueBytes
          let toFill := min n count
          let more ← decodeLevelRunsIn d bitWidth input inputSize fuel (count - toFill)
            (pos + valueBytes)
          .ok (List.replicate toFill (leNat value % 2 ^ bitWidth) ++ more)
      else do
        let (values, pos) ← packedLevelsIn d bitWidth input inputSize n count pos
        let more ← decodeLevelRunsIn d bitWidth input inputSize fuel (count - values.length) pos
        .ok (values ++ more)

/-- `carquet_rle_decode_levels` (rle.c:509-615), told that `inputSize` bytes are there. -/
def rleDecodeLevelsIn (d : Dispatch) (input : Bytes) (inputSize : Nat) (bitWidth : Int)
    (maxValues : Nat) : Except (Fault Empty) (List Int) :=
  if bitWidth < 0 ∨ 32 < bitWidth then .ok []
  else (decodeLevelRunsIn d bitWidth.toNat input inputSize inputSize maxValues 0).map
    fun levels => levels.map fun v : Nat => toI16 v

/-- What `carquet_rle_decode_levels_prefixed` gives: the number returned, the levels, and
`bytes_consumed`. -/
structure PrefixedLevels where
  returned : Int
  levels : List Int
  bytesConsumed : Nat

/-- `carquet_rle_decode_levels_prefixed` (rle.c:747-775). -/
def rleDecodeLevelsPrefixed (d : Dispatch) (input : Bytes) (bitWidth : Int) (maxValues : Nat) :
    Except (Fault Empty) PrefixedLevels :=
  if input.length < 4 then .ok ⟨-1, [], 0⟩
  else do
    let rleLength := leNat (← sliceAt input 0 4)
    if input.length < (4 + rleLength) % 2 ^ 32 then .ok ⟨-1, [], 0⟩
    else do
      let levels ← rleDecodeLevelsIn d (input.drop 4) rleLength bitWidth maxValues
      .ok ⟨levels.length, levels, (4 + rleLength) % 2 ^ 32⟩

/-! ## A size that is there -/

/-- A reader over the input does what one over the first `inputSize` bytes does, and stops at the
same place. -/
def Follows {β : Type} (window : Bytes) (run : Except (Fault Empty) (β × Nat)) (result : β × Bytes) :
    Prop :=
  ∃ pos, pos ≤ window.length ∧ result.2 = window.drop pos ∧ run = .ok (result.1, pos)

variable {d : Dispatch} {input : Bytes} {inputSize : Nat}

theorem window_drop_take (pos n : Nat) (h : pos + n ≤ inputSize) :
    ((input.take inputSize).drop pos).take n = (input.drop pos).take n := by
  rw [List.drop_take, List.take_take, Nat.min_eq_left (by omega)]

theorem length_window (hsize : inputSize ≤ input.length) : (input.take inputSize).length = inputSize := by
  rw [List.length_take, Nat.min_eq_left hsize]

theorem readLevelHeaderIn_follows (hsize : inputSize ≤ input.length) (fuel shift header : Nat)
    {pos : Nat} (hpos : pos ≤ inputSize) :
    Follows (input.take inputSize) (readLevelHeaderIn input inputSize fuel shift header pos)
      (readLevelHeader fuel shift header ((input.take inputSize).drop pos)) := by
  have hwindow := length_window hsize
  induction fuel generalizing shift header pos with
  | zero => exact ⟨pos, by omega, rfl, rfl⟩
  | succ fuel ih =>
    rw [readLevelHeaderIn]
    by_cases hlt : pos < inputSize
    · have hcons : (input.take inputSize).drop pos =
          input[pos] :: (input.take inputSize).drop (pos + 1) := by
        rw [List.drop_eq_getElem_cons (by omega), List.getElem_take]
      rw [if_pos hlt, readAt_of_lt (by omega), hcons, readLevelHeader]
      dsimp only [bind, Except.bind]
      by_cases hlast : input[pos].toNat < 128
      · rw [if_pos hlast, if_pos hlast]
        exact ⟨pos + 1, by omega, rfl, rfl⟩
      · rw [if_neg hlast, if_neg hlast]
        exact ih _ _ hlt
    · rw [if_neg hlt, List.drop_eq_nil_of_le (by omega), readLevelHeader]
      exact ⟨pos, by omega, (List.drop_eq_nil_of_le (by omega)).symm, rfl⟩

theorem bitunpackGroups_window {w n pos : Nat} (hsize : inputSize ≤ input.length)
    (h : pos + n * w ≤ inputSize) :
    bitunpackGroups w n (input.drop pos) = bitunpackGroups w n ((input.take inputSize).drop pos) := by
  rw [← bitunpackGroups_take (by rw [List.length_drop]; omega), ← window_drop_take pos (n * w) h,
    bitunpackGroups_take (by rw [List.length_drop, length_window hsize]; omega)]

theorem bulkLevelsIn_follows (hsize : inputSize ≤ input.length) {w : Nat} (hw0 : w ≠ 0)
    (hw : w ≤ 32) (fuel m : Nat) {pos : Nat} (h : pos + m * w ≤ inputSize) :
    Follows (input.take inputSize) (bulkLevelsIn d w input fuel (m * 8) pos)
      (bulkLevels w fuel (m * 8) ((input.take inputSize).drop pos)) := by
  have hwindow := length_window hsize
  induction fuel generalizing m pos with
  | zero => exact ⟨pos, by omega, rfl, rfl⟩
  | succ fuel ih =>
    rw [bulkLevelsIn, bulkLevels]
    by_cases hz : m * 8 = 0
    · rw [if_pos hz, if_pos hz]
      exact ⟨pos, by omega, rfl, rfl⟩
    · obtain ⟨g, hg⟩ : ∃ g, min (m * 8) 256 = g * 8 := ⟨min m 32, by omega⟩
      have hgm : g ≤ m := by omega
      have hroom : g * w ≤ m * w := Nat.mul_le_mul_right w hgm
      have hsub : m * 8 - g * 8 = (m - g) * 8 := by omega
      have hmul : (m - g) * w = m * w - g * w := Nat.sub_mul m g w
      have hpacked : packedSize (g * 8) w = g * w := by
        have := packedSize_add g 0 w
        rwa [packedSize_zero_left, Nat.add_zero, Nat.add_zero] at this
      have hunpack : ∀ xs : Bytes, bitunpack32 w (g * 8) xs = (bitunpackGroups w g xs, g * w) := by
        intro xs
        rw [bitunpack32, if_neg hw0, Nat.mul_div_cancel g (by decide), Nat.mul_mod_left]
        rfl
      rw [if_neg hz, if_neg hz]
      dsimp only
      rw [hg, bitunpack32In_eq d hw, hpacked, if_pos (by rw [List.length_drop]; omega), hunpack,
        hunpack, bitunpackGroups_window hsize (by omega), hsub]
      dsimp only [bind, Except.bind]
      rw [List.drop_drop]
      obtain ⟨pos', hpos', hrest, hrun⟩ := @ih (m - g) (pos + g * w) (by omega)
      rw [hrun]
      exact ⟨pos', hpos', hrest, rfl⟩

theorem bitunpack8In_eq (hsize : inputSize ≤ input.length) {w pos : Nat}
    (h : pos + w ≤ inputSize) :
    bitunpack8In d w input pos = .ok (bitunpack8 w ((input.take inputSize).drop pos)) := by
  unfold bitunpack8In
  by_cases hz : w = 0
  · subst hz
    rw [if_pos rfl, bitunpack8, if_pos rfl]
  · have hone := bitunpackGroups_window (n := 1) (w := w) hsize (by omega : pos + 1 * w ≤ inputSize)
    rw [if_neg hz, readGroups_group d w 1 (by omega), if_pos (by omega), hone, bitunpackGroups_one]

theorem groupLevelsIn_follows (hsize : inputSize ≤ input.length) (w n count : Nat) {pos : Nat}
    (hpos : pos ≤ inputSize) :
    Follows (input.take inputSize) (groupLevelsIn d w input inputSize n count pos)
      (groupLevels w n count ((input.take inputSize).drop pos)) := by
  have hwindow := length_window hsize
  induction n generalizing count pos with
  | zero => exact ⟨pos, by omega, rfl, rfl⟩
  | succ n ih =>
    rw [groupLevelsIn, groupLevels]
    by_cases hz : count = 0
    · rw [if_pos hz, if_pos hz]
      exact ⟨pos, by omega, rfl, rfl⟩
    · rw [if_neg hz, if_neg hz]
      by_cases hshort : inputSize < pos + w
      · rw [if_pos hshort, if_pos (by rw [List.length_drop]; omega)]
        exact ⟨pos, by omega, rfl, rfl⟩
      · rw [if_neg hshort, if_neg (by rw [List.length_drop]; omega), bitunpack8In_eq hsize (by omega)]
        dsimp only [bind, Except.bind]
        rw [List.drop_drop]
        obtain ⟨pos', hpos', hrest, hrun⟩ := @ih (count - min 8 count) (pos + w) (by omega)
        rw [hrun]
        exact ⟨pos', hpos', hrest, rfl⟩

/-- Either path of a bit-packed run. -/
theorem packedLevelsIn_follows (hsize : inputSize ≤ input.length) {w : Nat} (hw : w ≤ 32)
    (n count : Nat) {pos : Nat} (hpos : pos ≤ inputSize) :
    Follows (input.take inputSize) (packedLevelsIn d w input inputSize n count pos)
      (if 1 ≤ w ∧ n ≤ ((input.take inputSize).drop pos).length / w ∧ n * 8 ≤ count then
        bulkLevels w (n * 8) (n * 8) ((input.take inputSize).drop pos)
      else groupLevels w n count ((input.take inputSize).drop pos)) := by
  rw [packedLevelsIn, List.length_drop, length_window hsize]
  by_cases hbulk : 1 ≤ w ∧ n ≤ (inputSize - pos) / w ∧ n * 8 ≤ count
  · rw [if_pos hbulk, if_pos hbulk]
    have hroom := (Nat.le_div_iff_mul_le (by omega)).mp hbulk.2.1
    exact bulkLevelsIn_follows hsize (by omega) hw _ n (by omega)
  · rw [if_neg hbulk, if_neg hbulk]
    exact groupLevelsIn_follows hsize w n count hpos

theorem decodeLevelRunsIn_eq (hsize : inputSize ≤ input.length) {w : Nat} (hw : w ≤ 32)
    (fuel count : Nat) {pos : Nat} (hpos : pos ≤ inputSize) :
    decodeLevelRunsIn d w input inputSize fuel count pos =
      .ok (decodeLevelRuns w fuel count ((input.take inputSize).drop pos)) := by
  have hwindow := length_window hsize
  induction fuel generalizing count pos with
  | zero => rfl
  | succ fuel ih =>
    rw [decodeLevelRunsIn, decodeLevelRuns]
    by_cases hend : count = 0 ∨ inputSize ≤ pos
    · rw [if_pos hend, if_pos (hend.imp_right fun hle => by simp; omega)]
    · rw [if_neg hend, if_neg (by simp; omega)]
      obtain ⟨pos₁, hpos₁, hrest₁, hrun₁⟩ := readLevelHeaderIn_follows hsize 5 0 0 hpos
      rw [hwindow] at hpos₁
      rw [hrun₁]
      generalize readLevelHeader 5 0 0 ((input.take inputSize).drop pos) = read at hrest₁ ⊢
      obtain ⟨header, rest₁⟩ := read
      dsimp only [bind, Except.bind] at hrest₁ ⊢
      subst hrest₁
      by_cases hempty : header / 2 = 0
      · rw [if_pos hempty, if_pos hempty]
        exact ih count hpos₁
      · rw [if_neg hempty, if_neg hempty]
        by_cases heven : header % 2 = 0
        · rw [if_pos heven, if_pos heven]
          by_cases hshort : inputSize < pos₁ + rleValueBytes w
          · rw [if_pos hshort, if_pos (by rw [List.length_drop]; omega)]
          · rw [if_neg hshort, if_neg (by rw [List.length_drop]; omega), sliceAt_of_le (by omega),
              ← @window_drop_take input inputSize pos₁ _ (by omega)]
            dsimp only
            rw [ih _ (by omega : pos₁ + rleValueBytes w ≤ inputSize), List.drop_drop]
        · rw [if_neg heven, if_neg heven]
          obtain ⟨pos₂, hpos₂, hrest₂, hrun₂⟩ :=
            packedLevelsIn_follows (d := d) hsize hw (header / 2) count hpos₁
          rw [hwindow] at hpos₂
          rw [hrun₂]
          dsimp only
          rw [ih _ hpos₂, ← hrest₂]

/-- Told a size that is there, the decoder reads those bytes and no others. -/
theorem rleDecodeLevelsIn_eq (d : Dispatch) (hsize : inputSize ≤ input.length) (bitWidth : Int)
    (maxValues : Nat) : rleDecodeLevelsIn d input inputSize bitWidth maxValues =
      .ok (rleDecodeLevels (input.take inputSize) bitWidth maxValues) := by
  unfold rleDecodeLevelsIn rleDecodeLevels
  by_cases hwidth : bitWidth < 0 ∨ 32 < bitWidth
  · rw [if_pos hwidth, if_pos hwidth]
  · rw [if_neg hwidth, if_neg hwidth, decodeLevelRunsIn_eq hsize (by omega) _ _ (Nat.zero_le _),
      length_window hsize, List.drop_zero]
    rfl

/-! ## The prefix -/

/-- The number that the prefix holds. -/
def lengthPrefix (input : Bytes) : Nat := leNat (input.take 4)

/-- Either the input is refused, or no byte outside was read and what was consumed lies inside. -/
def StaysInside (input : Bytes) (result : Except (Fault Empty) PrefixedLevels) : Prop :=
  ∃ r, result = .ok r ∧
    (r.returned = -1 ∨ r.bytesConsumed = 4 + lengthPrefix input ∧ 4 + lengthPrefix input ≤ input.length)

theorem lengthPrefix_lt (input : Bytes) : lengthPrefix input < 2 ^ 32 := by
  have h := leNat_lt (input.take 4)
  have hle : (256 : Nat) ^ (input.take 4).length ≤ 256 ^ 4 :=
    Nat.pow_le_pow_right (by decide) (List.length_take_le _ _)
  unfold lengthPrefix
  omega

theorem rleDecodeLevelsPrefixed_eq (d : Dispatch) {input : Bytes} (h : 4 ≤ input.length)
    (bitWidth : Int) (maxValues : Nat) : rleDecodeLevelsPrefixed d input bitWidth maxValues =
      if input.length < (4 + lengthPrefix input) % 2 ^ 32 then .ok ⟨-1, [], 0⟩
      else (rleDecodeLevelsIn d (input.drop 4) (lengthPrefix input) bitWidth maxValues).map
        fun levels => ⟨levels.length, levels, (4 + lengthPrefix input) % 2 ^ 32⟩ := by
  unfold rleDecodeLevelsPrefixed
  rw [if_neg (by omega), sliceAt_of_le (by omega), List.drop_zero]
  dsimp only [bind, Except.bind]
  rw [← lengthPrefix]
  split
  · rfl
  · cases rleDecodeLevelsIn d (input.drop 4) (lengthPrefix input) bitWidth maxValues <;> rfl

theorem staysInside_iff (d : Dispatch) (input : Bytes) (bitWidth : Int) (maxValues : Nat) :
    StaysInside input (rleDecodeLevelsPrefixed d input bitWidth maxValues) ↔
      input.length < 4 ∨ lengthPrefix input < 4294967292 := by
  have hlt := lengthPrefix_lt input
  by_cases hshort : input.length < 4
  · have hrefused : rleDecodeLevelsPrefixed d input bitWidth maxValues = .ok ⟨-1, [], 0⟩ :=
      if_pos hshort
    exact ⟨fun _ => Or.inl hshort, fun _ => ⟨_, hrefused, Or.inl rfl⟩⟩
  · rw [rleDecodeLevelsPrefixed_eq d (by omega)]
    constructor
    · rintro ⟨r, hr, hin⟩
      by_contra hc
      rw [if_neg (by omega)] at hr
      cases hrun : rleDecodeLevelsIn d (input.drop 4) (lengthPrefix input) bitWidth maxValues with
      | error e =>
        rw [hrun] at hr
        cases hr
      | ok levels =>
        rw [hrun] at hr
        obtain rfl := Except.ok.inj hr
        rcases hin with hneg | ⟨hsum, -⟩
        · dsimp only at hneg
          omega
        · dsimp only at hsum
          omega
    · intro hprefix
      by_cases hfits : input.length < (4 + lengthPrefix input) % 2 ^ 32
      · exact ⟨_, if_pos hfits, Or.inl rfl⟩
      · have hroom : lengthPrefix input ≤ (input.drop 4).length := by
          rw [List.length_drop]
          omega
        rw [if_neg hfits, rleDecodeLevelsIn_eq d hroom]
        exact ⟨_, rfl, Or.inr ⟨by dsimp only; omega, by omega⟩⟩

/-- **The prefix is trusted from `2^32 - 4` on.** For every input, width and number of values asked
for, `carquet_rle_decode_levels_prefixed` refuses the input or stays inside and reports what it
consumed, if and only if the input is too short for a prefix or the prefix is below `2^32 - 4`.
Levels that fit the width and of which none stands `2^31` times in a row come back from their
length-prefixed encoding, whatever follows. -/
theorem rleDecodeLevelsPrefixed_iff (d : Dispatch) (input : Bytes) (bitWidth : Int)
    (maxValues : Nat) (w : Nat) (levels : List Int) (maxLevel : Int) (rest : Bytes) (hw : w ≤ 32)
    (hmax : maxLevel < 32768) (hlevels : ∀ l ∈ levels, 0 ≤ l ∧ l ≤ maxLevel ∧ l < 2 ^ w)
    (hruns : RunsBelow (levels.map toU32))
    (hbytes : (rleEncodeLevels w levels).length < 4294967296) :
    (StaysInside input (rleDecodeLevelsPrefixed d input bitWidth maxValues) ↔
        input.length < 4 ∨ lengthPrefix input < 4294967292) ∧
      (rleDecodeLevelsPrefixed d (leBytes 4 (rleEncodeLevels w levels).length ++
          rleEncodeLevels w levels ++ rest) w levels.length).map (fun r => (r.returned, r.levels)) =
        .ok (levels.length, levels) := by
  refine ⟨staysInside_iff d input bitWidth maxValues, ?_⟩
  have hprefix : (leBytes 4 (rleEncodeLevels w levels).length).length = 4 := length_leBytes _ _
  have hvalue : lengthPrefix (leBytes 4 (rleEncodeLevels w levels).length ++
      rleEncodeLevels w levels ++ rest) = (rleEncodeLevels w levels).length := by
    rw [lengthPrefix, List.append_assoc, List.take_left' hprefix, leNat_leBytes_of_lt hbytes]
  have hholds : Holds w (rleEncodeLevels w levels) (levels.map toU32) := by
    refine holds_rleEncodeAll_of_runs ?_ hruns
    intro v hv
    obtain ⟨l, hl, rfl⟩ := List.mem_map.mp hv
    obtain ⟨h0, hle, hlt⟩ := hlevels l hl
    have hnat : toU32 l = l.toNat := by
      rw [toU32]
      omega
    rw [hnat]
    exact_mod_cast (Int.toNat_of_nonneg h0).symm ▸ hlt
  rw [rleDecodeLevelsPrefixed_eq d (by rw [List.length_append, List.length_append]; omega), hvalue,
    List.append_assoc, List.drop_left' hprefix, if_neg (by
      rw [List.length_append, List.length_append, hprefix]
      omega),
    rleDecodeLevelsIn_eq d (by rw [List.length_append]; omega), List.take_left' rfl,
    rleDecodeLevels_of_holds hw hmax (fun l hl => ⟨(hlevels l hl).1, (hlevels l hl).2.1⟩) hholds]
  rfl

/-- Nine levels, with two bytes behind them; and a prefix that is longer than its input. -/
theorem nineLevels_comeBack :
    (StaysInside [9, 0, 0, 0, 2, 1] (rleDecodeLevelsPrefixed .scalar [9, 0, 0, 0, 2, 1] 1 3) ↔
        [9, 0, 0, 0, 2, 1].length < 4 ∨ lengthPrefix [9, 0, 0, 0, 2, 1] < 4294967292) ∧
      (rleDecodeLevelsPrefixed .scalar (leBytes 4 (rleEncodeLevels 1 [1, 1, 1, 1, 1, 1, 1, 1, 0]).length ++
          rleEncodeLevels 1 [1, 1, 1, 1, 1, 1, 1, 1, 0] ++ [7, 7]) (1 : Nat)
          [1, 1, 1, 1, 1, 1, 1, 1, 0].length).map (fun r => (r.returned, r.levels)) =
        .ok ([1, 1, 1, 1, 1, 1, 1, 1, 0].length, [1, 1, 1, 1, 1, 1, 1, 1, 0]) :=
  rleDecodeLevelsPrefixed_iff .scalar _ 1 3 1 [1, 1, 1, 1, 1, 1, 1, 1, 0] 1 [7, 7] (by decide)
    (by decide) (by decide) (.of_length (by decide)) (by decide)

/-- A prefix of `2^32 - 1` and nothing behind it. -/
theorem longPrefix_leaves : ¬ ∀ (d : Dispatch) (input : Bytes) (bitWidth : Int) (maxValues : Nat),
    StaysInside input (rleDecodeLevelsPrefixed d input bitWidth maxValues) := by
  intro h
  exact absurd ((staysInside_iff .scalar _ 1 8).mp (h .scalar [255, 255, 255, 255] 1 8)) (by decide)

end Carquet
