import Carquet.Encoding.RleDefects
import Carquet.Reader.BatchColumn

/-!
# RLE / bit-packed hybrid: presence bitmaps

`carquet_rle_decode_to_bitmap` (rle.c:619-711) is a third parser of the hybrid streams, for levels
of one bit: it has no array of levels, but sets the bit of each value that is present. It goes from
run to run as the level decoder does, past defects too, so it is the level decoder followed by the
store of one bit for each level (`decodeBitmapRuns_eq`), and what it leaves in the bitmap is what
`scalar_build_null_bitmap` builds of the levels (`decodeToBitmap_eq`).
-/

namespace Carquet

open LittleEndian Leb128

/-! ## The decoder -/

/-- `count`, `bitmap` and `nn_count`. -/
structure BitmapDecode where
  count : Nat
  bitmap : Bytes
  nonNull : Nat
  deriving DecidableEq, Repr

/-- `bitmap[idx / 8] |= (uint8_t)(1 << (idx % 8))`. -/
def setPresent (bitmap : Bytes) (idx : Nat) : Bytes := orAt bitmap (idx / 8) (2 ^ (idx % 8))

/-- The loop over a repeated run of present values (rle.c:664-668), `n` of them from `idx` on. -/
def fillPresent : Nat → Nat → Bytes → Bytes
  | 0, _, bitmap => bitmap
  | n + 1, idx, bitmap => fillPresent n (idx + 1) (setPresent bitmap idx)

/-- The loop over the bits of a packed byte (rle.c:694-702), from bit `i` on. -/
def storeBits (packedByte count : Nat) : Nat → Nat → Bytes × Nat → Bytes × Nat
  | 0, _, s => s
  | n + 1, i, s =>
    storeBits packedByte count n (i + 1)
      (if packedByte / 2 ^ i % 2 = 1 then (setPresent s.1 (count + i), s.2 + 1) else s)

/-- The loop over the groups of a bit-packed run (rle.c:684-704). -/
def bitmapGroups (maxValues : Nat) : Nat → BitmapDecode → Bytes → BitmapDecode × Bytes
  | 0, s, input => (s, input)
  | numGroups + 1, s, input =>
    if s.count < maxValues then
      match input with
      | [] => (s, [])
      | packedByte :: rest =>
        let toStore := min 8 (maxValues - s.count)
        let stored := storeBits packedByte.toNat s.count toStore 0 (s.bitmap, s.nonNull)
        bitmapGroups maxValues numGroups ⟨s.count + toStore, stored.1, stored.2⟩ rest
    else (s, input)

/-- The outer loop (rle.c:639-706). Every pass reads a byte. -/
def decodeBitmapRuns (maxValues : Nat) : Nat → BitmapDecode → Bytes → BitmapDecode
  | 0, s, _ => s
  | fuel + 1, s, input =>
    if maxValues ≤ s.count ∨ input.isEmpty then s
    else
      let h := readLevelHeader 5 0 0 input
      let n := h.1 / 2
      if h.1 % 2 = 0 then
        if n = 0 then decodeBitmapRuns maxValues fuel s h.2
        else
          match h.2 with
          | [] => s
          | value :: rest =>
            let toFill := min n (maxValues - s.count)
            if value.toNat % 2 = 1 then
              decodeBitmapRuns maxValues fuel
                ⟨s.count + toFill, fillPresent toFill s.count s.bitmap, s.nonNull + toFill⟩ rest
            else decodeBitmapRuns maxValues fuel { s with count := s.count + toFill } rest
      else if n = 0 then decodeBitmapRuns maxValues fuel s h.2
      else
        let r := bitmapGroups maxValues n s h.2
        decodeBitmapRuns maxValues fuel r.1 r.2

/-- `carquet_rle_decode_to_bitmap` (rle.c:619-711). -/
def decodeToBitmap (input bitmap : Bytes) (maxValues : Int) : BitmapDecode :=
  if maxValues ≤ 0 ∨ input.isEmpty then ⟨0, bitmap, 0⟩
  else
    let size := (maxValues.toNat + 7) / 8
    decodeBitmapRuns maxValues.toNat input.length
      ⟨0, List.replicate size 0 ++ bitmap.drop size, 0⟩ input

/-! ## Bit by bit -/

/-- The store of one level. -/
def BitmapDecode.store (s : BitmapDecode) (level : Nat) : BitmapDecode :=
  if level = 1 then ⟨s.count + 1, setPresent s.bitmap s.count, s.nonNull + 1⟩
  else { s with count := s.count + 1 }

theorem store_absent {s : BitmapDecode} {level : Nat} (h : level ≠ 1) (n : Nat) :
    (List.replicate n level).foldl BitmapDecode.store s = { s with count := s.count + n } := by
  induction n generalizing s with
  | zero => rfl
  | succ n ih =>
    rw [List.replicate_succ, List.foldl_cons, BitmapDecode.store, if_neg h, ih]
    simp only [Nat.add_assoc, Nat.add_comm 1]

theorem store_present (s : BitmapDecode) (n : Nat) :
    (List.replicate n 1).foldl BitmapDecode.store s =
      ⟨s.count + n, fillPresent n s.count s.bitmap, s.nonNull + n⟩ := by
  induction n generalizing s with
  | zero => rfl
  | succ n ih =>
    rw [List.replicate_succ, List.foldl_cons, ih, BitmapDecode.store, if_pos rfl, fillPresent]
    simp only [Nat.add_assoc, Nat.add_comm 1]

/-- The bits of a packed byte from bit `i` on. -/
theorem storeBits_eq (packedByte count bitmap nonNull) (n i : Nat) :
    let stored := storeBits packedByte count n i (bitmap, nonNull)
    ((List.range' i n).map fun j => packedByte / 2 ^ j % 2).foldl BitmapDecode.store
        ⟨count + i, bitmap, nonNull⟩ = ⟨count + (i + n), stored.1, stored.2⟩ := by
  induction n generalizing i bitmap nonNull with
  | zero => rfl
  | succ n ih =>
    have hadd : i + (n + 1) = i + 1 + n := by omega
    rw [List.range'_succ, List.map_cons, List.foldl_cons, BitmapDecode.store, storeBits, hadd]
    split
    · exact ih (setPresent bitmap (count + i)) (nonNull + 1) (i + 1)
    · exact ih bitmap nonNull (i + 1)

/-- A group of one-bit values is a byte. -/
theorem bitunpack8_one (b : UInt8) (rest : Bytes) :
    bitunpack8 1 (b :: rest) = (List.range' 0 8).map fun j => b.toNat / 2 ^ j % 2 := by
  have happ : bitunpack8 1 ([b] ++ rest) = bitunpack8 1 [b] := bitunpack8_append [b] rest rfl
  rw [List.singleton_append] at happ
  rw [happ, bitunpack8_eq, ← List.range_eq_range']
  refine List.map_congr_left fun j _ => ?_
  simp [leNat, Nat.shiftRight_eq_div_pow]

/-- The loop over groups stores the levels of the groups, as many as the cap lets through. -/
theorem bitmapGroups_eq {maxValues n : Nat} {s : BitmapDecode} {input : Bytes}
    (hle : s.count ≤ maxValues) :
    bitmapGroups maxValues n s input =
      ((groupLevels 1 n (maxValues - s.count) input).1.foldl BitmapDecode.store s,
        (groupLevels 1 n (maxValues - s.count) input).2) := by
  induction n generalizing s input with
  | zero => rfl
  | succ n ih =>
    unfold bitmapGroups
    rw [groupLevels]
    by_cases hcap : s.count < maxValues
    · rw [if_pos hcap, if_neg (by omega)]
      cases input with
      | nil => simp
      | cons b rest =>
        have hstore := storeBits_eq b.toNat s.count s.bitmap s.nonNull
          (min 8 (maxValues - s.count)) 0
        simp only [Nat.add_zero, Nat.zero_add] at hstore
        have hlevels : (bitunpack8 1 (b :: rest)).take (min 8 (maxValues - s.count)) =
            (List.range' 0 (min 8 (maxValues - s.count))).map fun j => b.toNat / 2 ^ j % 2 := by
          rw [bitunpack8_one, ← List.map_take, List.take_range'_of_length_ge (by omega)]
        simp only [List.length_cons, Nat.not_lt.2 (Nat.le_add_left 1 rest.length), if_false,
          List.drop_one, List.tail_cons]
        rw [hlevels, List.foldl_append, hstore, ih (by simp only; omega)]
        simp only [Nat.sub_sub]
    · rw [if_neg hcap, if_pos (by omega)]
      rfl

/-- The bulk path of the level decoder yields what its loop over groups would. -/
theorem bulkLevels_eq_groupLevels {w n count : Nat} {input : Bytes} (hw : 1 ≤ w)
    (hroom : n ≤ input.length / w) (hcap : n * 8 ≤ count) :
    bulkLevels w (n * 8) (n * 8) input = groupLevels w n count input := by
  have hall : n * w ≤ input.length := (Nat.le_div_iff_mul_le hw).mp hroom
  rw [bulkLevels_eq hw (by omega) hall]
  induction n generalizing count input with
  | zero => simp [unpackGroups, groupLevels]
  | succ n ih =>
    have hmul : (n + 1) * w = w + n * w := by rw [Nat.succ_mul, Nat.add_comm]
    have h8 : min 8 count = 8 := by omega
    have hdrop : n * w ≤ (input.drop w).length := by
      rw [List.length_drop]
      omega
    rw [unpackGroups, groupLevels, if_neg (by omega), if_neg (by omega), if_neg (by omega)]
    simp only [h8]
    rw [← ih ((Nat.le_div_iff_mul_le hw).mpr hdrop) (by omega) hdrop,
      List.take_of_length_le (by simp), List.drop_drop, hmul]

/-- One turn of the level decoder over one-bit levels. -/
theorem levelRun_one (fuel count header : Nat) (rest : Bytes) :
    levelRun 1 fuel count header rest =
      if header / 2 = 0 then decodeLevelRuns 1 fuel count rest
      else if header % 2 = 0 then
        match rest with
        | [] => []
        | value :: rest =>
          List.replicate (min (header / 2) count) (value.toNat % 2) ++
            decodeLevelRuns 1 fuel (count - min (header / 2) count) rest
      else
        (groupLevels 1 (header / 2) count rest).1 ++
          decodeLevelRuns 1 fuel (count - (groupLevels 1 (header / 2) count rest).1.length)
            (groupLevels 1 (header / 2) count rest).2 := by
  have hrun : (if 1 ≤ 1 ∧ header / 2 ≤ rest.length / 1 ∧ header / 2 * 8 ≤ count then
      bulkLevels 1 (header / 2 * 8) (header / 2 * 8) rest
      else groupLevels 1 (header / 2) count rest) = groupLevels 1 (header / 2) count rest := by
    split
    · rename_i hbulk
      exact bulkLevels_eq_groupLevels hbulk.1 hbulk.2.1 hbulk.2.2
    · rfl
  rw [levelRun, hrun]
  split
  · rfl
  · split
    · cases rest with
      | nil => rfl
      | cons value rest =>
        have hbytes : rleValueBytes 1 = 1 := rfl
        rw [hbytes, if_neg (by rw [List.length_cons]; omega)]
        simp [leNat]
    · rfl

theorem foldl_store_count (levels : List Nat) (s : BitmapDecode) :
    (levels.foldl BitmapDecode.store s).count = s.count + levels.length := by
  induction levels generalizing s with
  | nil => rfl
  | cons level levels ih =>
    rw [List.foldl_cons, ih, List.length_cons, BitmapDecode.store]
    split <;> simp only <;> omega

/-- **From run to run the two decoders agree**: the bitmap's stores a bit for each level. -/
theorem decodeBitmapRuns_eq {maxValues fuel : Nat} {s : BitmapDecode} {input : Bytes}
    (hle : s.count ≤ maxValues) :
    decodeBitmapRuns maxValues fuel s input =
      (decodeLevelRuns 1 fuel (maxValues - s.count) input).foldl BitmapDecode.store s := by
  induction fuel generalizing s input with
  | zero => rfl
  | succ fuel ih =>
    rw [decodeBitmapRuns]
    by_cases hstop : maxValues ≤ s.count ∨ input.isEmpty = true
    · have hnone : maxValues - s.count = 0 ∨ input.isEmpty = true :=
        hstop.imp_left Nat.sub_eq_zero_of_le
      rw [if_pos hstop, decodeLevelRuns, if_pos hnone]
      rfl
    · rw [if_neg hstop]
      rw [not_or, List.isEmpty_iff] at hstop
      rw [decodeLevelRuns_succ (by omega) hstop.2, levelRun_one]
      generalize readLevelHeader 5 0 0 input = h
      obtain ⟨header, rest⟩ := h
      dsimp only
      by_cases hn : header / 2 = 0
      · rw [if_pos hn, if_pos hn, if_pos hn, ite_self]
        exact ih hle
      · rw [if_neg hn, if_neg hn, if_neg hn]
        by_cases heven : header % 2 = 0
        · rw [if_pos heven, if_pos heven]
          cases rest with
          | nil => rfl
          | cons value rest =>
            have hfill : s.count + min (header / 2) (maxValues - s.count) ≤ maxValues := by omega
            dsimp only
            rw [List.foldl_append]
            rcases Nat.mod_two_eq_zero_or_one value.toNat with hnull | hpresent
            · have hne : value.toNat % 2 ≠ 1 := by omega
              rw [if_neg hne, ih hfill, store_absent hne, Nat.sub_sub]
            · rw [if_pos hpresent, ih hfill, hpresent, store_present, Nat.sub_sub]
        · rw [if_neg heven, if_neg heven, bitmapGroups_eq hle, List.foldl_append]
          have hcount := foldl_store_count
            (groupLevels 1 (header / 2) (maxValues - s.count) rest).1 s
          have hgroup : (groupLevels 1 (header / 2) (maxValues - s.count) rest).1.length ≤
              maxValues - s.count := by
            rw [groupLevels_fst, List.length_take]
            exact Nat.min_le_left _ _
          rw [ih (by dsimp only; omega), hcount, Nat.sub_sub]

/-! ## The bitmap -/

/-- Bit `i` of a bitmap: is value `i` present? -/
def presentBit (bitmap : Bytes) (i : Nat) : Bool :=
  (bitmap.getD (i / 8) 0).toNat.testBit (i % 8)

/-- Bitmaps of one length that agree bit by bit are equal. -/
theorem bitmap_ext {a b : Bytes} (hlen : a.length = b.length)
    (h : ∀ i, i / 8 < a.length → presentBit a i = presentBit b i) : a = b := by
  refine List.ext_getElem hlen fun k ha hb => UInt8.toNat_inj.mp (Nat.eq_of_testBit_eq fun j => ?_)
  by_cases hj : j < 8
  · have hdiv : (8 * k + j) / 8 = k := by omega
    have hmod : (8 * k + j) % 8 = j := by omega
    have hbit := h (8 * k + j) (by omega)
    simpa only [presentBit, hdiv, hmod, List.getD_eq_getElem _ _ ha, List.getD_eq_getElem _ _ hb]
      using hbit
  · have hbig (c : UInt8) : c.toNat.testBit j = false :=
      Nat.testBit_lt_two_pow (Nat.lt_of_lt_of_le c.toNat_lt
        (Nat.pow_le_pow_right (by decide) (Nat.le_of_not_lt hj)))
    rw [hbig, hbig]

theorem presentBit_setPresent {bitmap : Bytes} {idx : Nat} (hidx : idx / 8 < bitmap.length)
    (i : Nat) : presentBit (setPresent bitmap idx) i = (presentBit bitmap i || decide (i = idx)) := by
  have hmask : 2 ^ (idx % 8) < 256 :=
    Nat.lt_of_lt_of_le (Nat.pow_lt_pow_right (by decide) (Nat.mod_lt idx (by decide)))
      (Nat.le_refl (2 ^ 8))
  unfold presentBit setPresent orAt
  by_cases hbyte : i / 8 = idx / 8
  · have hget : (bitmap.set (idx / 8) (bitmap.getD (idx / 8) 0 ||| UInt8.ofNat (2 ^ (idx % 8)))).getD
        (i / 8) 0 = bitmap.getD (i / 8) 0 ||| UInt8.ofNat (2 ^ (idx % 8)) := by
      rw [hbyte, List.getD_eq_getElem?_getD, List.getElem?_set_self hidx, Option.getD_some]
    have hiff : idx % 8 = i % 8 ↔ i = idx := by omega
    rw [hget, UInt8.toNat_or, Nat.testBit_or, UInt8.toNat_ofNat', Nat.mod_eq_of_lt hmask,
      Nat.testBit_two_pow, decide_eq_decide.mpr hiff]
  · have hget : (bitmap.set (idx / 8) (bitmap.getD (idx / 8) 0 ||| UInt8.ofNat (2 ^ (idx % 8)))).getD
        (i / 8) 0 = bitmap.getD (i / 8) 0 := by
      rw [List.getD_eq_getElem?_getD, List.getElem?_set_ne (Ne.symm hbyte),
        ← List.getD_eq_getElem?_getD]
    have hne : i ≠ idx := fun h => hbyte (congrArg (· / 8) h)
    rw [hget, decide_eq_false hne, Bool.or_false]

@[simp] theorem length_setPresent (bitmap : Bytes) (idx : Nat) :
    (setPresent bitmap idx).length = bitmap.length := length_orAt _ _ _

/-- What the stores of these levels leave. -/
theorem foldl_store_spec (levels : List Nat) {s : BitmapDecode}
    (hroom : s.count + levels.length ≤ 8 * s.bitmap.length) :
    (levels.foldl BitmapDecode.store s).nonNull = s.nonNull + levels.count 1 ∧
      (levels.foldl BitmapDecode.store s).bitmap.length = s.bitmap.length ∧
      ∀ i, presentBit (levels.foldl BitmapDecode.store s).bitmap i =
        (presentBit s.bitmap i ||
          decide (s.count ≤ i) && (levels[i - s.count]? == some 1)) := by
  induction levels generalizing s with
  | nil => simp
  | cons level levels ih =>
    rw [List.length_cons] at hroom
    have hlater (i : Nat) (hi : s.count < i) :
        (level :: levels)[i - s.count]? = levels[i - (s.count + 1)]? := by
      obtain ⟨k, rfl⟩ : ∃ k, i = s.count + 1 + k := ⟨i - (s.count + 1), by omega⟩
      have h1 : s.count + 1 + k - s.count = k + 1 := by omega
      rw [h1, List.getElem?_cons_succ, Nat.add_sub_cancel_left]
    rw [List.foldl_cons, BitmapDecode.store]
    by_cases hlevel : level = 1
    · obtain ⟨hnull, hlen, hbits⟩ := @ih ⟨s.count + 1, setPresent s.bitmap s.count, s.nonNull + 1⟩
        (by simp only [length_setPresent]; omega)
      rw [if_pos hlevel]
      refine ⟨?_, hlen.trans (length_setPresent _ _), fun i => ?_⟩
      · rw [hnull, hlevel, List.count_cons_self]
        simp only
        omega
      · rw [hbits, presentBit_setPresent (by omega)]
        rcases Nat.lt_trichotomy i s.count with hi | rfl | hi
        · simp [Nat.not_le.2 hi, Nat.ne_of_lt hi, Nat.not_le.2 (Nat.lt_succ_of_lt hi)]
        · simp [hlevel]
        · rw [hlater i hi]
          simp [Nat.le_of_lt hi, Nat.succ_le_of_lt hi, Nat.ne_of_gt hi]
    · obtain ⟨hnull, hlen, hbits⟩ := @ih { s with count := s.count + 1 } (by simp only; omega)
      rw [if_neg hlevel]
      refine ⟨?_, hlen, fun i => ?_⟩
      · rw [hnull, List.count_cons_of_ne (by simpa using hlevel)]
      · rw [hbits]
        rcases Nat.lt_trichotomy i s.count with hi | rfl | hi
        · simp [Nat.not_le.2 hi, Nat.not_le.2 (Nat.lt_succ_of_lt hi)]
        · simp [hlevel]
        · rw [hlater i hi]
          simp [Nat.le_of_lt hi, Nat.succ_le_of_lt hi]

/-! ## The levels -/

theorem groupLevels_lt {w n count : Nat} {input : Bytes} {v : Nat}
    (hv : v ∈ (groupLevels w n count input).1) : v < 2 ^ w := by
  induction n generalizing count input with
  | zero => simp [groupLevels] at hv
  | succ n ih =>
    rw [groupLevels] at hv
    split at hv
    · simp at hv
    · split at hv
      · simp at hv
      · rcases List.mem_append.mp hv with hgroup | hmore
        · exact bitunpack8_lt (List.mem_of_mem_take hgroup)
        · exact ih hmore

/-- One-bit levels are 0 or 1, and no more of them than asked for. -/
theorem decodeLevelRuns_one_spec (fuel count : Nat) (input : Bytes) :
    (decodeLevelRuns 1 fuel count input).length ≤ count ∧
      ∀ v ∈ decodeLevelRuns 1 fuel count input, v < 2 := by
  induction fuel generalizing count input with
  | zero => simp [decodeLevelRuns]
  | succ fuel ih =>
    by_cases hc : count = 0
    · simp [hc, decodeLevelRuns]
    by_cases hempty : input = []
    · simp [hempty, decodeLevelRuns]
    rw [decodeLevelRuns_succ (by omega) hempty, levelRun_one]
    generalize readLevelHeader 5 0 0 input = h
    obtain ⟨header, rest⟩ := h
    dsimp only
    split
    · exact ih count rest
    · split
      · cases rest with
        | nil => simp
        | cons value rest =>
          obtain ⟨hlen, hlt⟩ := ih (count - min (header / 2) count) rest
          constructor
          · rw [List.length_append, List.length_replicate]
            omega
          · intro v hv
            rcases List.mem_append.mp hv with hrun | hlater
            · rw [List.eq_of_mem_replicate hrun]
              exact Nat.mod_lt _ (by decide)
            · exact hlt v hlater
      · have hgroup : (groupLevels 1 (header / 2) count rest).1.length ≤ count := by
          rw [groupLevels_fst, List.length_take]
          exact Nat.min_le_left _ _
        obtain ⟨hlen, hlt⟩ := ih (count - (groupLevels 1 (header / 2) count rest).1.length)
          (groupLevels 1 (header / 2) count rest).2
        constructor
        · rw [List.length_append]
          omega
        · intro v hv
          rcases List.mem_append.mp hv with hrun | hlater
          · exact groupLevels_lt hrun
          · exact hlt v hlater

/-- The narrowing to `int16_t` keeps one-bit levels apart. -/
theorem toI16_eq_one {v : Nat} (hv : v < 2) : toI16 (v : Int) = 1 ↔ v = 1 := by
  rw [toI16_of_range (by omega) (by omega)]
  omega

theorem count_map_toI16 {levels : List Nat} (h : ∀ v ∈ levels, v < 2) :
    (levels.map fun v : Nat => toI16 v).count 1 = levels.count 1 := by
  rw [List.count, List.count, List.countP_map]
  refine List.countP_congr fun v hv => ?_
  simpa using toI16_eq_one (h v hv)

theorem getElem?_map_toI16 {levels : List Nat} (h : ∀ v ∈ levels, v < 2) (i : Nat) :
    ((levels.map fun v : Nat => toI16 v)[i]? == some 1) = (levels[i]? == some 1) := by
  rw [List.getElem?_map]
  cases hget : levels[i]? with
  | none => rfl
  | some v =>
    have hiff := toI16_eq_one (h v (List.mem_of_getElem? hget))
    simp only [Option.map_some, beq_eq_beq, Option.some.injEq]
    exact hiff

theorem presentBit_append_left {a : Bytes} (b : Bytes) {i : Nat} (h : i / 8 < a.length) :
    presentBit (a ++ b) i = presentBit a i := by
  rw [presentBit, presentBit, List.getD_eq_getElem?_getD, List.getElem?_append_left h,
    ← List.getD_eq_getElem?_getD]

theorem presentBit_append_right {a : Bytes} (b c : Bytes) (hlen : a.length = b.length) {i : Nat}
    (h : b.length ≤ i / 8) : presentBit (a ++ c) i = presentBit (b ++ c) i := by
  rw [presentBit, presentBit, List.getD_eq_getElem?_getD, List.getD_eq_getElem?_getD,
    List.getElem?_append_right h, List.getElem?_append_right (hlen ▸ h), hlen]

theorem presentBit_replicate (n i : Nat) : presentBit (List.replicate n 0) i = false := by
  have hzero : (List.replicate n (0 : UInt8)).getD (i / 8) 0 = 0 := by
    rw [List.getD_eq_getElem?_getD, List.getElem?_replicate]
    split <;> rfl
  rw [presentBit, hzero]
  simp

theorem buildNullBitmap_nil (maxDefLevel : Int) (size : Nat) :
    buildNullBitmap maxDefLevel [] size = List.replicate size 0 := by
  simp [buildNullBitmap, presentBits]

theorem rleDecodeLevels_none {input : Bytes} {maxValues : Int}
    (h : maxValues ≤ 0 ∨ input = []) : rleDecodeLevels input 1 maxValues.toNat = [] := by
  rw [rleDecodeLevels, if_neg (by decide)]
  rcases h with hcap | rfl
  · rw [Int.toNat_of_nonpos hcap, decodeLevelRuns_zero]
    rfl
  · rfl

/-- A call that decodes something. -/
theorem decodeToBitmap_some {input bitmap : Bytes} {maxValues : Int}
    (hsome : ¬(maxValues ≤ 0 ∨ input = []))
    (hroom : (maxValues.toNat + 7) / 8 ≤ bitmap.length) :
    let levels := rleDecodeLevels input 1 maxValues.toNat
    let size := (maxValues.toNat + 7) / 8
    let decoded := decodeToBitmap input bitmap maxValues
    decoded.count = levels.length ∧ decoded.nonNull = levels.count 1 ∧
      decoded.bitmap = buildNullBitmap 1 levels size ++ bitmap.drop size := by
  intro levels size decoded
  obtain ⟨hlen, hlt⟩ := decodeLevelRuns_one_spec input.length maxValues.toNat input
  have hlevels : levels = (decodeLevelRuns 1 input.length maxValues.toNat input).map
      fun v : Nat => toI16 v := if_neg (by decide)
  have hdecoded : decoded = (decodeLevelRuns 1 input.length maxValues.toNat input).foldl
      BitmapDecode.store ⟨0, List.replicate size 0 ++ bitmap.drop size, 0⟩ := by
    have hgo : ¬(maxValues ≤ 0 ∨ input.isEmpty = true) := by rwa [List.isEmpty_iff]
    exact (if_neg hgo).trans (decodeBitmapRuns_eq (Nat.zero_le _))
  generalize decodeLevelRuns 1 input.length maxValues.toNat input = values at *
  have hclear : (List.replicate size (0 : UInt8) ++ bitmap.drop size).length = bitmap.length := by
    rw [List.length_append, List.length_replicate, List.length_drop]
    omega
  obtain ⟨hnull, hsize, hbits⟩ := foldl_store_spec values
    (s := ⟨0, List.replicate size 0 ++ bitmap.drop size, 0⟩) (by simp only [hclear]; omega)
  have hbuilt : (buildNullBitmap 1 levels size).length = size := by simp [buildNullBitmap]
  rw [← hdecoded] at hnull hsize hbits
  refine ⟨?_, ?_, bitmap_ext ?_ fun i hi => ?_⟩
  · rw [hdecoded, foldl_store_count, hlevels, List.length_map, Nat.zero_add]
  · rw [hnull, hlevels, count_map_toI16 hlt, Nat.zero_add]
  · rw [hsize, hclear, List.length_append, hbuilt, List.length_drop]
    omega
  · rw [hbits]
    simp only [Nat.zero_le, decide_true, Bool.true_and, Nat.sub_zero]
    by_cases hin : i / 8 < size
    · rw [presentBit_append_left _ (by rwa [List.length_replicate]), presentBit_replicate,
        Bool.false_or, presentBit_append_left _ (hbuilt.symm ▸ hin), presentBit,
        testBit_buildNullBitmap 1 levels (by omega), hlevels, getElem?_map_toI16 hlt]
    · have hbeyond : values[i]? = none := List.getElem?_eq_none (by omega)
      rw [hbeyond, presentBit_append_right (buildNullBitmap 1 levels size) _
        (by rw [List.length_replicate, hbuilt]) (by omega)]
      simp

/-- **Decoding to a bitmap is decoding the levels and building the bitmap of them.** The count and
the values present are theirs; a call that decodes nothing leaves the bitmap as it was, as the
bitmap builder does of no levels, and any other clears the bytes it needs first. -/
theorem decodeToBitmap_eq (input : Bytes) {bitmap : Bytes} {maxValues : Int}
    (hroom : (maxValues.toNat + 7) / 8 ≤ bitmap.length) :
    let levels := rleDecodeLevels input 1 maxValues.toNat
    let size := (maxValues.toNat + 7) / 8
    let decoded := decodeToBitmap input bitmap maxValues
    decoded.count = levels.length ∧ decoded.nonNull = levels.count 1 ∧
      ((maxValues ≤ 0 ∨ input = []) → levels = [] ∧ decoded.bitmap = bitmap) ∧
      (0 < maxValues → input ≠ [] →
        decoded.bitmap = buildNullBitmap 1 levels size ++ bitmap.drop size) ∧
      (bitmap.take size = List.replicate size 0 →
        decoded.bitmap = buildNullBitmap 1 levels size ++ bitmap.drop size) := by
  intro levels size decoded
  by_cases hnone : maxValues ≤ 0 ∨ input = []
  · have hlevels : levels = [] := rleDecodeLevels_none hnone
    have hdecoded : decoded = ⟨0, bitmap, 0⟩ :=
      if_pos (hnone.imp_right List.isEmpty_iff.mpr)
    rw [hlevels, hdecoded]
    refine ⟨rfl, rfl, fun _ => ⟨rfl, rfl⟩, fun hpos hne => ?_, fun hclear => ?_⟩
    · exact absurd hnone (not_or.mpr ⟨Int.not_le.mpr hpos, hne⟩)
    · rw [buildNullBitmap_nil, ← hclear, List.take_append_drop]
  · obtain ⟨hcount, hnull, hbitmap⟩ := decodeToBitmap_some hnone hroom
    exact ⟨hcount, hnull, fun h => absurd h hnone, fun _ _ => hbitmap, fun _ => hbitmap⟩

/-- A bit-packed group that the cap cuts in mid-byte, over a bitmap that is not clear. -/
theorem cutByte_decoded :
    decodeToBitmap [0x03, 0xAD] [0xFF, 0xFF] 5 = ⟨5, [0x0D, 0xFF], 3⟩ ∧
      (decodeToBitmap [0x03, 0xAD] [0xFF, 0xFF] 5).count =
        (rleDecodeLevels [0x03, 0xAD] 1 5).length :=
  ⟨by decide, (decodeToBitmap_eq [0x03, 0xAD] (by decide)).1⟩

end Carquet
