import Carquet.Core.Types

/-!
# Bit packing

`src/core/bitpack.c`. Eight values of `w` bits share `w` bytes, least significant bit first.
`bitunpack8_32` (bitpack.c:159-213) reads a group: one little-endian word for the widths 1-8
(the specialised functions, bitpack.c:59-150), a byte at a time for 9-32. `bitpack8_32`
(bitpack.c:271-318) writes one by ORing shifted bytes into a zeroed group. Both come down to
the bits of one number, `leNat` of the group: `bitunpack8_bitpack8`.

The vector kernels behind `carquet_dispatch_*` compute the same groups and are left out.
-/

namespace Carquet

open LittleEndian

/-- `carquet_bitunpack8_1bit` … `carquet_bitunpack8_8bit` (bitpack.c:59-150). -/
def bitunpack8Word (w : Nat) (input : Bytes) : List Nat :=
  (List.range 8).map fun i => (leNat (input.take w) >>> (i * w)) % 2 ^ w

/-- The inner `while (bits_needed > 0)` loop of the general case (bitpack.c:192-209).
`byte_pos` is `bit_pos / 8`: a step never crosses a byte. -/
def unpackBits (input : Bytes) : Nat → Nat → Nat → Nat → Nat → Nat
  | 0, _, bits, _, _ => bits
  | fuel + 1, bitPos, bits, bitsInBuffer, bitsNeeded =>
    if bitsNeeded = 0 then bits
    else
      let bitsFromByte := min (8 - bitPos % 8) bitsNeeded
      let byteVal := (input.getD (bitPos / 8) 0).toNat
      let extracted := (byteVal >>> (bitPos % 8)) % 2 ^ bitsFromByte
      unpackBits input fuel (bitPos + bitsFromByte) (bits ||| extracted <<< bitsInBuffer)
        (bitsInBuffer + bitsFromByte) (bitsNeeded - bitsFromByte)

/-- `carquet_bitunpack8_32` (bitpack.c:159-213). Value `i` starts at bit `i * bit_width`. -/
def bitunpack8 (w : Nat) (input : Bytes) : List Nat :=
  if w = 0 then List.replicate 8 0
  else if w ≤ 8 then bitunpack8Word w input
  else (List.range 8).map fun i => unpackBits input w (i * w) 0 0 w % 2 ^ w

/-- The loop of `carquet_bitunpack_32` over whole groups (bitpack.c:243-249). -/
def bitunpackGroups (w : Nat) : Nat → Bytes → List Nat
  | 0, _ => []
  | n + 1, input => bitunpack8 w input ++ bitunpackGroups w n (input.drop w)

/-- `carquet_bitunpack_32` (bitpack.c:215-264): the values and the bytes consumed. The last
group, when it is short, is read from a zero-padded copy. -/
def bitunpack32 (w count : Nat) (input : Bytes) : List Nat × Nat :=
  if w = 0 then (List.replicate count 0, 0)
  else
    let consumed := count / 8 * w
    if count % 8 = 0 then (bitunpackGroups w (count / 8) input, consumed)
    else
      let tailBytes := (count % 8 * w + 7) / 8
      let padded := (input.drop consumed).take tailBytes
      (bitunpackGroups w (count / 8) input ++ (bitunpack8 w padded).take (count % 8),
        consumed + tailBytes)

/-- `output[k] |= (uint8_t)b`. -/
def orAt (out : Bytes) (k b : Nat) : Bytes :=
  out.set k (out.getD k 0 ||| UInt8.ofNat b)

/-- The bytes after the first one of a value (bitpack.c:309-315). -/
def packTail : Nat → Bytes → Nat → Nat → Nat → Nat → Bytes
  | 0, out, _, _, _, _ => out
  | fuel + 1, out, bytePos, val, bitsWritten, w =>
    if bitsWritten < w then
      packTail fuel (orAt out bytePos val) (bytePos + 1) (val >>> 8) (bitsWritten + 8) w
    else out

/-- One pass of the packing loop (bitpack.c:296-317). -/
def packValue (w : Nat) (out : Bytes) (bitPos value : Nat) : Bytes :=
  let val := value % 2 ^ w
  let bitOffset := bitPos % 8
  packTail w (orAt out (bitPos / 8) (val <<< bitOffset)) (bitPos / 8 + 1)
    (val >>> (8 - bitOffset)) (8 - bitOffset) w

/-- The values still to pack, from `bit_pos` on. -/
def packValues (w : Nat) : Bytes → Nat → List Nat → Bytes
  | out, _, [] => out
  | out, bitPos, v :: vs => packValues w (packValue w out bitPos v) (bitPos + w) vs

/-- `carquet_bitpack8_32` (bitpack.c:271-318) on exactly eight values. -/
def bitpack8 (w : Nat) (values : List Nat) : Bytes :=
  if w = 0 then []
  else if w = 8 then values.map fun v => UInt8.ofNat v
  else packValues w (List.replicate w 0) 0 values

/-- The loop of `carquet_bitpack_32` over whole groups (bitpack.c:329-333). -/
def bitpackGroups (w : Nat) : Nat → List Nat → Bytes
  | 0, _ => []
  | n + 1, values => bitpack8 w (values.take 8) ++ bitpackGroups w n (values.drop 8)

/-- `carquet_bitpack_32` (bitpack.c:320-347). The last group is padded with zeros and only
the bytes it needs are kept. -/
def bitpack32 (w : Nat) (values : List Nat) : Bytes :=
  if w = 0 then []
  else
    let n := values.length
    let whole := bitpackGroups w (n / 8) values
    if n % 8 = 0 then whole
    else
      let temp := values.drop (n / 8 * 8) ++ List.replicate (8 - n % 8) 0
      whole ++ (bitpack8 w temp).take ((n % 8 * w + 7) / 8)

/-! ## Reading a group -/

theorem bit_lt_group {i j w : Nat} (hi : i < 8) (hj : j < w) : i * w + j < 8 * w :=
  calc i * w + j < i * w + w := by omega
    _ = (i + 1) * w := by rw [Nat.succ_mul]
    _ ≤ 8 * w := Nat.mul_le_mul_right w hi

theorem testBit_unpackBits (input : Bytes) (fuel bitPos bits inBuf needed i : Nat)
    (hfuel : needed ≤ fuel) (hbits : bits < 2 ^ inBuf) :
    (unpackBits input fuel bitPos bits inBuf needed).testBit i =
      if i < inBuf then bits.testBit i
      else decide (i < inBuf + needed) && (leNat input).testBit (bitPos + (i - inBuf)) := by
  induction fuel generalizing bitPos bits inBuf needed with
  | zero =>
    have hn : needed = 0 := by omega
    subst hn
    simp only [unpackBits, Nat.add_zero]
    split
    · rfl
    · rename_i h
      rw [Nat.testBit_lt_two_pow (Nat.lt_of_lt_of_le hbits (Nat.pow_le_pow_right (by omega)
        (Nat.not_lt.mp h)))]
      simp [h]
  | succ fuel ih =>
    rw [unpackBits]
    by_cases hn : needed = 0
    · subst hn
      simp only [if_true, Nat.add_zero]
      split
      · rfl
      · rename_i h
        rw [Nat.testBit_lt_two_pow (Nat.lt_of_lt_of_le hbits (Nat.pow_le_pow_right (by omega)
          (Nat.not_lt.mp h)))]
        simp [h]
    · rw [if_neg hn]
      simp only
      generalize hk : min (8 - bitPos % 8) needed = k
      have hk1 : k ≤ needed := by omega
      have hk8 : bitPos % 8 + k ≤ 8 := by omega
      have hkpos : 0 < k := by omega
      -- the bits added by this step, and the ones already there
      have hstep : ∀ j, (bits ||| ((input.getD (bitPos / 8) 0).toNat >>> (bitPos % 8) % 2 ^ k)
          <<< inBuf).testBit j = if j < inBuf then bits.testBit j
            else decide (j < inBuf + k) && (leNat input).testBit (bitPos + (j - inBuf)) := by
        intro j
        rw [Nat.testBit_or, Nat.testBit_shiftLeft, Nat.testBit_mod_two_pow,
          Nat.testBit_shiftRight]
        by_cases hj : j < inBuf
        · have hge : ¬ inBuf ≤ j := by omega
          simp [hj, hge]
        · have hge : inBuf ≤ j := by omega
          have hb : bits.testBit j = false := Nat.testBit_lt_two_pow
            (Nat.lt_of_lt_of_le hbits (Nat.pow_le_pow_right (by omega) hge))
          rw [hb, if_neg hj]
          simp only [hge, decide_true, Bool.true_and, Bool.false_or]
          by_cases hjk : j - inBuf < k
          · have hlt : j < inBuf + k := by omega
            have h8 : bitPos % 8 + (j - inBuf) < 8 := by omega
            have hpos : bitPos + (j - inBuf) = 8 * (bitPos / 8) + (bitPos % 8 + (j - inBuf)) := by
              omega
            simp only [hjk, hlt, decide_true, Bool.true_and]
            rw [hpos, testBit_leNat _ _ _ h8]
          · have hlt : ¬ j < inBuf + k := by omega
            simp [hjk, hlt]
      have hlt : (bits ||| ((input.getD (bitPos / 8) 0).toNat >>> (bitPos % 8) % 2 ^ k)
          <<< inBuf) < 2 ^ (inBuf + k) := by
        apply Nat.or_lt_two_pow
        · exact Nat.lt_of_lt_of_le hbits (Nat.pow_le_pow_right (by omega) (by omega))
        · rw [Nat.shiftLeft_eq, Nat.pow_add, Nat.mul_comm]
          exact Nat.mul_lt_mul_of_pos_left (Nat.mod_lt _ (Nat.two_pow_pos k)) (Nat.two_pow_pos _)
      rw [ih _ _ _ _ (by omega) hlt, hstep]
      by_cases h1 : i < inBuf
      · have h2 : i < inBuf + k := by omega
        simp [h1, h2]
      · by_cases h2 : i < inBuf + k
        · have h3 : i < inBuf + needed := by omega
          simp [h1, h2, h3]
        · have h3 : inBuf + k + (needed - k) = inBuf + needed := by omega
          have h4 : bitPos + k + (i - (inBuf + k)) = bitPos + (i - inBuf) := by omega
          simp [h1, h2, h3, h4]

/-- Both ways of reading a group take bits `i * w … i * w + w - 1` of the group's number. -/
theorem bitunpack8_eq (w : Nat) (input : Bytes) :
    bitunpack8 w input = (List.range 8).map fun i => (leNat input >>> (i * w)) % 2 ^ w := by
  unfold bitunpack8
  split
  · rename_i h
    subst h
    simp [Nat.mod_one, List.map_const']
  · split
    · unfold bitunpack8Word
      apply List.map_congr_left
      intro i hi
      have hi8 : i < 8 := List.mem_range.mp hi
      apply Nat.eq_of_testBit_eq
      intro j
      rw [leNat_take_mod, show (256 : Nat) = 2 ^ 8 from rfl, ← Nat.pow_mul]
      simp only [Nat.testBit_mod_two_pow, Nat.testBit_shiftRight]
      by_cases hj : j < w
      · simp [hj, bit_lt_group hi8 hj]
      · simp [hj]
    · apply List.map_congr_left
      intro i _
      apply Nat.eq_of_testBit_eq
      intro j
      rw [Nat.testBit_mod_two_pow, testBit_unpackBits _ _ _ _ _ _ _ (Nat.le_refl w) (by simp)]
      simp only [Nat.not_lt_zero, if_false, Nat.zero_add, Nat.sub_zero,
        Nat.testBit_mod_two_pow, Nat.testBit_shiftRight]
      by_cases hj : j < w <;> simp [hj]

@[simp] theorem length_bitunpack8 (w : Nat) (input : Bytes) :
    (bitunpack8 w input).length = 8 := by
  simp [bitunpack8_eq]

theorem bitunpack8_lt {w : Nat} {input : Bytes} {v : Nat} (h : v ∈ bitunpack8 w input) :
    v < 2 ^ w := by
  rw [bitunpack8_eq] at h
  obtain ⟨i, -, rfl⟩ := List.mem_map.mp h
  exact Nat.mod_lt _ (Nat.two_pow_pos w)

/-- A group is read from its first `w` bytes only. -/
theorem bitunpack8_append {w : Nat} (group rest : Bytes) (h : group.length = w) :
    bitunpack8 w (group ++ rest) = bitunpack8 w group := by
  simp only [bitunpack8_eq]
  apply List.map_congr_left
  intro i hi
  have hi8 : i < 8 := List.mem_range.mp hi
  apply Nat.eq_of_testBit_eq
  intro j
  simp only [Nat.testBit_mod_two_pow, Nat.testBit_shiftRight]
  by_cases hj : j < w
  · have hlt : i * w + j < 8 * group.length := by rw [h]; exact bit_lt_group hi8 hj
    simp only [hj, decide_true, Bool.true_and]
    rw [testBit_leNat_div, testBit_leNat_div, List.getD_append _ _ _ _ (by omega)]
  · simp [hj]

/-! ## Writing a group -/

@[simp] theorem length_orAt (out : Bytes) (k b : Nat) : (orAt out k b).length = out.length := by
  simp [orAt]

theorem leNat_orAt {out : Bytes} {k : Nat} (b : Nat) (hk : k < out.length) :
    leNat (orAt out k b) = leNat out ||| (b % 256) <<< (8 * k) := by
  apply Nat.eq_of_testBit_eq
  intro i
  rw [testBit_leNat_div, Nat.testBit_or, testBit_leNat_div, Nat.testBit_shiftLeft,
    show (256 : Nat) = 2 ^ 8 from rfl, Nat.testBit_mod_two_pow]
  by_cases hik : i / 8 = k
  · have h1 : 8 * k ≤ i := by omega
    have h2 : i - 8 * k = i % 8 := by omega
    have h3 : i % 8 < 8 := Nat.mod_lt _ (by omega)
    have hget : (orAt out k b).getD k 0 = out.getD k 0 ||| UInt8.ofNat b := by
      simp [orAt, List.getD, hk]
    rw [hik, hget, h2, UInt8.toNat_or, Nat.testBit_or, UInt8.toNat_ofNat',
      Nat.testBit_mod_two_pow]
    simp [h1]
  · have hget : (orAt out k b).getD (i / 8) 0 = out.getD (i / 8) 0 := by
      simp [orAt, List.getD, Ne.symm hik]
    have hz : ¬ (8 * k ≤ i ∧ i - 8 * k < 8) := by omega
    rw [hget]
    by_cases h1 : 8 * k ≤ i
    · have h2 : ¬ i - 8 * k < 8 := fun h => hz ⟨h1, h⟩
      simp [h2]
    · simp [h1]

@[simp] theorem length_packTail (fuel : Nat) (out : Bytes) (bytePos val written w : Nat) :
    (packTail fuel out bytePos val written w).length = out.length := by
  induction fuel generalizing out bytePos val written with
  | zero => rfl
  | succ fuel ih =>
    rw [packTail]
    split
    · rw [ih, length_orAt]
    · rfl

theorem leNat_packTail {fuel : Nat} {out : Bytes} {bytePos val written w : Nat}
    (hfuel : w ≤ written + fuel) (hval : val < 2 ^ (w - written))
    (hroom : 8 * bytePos + (w - written) ≤ 8 * out.length) :
    leNat (packTail fuel out bytePos val written w) = leNat out ||| val <<< (8 * bytePos) := by
  induction fuel generalizing out bytePos val written with
  | zero =>
    have hz : val = 0 := by
      rw [show w - written = 0 by omega] at hval
      simpa using hval
    simp [packTail, hz]
  | succ fuel ih =>
    rw [packTail]
    split
    · rename_i hlt
      have hnext : val >>> 8 < 2 ^ (w - (written + 8)) := by
        rw [Nat.shiftRight_eq_div_pow, Nat.div_lt_iff_lt_mul (by norm_num), ← Nat.pow_add]
        exact Nat.lt_of_lt_of_le hval (Nat.pow_le_pow_right (by omega) (by omega))
      have hsplit : val <<< (8 * bytePos) =
          (val % 256) <<< (8 * bytePos) ||| (val >>> 8) <<< (8 * (bytePos + 1)) := by
        apply Nat.eq_of_testBit_eq
        intro i
        rw [show (256 : Nat) = 2 ^ 8 from rfl]
        simp only [Nat.testBit_or, Nat.testBit_shiftLeft, Nat.testBit_mod_two_pow,
          Nat.testBit_shiftRight]
        by_cases h1 : 8 * (bytePos + 1) ≤ i
        · have h2 : 8 * bytePos ≤ i := by omega
          have h3 : ¬ i - 8 * bytePos < 8 := by omega
          have h4 : 8 + (i - 8 * (bytePos + 1)) = i - 8 * bytePos := by omega
          simp [h1, h2, h3, h4]
        · by_cases h2 : 8 * bytePos ≤ i
          · have h3 : i - 8 * bytePos < 8 := by omega
            simp [h1, h2, h3]
          · simp [h1, h2]
      by_cases hmore : written + 8 < w
      · rw [ih (by omega) hnext (by rw [length_orAt]; omega), leNat_orAt _ (by omega), hsplit,
          Nat.or_assoc]
      · have hz : val >>> 8 = 0 := by
          rw [show w - (written + 8) = 0 by omega] at hnext
          simpa using hnext
        have hstop : packTail fuel (orAt out bytePos val) (bytePos + 1) (val >>> 8) (written + 8) w
            = orAt out bytePos val := by
          cases fuel with
          | zero => rfl
          | succ fuel => rw [packTail, if_neg hmore]
        rw [hstop, leNat_orAt _ (by omega), hsplit, hz]
        simp
    · have hz : val = 0 := by
        rw [show w - written = 0 by omega] at hval
        simpa using hval
      simp [hz]

@[simp] theorem length_packValue (w : Nat) (out : Bytes) (bitPos value : Nat) :
    (packValue w out bitPos value).length = out.length := by
  simp [packValue]

/-- Packing a value ORs its low `w` bits in at `bitPos`. -/
theorem leNat_packValue {w : Nat} {out : Bytes} {bitPos : Nat} (value : Nat) (hw : 0 < w)
    (hroom : bitPos + w ≤ 8 * out.length) :
    leNat (packValue w out bitPos value) = leNat out ||| (value % 2 ^ w) <<< bitPos := by
  have hval : value % 2 ^ w < 2 ^ w := Nat.mod_lt _ (Nat.two_pow_pos w)
  unfold packValue
  simp only
  generalize value % 2 ^ w = val at hval ⊢
  generalize hk : bitPos / 8 = k
  generalize ho : bitPos % 8 = o
  have hpos : bitPos = 8 * k + o := by omega
  have ho8 : o < 8 := by omega
  have hshift : val >>> (8 - o) < 2 ^ (w - (8 - o)) := by
    rw [Nat.shiftRight_eq_div_pow, Nat.div_lt_iff_lt_mul (Nat.two_pow_pos _), ← Nat.pow_add]
    exact Nat.lt_of_lt_of_le hval (Nat.pow_le_pow_right (by omega) (by omega))
  have hsplit : val <<< (8 * k + o) =
      ((val <<< o) % 256) <<< (8 * k) ||| (val >>> (8 - o)) <<< (8 * (k + 1)) := by
    apply Nat.eq_of_testBit_eq
    intro i
    rw [show (256 : Nat) = 2 ^ 8 from rfl]
    simp only [Nat.testBit_or, Nat.testBit_shiftLeft, Nat.testBit_mod_two_pow,
      Nat.testBit_shiftRight]
    by_cases h1 : 8 * (k + 1) ≤ i
    · have h2 : 8 * k ≤ i := by omega
      have h3 : ¬ i - 8 * k < 8 := by omega
      have h4 : 8 - o + (i - 8 * (k + 1)) = i - (8 * k + o) := by omega
      have h5 : 8 * k + o ≤ i := by omega
      simp [h1, h2, h3, h4, h5]
    · by_cases h2 : 8 * k + o ≤ i
      · have h3 : i - 8 * k < 8 := by omega
        have h4 : 8 * k ≤ i := by omega
        have h5 : o ≤ i - 8 * k := by omega
        have h6 : i - 8 * k - o = i - (8 * k + o) := by omega
        simp [h1, h2, h3, h4, h5, h6]
      · have h5 : ¬ (8 * k ≤ i ∧ o ≤ i - 8 * k) := by omega
        by_cases h4 : 8 * k ≤ i
        · have h6 : ¬ o ≤ i - 8 * k := fun h => h5 ⟨h4, h⟩
          simp [h1, h2, h6]
        · simp [h1, h2, h4]
  by_cases hmore : 8 - o < w
  · rw [leNat_packTail (by omega) hshift (by rw [length_orAt]; omega), leNat_orAt _ (by omega),
      hpos, hsplit, Nat.or_assoc]
  · have hz : val >>> (8 - o) = 0 := by
      rw [show w - (8 - o) = 0 by omega] at hshift
      simpa using hshift
    have hstop : packTail w (orAt out k (val <<< o)) (k + 1) (val >>> (8 - o)) (8 - o) w
        = orAt out k (val <<< o) := by
      cases w with
      | zero => rfl
      | succ w => rw [packTail, if_neg hmore]
    rw [hstop, leNat_orAt _ (by omega), hpos, hsplit, hz]
    simp

@[simp] theorem length_packValues (w : Nat) (out : Bytes) (bitPos : Nat) (vs : List Nat) :
    (packValues w out bitPos vs).length = out.length := by
  induction vs generalizing out bitPos with
  | nil => rfl
  | cons v vs ih => rw [packValues, ih, length_packValue]

/-- Bit `j` of value `i` lies at `bitPos + i * w + j`; what was below `bitPos` is kept. -/
theorem testBit_packValues {w : Nat} {out : Bytes} {bitPos : Nat} (vs : List Nat) (hw : 0 < w)
    (hroom : bitPos + vs.length * w ≤ 8 * out.length) (hout : leNat out < 2 ^ bitPos) (p : Nat) :
    (leNat (packValues w out bitPos vs)).testBit p =
      if p < bitPos then (leNat out).testBit p
      else decide (p < bitPos + vs.length * w) &&
        (vs.getD ((p - bitPos) / w) 0).testBit ((p - bitPos) % w) := by
  induction vs generalizing out bitPos with
  | nil =>
    simp only [packValues, List.length_nil, Nat.zero_mul, Nat.add_zero]
    split
    · rfl
    · rename_i h
      rw [Nat.testBit_lt_two_pow (Nat.lt_of_lt_of_le hout (Nat.pow_le_pow_right (by omega)
        (Nat.not_lt.mp h)))]
      simp [h]
  | cons v vs ih =>
    have hlen : (v :: vs).length * w = w + vs.length * w := by
      rw [List.length_cons, Nat.succ_mul, Nat.add_comm]
    have hroom' : bitPos + w ≤ 8 * out.length := by omega
    have hv := leNat_packValue v hw hroom'
    have hbound : leNat (packValue w out bitPos v) < 2 ^ (bitPos + w) := by
      rw [hv]
      apply Nat.or_lt_two_pow
      · exact Nat.lt_of_lt_of_le hout (Nat.pow_le_pow_right (by omega) (by omega))
      · rw [Nat.shiftLeft_eq, Nat.pow_add, Nat.mul_comm]
        exact Nat.mul_lt_mul_of_pos_left (Nat.mod_lt _ (Nat.two_pow_pos w)) (Nat.two_pow_pos _)
    rw [packValues, ih (by rw [length_packValue]; omega) hbound, hv, hlen]
    simp only [Nat.testBit_or, Nat.testBit_shiftLeft, Nat.testBit_mod_two_pow]
    by_cases h1 : p < bitPos
    · have h2 : p < bitPos + w := by omega
      have h3 : ¬ bitPos ≤ p := by omega
      simp [h1, h2, h3]
    · have hz : (leNat out).testBit p = false := Nat.testBit_lt_two_pow
        (Nat.lt_of_lt_of_le hout (Nat.pow_le_pow_right (by omega) (Nat.not_lt.mp h1)))
      by_cases h2 : p < bitPos + w
      · have h3 : bitPos ≤ p := by omega
        have h4 : p - bitPos < w := by omega
        have h5 : p < bitPos + (w + vs.length * w) := by omega
        simp [h1, h2, h3, h4, h5, hz, Nat.div_eq_of_lt h4, Nat.mod_eq_of_lt h4]
      · have h3 : p - bitPos = p - (bitPos + w) + w := by omega
        have h4 : (p - bitPos) / w = (p - (bitPos + w)) / w + 1 := by
          rw [h3, Nat.add_div_right _ hw]
        have h5 : (p - bitPos) % w = (p - (bitPos + w)) % w := by
          rw [h3, Nat.add_mod_right]
        have h6 : (p < bitPos + w + vs.length * w) ↔ p < bitPos + (w + vs.length * w) := by omega
        simp [h1, h2, h4, h5, h6]

theorem leNat_replicate_zero (n : Nat) : leNat (List.replicate n 0) = 0 := by
  induction n with
  | zero => rfl
  | succ n ih => simp [List.replicate_succ, leNat, ih]

theorem length_bitpack8 {w : Nat} {values : List Nat} (h : values.length = 8) :
    (bitpack8 w values).length = w := by
  unfold bitpack8
  split
  · simp [*]
  · split
    · simp [*]
    · simp

theorem testBit_bitpack8 {w : Nat} {values : List Nat} (h : values.length = 8) {i j : Nat}
    (hi : i < 8) (hj : j < w) :
    (leNat (bitpack8 w values)).testBit (i * w + j) = (values.getD i 0).testBit j := by
  have hw : 0 < w := by omega
  unfold bitpack8
  rw [if_neg (by omega)]
  split
  · rename_i h8
    subst h8
    rw [Nat.mul_comm, testBit_leNat _ _ _ hj, List.getD_eq_getElem _ _ (by simpa [h] using hi),
      List.getElem_map, List.getD_eq_getElem _ _ (by omega), UInt8.toNat_ofNat',
      Nat.testBit_mod_two_pow]
    simp [hj]
  · have hlt : i * w + j < 8 * w := bit_lt_group hi hj
    have hroom : 0 + values.length * w ≤ 8 * (List.replicate w (0 : UInt8)).length := by
      simp [h]
    rw [testBit_packValues values hw hroom (by simp [leNat_replicate_zero]), if_neg (by omega)]
    have h1 : (i * w + j) / w = i := by
      rw [Nat.mul_comm, Nat.mul_add_div hw, Nat.div_eq_of_lt hj, Nat.add_zero]
    have h2 : (i * w + j) % w = j := by
      rw [Nat.mul_comm, Nat.mul_add_mod, Nat.mod_eq_of_lt hj]
    simp [h, hlt, h1, h2]

/-- A packed group reads back as the values' low `w` bits, whatever follows it. -/
theorem bitunpack8_bitpack8 {w : Nat} {values : List Nat} (h : values.length = 8)
    (rest : Bytes) : bitunpack8 w (bitpack8 w values ++ rest) = values.map (· % 2 ^ w) := by
  rw [bitunpack8_append _ _ (length_bitpack8 h), bitunpack8_eq]
  apply List.ext_getElem
  · simp [h]
  · intro i h1 h2
    have hi : i < 8 := by simpa using h1
    simp only [List.getElem_map, List.getElem_range]
    apply Nat.eq_of_testBit_eq
    intro j
    simp only [Nat.testBit_mod_two_pow, Nat.testBit_shiftRight]
    by_cases hj : j < w
    · simp only [hj, decide_true, Bool.true_and]
      rw [testBit_bitpack8 h hi hj, List.getD_eq_getElem _ _ (by omega)]
    · simp [hj]

/-! ## Whole groups -/

theorem length_bitpackGroups {w n : Nat} {values : List Nat} (h : n * 8 ≤ values.length) :
    (bitpackGroups w n values).length = n * w := by
  induction n generalizing values with
  | zero => simp [bitpackGroups]
  | succ n ih =>
    rw [bitpackGroups, List.length_append, length_bitpack8 (by rw [List.length_take]; omega),
      ih (by rw [List.length_drop]; omega), Nat.succ_mul, Nat.add_comm]

/-- **Whole groups read back**, whatever follows them. -/
theorem bitunpackGroups_bitpackGroups_mod {w n : Nat} {values : List Nat}
    (h : n * 8 ≤ values.length) (rest : Bytes) :
    bitunpackGroups w n (bitpackGroups w n values ++ rest) =
      (values.take (n * 8)).map (· % 2 ^ w) := by
  induction n generalizing values with
  | zero => simp [bitunpackGroups]
  | succ n ih =>
    have h8 : (values.take 8).length = 8 := by rw [List.length_take]; omega
    rw [bitunpackGroups, bitpackGroups, List.append_assoc, bitunpack8_bitpack8 h8,
      List.drop_left' (length_bitpack8 h8), ih (by rw [List.length_drop]; omega),
      ← List.map_append, Nat.succ_mul, Nat.add_comm (n * 8), List.take_add]

end Carquet
