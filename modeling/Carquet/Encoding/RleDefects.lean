import Carquet.Encoding.RleDecodeSpec

/-!
# RLE / bit-packed hybrid: past the first defect

Up to the first defect of a stream both decoders yield the same (`RleDecodeSpec`). There the batch
decoder stops. The level decoder stops only where a repeated value is cut off: a header that is cut
off or too long it takes for what was read of it, and behind a cut-off group it reads on in the
bytes that are left of it. `hybridEnd` says where a stream's first defect leaves it, and
`barrenFrom` whether any value can be got from there.
-/

namespace Carquet

open LittleEndian Leb128

/-! ## Ends and barren bytes -/

/-- Where the level decoder stands at the first defect of a stream. -/
inductive HybridEnd where
  /-- At the end of the bytes, or where it stops as well. -/
  | stopped
  /-- Behind a header that is cut off or too long, with what was read of it. -/
  | header (header : Nat) (rest : Bytes)
  /-- At the bytes of a group that is cut off. -/
  | group (rest : Bytes)

/-- The first defect of a stream; the fuel is the number of bytes. -/
def hybridEndRuns (bitWidth : Nat) : Nat → Bytes → HybridEnd
  | 0, _ => .stopped
  | fuel + 1, input =>
    if input.isEmpty then .stopped
    else
      match readVarint input with
      | none => .header (readLevelHeader 5 0 0 input).1 (readLevelHeader 5 0 0 input).2
      | some (header, rest) =>
        let n := header / 2
        if n = 0 then hybridEndRuns bitWidth fuel rest
        else if header % 2 = 0 then
          if rest.length < rleValueBytes bitWidth then .stopped
          else hybridEndRuns bitWidth fuel (rest.drop (rleValueBytes bitWidth))
        else if n * bitWidth ≤ rest.length then
          hybridEndRuns bitWidth fuel (rest.drop (n * bitWidth))
        else .group (rest.drop (rest.length / bitWidth * bitWidth))

def hybridEnd (bitWidth : Nat) (input : Bytes) : HybridEnd :=
  hybridEndRuns bitWidth input.length input

/-- A run of which no value can be got: it has none, its value is cut off, or its first group is
and nothing comes of the bytes behind its header. -/
def barrenRun (bitWidth header : Nat) (rest : Bytes) (barren : Bytes → Bool) : Bool :=
  if header / 2 = 0 then barren rest
  else if header % 2 = 0 then rest.length < rleValueBytes bitWidth
  else rest.length < bitWidth && barren rest

/-- Bytes of which no value can be got by going from header to header. -/
def barrenBytes (bitWidth : Nat) : Nat → Bytes → Bool
  | 0, _ => true
  | fuel + 1, input =>
    input.isEmpty ||
      barrenRun bitWidth (readLevelHeader 5 0 0 input).1 (readLevelHeader 5 0 0 input).2
        (barrenBytes bitWidth fuel)

/-- No value can be got from where a stream's first defect leaves the level decoder. -/
def HybridEnd.barren (bitWidth : Nat) : HybridEnd → Bool
  | .stopped => true
  | .header n rest => barrenRun bitWidth n rest (barrenBytes bitWidth rest.length)
  | .group rest => barrenBytes bitWidth rest.length rest

/-! ## The level decoder on barren bytes -/

/-- A header takes a byte. -/
theorem length_readLevelHeader (fuel shift acc : Nat) {b : UInt8} {data : Bytes} :
    (readLevelHeader (fuel + 1) shift acc (b :: data)).2.length ≤ data.length := by
  induction fuel generalizing shift acc b data with
  | zero =>
    rw [readLevelHeader]
    split
    · exact Nat.le_refl _
    · exact Nat.le_refl _
  | succ fuel ih =>
    rw [readLevelHeader]
    split
    · exact Nat.le_refl _
    · cases data with
      | nil => exact Nat.le_refl _
      | cons c data => exact Nat.le_succ_of_le (ih _ _)

/-- One turn of the level decoder, its header read. -/
def levelRun (w fuel count header : Nat) (rest : Bytes) : List Nat :=
  if header / 2 = 0 then decodeLevelRuns w fuel count rest
  else if header % 2 = 0 then
    if rest.length < rleValueBytes w then []
    else
      List.replicate (min (header / 2) count) (leNat (rest.take (rleValueBytes w)) % 2 ^ w) ++
        decodeLevelRuns w fuel (count - min (header / 2) count) (rest.drop (rleValueBytes w))
  else
    let r :=
      if 1 ≤ w ∧ header / 2 ≤ rest.length / w ∧ header / 2 * 8 ≤ count then
        bulkLevels w (header / 2 * 8) (header / 2 * 8) rest
      else groupLevels w (header / 2) count rest
    r.1 ++ decodeLevelRuns w fuel (count - r.1.length) r.2

theorem decodeLevelRuns_succ {w fuel count : Nat} {input : Bytes} (hc : 0 < count)
    (hne : input ≠ []) :
    decodeLevelRuns w (fuel + 1) count input =
      levelRun w fuel count (readLevelHeader 5 0 0 input).1 (readLevelHeader 5 0 0 input).2 := by
  have hgo : ¬ (count = 0 ∨ input.isEmpty = true) := by
    simp only [List.isEmpty_iff, not_or]
    exact ⟨by omega, hne⟩
  rw [decodeLevelRuns, if_neg hgo]
  rfl

/-- A group that is there gives a value. -/
theorem groupLevels_ne_nil {w n count : Nat} {input : Bytes} (hn : 0 < n) (hc : 0 < count)
    (hroom : w ≤ input.length) : (groupLevels w n count input).1 ≠ [] := by
  obtain ⟨n, rfl⟩ : ∃ k, n = k + 1 := ⟨n - 1, by omega⟩
  rw [groupLevels_fst, unpackGroups, if_neg (by omega)]
  intro hnil
  have hlen := congrArg List.length hnil
  rw [List.length_take, List.length_append, length_bitunpack8, List.length_nil] at hlen
  omega

/-- A run gives nothing exactly where it is barren, if the same holds of the bytes behind it. -/
theorem levelRun_eq_nil_iff {w fuel count header : Nat} {rest : Bytes} {barren : Bytes → Bool}
    (hc : 0 < count) (hrest : decodeLevelRuns w fuel count rest = [] ↔ barren rest = true) :
    levelRun w fuel count header rest = [] ↔ barrenRun w header rest barren = true := by
  unfold levelRun barrenRun
  by_cases hn : header / 2 = 0
  · rw [if_pos hn, if_pos hn]
    exact hrest
  · rw [if_neg hn, if_neg hn]
    by_cases heven : header % 2 = 0
    · rw [if_pos heven, if_pos heven]
      split
      · rename_i hshort
        simpa using hshort
      · rename_i hshort
        have hsome : 0 < min (header / 2) count := by omega
        simp only [List.append_eq_nil_iff, List.replicate_eq_nil_iff, decide_eq_true_eq]
        constructor
        · rintro ⟨hzero, -⟩
          omega
        · intro hlt
          exact absurd hlt hshort
    · rw [if_neg heven, if_neg heven]
      by_cases hroom : w ≤ rest.length
      · -- the first group is there
        have hvalues : (if 1 ≤ w ∧ header / 2 ≤ rest.length / w ∧ header / 2 * 8 ≤ count then
            bulkLevels w (header / 2 * 8) (header / 2 * 8) rest
          else groupLevels w (header / 2) count rest).1 ≠ [] := by
          split
          · rename_i hbulk
            have hall := (Nat.le_div_iff_mul_le hbulk.1).mp hbulk.2.1
            rw [bulkLevels_eq hbulk.1 (by omega) hall]
            intro hnil
            have hlen := length_unpackGroups hall
            rw [show unpackGroups w (header / 2) rest = [] from hnil, List.length_nil] at hlen
            omega
          · exact groupLevels_ne_nil (by omega) hc hroom
        simp only [List.append_eq_nil_iff, Bool.and_eq_true, decide_eq_true_eq]
        constructor
        · rintro ⟨hnil, -⟩
          exact absurd hnil hvalues
        · rintro ⟨hshort, -⟩
          omega
      · have hbulk : ¬ (1 ≤ w ∧ header / 2 ≤ rest.length / w ∧ header / 2 * 8 ≤ count) := by
          rintro ⟨hw, hle, -⟩
          rw [Nat.div_eq_of_lt (Nat.lt_of_not_le hroom)] at hle
          omega
        obtain ⟨n, hn'⟩ : ∃ n, header / 2 = n + 1 := ⟨header / 2 - 1, by omega⟩
        have hgroup : groupLevels w (header / 2) count rest = ([], rest) := by
          rw [hn', groupLevels, if_neg (by omega), if_pos (Nat.lt_of_not_le hroom)]
        rw [if_neg hbulk, hgroup]
        simp only [List.nil_append, List.length_nil, Nat.sub_zero, Bool.and_eq_true,
          decide_eq_true_eq]
        rw [hrest]
        exact ⟨fun h => ⟨Nat.lt_of_not_le hroom, h⟩, And.right⟩

theorem decodeLevelRuns_eq_nil_iff {w fuel count : Nat} {input : Bytes} (hc : 0 < count) {n : Nat}
    (hfuel : input.length ≤ fuel) (hn : input.length ≤ n) :
    decodeLevelRuns w fuel count input = [] ↔ barrenBytes w n input = true := by
  induction fuel generalizing input n with
  | zero =>
    obtain rfl := List.length_eq_zero_iff.mp (Nat.le_zero.mp hfuel)
    cases n <;> simp [decodeLevelRuns, barrenBytes]
  | succ fuel ih =>
    cases input with
    | nil => cases n <;> simp [decodeLevelRuns, barrenBytes]
    | cons b data =>
      obtain ⟨n, rfl⟩ : ∃ k, n = k + 1 := ⟨n - 1, by rw [List.length_cons] at hn; omega⟩
      have hlen : (readLevelHeader 5 0 0 (b :: data)).2.length ≤ data.length :=
        length_readLevelHeader 4 0 0
      rw [List.length_cons] at hfuel hn
      rw [decodeLevelRuns_succ hc (List.cons_ne_nil b data), barrenBytes, List.isEmpty_cons,
        Bool.false_or]
      exact levelRun_eq_nil_iff hc (ih (by omega) (by omega))

/-! ## Past the values a stream holds -/

/-- Behind a bit-packed run that is cut off the level decoder stands at the bytes of the group. -/
theorem groupLevels_cut {w n count : Nat} {input : Bytes} (hw : 0 < w)
    (hcut : input.length < n * w) (hc : (unpackGroups w n input).length < count) :
    (groupLevels w n count input).2 = input.drop (input.length / w * w) := by
  induction n generalizing count input with
  | zero => omega
  | succ n ih =>
    have hmul : (n + 1) * w = w + n * w := by rw [Nat.succ_mul, Nat.add_comm]
    rw [groupLevels, if_neg (by omega)]
    by_cases hshort : input.length < w
    · rw [if_pos hshort, Nat.div_eq_of_lt hshort, Nat.zero_mul, List.drop_zero]
    · rw [unpackGroups, if_neg hshort, List.length_append, length_bitunpack8] at hc
      have h8 : min 8 count = 8 := by omega
      have hdiv : input.length / w * w = w + (input.length - w) / w * w := by
        have hsplit : input.length / w = (input.length - w) / w + 1 := by
          rw [← Nat.add_div_right _ hw, Nat.sub_add_cancel (Nat.le_of_not_lt hshort)]
        rw [hsplit, Nat.succ_mul, Nat.add_comm]
      rw [if_neg hshort]
      simp only [h8]
      rw [ih (by rw [List.length_drop]; omega) (by omega), List.length_drop, List.drop_drop, hdiv]

/-- **Where more is asked for than a stream holds**, the level decoder yields what it holds, and no
more exactly where its first defect leaves the decoder at barren bytes. -/
theorem decodeLevelRuns_past {w fuel count : Nat} {input : Bytes} (hfuel : input.length ≤ fuel)
    (h : (hybridValues w input).length < count) :
    ∃ more, decodeLevelRuns w fuel count input = hybridValues w input ++ more ∧
      (more = [] ↔ (hybridEndRuns w fuel input).barren w = true) := by
  induction fuel generalizing count input with
  | zero =>
    obtain rfl := List.length_eq_zero_iff.mp (Nat.le_zero.mp hfuel)
    exact ⟨[], rfl, by simp [hybridEndRuns, HybridEnd.barren]⟩
  | succ fuel ih =>
    by_cases hempty : input = []
    · subst hempty
      exact ⟨[], by simp [decodeLevelRuns], by simp [hybridEndRuns, HybridEnd.barren]⟩
    have hne : ¬ input.isEmpty = true := by simpa using hempty
    have hpos : 0 < count := Nat.lt_of_le_of_lt (Nat.zero_le _) h
    rw [decodeLevelRuns_succ hpos hempty, hybridEndRuns, if_neg hne]
    rw [hybridValues_eq] at h ⊢
    cases hv : readVarint input with
    | none =>
      obtain ⟨b, data, rfl⟩ := List.exists_cons_of_ne_nil hempty
      have hlen : (readLevelHeader 5 0 0 (b :: data)).2.length ≤ data.length :=
        length_readLevelHeader 4 0 0
      rw [List.length_cons] at hfuel
      refine ⟨_, (List.nil_append _).symm, ?_⟩
      exact levelRun_eq_nil_iff hpos
        (decodeLevelRuns_eq_nil_iff hpos (by omega) (Nat.le_refl _))
    | some p =>
      obtain ⟨header, rest⟩ := p
      have hlt := length_readUleb hv
      rw [readLevelHeader_eq hv]
      simp only [hv] at h ⊢
      rw [levelRun]
      by_cases hn : header / 2 = 0
      · rw [if_pos hn] at h
        rw [if_pos hn, if_pos hn, if_pos hn]
        exact ih (by omega) h
      · rw [if_neg hn] at h
        rw [if_neg hn, if_neg hn, if_neg hn]
        by_cases heven : header % 2 = 0
        · rw [if_pos heven] at h
          rw [if_pos heven, if_pos heven, if_pos heven]
          by_cases hshort : rest.length < rleValueBytes w
          · rw [if_pos hshort, if_pos hshort, if_pos hshort]
            exact ⟨[], rfl, by simp [HybridEnd.barren]⟩
          · rw [if_neg hshort] at h
            rw [if_neg hshort, if_neg hshort, if_neg hshort]
            rw [List.length_append, List.length_replicate] at h
            have hmin : min (header / 2) count = header / 2 := by omega
            obtain ⟨more, hmore, hiff⟩ := @ih (count - header / 2)
              (rest.drop (rleValueBytes w)) (by rw [List.length_drop]; omega) (by omega)
            refine ⟨more, ?_, hiff⟩
            rw [hmin, hmore, List.append_assoc]
        · rw [if_neg heven] at h
          rw [if_neg heven, if_neg heven, if_neg heven]
          simp only [packedRest] at h ⊢
          by_cases hroom : header / 2 * w ≤ rest.length
          · -- the run is there as a whole
            have hlen := length_unpackGroups hroom
            rw [if_pos hroom, List.length_append, hlen] at h
            rw [if_pos hroom, if_pos hroom]
            obtain ⟨more, hmore, hiff⟩ := @ih (count - header / 2 * 8)
              (rest.drop (header / 2 * w)) (by rw [List.length_drop]; omega) (by omega)
            refine ⟨more, ?_, hiff⟩
            have hrun : (if 1 ≤ w ∧ header / 2 ≤ rest.length / w ∧ header / 2 * 8 ≤ count then
                bulkLevels w (header / 2 * 8) (header / 2 * 8) rest
              else groupLevels w (header / 2) count rest) =
                (unpackGroups w (header / 2) rest, rest.drop (header / 2 * w)) := by
              split
              · rename_i hbulk
                exact bulkLevels_eq hbulk.1 (by omega) hroom
              · rename_i hbulk
                by_cases hexact : header / 2 * 8 = count
                · -- only a run of empty groups is not in one piece here
                  have hw : w = 0 := by
                    by_contra hw
                    exact hbulk ⟨by omega, (Nat.le_div_iff_mul_le (by omega)).mpr hroom, by omega⟩
                  omega
                · exact Prod.ext
                    (by rw [groupLevels_fst, List.take_of_length_le (by omega)])
                    (groupLevels_snd (by omega) hroom)
            rw [hrun]
            dsimp only
            rw [hlen, hmore, List.append_assoc]
          · rw [if_neg hroom, List.append_nil] at h
            rw [if_neg hroom, if_neg hroom, List.append_nil]
            have hw : 0 < w := by
              rcases Nat.eq_zero_or_pos w with rfl | hw
              · omega
              · exact hw
            have hbulk : ¬ (1 ≤ w ∧ header / 2 ≤ rest.length / w ∧ header / 2 * 8 ≤ count) := by
              rintro ⟨-, hle, -⟩
              exact hroom ((Nat.le_div_iff_mul_le hw).mp hle)
            have hfst : (groupLevels w (header / 2) count rest).1 =
                unpackGroups w (header / 2) rest := by
              rw [groupLevels_fst, List.take_of_length_le (by omega)]
            rw [if_neg hbulk, hfst, groupLevels_cut hw (by omega) h]
            refine ⟨_, rfl, ?_⟩
            exact decodeLevelRuns_eq_nil_iff (by omega) (by rw [List.length_drop]; omega)
              (Nat.le_refl _)

theorem hybridEndRuns_fuel {w : Nat} {fuel n : Nat} {input : Bytes} (h : input.length ≤ fuel)
    (hn : input.length ≤ n) : hybridEndRuns w fuel input = hybridEndRuns w n input := by
  induction fuel generalizing n input with
  | zero =>
    obtain rfl := List.length_eq_zero_iff.mp (Nat.le_zero.mp h)
    cases n <;> simp [hybridEndRuns]
  | succ fuel ih =>
    cases n with
    | zero =>
      obtain rfl := List.length_eq_zero_iff.mp (Nat.le_zero.mp hn)
      simp [hybridEndRuns]
    | succ n =>
      rw [hybridEndRuns, hybridEndRuns]
      split
      · rfl
      · cases hv : readVarint input with
        | none => rfl
        | some p =>
          obtain ⟨header, rest⟩ := p
          have hlt := length_readUleb hv
          have hrec (k : Nat) :
              hybridEndRuns w fuel (rest.drop k) = hybridEndRuns w n (rest.drop k) :=
            ih (by rw [List.length_drop]; omega) (by rw [List.length_drop]; omega)
          have hzero : hybridEndRuns w fuel rest = hybridEndRuns w n rest := by simpa using hrec 0
          simp only [hrec, hzero]

/-- **The level decoder agrees with the batch decoder exactly where the stream holds what is asked
for before its first defect, or no value can be got behind that.** -/
theorem rleDecodeLevels_eq_rleDecodeAll_iff (bitWidth : Nat) (hw : bitWidth ≤ 32) (input : Bytes)
    (maxValues : Nat) :
    rleDecodeLevels input bitWidth maxValues =
        (rleDecodeAll input bitWidth maxValues).map (fun v : Nat => toI16 v) ↔
      maxValues ≤ (hybridValues bitWidth input).length ∨
        (hybridEnd bitWidth input).barren bitWidth = true := by
  rw [rleDecodeAll_eq_take (by omega) (by omega), Int.toNat_natCast]
  by_cases henough : maxValues ≤ (hybridValues bitWidth input).length
  · have heq := @rleDecodeLevels_eq_take (bitWidth : Int) (by omega) (by omega) _ _ henough
    exact iff_of_true heq (Or.inl henough)
  · have hrange : ¬ ((bitWidth : Int) < 0 ∨ 32 < (bitWidth : Int)) := by omega
    obtain ⟨more, hmore, hiff⟩ :=
      decodeLevelRuns_past (Nat.le_refl input.length) (Nat.lt_of_not_le henough)
    rw [rleDecodeLevels, if_neg hrange, Int.toNat_natCast, hmore, List.map_append,
      List.take_of_length_le (Nat.le_of_lt (Nat.lt_of_not_le henough)), List.append_right_eq_self,
      List.map_eq_nil_iff, hiff, hybridEnd]
    exact ⟨Or.inr, fun h => h.resolve_left henough⟩

/-- A run of three equal levels: both decoders yield it. -/
theorem equalLevels_agree : rleDecodeLevels [6, 5] 3 3 =
    (rleDecodeAll [6, 5] 3 3).map (fun v : Nat => toI16 v) :=
  (rleDecodeLevels_eq_rleDecodeAll_iff 3 (by decide) [6, 5] 3).mpr (Or.inl (by decide))

/-- A group of eight three-bit levels that is cut off after two of its three bytes: the level
decoder takes these two for a run. -/
theorem cutGroup_disagree : ¬ ∀ (input : Bytes) (bitWidth maxValues : Nat), bitWidth ≤ 15 →
    rleDecodeLevels input bitWidth maxValues =
      (rleDecodeAll input bitWidth maxValues).map fun v : Nat => toI16 v := by
  intro h
  have hagree := h [3, 2, 5] 3 8 (by decide)
  revert hagree
  decide

end Carquet
