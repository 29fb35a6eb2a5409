import Carquet.Encoding.RleDecode

/-!
# RLE / bit-packed hybrid: what the decoders yield

`rleDecodeAll_eq_take`: the batch decoder yields the first `maxValues` of what the stream
holds. `pending` is what a decoder in the middle of a run still holds; every step of the
decoder hands out a prefix of it.

`rleDecodeLevels_eq_take`: where the stream holds at least what is asked for, the level
decoder yields the same prefix. Past a defect it does not: it goes on reading.
-/

namespace Carquet

open LittleEndian Leb128

/-! ## The batch decoder -/

/-- What a decoder still holds. -/
def RleDecoder.pending (dec : RleDecoder) : List Nat :=
  if dec.status ≠ .ok then []
  else if dec.runRemaining = 0 then hybridValues dec.bitWidth dec.rest
  else if dec.inRleRun then
    List.replicate dec.runRemaining dec.rleValue ++ hybridValues dec.bitWidth dec.rest
  else
    dec.bitpack ++ packedRest dec.bitWidth ((dec.runRemaining - dec.bitpack.length) / 8) dec.rest

/-- In a bit-packed run the count left is the buffered values and whole groups. -/
def RleDecoder.Aligned (dec : RleDecoder) : Prop :=
  dec.inRleRun = false → 0 < dec.runRemaining →
    ∃ groups, dec.runRemaining = dec.bitpack.length + groups * 8

theorem pending_of_status {dec : RleDecoder} (h : dec.status ≠ .ok) : dec.pending = [] := by
  simp [RleDecoder.pending, h]

/-- Between runs: opening one keeps what is held, and a failure means nothing is. -/
theorem startNewRun_spec {fuel : Nat} {dec dec' : RleDecoder} {started : Bool}
    (hfuel : dec.rest.length ≤ fuel) (hs : dec.status = .ok) (hr : dec.runRemaining = 0)
    (h : startNewRun fuel dec = (started, dec')) :
    if started then dec'.pending = dec.pending ∧ dec'.Aligned ∧ dec'.status = .ok ∧
        0 < dec'.runRemaining
    else dec.pending = [] := by
  have hpend : ∀ d : RleDecoder, d.status = .ok → d.runRemaining = 0 →
      d.pending = hybridValues d.bitWidth d.rest := by
    intro d h1 h2
    simp [RleDecoder.pending, h1, h2]
  induction fuel generalizing dec with
  | zero =>
    simp only [startNewRun, Prod.mk.injEq] at h
    have hnil : dec.rest = [] := List.length_eq_zero_iff.mp (by omega)
    simp [← h.1, hpend dec hs hr, hnil]
  | succ fuel ih =>
    rw [startNewRun] at h
    split at h
    · rename_i hempty
      have hnil : dec.rest = [] := by simpa using hempty
      simp only [Prod.mk.injEq] at h
      simp [← h.1, hpend dec hs hr, hnil]
    · split at h
      · rename_i hv
        simp only [Prod.mk.injEq] at h
        simp [← h.1, hpend dec hs hr, hybridValues_eq, hv]
      · rename_i header rest hv
        have hlt := length_readUleb hv
        have heq : dec.pending = _ := (hpend dec hs hr).trans (hybridValues_eq _ _)
        simp only [hv] at heq
        split at h
        · rename_i heven
          by_cases hn : header / 2 = 0
          · -- an empty repeated run
            rw [if_pos hn] at h
            rw [if_pos hn] at heq
            have hd := hpend { dec with
              rest := rest, inRleRun := true, runRemaining := header / 2 } hs hn
            have hrec := @ih { dec with
              rest := rest, inRleRun := true, runRemaining := header / 2 }
              (Nat.le_of_lt_succ (Nat.lt_of_lt_of_le hlt hfuel)) hs hn h
            rwa [hd, ← heq] at hrec
          · simp only [if_neg hn] at h
            rw [if_neg hn, if_pos heven] at heq
            split at h
            · rename_i hshort
              rw [if_pos hshort] at heq
              simp only [Prod.mk.injEq] at h
              simp [← h.1, heq]
            · rename_i hshort
              rw [if_neg hshort] at heq
              simp only [Prod.mk.injEq] at h
              obtain ⟨rfl, rfl⟩ := h
              refine ⟨?_, ?_, hs, by simp only; omega⟩
              · rw [heq]
                simp [RleDecoder.pending, hs, hn]
              · intro hfalse
                simp at hfalse
        · rename_i hodd
          by_cases hn : header / 2 = 0
          · rw [if_pos hn] at heq
            rw [if_pos (by simp only; omega)] at h
            have h8 : header / 2 * 8 = 0 := by omega
            have hd := hpend { dec with
              rest := rest, inRleRun := false, runRemaining := header / 2 * 8 } hs h8
            have hrec := @ih { dec with
              rest := rest, inRleRun := false, runRemaining := header / 2 * 8 }
              (Nat.le_of_lt_succ (Nat.lt_of_lt_of_le hlt hfuel)) hs h8 h
            rwa [hd, ← heq] at hrec
          · rw [if_neg hn, if_neg hodd] at heq
            rw [if_neg (by simp only; omega)] at h
            simp only [Prod.mk.injEq] at h
            obtain ⟨rfl, rfl⟩ := h
            have hne : header / 2 * 8 ≠ 0 := by omega
            refine ⟨?_, ?_, hs, by simp only; omega⟩
            · rw [heq]
              simp [RleDecoder.pending, hs, hne]
            · intro _ _
              exact ⟨header / 2, by simp⟩

/-- Filling the buffer inside a bit-packed run. -/
theorem fillBitpackBuffer_spec {dec dec' : RleDecoder} {filled : Bool} (hs : dec.status = .ok)
    (hrun : dec.inRleRun = false) (ha : dec.Aligned) (hr : 0 < dec.runRemaining)
    (hb : dec.bitpack = []) (h : fillBitpackBuffer dec = (filled, dec')) :
    if filled then dec'.pending = dec.pending ∧ dec'.Aligned ∧ dec'.status = .ok ∧
        dec'.inRleRun = false ∧ dec'.bitpack ≠ [] ∧ dec'.runRemaining = dec.runRemaining
    else dec.pending = [] ∧ dec'.Aligned ∧ dec'.status ≠ .ok := by
  obtain ⟨groups, hg⟩ := ha hrun hr
  rw [hb, List.length_nil, Nat.zero_add] at hg
  obtain ⟨g, rfl⟩ : ∃ g, groups = g + 1 := ⟨groups - 1, by omega⟩
  have h0 : dec.runRemaining ≠ 0 := by omega
  have hp : dec.pending = packedRest dec.bitWidth (g + 1) dec.rest := by
    simp [RleDecoder.pending, hs, hrun, hb, hg]
  rw [packedRest_succ] at hp
  rw [fillBitpackBuffer, if_neg h0] at h
  split at h
  · rename_i hshort
    rw [if_pos hshort] at hp
    simp only [Prod.mk.injEq] at h
    obtain ⟨rfl, rfl⟩ := h
    exact ⟨hp, ha, by simp⟩
  · rename_i hshort
    rw [if_neg hshort] at hp
    simp only [Prod.mk.injEq] at h
    obtain ⟨rfl, rfl⟩ := h
    have h8 : (dec.runRemaining - 8) / 8 = g := by omega
    refine ⟨?_, ?_, hs, hrun, ?_, rfl⟩
    · rw [hp]
      simp [RleDecoder.pending, hs, h0, hrun, h8]
    · intro _ _
      exact ⟨g, by simp only [length_bitunpack8]; omega⟩
    · intro hnil
      have := congrArg List.length hnil
      simp at this

/-- Handing out `n` buffered values. -/
theorem pending_take_bitpack {dec : RleDecoder} {n : Nat} (hs : dec.status = .ok)
    (hrun : dec.inRleRun = false) (ha : dec.Aligned) (hr : 0 < dec.runRemaining)
    (hn : n ≤ dec.bitpack.length) :
    let dec' := { dec with
      bitpack := dec.bitpack.drop n, runRemaining := dec.runRemaining - n }
    dec.pending = dec.bitpack.take n ++ dec'.pending ∧ dec'.Aligned := by
  obtain ⟨groups, hg⟩ := ha hrun hr
  have h0 : dec.runRemaining ≠ 0 := by omega
  have hg1 : (dec.runRemaining - dec.bitpack.length) / 8 = groups := by omega
  have hleft : dec.pending = dec.bitpack ++ packedRest dec.bitWidth groups dec.rest := by
    simp [RleDecoder.pending, hs, h0, hrun, hg1]
  refine ⟨?_, fun _ _ => ⟨groups, by simp only [List.length_drop]; omega⟩⟩
  have hright : ({ dec with
      bitpack := dec.bitpack.drop n, runRemaining := dec.runRemaining - n } : RleDecoder).pending
      = dec.bitpack.drop n ++ packedRest dec.bitWidth groups dec.rest := by
    by_cases hz : dec.runRemaining - n = 0
    · have hg0 : groups = 0 := by omega
      have hdrop : dec.bitpack.drop n = [] := List.drop_eq_nil_of_le (by omega)
      simp [RleDecoder.pending, hs, hz, hdrop, hg0, packedRest_zero]
    · have hg2 : (dec.runRemaining - n - (dec.bitpack.length - n)) / 8 = groups := by omega
      simp [RleDecoder.pending, hs, hz, hrun, hg2]
  rw [hleft, hright, ← List.append_assoc, List.take_append_drop]

/-- A step inside a bit-packed run hands out a prefix of what is held. -/
theorem getPacked_spec {fuel count : Nat} {dec dec' : RleDecoder} {out : List Nat}
    (hfuel : count ≤ fuel) (hs : dec.status = .ok) (hrun : dec.inRleRun = false)
    (ha : dec.Aligned) (h : getPacked fuel count dec = (out, dec')) :
    dec.pending = out ++ dec'.pending ∧ dec'.Aligned ∧ out.length ≤ count ∧
      (0 < count → 0 < dec.runRemaining → 0 < out.length ∨ dec'.status ≠ .ok) := by
  induction fuel generalizing count dec dec' out with
  | zero =>
    simp only [getPacked, Prod.mk.injEq] at h
    obtain ⟨rfl, rfl⟩ := h
    exact ⟨rfl, ha, Nat.zero_le _, fun h => absurd h (by omega)⟩
  | succ fuel ih =>
    rw [getPacked] at h
    split at h
    · rename_i hpos
      -- the buffer is filled first when it is empty
      obtain ⟨filled, dec₁, hfill⟩ : ∃ filled dec₁,
          (if dec.bitpack.isEmpty then fillBitpackBuffer dec else (true, dec)) = (filled, dec₁) :=
        ⟨_, _, rfl⟩
      have hone : if filled then dec₁.pending = dec.pending ∧ dec₁.Aligned ∧ dec₁.status = .ok ∧
            dec₁.inRleRun = false ∧ dec₁.bitpack ≠ [] ∧ dec₁.runRemaining = dec.runRemaining
          else dec.pending = [] ∧ dec₁.Aligned ∧ dec₁.status ≠ .ok := by
        split at hfill
        · rename_i hempty
          exact fillBitpackBuffer_spec hs hrun ha hpos.2 (by simpa using hempty) hfill
        · rename_i hne
          simp only [Prod.mk.injEq] at hfill
          obtain ⟨rfl, rfl⟩ := hfill
          exact ⟨rfl, ha, hs, hrun, by simpa using hne, rfl⟩
      rw [hfill] at h
      cases filled with
      | false =>
        simp only [Bool.false_eq_true, if_false, Prod.mk.injEq] at hone h
        obtain ⟨rfl, rfl⟩ := h
        refine ⟨?_, hone.2.1, Nat.zero_le _, fun _ _ => Or.inr hone.2.2⟩
        rw [hone.1, pending_of_status hone.2.2]
        rfl
      | true =>
        simp only [if_true] at hone h
        obtain ⟨hp₁, ha₁, hs₁, hrun₁, hb₁, hr₁⟩ := hone
        have hblen : 0 < dec₁.bitpack.length := List.length_pos_iff.mpr hb₁
        generalize hn : min count (min dec₁.bitpack.length dec₁.runRemaining) = n at h
        have hnb : n ≤ dec₁.bitpack.length := by omega
        obtain ⟨hp₂, ha₂⟩ := pending_take_bitpack hs₁ hrun₁ ha₁ (by omega) hnb
        obtain ⟨more, dec₃, hmore⟩ : ∃ more dec₃, getPacked fuel (count - n) { dec₁ with
            bitpack := dec₁.bitpack.drop n, runRemaining := dec₁.runRemaining - n }
              = (more, dec₃) := ⟨_, _, rfl⟩
        rw [hmore] at h
        simp only [Prod.mk.injEq] at h
        obtain ⟨rfl, rfl⟩ := h
        obtain ⟨hp₃, ha₃, hle, -⟩ := @ih _ { dec₁ with
            bitpack := dec₁.bitpack.drop n, runRemaining := dec₁.runRemaining - n } _ _
          (by omega) hs₁ hrun₁ ha₂ hmore
        have hlen : (dec₁.bitpack.take n ++ more).length = n + more.length := by
          rw [List.length_append, List.length_take, Nat.min_eq_left hnb]
        refine ⟨?_, ha₃, ?_, fun _ _ => Or.inl ?_⟩
        · rw [← hp₁, hp₂, hp₃, List.append_assoc]
        · rw [hlen]
          omega
        · rw [hlen]
          omega
    · rename_i hpos
      simp only [Prod.mk.injEq] at h
      obtain ⟨rfl, rfl⟩ := h
      exact ⟨rfl, ha, Nat.zero_le _, fun h1 h2 => absurd ⟨h1, h2⟩ hpos⟩

theorem getFromRun_spec {count : Nat} {dec dec' : RleDecoder} {out : List Nat}
    (hs : dec.status = .ok) (ha : dec.Aligned) (hr : 0 < dec.runRemaining)
    (h : getFromRun count dec = (out, dec')) :
    dec.pending = out ++ dec'.pending ∧ dec'.Aligned ∧ out.length ≤ count ∧
      (0 < count → 0 < out.length ∨ dec'.status ≠ .ok) := by
  rw [getFromRun] at h
  split at h
  · rename_i hrle
    simp only [Prod.mk.injEq] at h
    obtain ⟨rfl, rfl⟩ := h
    simp only [List.length_replicate]
    refine ⟨?_, ?_, Nat.min_le_left _ _, fun _ => Or.inl (by omega)⟩
    · have h0 : dec.runRemaining ≠ 0 := by omega
      have hsplit : List.replicate dec.runRemaining dec.rleValue =
          List.replicate (min count dec.runRemaining) dec.rleValue ++
            List.replicate (dec.runRemaining - min count dec.runRemaining) dec.rleValue := by
        rw [List.replicate_append_replicate]
        congr 1
        omega
      have hleft : dec.pending = List.replicate dec.runRemaining dec.rleValue ++
          hybridValues dec.bitWidth dec.rest := by
        simp [RleDecoder.pending, hs, h0, hrle]
      rw [hleft, hsplit, List.append_assoc]
      congr 1
      by_cases hz : dec.runRemaining - min count dec.runRemaining = 0
      · simp [RleDecoder.pending, hs, hz]
      · simp [RleDecoder.pending, hs, hz, hrle]
    · intro hfalse
      simp [hrle] at hfalse
  · rename_i hrle
    obtain ⟨h1, h2, h3, h4⟩ := getPacked_spec (Nat.le_refl _) hs (by simpa using hrle) ha h
    exact ⟨h1, h2, h3, fun hc => h4 hc hr⟩

theorem getBatch_of_status {fuel count : Nat} {dec : RleDecoder} (h : dec.status ≠ .ok) :
    getBatch fuel count dec = [] := by
  cases fuel with
  | zero => rfl
  | succ fuel =>
    have : dec.hasNext = false := by simp [RleDecoder.hasNext, h]
    rw [getBatch, if_neg (by simp [this])]

theorem getBatch_eq_take {fuel count : Nat} {dec : RleDecoder} (hfuel : count < fuel)
    (hs : dec.status = .ok) (ha : dec.Aligned) :
    getBatch fuel count dec = dec.pending.take count := by
  induction fuel generalizing count dec with
  | zero => omega
  | succ fuel ih =>
    rw [getBatch]
    split
    · rename_i hnext
      obtain ⟨started, dec₁, hstart⟩ : ∃ started dec₁,
          (if dec.runRemaining = 0 then startNewRun dec.rest.length dec else (true, dec))
            = (started, dec₁) := ⟨_, _, rfl⟩
      rw [hstart]
      have hopen : if started then dec₁.pending = dec.pending ∧ dec₁.Aligned ∧ dec₁.status = .ok ∧
            0 < dec₁.runRemaining
          else dec.pending = [] := by
        split at hstart
        · rename_i hz
          exact startNewRun_spec (Nat.le_refl _) hs hz hstart
        · simp only [Prod.mk.injEq] at hstart
          obtain ⟨rfl, rfl⟩ := hstart
          exact ⟨rfl, ha, hs, by omega⟩
      cases started with
      | false =>
        simp only [Bool.false_eq_true, if_false] at hopen ⊢
        simp [hopen]
      | true =>
        simp only [if_true] at hopen ⊢
        obtain ⟨hp₁, ha₁, hs₁, hr₁⟩ := hopen
        obtain ⟨values, dec₂, hval⟩ : ∃ values dec₂, getFromRun count dec₁ = (values, dec₂) :=
          ⟨_, _, rfl⟩
        obtain ⟨hp₂, ha₂, hle, hprog⟩ := getFromRun_spec hs₁ ha₁ hr₁ hval
        rw [hval]
        have hpend : dec.pending.take count =
            values ++ dec₂.pending.take (count - values.length) := by
          rw [← hp₁, hp₂, List.take_append, List.take_of_length_le hle]
        rw [hpend]
        by_cases hs₂ : dec₂.status = .ok
        · have hlen : 0 < values.length := by
            rcases hprog hnext.1 with h | h
            · exact h
            · exact absurd hs₂ h
          simp only
          rw [ih (by omega) hs₂ ha₂]
        · simp only
          rw [getBatch_of_status hs₂, pending_of_status hs₂, List.take_nil]
    · rename_i hnext
      by_cases hc : count = 0
      · simp [hc]
      · have hnx : dec.hasNext = false := by
          by_contra hne
          exact hnext ⟨by omega, by simpa using hne⟩
        have hempty : dec.runRemaining = 0 ∧ dec.rest = [] := by
          simp [RleDecoder.hasNext, hs] at hnx
          exact ⟨by omega, hnx.2⟩
        simp [RleDecoder.pending, hs, hempty.1, hempty.2]

/-- **The batch decoder** yields the first `maxValues` values the stream holds. -/
theorem rleDecodeAll_eq_take {bitWidth : Int} (h0 : 0 ≤ bitWidth) (h32 : bitWidth ≤ 32)
    (input : Bytes) (maxValues : Nat) :
    rleDecodeAll input bitWidth maxValues =
      (hybridValues bitWidth.toNat input).take maxValues := by
  have hw : ¬ (bitWidth < 0 ∨ 32 < bitWidth) := by omega
  rw [rleDecodeAll, rleDecoderInit, if_neg hw, getBatch_eq_take (by omega) rfl]
  · simp [RleDecoder.pending]
  · intro _ h
    simp at h

/-- A bit width that is no bit width yields nothing. -/
theorem rleDecodeAll_of_width {bitWidth : Int} (h : bitWidth < 0 ∨ 32 < bitWidth)
    (input : Bytes) (maxValues : Nat) : rleDecodeAll input bitWidth maxValues = [] := by
  rw [rleDecodeAll, rleDecoderInit, if_pos h, getBatch_of_status (by simp)]

theorem length_rleDecodeAll_le (input : Bytes) (bitWidth : Int) (maxValues : Nat) :
    (rleDecodeAll input bitWidth maxValues).length ≤ maxValues := by
  by_cases h : bitWidth < 0 ∨ 32 < bitWidth
  · simp [rleDecodeAll_of_width h]
  · rw [rleDecodeAll_eq_take (by omega) (by omega), List.length_take]
    omega

/-! ## The level decoder -/

/-- On a header that is complete the two readers agree. -/
theorem readLevelHeader_eq {data rest : Bytes} {fuel shift acc header : Nat}
    (h : readUleb 32 fuel shift acc data = some (header, rest)) :
    readLevelHeader fuel shift acc data = (header, rest) := by
  induction fuel generalizing shift acc data with
  | zero => simp [readUleb] at h
  | succ fuel ih =>
    cases data with
    | nil => simp [readUleb] at h
    | cons b data =>
      simp only [readUleb] at h
      simp only [readLevelHeader]
      split at h
      · rename_i hb
        rw [if_pos hb]
        simpa using h
      · rename_i hb
        rw [if_neg hb]
        exact ih h

theorem length_unpackGroups {w n : Nat} {input : Bytes} (h : n * w ≤ input.length) :
    (unpackGroups w n input).length = n * 8 := by
  induction n generalizing input with
  | zero => rfl
  | succ n ih =>
    have hmul : (n + 1) * w = n * w + w := Nat.succ_mul n w
    rw [unpackGroups, if_neg (by omega), List.length_append, length_bitunpack8,
      ih (by rw [List.length_drop]; omega)]
    omega

theorem bitunpackGroups_eq {w n : Nat} {input : Bytes} (h : n * w ≤ input.length) :
    bitunpackGroups w n input = unpackGroups w n input := by
  induction n generalizing input with
  | zero => rfl
  | succ n ih =>
    have hmul : (n + 1) * w = n * w + w := Nat.succ_mul n w
    rw [bitunpackGroups, unpackGroups, if_neg (by omega),
      ih (by rw [List.length_drop]; omega)]

theorem unpackGroups_add (w m n : Nat) (input : Bytes) (h : m * w ≤ input.length) :
    unpackGroups w (m + n) input =
      unpackGroups w m input ++ unpackGroups w n (input.drop (m * w)) := by
  induction m generalizing input with
  | zero => simp [unpackGroups]
  | succ m ih =>
    have hmul : (m + 1) * w = w + m * w := by rw [Nat.succ_mul, Nat.add_comm]
    have hadd : m + 1 + n = m + n + 1 := by omega
    rw [hadd, unpackGroups, unpackGroups, if_neg (by omega), if_neg (by omega),
      ih _ (by rw [List.length_drop]; omega), List.append_assoc, List.drop_drop, hmul]

/-- The bulk path unpacks the run's groups and stops behind them. -/
theorem bulkLevels_eq {w n fuel : Nat} {input : Bytes} (hw : 0 < w) (hfuel : n ≤ fuel)
    (h : n * w ≤ input.length) :
    bulkLevels w fuel (n * 8) input = (unpackGroups w n input, input.drop (n * w)) := by
  induction fuel generalizing n input with
  | zero =>
    have hn : n = 0 := by omega
    subst hn
    simp [bulkLevels, unpackGroups]
  | succ fuel ih =>
    rw [bulkLevels]
    by_cases hn : n = 0
    · subst hn
      simp [unpackGroups]
    · obtain ⟨m, hm⟩ : ∃ m, min n 32 = m := ⟨_, rfl⟩
      have hchunk : min (n * 8) 256 = m * 8 := by omega
      have hmn : m * w ≤ n * w := Nat.mul_le_mul_right w (by omega)
      have hsub : (n - m) * w = n * w - m * w := Nat.sub_mul n m w
      have hunpack : bitunpack32 w (m * 8) input = (unpackGroups w m input, m * w) := by
        rw [bitunpack32, if_neg (by omega)]
        simp [bitunpackGroups_eq (show m * w ≤ input.length by omega)]
      have hleft : n * 8 - m * 8 = (n - m) * 8 := by omega
      rw [if_neg (by omega), hchunk]
      simp only [hunpack]
      rw [hleft, ih (by omega) (by rw [List.length_drop]; omega)]
      simp only [List.drop_drop, Prod.mk.injEq]
      constructor
      · rw [← unpackGroups_add w m (n - m) input (by omega)]
        congr 1
        omega
      · congr 1
        omega

theorem groupLevels_fst (w n count : Nat) (input : Bytes) :
    (groupLevels w n count input).1 = (unpackGroups w n input).take count := by
  induction n generalizing count input with
  | zero => simp [groupLevels, unpackGroups]
  | succ n ih =>
    rw [groupLevels, unpackGroups]
    by_cases hc : count = 0
    · simp [hc]
    · rw [if_neg hc]
      split
      · simp
      · simp only
        rw [ih, List.take_append, length_bitunpack8]
        by_cases h8 : 8 ≤ count
        · have h1 : min 8 count = 8 := by omega
          rw [h1, List.take_of_length_le (l := bitunpack8 w input) (by simp),
            List.take_of_length_le (l := bitunpack8 w input) (by simpa using h8)]
        · have h1 : min 8 count = count := by omega
          have h2 : count - 8 = 0 := by omega
          simp [h1, h2]

/-- With room for the whole run, the loop over groups ends behind it. -/
theorem groupLevels_snd {w n count : Nat} {input : Bytes} (hc : n * 8 < count)
    (h : n * w ≤ input.length) : (groupLevels w n count input).2 = input.drop (n * w) := by
  induction n generalizing count input with
  | zero => simp [groupLevels]
  | succ n ih =>
    have hmul : (n + 1) * w = w + n * w := by rw [Nat.succ_mul, Nat.add_comm]
    have h8 : min 8 count = 8 := by omega
    rw [groupLevels, if_neg (by omega), if_neg (by omega)]
    simp only [h8]
    rw [ih (by omega) (by rw [List.length_drop]; omega), List.drop_drop, hmul]

theorem decodeLevelRuns_zero (w fuel : Nat) (input : Bytes) :
    decodeLevelRuns w fuel 0 input = [] := by
  cases fuel <;> simp [decodeLevelRuns]

theorem decodeLevelRuns_eq_take {w fuel count : Nat} {input : Bytes}
    (hfuel : input.length ≤ fuel) (h : count ≤ (hybridValues w input).length) :
    decodeLevelRuns w fuel count input = (hybridValues w input).take count := by
  induction fuel generalizing count input with
  | zero =>
    have hnil : input = [] := List.length_eq_zero_iff.mp (by omega)
    simp [hnil, decodeLevelRuns]
  | succ fuel ih =>
    by_cases hc : count = 0
    · simp [hc, decodeLevelRuns]
    rw [hybridValues_eq] at h ⊢
    cases hv : readVarint input with
    | none =>
      simp only [hv, List.length_nil] at h
      omega
    | some p =>
      obtain ⟨header, rest⟩ := p
      have hlt := length_readUleb hv
      have hne : ¬ (count = 0 ∨ input.isEmpty = true) := by
        rintro (h0 | hempty)
        · exact hc h0
        · rw [List.isEmpty_iff.mp hempty] at hlt
          simp at hlt
      simp only [hv] at h ⊢
      rw [decodeLevelRuns, if_neg hne, readLevelHeader_eq hv]
      simp only
      by_cases hn : header / 2 = 0
      · rw [if_pos hn] at h ⊢
        rw [if_pos hn]
        exact ih (by omega) h
      · rw [if_neg hn] at h ⊢
        rw [if_neg hn]
        by_cases heven : header % 2 = 0
        · rw [if_pos heven] at h ⊢
          rw [if_pos heven]
          split at h
          · simp only [List.length_nil] at h
            omega
          · rename_i hshort
            rw [if_neg hshort, if_neg hshort]
            simp only [List.length_append, List.length_replicate] at h
            rw [List.take_append, List.length_replicate, List.take_replicate,
              ih (by rw [List.length_drop]; omega) (by omega)]
            congr 2
            · omega
            · omega
        · rw [if_neg heven] at h ⊢
          rw [if_neg heven]
          by_cases hbulk : 1 ≤ w ∧ header / 2 ≤ rest.length / w ∧ header / 2 * 8 ≤ count
          · have hroom : header / 2 * w ≤ rest.length :=
              (Nat.le_div_iff_mul_le hbulk.1).mp hbulk.2.1
            have hlen := length_unpackGroups hroom
            rw [if_pos hbulk, bulkLevels_eq hbulk.1 (by omega) hroom]
            simp only [packedRest, if_pos hroom, List.length_append, hlen] at h ⊢
            rw [List.take_append, hlen, List.take_of_length_le (by omega),
              ih (by rw [List.length_drop]; omega) (by omega)]
          · rw [if_neg hbulk]
            have hfst := groupLevels_fst w (header / 2) count rest
            by_cases henough : count ≤ (unpackGroups w (header / 2) rest).length
            · -- the count is reached inside this run
              obtain ⟨values, rest', hg⟩ : ∃ values rest',
                  groupLevels w (header / 2) count rest = (values, rest') := ⟨_, _, rfl⟩
              rw [hg] at hfst ⊢
              simp only at hfst ⊢
              have hlen : values.length = count := by
                rw [hfst, List.length_take]
                omega
              rw [hlen, Nat.sub_self, decodeLevelRuns_zero, List.append_nil, hfst, packedRest,
                List.take_append_of_le_length henough]
            · have hroom : header / 2 * w ≤ rest.length := by
                by_contra hno
                simp only [packedRest, if_neg hno, List.append_nil] at h
                exact henough h
              have hlen := length_unpackGroups hroom
              have hsnd := @groupLevels_snd w (header / 2) count rest (by omega) hroom
              obtain ⟨values, rest', hg⟩ : ∃ values rest',
                  groupLevels w (header / 2) count rest = (values, rest') := ⟨_, _, rfl⟩
              rw [hg] at hfst hsnd ⊢
              simp only [packedRest, if_pos hroom, List.length_append, hlen] at hfst hsnd h ⊢
              rw [hfst, hsnd, List.take_append, List.length_take, hlen,
                ih (by rw [List.length_drop]; omega) (by omega)]
              congr 2
              omega

/-- **The level decoder** yields the levels a stream holds, as long as it holds enough. -/
theorem rleDecodeLevels_eq_take {bitWidth : Int} (h0 : 0 ≤ bitWidth) (h32 : bitWidth ≤ 32)
    {input : Bytes} {maxValues : Nat}
    (h : maxValues ≤ (hybridValues bitWidth.toNat input).length) :
    rleDecodeLevels input bitWidth maxValues =
      ((hybridValues bitWidth.toNat input).take maxValues).map fun v : Nat => toI16 v := by
  have hw : ¬ (bitWidth < 0 ∨ 32 < bitWidth) := by omega
  rw [rleDecodeLevels, if_neg hw, decodeLevelRuns_eq_take (Nat.le_refl _) h]

end Carquet
