import Carquet.Encoding.DeltaAccess

/-!
# How far the delta decoders are safe

No byte string takes the decoders outside their arrays (`deltaDecodeAt_eq`, `deltaLengthDecodeAt_eq`,
`deltaStringsDecodeAt_eq`). What they return with OK is decoded but for two cases: the integer
decoders do not look whether the number of values is negative, and no decoder looks whether a
mini-block has values at all. The header is checked for mini-blocks that are too large
(delta.c:117-119), not for a block of fewer values than mini-blocks: then a mini-block has none, and
the loop takes the cell that was cleared at the start for each value (`HollowStream`).
-/

namespace Carquet

open LittleEndian Leb128 Chunks Access

/-! ## Mini-blocks of no values -/

/-- What follows `k` mini-blocks that take no bytes: `widths` are those that are left of a block. -/
def skipEmptyMinis (miniBlocks : Nat) : Nat → List Nat → Bytes → Option Bytes
  | 0, _, rest => some rest
  | k + 1, w :: widths, rest =>
    if w ≤ 64 then skipEmptyMinis miniBlocks k widths rest else none
  | k + 1, [], rest =>
    match readUleb128 rest with
    | none => none
    | some (_, rest) =>
      if rest.length < miniBlocks then none
      else
        match (rest.take miniBlocks).map UInt8.toNat with
        | w :: widths =>
          if w ≤ 64 then skipEmptyMinis miniBlocks k widths (rest.drop miniBlocks) else none
        | [] => none

/-- The first value of a stream and what follows it, if it has a header for `n` values, two at least,
whose mini-blocks are empty, and those mini-blocks. -/
def hollowStream (data : Bytes) (n : Nat) : Option (Int × Bytes) :=
  match deltaDecoderInit data with
  | .error _ => none
  | .ok dec =>
    if dec.blockSize < dec.miniBlocksPerBlock ∧ 2 ≤ n then
      (skipEmptyMinis dec.miniBlocksPerBlock (n - 1) [] dec.rest).map (dec.firstValue, ·)
    else none

/-- The states in which the decode loop takes a value. -/
def deltaTakes : Nat → DeltaDecoder → List DeltaDecoder
  | 0, _ => []
  | n + 1, dec =>
    match deltaEnsureMiniBlock dec with
    | .error _ => []
    | .ok dec => dec :: deltaTakes n { dec with miniBlockPos := dec.miniBlockPos + 1 }

/-- Each of the `n` values after the first is one that a mini-block of the input holds. -/
def AllDecoded (data : Bytes) (n : Nat) : Prop :=
  ∀ dec, deltaDecoderInit data = .ok dec →
    ∀ t ∈ deltaTakes (n - 1) dec, t.miniBlockPos < t.valuesInMiniBlock

theorem deltaTakes_full {data : Bytes} {n : Nat} {dec : DeltaDecoder} (h : dec.Fits data)
    (hsize : dec.miniBlocksPerBlock ≤ dec.blockSize) :
    ∀ t ∈ deltaTakes n dec, t.miniBlockPos < t.valuesInMiniBlock := by
  induction n generalizing dec with
  | zero => exact fun t ht => absurd ht List.not_mem_nil
  | succ n ih =>
    rw [deltaTakes]
    cases hensure : deltaEnsureMiniBlock dec with
    | error e => exact fun t ht => absurd ht List.not_mem_nil
    | ok dec₁ =>
      obtain ⟨hfits, -, hblock, hminis⟩ := fits_ensureMiniBlock h hensure
      have htake : dec₁.miniBlockPos < dec₁.valuesInMiniBlock := by
        unfold deltaEnsureMiniBlock at hensure
        split at hensure
        · obtain ⟨-, hpos, hvalues, -, -⟩ := fits_readMiniBlock h hensure
          rw [hpos, hvalues]
          exact Nat.div_pos hsize h.miniBlocks.1
        · rename_i hlt
          cases hensure
          exact Nat.lt_of_not_le hlt
      refine List.forall_mem_cons.mpr ⟨htake, ih (fits_taken hfits _) ?_⟩
      show dec₁.miniBlocksPerBlock ≤ dec₁.blockSize
      omega

theorem deltaUnpackMini_empty (minDelta : Int) (w : Nat) (rest : Bytes) :
    deltaUnpackMini minDelta w 0 rest = if w ≤ 64 then .ok ([], rest) else .error .decode := by
  unfold deltaUnpackMini
  by_cases hzero : w = 0
  · rw [if_pos hzero, if_pos (by omega)]
    rfl
  · rw [if_neg hzero]
    by_cases hnarrow : w ≤ 32
    · have h64 : w ≤ 64 := by omega
      rw [if_pos hnarrow, if_pos h64, Nat.zero_mul]
      dsimp only
      rw [if_neg (by omega), show (bitunpack32 w 0 rest).1 = [] from
        List.eq_nil_of_length_eq_zero (length_bitunpack32 w 0 rest)]
      rfl
    · rw [if_neg hnarrow]
      by_cases hwide : w ≤ 64
      · rw [if_pos hwide, if_pos hwide]
        dsimp only
        rw [Nat.zero_mul, if_neg (by omega)]
        rfl
      · rw [if_neg hwide, if_neg hwide]

/-- A decoder of empty mini-blocks: its cells are as they were cleared. -/
structure DeltaDecoder.Hollow (dec : DeltaDecoder) : Prop where
  size : dec.blockSize < dec.miniBlocksPerBlock
  none : dec.valuesInMiniBlock = 0
  cleared : dec.miniBlockValues = List.replicate deltaMiniBlockSize 0

/-- An empty mini-block is one of `skipEmptyMinis`. -/
theorem deltaReadMiniBlock_hollow {data : Bytes} {dec : DeltaDecoder} (h : dec.Fits data)
    (hollow : dec.Hollow) :
    (∃ dec', deltaReadMiniBlock dec = .ok dec' ∧ dec'.Hollow ∧ dec'.Fits data ∧
      dec'.miniBlockPos = 0 ∧ dec'.miniBlocksPerBlock = dec.miniBlocksPerBlock ∧
      ∀ k, skipEmptyMinis dec.miniBlocksPerBlock (k + 1)
          (dec.bitWidths.drop dec.currentMiniBlock) dec.rest =
        skipEmptyMinis dec.miniBlocksPerBlock k
          (dec'.bitWidths.drop dec'.currentMiniBlock) dec'.rest) ∨
    (∃ e, deltaReadMiniBlock dec = .error e) ∧
      ∀ k, skipEmptyMinis dec.miniBlocksPerBlock (k + 1)
        (dec.bitWidths.drop dec.currentMiniBlock) dec.rest = none := by
  -- with the block there, one width says it all
  have hopen : ∀ d : DeltaDecoder, d.Fits data → d.Hollow →
      d.currentMiniBlock < d.miniBlocksPerBlock → deltaEnsureBlock dec = .ok d →
      d.miniBlocksPerBlock = dec.miniBlocksPerBlock →
      (d.bitWidths.getD d.currentMiniBlock 0 ≤ 64 →
        ∃ dec', deltaReadMiniBlock dec = .ok dec' ∧ dec'.Hollow ∧ dec'.Fits data ∧
          dec'.miniBlockPos = 0 ∧ dec'.miniBlocksPerBlock = dec.miniBlocksPerBlock ∧
          dec'.bitWidths.drop dec'.currentMiniBlock =
            (d.bitWidths.drop d.currentMiniBlock).tail ∧ dec'.rest = d.rest) ∧
      (¬ d.bitWidths.getD d.currentMiniBlock 0 ≤ 64 →
        ∃ e, deltaReadMiniBlock dec = .error e) := by
    intro d hfits hd hcurrent hensure hminis
    have hzero : d.blockSize / d.miniBlocksPerBlock = 0 := Nat.div_eq_of_lt hd.size
    have hread : deltaReadMiniBlock dec =
        (deltaUnpackMini d.minDelta (d.bitWidths.getD d.currentMiniBlock 0) 0 d.rest).map
          fun r => { d with
            rest := r.2
            miniBlockValues := overlay r.1 d.miniBlockValues
            currentMiniBlock := d.currentMiniBlock + 1
            miniBlockPos := 0
            valuesInMiniBlock := 0 } := by
      unfold deltaReadMiniBlock
      rw [hensure]
      dsimp only [bind, Except.bind]
      rw [hzero]
      cases deltaUnpackMini d.minDelta (d.bitWidths.getD d.currentMiniBlock 0) 0 d.rest with
      | error e => rfl
      | ok r => rfl
    rw [deltaUnpackMini_empty] at hread
    constructor
    · intro hwidth
      rw [if_pos hwidth] at hread
      refine ⟨_, hread, ⟨hd.size, rfl, hd.cleared⟩, ⟨hfits.suffix, hfits.miniBlocks,
        hfits.miniBlockSize, hfits.values, Nat.zero_le _, hfits.widths,
        fun _ => hfits.current hcurrent⟩, rfl, hminis, ?_, rfl⟩
      rw [List.tail_drop]
    · intro hwidth
      rw [if_neg hwidth] at hread
      exact ⟨_, hread⟩
  by_cases hblock : dec.miniBlocksPerBlock ≤ dec.currentMiniBlock
  · -- the widths are used up
    have hdrop : dec.bitWidths.drop dec.currentMiniBlock = [] := by
      refine List.drop_eq_nil_of_le ?_
      rcases h.widths with hw | hw <;> omega
    have hensure : deltaEnsureBlock dec = deltaReadBlock dec := if_pos hblock
    rw [hdrop]
    simp only [skipEmptyMinis]
    cases hvarint : readUleb128 dec.rest with
    | none =>
      refine .inr ⟨?_, fun _ => rfl⟩
      unfold deltaReadMiniBlock
      rw [hensure, deltaReadBlock, hvarint]
      split <;> exact ⟨_, rfl⟩
    | some r =>
      obtain ⟨minDelta, rest⟩ := r
      have hempty : ¬ dec.rest.isEmpty = true := by
        intro hnil
        rw [List.isEmpty_iff.mp hnil] at hvarint
        cases hvarint
      have hreadblock : deltaReadBlock dec =
          if rest.length < dec.miniBlocksPerBlock then .error .decode
          else .ok { dec with
            rest := rest.drop dec.miniBlocksPerBlock
            minDelta := zigzagDecode64 minDelta
            bitWidths := (rest.take dec.miniBlocksPerBlock).map UInt8.toNat
            currentMiniBlock := 0 } := by
        rw [deltaReadBlock, if_neg hempty, hvarint]
      dsimp only
      by_cases hroom : rest.length < dec.miniBlocksPerBlock
      · rw [if_pos hroom] at hreadblock
        refine .inr ⟨⟨.decode, ?_⟩, fun _ => if_pos hroom⟩
        unfold deltaReadMiniBlock
        rw [hensure, hreadblock]
        rfl
      · rw [if_neg hroom] at hreadblock
        simp only [if_neg hroom]
        obtain ⟨hfits, -, -, -, -⟩ := fits_readBlock h hreadblock
        have hiff := hopen _ hfits ⟨hollow.size, hollow.none, hollow.cleared⟩ hfits.miniBlocks.1
          (hensure.trans hreadblock) rfl
        dsimp only at hiff
        rw [List.drop_zero] at hiff
        cases hwidths : (rest.take dec.miniBlocksPerBlock).map UInt8.toNat with
        | nil =>
          have hlen := congrArg List.length hwidths
          have hpos := h.miniBlocks.1
          rw [List.length_map, List.length_take, List.length_nil] at hlen
          omega
        | cons w widths =>
          rw [hwidths, List.getD_cons_zero, List.tail_cons] at hiff
          dsimp only
          by_cases hw : w ≤ 64
          · obtain ⟨dec', hread, h1, h2, h3, h4, h5, h6⟩ := hiff.1 hw
            refine .inl ⟨dec', hread, h1, h2, h3, h4, fun k => ?_⟩
            rw [if_pos hw, h5, h6]
          · exact .inr ⟨hiff.2 hw, fun _ => if_neg hw⟩
  · have hensure : deltaEnsureBlock dec = .ok dec := if_neg hblock
    have hcurrent := Nat.lt_of_not_le hblock
    have hlt : dec.currentMiniBlock < dec.bitWidths.length := by
      rw [h.current hcurrent]
      exact hcurrent
    have hiff := hopen dec h hollow hcurrent hensure rfl
    rw [List.getD_eq_getElem _ _ hlt] at hiff
    rw [List.drop_eq_getElem_cons hlt] at hiff ⊢
    rw [List.tail_cons] at hiff
    simp only [skipEmptyMinis]
    by_cases hw : dec.bitWidths[dec.currentMiniBlock] ≤ 64
    · obtain ⟨dec', hread, h1, h2, h3, h4, h5, h6⟩ := hiff.1 hw
      refine .inl ⟨dec', hread, h1, h2, h3, h4, fun k => ?_⟩
      rw [if_pos hw, h5, h6]
    · exact .inr ⟨hiff.2 hw, fun _ => if_neg hw⟩

theorem deltaNext_hollow {data : Bytes} {k : Nat} {dec : DeltaDecoder} (h : dec.Fits data)
    (hollow : dec.Hollow) :
    match skipEmptyMinis dec.miniBlocksPerBlock k (dec.bitWidths.drop dec.currentMiniBlock)
      dec.rest with
    | some rest => ∃ dec', deltaNext k dec = .ok (List.replicate k 0, dec') ∧ dec'.rest = rest
    | none => ∃ e, deltaNext k dec = .error e := by
  induction k generalizing dec with
  | zero => exact ⟨dec, rfl, rfl⟩
  | succ k ih =>
    have hensure : deltaEnsureMiniBlock dec = deltaReadMiniBlock dec :=
      if_pos (by rw [hollow.none]; exact Nat.zero_le _)
    rcases deltaReadMiniBlock_hollow h hollow with
      ⟨dec₁, hread, hollow₁, hfits₁, hpos, hminis, hskip⟩ | ⟨⟨e, hread⟩, hskip⟩
    · have hrest := @ih { dec₁ with miniBlockPos := dec₁.miniBlockPos + 1 }
        (fits_taken hfits₁ _) ⟨hollow₁.size, hollow₁.none, hollow₁.cleared⟩
      dsimp only at hrest
      rw [hskip k, ← hminis]
      have hvalue : dec₁.miniBlockValues.getD dec₁.miniBlockPos 0 = 0 := by
        rw [hpos, hollow₁.cleared]
        rfl
      cases hnext : skipEmptyMinis dec₁.miniBlocksPerBlock k
          (dec₁.bitWidths.drop dec₁.currentMiniBlock) dec₁.rest with
      | none =>
        rw [hnext] at hrest
        obtain ⟨e, herror⟩ := hrest
        refine ⟨e, ?_⟩
        unfold deltaNext
        rw [hensure, hread]
        dsimp only [bind, Except.bind]
        rw [herror]
      | some rest =>
        rw [hnext] at hrest
        obtain ⟨dec', hok, hrest'⟩ := hrest
        refine ⟨dec', deltaNext_succ.mpr ⟨dec₁, _, dec', hensure.trans hread, hok, ?_⟩, hrest'⟩
        rw [hvalue, List.replicate_succ]
    · rw [hskip k]
      refine ⟨e, ?_⟩
      unfold deltaNext
      rw [hensure, hread]
      rfl

theorem init_cleared {data : Bytes} {dec : DeltaDecoder} (h : deltaDecoderInit data = .ok dec) :
    dec.valuesInMiniBlock = 0 ∧ dec.miniBlockValues = List.replicate deltaMiniBlockSize 0 ∧
      dec.bitWidths = [] := by
  unfold deltaDecoderInit at h
  split at h
  · cases h
  · split at h
    · cases h
    · dsimp only at h
      split at h
      · cases h
      · split at h
        · cases h
        · split at h
          · cases h
          · split at h
            · cases h
            · split at h
              · cases h
              · cases h
                exact ⟨rfl, rfl, rfl⟩

/-- The widths of a type wrap to themselves. -/
structure Wraps (wrap : Int → Int) : Prop where
  zero : wrap 0 = 0
  idem : ∀ x, wrap (wrap x) = wrap x

theorem wraps_toI32 : Wraps toI32 where
  zero := rfl
  idem := by
    intro x
    unfold toI32
    omega

theorem wraps_toI64 : Wraps toI64 :=
  ⟨rfl, fun x => toI64_of_range (isI64_toI64 x).1 (isI64_toI64 x).2⟩

theorem prefixSum_zeros {wrap : Int → Int} (hwrap : Wraps wrap) (first : Int) (k : Nat) :
    prefixSum wrap (wrap first) (List.replicate k 0) = List.replicate k (wrap first) := by
  induction k with
  | zero => rfl
  | succ k ih =>
    rw [List.replicate_succ, prefixSum, Int.add_zero, hwrap.idem, ih, List.replicate_succ]

/-- Without a value in any mini-block the decoder repeats the first value. -/
theorem deltaDecode_hollow {wrap : Int → Int} (hwrap : Wraps wrap) {data rest : Bytes} {n : Nat}
    {first : Int} (h : hollowStream data n = some (first, rest)) :
    deltaDecode wrap data n = .ok (List.replicate n (wrap first), rest) := by
  unfold hollowStream at h
  cases hinit : deltaDecoderInit data with
  | error e =>
    rw [hinit] at h
    cases h
  | ok dec =>
    rw [hinit] at h
    dsimp only at h
    split at h
    · rename_i hcond
      obtain ⟨hvalues, hcells, hwidths⟩ := init_cleared hinit
      have hnext := deltaNext_hollow (k := n - 1) (fits_init hinit) ⟨hcond.1, hvalues, hcells⟩
      rw [hwidths, List.drop_nil] at hnext
      cases hskip : skipEmptyMinis dec.miniBlocksPerBlock (n - 1) [] dec.rest with
      | none =>
        rw [hskip] at h
        cases h
      | some more =>
        rw [hskip] at h hnext
        cases h
        obtain ⟨dec', hok, hrest⟩ := hnext
        unfold deltaDecode
        rw [hinit]
        dsimp only [bind, Except.bind]
        rw [if_neg (by omega), hok]
        dsimp only
        rw [List.map_replicate, hwrap.zero, prefixSum_zeros hwrap, hrest, ← List.replicate_succ,
          Nat.sub_add_cancel (by omega)]
    · cases h

/-- **When OK means decoded**: unless the stream is hollow. -/
theorem allDecoded_iff {wrap : Int → Int} {data rest : Bytes} {n : Nat} {values : List Int}
    (h : deltaDecode wrap data n = .ok (values, rest)) :
    AllDecoded data n ↔ hollowStream data n = none := by
  unfold AllDecoded hollowStream
  obtain ⟨dec, hinit, h⟩ := bind_eq_ok.mp h
  rw [hinit]
  dsimp only
  by_cases hcond : dec.blockSize < dec.miniBlocksPerBlock ∧ 2 ≤ n
  · rw [if_pos hcond]
    obtain ⟨hvalues, hcells, hwidths⟩ := init_cleared hinit
    have hfits := fits_init hinit
    have hollow : dec.Hollow := ⟨hcond.1, hvalues, hcells⟩
    rw [if_neg (by omega)] at h
    obtain ⟨⟨deltas, dec'⟩, hnext, -⟩ := bind_eq_ok.mp h
    have hskip := deltaNext_hollow (k := n - 1) hfits hollow
    rw [hwidths, List.drop_nil] at hskip
    cases hrest : skipEmptyMinis dec.miniBlocksPerBlock (n - 1) [] dec.rest with
    | none =>
      rw [hrest] at hskip
      obtain ⟨e, herror⟩ := hskip
      rw [herror] at hnext
      cases hnext
    | some more =>
      refine ⟨fun hall => ?_, fun hnone => by cases hnone⟩
      -- the first value is taken from a mini-block that has none
      obtain ⟨m, hm⟩ : ∃ m, n - 1 = m + 1 := ⟨n - 2, by omega⟩
      rw [hm] at hnext hall
      obtain ⟨dec₁, vs, dec₂, hensure, -, -⟩ := deltaNext_succ.mp hnext
      have htake := hall dec rfl dec₁ (by
        rw [deltaTakes, hensure]
        exact List.mem_cons_self ..)
      have hread : deltaReadMiniBlock dec = .ok dec₁ := by
        rw [← hensure]
        exact (if_pos (by rw [hvalues]; exact Nat.zero_le _)).symm
      obtain ⟨-, -, hcount, -, -⟩ := fits_readMiniBlock hfits hread
      rw [hcount, Nat.div_eq_of_lt hcond.1] at htake
      exact absurd htake (Nat.not_lt_zero _)
  · rw [if_neg hcond]
    refine ⟨fun _ => rfl, fun _ dec' hdec' => ?_⟩
    obtain rfl : dec = dec' := Except.ok.inj hdec'
    by_cases hn : 2 ≤ n
    · exact deltaTakes_full (fits_init hinit) (by omega)
    · rw [show n - 1 = 0 by omega]
      exact fun t ht => absurd ht List.not_mem_nil

/-! ## The integer decoders -/

/-- What is asked of a decode of integers: nothing outside the input and the cells is touched, and
OK means that every value was decoded from the input. -/
structure BinarySafe (wrap : Int → Int) (data : Bytes) (n : Int) : Prop where
  inside : ∀ values : List Int, values.length = n.toNat →
    deltaDecodeAt wrap data n values ≠ .error .outside
  decoded : ∀ values out consumed, values.length = n.toNat →
    deltaDecodeAt wrap data n values = .ok (out, consumed) →
      out.length = n.toNat ∧ consumed ≤ data.length ∧ AllDecoded data n.toNat

/-- The first value is stored before anything looks at the sign of the number. -/
theorem deltaDecodeAt_negative (wrap : Int → Int) (data : Bytes) {n : Int} (hn : n < 0) :
    deltaDecodeAt wrap data n [] =
      match deltaDecoderInit data with
      | .ok _ => .error .outside
      | .error e => .error (.refused e) := by
  unfold deltaDecodeAt
  rw [deltaDecoderInitAt_eq]
  cases deltaDecoderInit data with
  | error e => rfl
  | ok dec =>
    dsimp only [bind, Except.bind, Except.map, settle]
    rw [if_neg (by omega)]
    rfl

theorem binarySafe_iff {wrap : Int → Int} (hwrap : Wraps wrap) (data : Bytes) (n : Int) :
    BinarySafe wrap data n ↔
      (n < 0 → ∃ e, deltaDecoderInit data = .error e) ∧ hollowStream data n.toNat = none := by
  by_cases hn : n < 0
  · have hzero : n.toNat = 0 := by omega
    have hrun := deltaDecodeAt_negative wrap data hn
    have hnone : hollowStream data n.toNat = none := by
      unfold hollowStream
      split
      · rfl
      · exact if_neg (by omega)
    constructor
    · intro h
      refine ⟨fun _ => ?_, hnone⟩
      have hinside := h.inside [] (by rw [hzero]; rfl)
      cases hinit : deltaDecoderInit data with
      | error e => exact ⟨e, rfl⟩
      | ok dec =>
        rw [hrun, hinit] at hinside
        exact absurd rfl hinside
    · rintro ⟨herror, -⟩
      obtain ⟨e, hinit⟩ := herror hn
      rw [hinit] at hrun
      have hnil : ∀ values : List Int, values.length = n.toNat → values = [] :=
        fun values h => List.eq_nil_of_length_eq_zero (h.trans hzero)
      constructor
      · intro values hvalues
        rw [hnil values hvalues, hrun]
        exact fun h => by cases h
      · intro values out consumed hvalues hok
        rw [hnil values hvalues, hrun] at hok
        cases hok
  · obtain ⟨m, rfl⟩ : ∃ m : Nat, n = m := ⟨n.toNat, by omega⟩
    have hrun := deltaDecodeAt_eq wrap data m
    rw [Int.toNat_natCast]
    constructor
    · intro h
      refine ⟨fun hneg => absurd hneg hn, ?_⟩
      by_contra hsome
      obtain ⟨⟨first, rest⟩, hstream⟩ := Option.ne_none_iff_exists'.mp hsome
      have hdecode := deltaDecode_hollow hwrap hstream
      have hok := hrun (List.replicate m 0) List.length_replicate
      rw [hdecode] at hok
      obtain ⟨-, -, hall⟩ := h.decoded _ _ _ (by
        rw [Int.toNat_natCast]
        exact List.length_replicate) hok
      rw [Int.toNat_natCast] at hall
      exact hsome ((allDecoded_iff hdecode).mp hall)
    · rintro ⟨-, hnone⟩
      constructor
      · intro values hvalues
        rw [hrun values (by rwa [Int.toNat_natCast] at hvalues)]
        exact settle_ne_outside _
      · intro values out consumed hvalues hok
        rw [hrun values (by rwa [Int.toNat_natCast] at hvalues), settle_eq_ok] at hok
        cases hdecode : deltaDecode wrap data m with
        | error e =>
          rw [hdecode] at hok
          cases hok
        | ok r =>
          rw [hdecode] at hok
          cases hok
          rw [Int.toNat_natCast]
          exact ⟨length_deltaDecode hdecode, Nat.sub_le .., (allDecoded_iff hdecode).mpr hnone⟩

/-! ## DELTA_LENGTH_BYTE_ARRAY -/

/-- The same of a decode of byte arrays, and they lie in the input. -/
structure LengthSafe (data : Bytes) (n : Int) : Prop where
  inside : ∀ values : List (Nat × Nat), values.length = n.toNat →
    deltaLengthDecodeAt data n values ≠ .error .outside
  decoded : ∀ values out consumed, values.length = n.toNat →
    deltaLengthDecodeAt data n values = .ok (out, consumed) →
      out.length = n.toNat ∧ SpansIn data.length out ∧ consumed ≤ data.length ∧
        AllDecoded data n.toNat

/-- Lengths that all are the first one, which the contents do not reach. -/
def LengthHolds (data : Bytes) (n : Int) : Prop :=
  0 ≤ n → ∀ first rest, hollowStream data n.toNat = some (first, rest) →
    toI32 first < 0 ∨ rest.length < n.toNat * (toI32 first).toNat

theorem hollowStream_pos {data rest : Bytes} {n : Nat} {first : Int}
    (h : hollowStream data n = some (first, rest)) : 2 ≤ n := by
  unfold hollowStream at h
  split at h
  · cases h
  · split at h
    · rename_i hcond
      exact hcond.2
    · cases h

theorem deltaLengthDecode_hollow {data rest : Bytes} {n : Nat} {first : Int}
    (h : hollowStream data n = some (first, rest)) :
    (∃ r, deltaLengthDecode data n = .ok r) ↔
      ¬ (toI32 first < 0 ∨ rest.length < n * (toI32 first).toNat) := by
  have hpos := hollowStream_pos h
  unfold deltaLengthDecode deltaDecodeInt32
  rw [deltaDecode_hollow wraps_toI32 h]
  have hany : (List.replicate n (toI32 first)).any (· < 0) = decide (toI32 first < 0) := by
    rw [List.any_replicate, if_neg (by omega)]
  dsimp only [bind, Except.bind]
  rw [hany, List.map_replicate, List.sum_replicate_nat]
  by_cases hneg : toI32 first < 0
  · rw [if_pos (decide_eq_true hneg)]
    exact ⟨fun ⟨r, hr⟩ => (by cases hr), fun hno => absurd (.inl hneg) hno⟩
  · rw [if_neg (by simpa using hneg)]
    by_cases hroom : rest.length < n * (toI32 first).toNat
    · rw [if_pos hroom]
      exact ⟨fun ⟨r, hr⟩ => (by cases hr), fun hno => absurd (.inr hroom) hno⟩
    · rw [if_neg hroom]
      exact ⟨fun _ hor => hor.elim hneg hroom, fun _ => ⟨_, rfl⟩⟩

theorem lengthSafe_iff (data : Bytes) (n : Int) : LengthSafe data n ↔ LengthHolds data n := by
  by_cases hn : n < 0
  · have hrun : ∀ values, deltaLengthDecodeAt data n values = .error (.refused .invalidArgument) :=
      fun values => if_pos hn
    refine ⟨fun _ h0 => absurd h0 (Int.not_le.mpr hn), fun _ => ⟨?_, ?_⟩⟩
    · intro values _
      rw [hrun]
      exact fun h => by cases h
    · intro values out consumed _ hok
      rw [hrun] at hok
      cases hok
  · obtain ⟨m, rfl⟩ : ∃ m : Nat, n = m := ⟨n.toNat, by omega⟩
    unfold LengthHolds
    constructor
    · intro h _ first rest hstream
      rw [Int.toNat_natCast] at hstream ⊢
      by_contra hno
      obtain ⟨r, hdecode⟩ := (deltaLengthDecode_hollow hstream).mpr hno
      obtain ⟨x, hrun, hmap, -⟩ := deltaLengthDecodeAt_eq data m (List.replicate m (0, 0))
        List.length_replicate
      rw [hdecode] at hmap
      cases x with
      | error e => cases hmap
      | ok x =>
        obtain ⟨-, -, -, hall⟩ := h.decoded _ x.1 x.2 (by
          rw [Int.toNat_natCast]
          exact List.length_replicate) hrun
        rw [Int.toNat_natCast, allDecoded_iff (deltaDecode_hollow wraps_toI32 hstream), hstream]
          at hall
        cases hall
    · intro hcond
      rw [Int.toNat_natCast] at hcond
      constructor
      · intro values hvalues
        obtain ⟨x, hrun, -, -⟩ := deltaLengthDecodeAt_eq data m values hvalues
        rw [hrun]
        exact settle_ne_outside x
      · intro values out consumed hvalues hok
        obtain ⟨x, hrun, hmap, hspans⟩ := deltaLengthDecodeAt_eq data m values hvalues
        rw [hrun, settle_eq_ok] at hok
        rw [hok] at hmap
        cases hdecode : deltaLengthDecode data m with
        | error e =>
          rw [hdecode] at hmap
          cases hmap
        | ok r =>
          rw [hdecode] at hmap
          obtain ⟨hvalues', hconsumed⟩ := Prod.mk.inj (Except.ok.inj hmap)
          have hlength := length_deltaLengthDecode hdecode
          rw [← hvalues', List.length_map] at hlength
          rw [Int.toNat_natCast]
          refine ⟨hlength, hspans _ hok, (Nat.le_of_eq hconsumed).trans (Nat.sub_le ..), ?_⟩
          obtain ⟨⟨lengths, rest⟩, hlengths, -⟩ := bind_eq_ok.mp hdecode
          rw [allDecoded_iff hlengths]
          by_contra hsome
          obtain ⟨⟨first, rest⟩, hstream⟩ := Option.ne_none_iff_exists'.mp hsome
          exact (deltaLengthDecode_hollow hstream).mp ⟨r, hdecode⟩
            (hcond (Int.natCast_nonneg m) first rest hstream)

/-! ## DELTA_BYTE_ARRAY -/

/-- Both streams of lengths are decoded. -/
def StringsDecoded (data : Bytes) (n : Nat) : Prop :=
  AllDecoded data n ∧
    ∀ prefixes rest, deltaDecodeInt32 data n = .ok (prefixes, rest) → AllDecoded rest n

/-- The same of a decode of strings, and they lie in the work buffer. -/
structure StringsSafe (data : Bytes) (n : Int) (workSize : Nat) : Prop where
  inside : ∀ (values : List (Nat × Nat)) (work : Bytes), values.length = n.toNat →
    work.length = workSize → deltaStringsDecodeAt data n values work ≠ .error .outside
  decoded : ∀ (values : List (Nat × Nat)) (work : Bytes) out work' consumed,
    values.length = n.toNat → work.length = workSize →
    deltaStringsDecodeAt data n values work = .ok (out, work', consumed) →
      out.length = n.toNat ∧ work'.length = workSize ∧ SpansIn workSize out ∧
        consumed ≤ data.length ∧ StringsDecoded data n.toNat

/-- A prefix is no longer than the value before, whose length is read as an `int32_t`. -/
def Chained : Option Nat → List (Nat × Nat) → Prop
  | _, [] => True
  | prev, (prefixLen, suffixLen) :: more =>
    (0 < prefixLen → ∃ len, prev = some len ∧ (prefixLen : Int) ≤ toI32 len) ∧
      Chained (some (prefixLen + suffixLen)) more

/-- Lengths of which strings can be built, from `room` bytes in a work buffer of `workSize`. -/
structure Rebuilds (prefixes suffixes : List Int) (room workSize : Nat) : Prop where
  nonneg : (∀ p ∈ prefixes, 0 ≤ p) ∧ ∀ s ∈ suffixes, 0 ≤ s
  room : (suffixes.map Int.toNat).sum ≤ room
  work : (((prefixes.map Int.toNat).zip (suffixes.map Int.toNat)).map fun p => p.1 + p.2).sum ≤
    workSize
  chained : Chained none ((prefixes.map Int.toNat).zip (suffixes.map Int.toNat))

theorem rebuildStrings_ok_iff (pairs : List (Nat × Nat)) (suffixes : Bytes) (prev : Option Bytes)
    (workOffset workSize : Nat) (hroom : (pairs.map Prod.snd).sum ≤ suffixes.length)
    (hprev : ∀ v, prev = some v → v.length < 4294967296)
    (hpairs : ∀ p ∈ pairs, p.1 < 2147483648 ∧ p.2 < 2147483648) :
    (∃ values, rebuildStrings pairs suffixes prev workOffset workSize = .ok values) ↔
      (pairs = [] ∨ workOffset + (pairs.map fun p => p.1 + p.2).sum ≤ workSize) ∧
        Chained (prev.map List.length) pairs := by
  induction pairs generalizing suffixes prev workOffset with
  | nil => exact ⟨fun _ => ⟨.inl rfl, trivial⟩, fun _ => ⟨[], rfl⟩⟩
  | cons pair pairs ih =>
    obtain ⟨prefixLen, suffixLen⟩ := pair
    obtain ⟨hlt, hmore⟩ := List.forall_mem_cons.mp hpairs
    rw [List.map_cons, List.sum_cons] at hroom
    rw [List.map_cons, List.sum_cons, Chained]
    unfold rebuildStrings
    dsimp only at hlt hroom ⊢
    by_cases hwork : workSize < workOffset + (prefixLen + suffixLen)
    · rw [if_pos hwork]
      constructor
      · rintro ⟨values, ⟨⟩⟩
      · rintro ⟨hnil | hle, -⟩
        · cases hnil
        · omega
    · rw [if_neg hwork]
      have hguard : (0 < prefixLen ∧
            (prev = none ∨ toI32 ((prev.getD []).length : Nat) < prefixLen)) ↔
          ¬ (0 < prefixLen →
            ∃ len, prev.map List.length = some len ∧ (prefixLen : Int) ≤ toI32 len) := by
        cases prev with
        | none =>
          simp only [true_or, and_true, Option.map_none, reduceCtorEq, false_and, exists_false,
            imp_false, not_not]
        | some v => simp
      by_cases hbad : 0 < prefixLen ∧ (prev = none ∨ toI32 ((prev.getD []).length : Nat) < prefixLen)
      · rw [if_pos hbad]
        constructor
        · rintro ⟨values, ⟨⟩⟩
        · rintro ⟨-, hgood, -⟩
          exact absurd hgood (hguard.mp hbad)
      · rw [if_neg hbad]
        have hgood : 0 < prefixLen →
            ∃ len, prev.map List.length = some len ∧ (prefixLen : Int) ≤ toI32 len := by
          by_contra hno
          exact hbad (hguard.mpr hno)
        have hvalue : ((prev.getD []).take prefixLen ++ suffixes.take suffixLen).length =
            prefixLen + suffixLen := by
          rw [List.length_append, List.length_take, List.length_take]
          by_cases hzero : prefixLen = 0
          · omega
          · obtain ⟨len, hlen, hle⟩ := hgood (by omega)
            cases prev with
            | none => cases hlen
            | some v =>
              have hv := hprev v rfl
              rw [Option.map_some, Option.some.injEq] at hlen
              rw [Option.getD_some]
              unfold toI32 at hle
              omega
        have hrest := ih (suffixes.drop suffixLen)
          (some ((prev.getD []).take prefixLen ++ suffixes.take suffixLen))
          (workOffset + (prefixLen + suffixLen)) (by rw [List.length_drop]; omega)
          (by
            intro v hv
            cases hv
            rw [hvalue]
            omega) hmore
        rw [Option.map_some, hvalue] at hrest
        have hstep : (∃ values, (rebuildStrings pairs (suffixes.drop suffixLen)
              (some ((prev.getD []).take prefixLen ++ suffixes.take suffixLen))
              (workOffset + (prefixLen + suffixLen)) workSize >>= fun values =>
                .ok (((prev.getD []).take prefixLen ++ suffixes.take suffixLen) :: values)) =
              .ok values) ↔
            ∃ values, rebuildStrings pairs (suffixes.drop suffixLen)
              (some ((prev.getD []).take prefixLen ++ suffixes.take suffixLen))
              (workOffset + (prefixLen + suffixLen)) workSize = .ok values := by
          constructor
          · rintro ⟨values, hvalues⟩
            obtain ⟨more, hmore, -⟩ := bind_eq_ok.mp hvalues
            exact ⟨more, hmore⟩
          · rintro ⟨more, hmore⟩
            exact ⟨_, bind_eq_ok.mpr ⟨more, hmore, rfl⟩⟩
        refine hstep.trans (hrest.trans ⟨?_, ?_⟩)
        · rintro ⟨hor, hchained⟩
          refine ⟨.inr ?_, hgood, hchained⟩
          rcases hor with rfl | hle
          · rw [List.map_nil, List.sum_nil]
            omega
          · omega
        · rintro ⟨hnil | hle, -, hchained⟩
          · cases hnil
          · exact ⟨.inr (by omega), hchained⟩

/-- When strings are decoded, seen from their lengths. -/
theorem deltaStringsDecode_ok_iff (data : Bytes) (n workSize : Nat) :
    (∃ r, deltaStringsDecode data n workSize = .ok r) ↔
      ∃ prefixes rest suffixes more, deltaDecodeInt32 data n = .ok (prefixes, rest) ∧
        deltaDecodeInt32 rest n = .ok (suffixes, more) ∧
        Rebuilds prefixes suffixes more.length workSize := by
  have hany : ∀ vs : List Int, vs.any (· < 0) = true ↔ ¬ ∀ v ∈ vs, 0 ≤ v := by
    intro vs
    rw [List.any_eq_true]
    push Not
    exact ⟨fun ⟨v, hv, h⟩ => ⟨v, hv, by simpa using h⟩, fun ⟨v, hv, h⟩ => ⟨v, hv, by simpa using h⟩⟩
  -- the two streams are there on either side
  have hinner : ∀ {prefixes suffixes : List Int} {rest more : Bytes},
      deltaDecodeInt32 data n = .ok (prefixes, rest) →
      deltaDecodeInt32 rest n = .ok (suffixes, more) →
      ((∃ r, deltaStringsDecode data n workSize = .ok r) ↔
        Rebuilds prefixes suffixes more.length workSize) := by
    intro prefixes suffixes rest more h1 h2
    have hlen1 := length_deltaDecode h1
    have hlen2 := length_deltaDecode h2
    unfold deltaStringsDecode deltaStringsLengths
    rw [h1]
    dsimp only [bind, Except.bind]
    rw [h2]
    dsimp only
    by_cases hneg : suffixes.any (· < 0) = true ∨ prefixes.any (· < 0) = true
    · rw [if_pos hneg]
      constructor
      · rintro ⟨r, ⟨⟩⟩
      · rintro ⟨⟨hp, hs⟩, -, -, -⟩
        rcases hneg with hneg | hneg
        · exact absurd hs ((hany _).mp hneg)
        · exact absurd hp ((hany _).mp hneg)
    · rw [if_neg hneg]
      push Not at hneg
      have hp : ∀ p ∈ prefixes, 0 ≤ p := by
        by_contra hno
        exact hneg.2 ((hany _).mpr hno)
      have hs : ∀ s ∈ suffixes, 0 ≤ s := by
        by_contra hno
        exact hneg.1 ((hany _).mpr hno)
      dsimp only
      by_cases hroom : more.length < (suffixes.map Int.toNat).sum
      · rw [if_pos hroom]
        constructor
        · rintro ⟨r, ⟨⟩⟩
        · rintro ⟨-, hle, -, -⟩
          omega
      · rw [if_neg hroom]
        have hsnd : ((prefixes.map Int.toNat).zip (suffixes.map Int.toNat)).map Prod.snd =
            suffixes.map Int.toNat := by
          rw [List.map_snd_zip]
          rw [List.length_map, List.length_map]
          omega
        have hiff := rebuildStrings_ok_iff
          ((prefixes.map Int.toNat).zip (suffixes.map Int.toNat)) more none 0 workSize
          (by rw [hsnd]; omega) (fun v hv => by cases hv) (by
            intro p hp
            obtain ⟨hp1, hp2⟩ := List.of_mem_zip hp
            obtain ⟨v, hv, hv'⟩ := List.mem_map.mp hp1
            obtain ⟨u, hu, hu'⟩ := List.mem_map.mp hp2
            have := deltaDecodeInt32_lt h1 v hv
            have := deltaDecodeInt32_lt h2 u hu
            omega)
        rw [Option.map_none, Nat.zero_add] at hiff
        constructor
        · rintro ⟨r, hr⟩
          cases hrebuild : rebuildStrings ((prefixes.map Int.toNat).zip (suffixes.map Int.toNat))
              more none 0 workSize with
          | error e =>
            rw [hrebuild] at hr
            cases hr
          | ok values =>
            obtain ⟨hwork, hchained⟩ := hiff.mp ⟨values, hrebuild⟩
            refine ⟨⟨hp, hs⟩, Nat.le_of_not_lt hroom, ?_, hchained⟩
            rcases hwork with hnil | hle
            · rw [hnil]
              exact Nat.zero_le _
            · exact hle
        · rintro ⟨-, -, hwork, hchained⟩
          obtain ⟨values, hrebuild⟩ := hiff.mpr ⟨.inr hwork, hchained⟩
          rw [hrebuild]
          exact ⟨_, rfl⟩
  constructor
  · rintro ⟨r, hr⟩
    obtain ⟨lengths, hlengths, -⟩ := bind_eq_ok.mp hr
    obtain ⟨⟨prefixes, rest⟩, h1, hlengths⟩ := bind_eq_ok.mp hlengths
    obtain ⟨⟨suffixes, more⟩, h2, -⟩ := bind_eq_ok.mp hlengths
    exact ⟨prefixes, rest, suffixes, more, h1, h2, (hinner h1 h2).mp ⟨r, hr⟩⟩
  · rintro ⟨prefixes, rest, suffixes, more, h1, h2, hrebuilds⟩
    exact (hinner h1 h2).mpr hrebuilds

/-- No stream of lengths is hollow, or no strings have such lengths. -/
def StringsHolds (data : Bytes) (n : Int) (workSize : Nat) : Prop :=
  0 ≤ n → ∀ prefixes rest suffixes more,
    deltaDecodeInt32 data n.toNat = .ok (prefixes, rest) →
    deltaDecodeInt32 rest n.toNat = .ok (suffixes, more) →
    Rebuilds prefixes suffixes more.length workSize →
      hollowStream data n.toNat = none ∧ hollowStream rest n.toNat = none

theorem stringsSafe_iff (data : Bytes) (n : Int) (workSize : Nat) :
    StringsSafe data n workSize ↔ StringsHolds data n workSize := by
  by_cases hn : n < 0
  · have hrun : ∀ values work,
        deltaStringsDecodeAt data n values work = .error (.refused .invalidArgument) :=
      fun values work => if_pos hn
    refine ⟨fun _ h0 => absurd h0 (Int.not_le.mpr hn), fun _ => ⟨?_, ?_⟩⟩
    · intro values work _ _
      rw [hrun]
      exact fun h => by cases h
    · intro values work out work' consumed _ _ hok
      rw [hrun] at hok
      cases hok
  · obtain ⟨m, rfl⟩ : ∃ m : Nat, n = m := ⟨n.toNat, by omega⟩
    unfold StringsHolds
    constructor
    · intro h _ prefixes rest suffixes more h1 h2 hrebuilds
      rw [Int.toNat_natCast] at h1 h2 ⊢
      obtain ⟨r, hdecode⟩ := (deltaStringsDecode_ok_iff data m workSize).mpr
        ⟨prefixes, rest, suffixes, more, h1, h2, hrebuilds⟩
      obtain ⟨x, hrun, hmap, -⟩ := deltaStringsDecodeAt_eq data m (List.replicate m (0, 0))
        (List.replicate workSize 0) List.length_replicate
      rw [List.length_replicate, hdecode] at hmap
      cases x with
      | error e => cases hmap
      | ok x =>
        obtain ⟨-, -, -, -, hall⟩ := h.decoded _ _ x.1 x.2.1 x.2.2 (by
          rw [Int.toNat_natCast]
          exact List.length_replicate) List.length_replicate hrun
        rw [Int.toNat_natCast] at hall
        exact ⟨(allDecoded_iff h1).mp hall.1, (allDecoded_iff h2).mp (hall.2 _ _ h1)⟩
    · intro hcond
      rw [Int.toNat_natCast] at hcond
      constructor
      · intro values work hvalues _
        obtain ⟨x, hrun, -, -⟩ := deltaStringsDecodeAt_eq data m values work hvalues
        rw [hrun]
        exact settle_ne_outside x
      · intro values work out work' consumed hvalues hwork hok
        obtain ⟨x, hrun, hmap, hspans⟩ := deltaStringsDecodeAt_eq data m values work hvalues
        rw [hrun, settle_eq_ok] at hok
        rw [hok, hwork] at hmap
        obtain ⟨hlen, hin⟩ := hspans _ hok
        cases hdecode : deltaStringsDecode data m workSize with
        | error e =>
          rw [hdecode] at hmap
          cases hmap
        | ok r =>
          rw [hdecode] at hmap
          obtain ⟨hvalues', hconsumed⟩ := Prod.mk.inj (Except.ok.inj hmap)
          have hlength := length_deltaStringsDecode hdecode
          rw [← hvalues', List.length_map] at hlength
          obtain ⟨prefixes, rest, suffixes, more, h1, h2, hrebuilds⟩ :=
            (deltaStringsDecode_ok_iff data m workSize).mp ⟨r, hdecode⟩
          obtain ⟨hnone1, hnone2⟩ := hcond (Int.natCast_nonneg m) _ _ _ _ h1 h2 hrebuilds
          rw [Int.toNat_natCast]
          refine ⟨hlength, hlen.trans hwork, hwork ▸ hin,
            (Nat.le_of_eq hconsumed).trans (Nat.sub_le ..), (allDecoded_iff h1).mpr hnone1, ?_⟩
          intro prefixes' rest' h1'
          obtain ⟨-, rfl⟩ : prefixes' = prefixes ∧ rest' = rest := by
            rw [h1] at h1'
            cases h1'
            exact ⟨rfl, rfl⟩
          exact (allDecoded_iff h2).mpr hnone2

/-! ## All of them -/

/-- **How far the delta decoders are safe**: for every input and every number of values. -/
theorem deltaDecoders_safe_iff (data : Bytes) (n : Int) (workSize : Nat) :
    (BinarySafe toI32 data n ↔
      (n < 0 → ∃ e, deltaDecoderInit data = .error e) ∧ hollowStream data n.toNat = none) ∧
    (BinarySafe toI64 data n ↔
      (n < 0 → ∃ e, deltaDecoderInit data = .error e) ∧ hollowStream data n.toNat = none) ∧
    (LengthSafe data n ↔ LengthHolds data n) ∧
    (StringsSafe data n workSize ↔ StringsHolds data n workSize) :=
  ⟨binarySafe_iff wraps_toI32 data n, binarySafe_iff wraps_toI64 data n, lengthSafe_iff data n,
    stringsSafe_iff data n workSize⟩

/-- A block of one value in two mini-blocks: the second value is the cell that was cleared, not the
least delta of the block, which is 1. -/
theorem hollow_not_safe : ¬ BinarySafe toI32 [1, 2, 2, 0, 2, 0, 0] 2 ∧
    deltaDecodeAt toI32 [1, 2, 2, 0, 2, 0, 0] 2 [9, 9] = .ok ([0, 0], 7) := by
  refine ⟨fun h => ?_, by decide +kernel⟩
  have hstream := ((binarySafe_iff wraps_toI32 _ _).mp h).2
  exact absurd hstream (by decide +kernel)

end Carquet
