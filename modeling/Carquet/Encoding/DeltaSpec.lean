import Carquet.Encoding.Delta

/-!
# DELTA_BINARY_PACKED: the round trip

A stream is a header and blocks. `Decodes bytes deltas` says what a run of blocks means to a
decoder that stands at a block boundary; blocks written one after the other compose
(`Decodes.append`). The encoder keeps: what it has written decodes to the deltas it has
flushed (`deltaPut_spec`). `deltaDecode_deltaEncode` puts header, blocks and prefix sum together.
-/

namespace Carquet

open LittleEndian Leb128 Chunks

/-! ## Integers -/

theorem zigzagDecode64_encode (n : Int) : zigzagDecode64 (zigzagEncode64 n) = n := by
  unfold zigzagDecode64 zigzagEncode64
  split <;> split <;> omega

theorem zigzagEncode64_lt {n : Int} (h1 : -9223372036854775808 ≤ n)
    (h2 : n < 9223372036854775808) : zigzagEncode64 n < 18446744073709551616 := by
  unfold zigzagEncode64
  split <;> omega

theorem readUleb128_write {v : Nat} (h : v < 18446744073709551616) (rest : Bytes) :
    readUleb128 (writeUleb128 v ++ rest) = some (v, rest) :=
  readUleb_writeUleb (by omega) (by omega) rest

/-- An `int64_t` as the model holds it. -/
def IsI64 (x : Int) : Prop := -9223372036854775808 ≤ x ∧ x < 9223372036854775808

theorem isI64_toI64 (x : Int) : IsI64 (toI64 x) := by
  unfold IsI64 toI64
  omega

/-- Adding the distance back, in wrapping arithmetic. -/
theorem toI64_add_toU64 {d : Int} (hd : IsI64 d) (m : Int) :
    toI64 (m + (toU64 (d - m) : Nat)) = d := by
  unfold IsI64 at hd
  unfold toI64 toU64
  omega

theorem lt_two_pow_bitWidthRequired (v : Nat) : v < 2 ^ bitWidthRequired v := by
  unfold bitWidthRequired
  split
  · rename_i h
    simp [h]
  · exact Nat.lt_log2_self

theorem bitWidthRequired_le {v n : Nat} (h : v < 2 ^ n) : bitWidthRequired v ≤ n := by
  unfold bitWidthRequired
  split
  · omega
  · rename_i h0
    exact (Nat.log2_lt h0).mpr h

theorem le_maxNat {v : Nat} {vs : List Nat} (h : v ∈ vs) : v ≤ maxNat vs := by
  have hfold : ∀ (vs : List Nat) (acc : Nat),
      acc ≤ vs.foldl max acc ∧ ∀ v ∈ vs, v ≤ vs.foldl max acc := by
    intro vs
    induction vs with
    | nil => simp
    | cons u us ih =>
      intro acc
      obtain ⟨h1, h2⟩ := ih (max acc u)
      simp only [List.foldl_cons, List.mem_cons, forall_eq_or_imp]
      exact ⟨by omega, by omega, h2⟩
  exact (hfold vs 0).2 v h

theorem maxNat_lt {bound : Nat} {vs : List Nat} (h0 : 0 < bound) (h : ∀ v ∈ vs, v < bound) :
    maxNat vs < bound := by
  have hfold : ∀ (vs : List Nat) (acc : Nat), acc < bound → (∀ v ∈ vs, v < bound) →
      vs.foldl max acc < bound := by
    intro vs
    induction vs with
    | nil => simp
    | cons u us ih =>
      intro acc hacc hvs
      rw [List.foldl_cons]
      exact ih _ (by have := hvs u (by simp); omega)
        fun v hv => hvs v (List.mem_cons_of_mem _ hv)
  exact hfold vs 0 h0 h

/-! ## Packed groups -/

theorem bitunpackGroups_bitpackGroups {w n : Nat} {values : List Nat}
    (h : values.length = n * 8) (hv : ∀ v ∈ values, v < 2 ^ w) (rest : Bytes) :
    bitunpackGroups w n (bitpackGroups w n values ++ rest) = values := by
  have hmod : values.map (· % 2 ^ w) = values := by
    conv_rhs => rw [← List.map_id values]
    exact List.map_congr_left fun v hm => Nat.mod_eq_of_lt (hv v hm)
  rw [bitunpackGroups_bitpackGroups_mod (Nat.le_of_eq h.symm), ← h, List.take_length, hmod]

/-! ## One mini-block -/

theorem deltaUnpackMini_pack {minDelta : Int} {deltas : List Int} (hmin : IsI64 minDelta)
    (hlen : deltas.length ≤ deltaMiniBlockSize) (hd : ∀ d ∈ deltas, IsI64 d) (rest : Bytes) :
    ∃ values, deltaUnpackMini minDelta (bitWidthRequired (maxNat (deltaAdjusted minDelta deltas)))
        deltaMiniBlockSize
        (deltaPackMini (bitWidthRequired (maxNat (deltaAdjusted minDelta deltas)))
          (deltaAdjusted minDelta deltas) ++ rest) = .ok (values, rest) ∧
      values.length = deltaMiniBlockSize ∧ values.take deltas.length = deltas := by
  generalize hadj : deltaAdjusted minDelta deltas = adjusted
  have hadjlen : adjusted.length = deltas.length := by simp [← hadj, deltaAdjusted]
  have hback : adjusted.map (fun u : Nat => toI64 (minDelta + u)) = deltas := by
    rw [← hadj, deltaAdjusted, List.map_map]
    conv_rhs => rw [← List.map_id deltas]
    exact List.map_congr_left fun d hm => toI64_add_toU64 (hd d hm) minDelta
  have hlt64 : ∀ v ∈ adjusted, v < 2 ^ 64 := by
    intro v hv
    rw [← hadj] at hv
    obtain ⟨d, -, rfl⟩ := List.mem_map.mp hv
    unfold toU64
    omega
  have hw64 : bitWidthRequired (maxNat adjusted) ≤ 64 :=
    bitWidthRequired_le (maxNat_lt (by omega) hlt64)
  have hltw : ∀ v ∈ adjusted, v < 2 ^ bitWidthRequired (maxNat adjusted) := fun v hv =>
    Nat.lt_of_le_of_lt (le_maxNat hv) (lt_two_pow_bitWidthRequired _)
  generalize bitWidthRequired (maxNat adjusted) = w at hw64 hltw
  unfold deltaUnpackMini deltaPackMini
  unfold deltaMiniBlockSize at *
  generalize hpad : adjusted ++ List.replicate (32 - adjusted.length) 0 = padded
  have hpadlen : padded.length = 32 := by
    rw [← hpad, List.length_append, List.length_replicate]
    omega
  have hpadlt : ∀ v ∈ padded, v < 2 ^ w := by
    intro v hv
    rw [← hpad] at hv
    rcases List.mem_append.mp hv with h1 | h1
    · exact hltw v h1
    · rw [List.eq_of_mem_replicate h1]
      exact Nat.two_pow_pos w
  have hpadback : (padded.map (fun u : Nat => toI64 (minDelta + u))).take deltas.length =
      deltas := by
    rw [← hpad, List.map_append, List.take_append_of_le_length (by simp [hadjlen]), hback,
      List.take_length]
  by_cases h0 : w = 0
  · -- every delta is the least one
    subst h0
    simp only [if_true, List.nil_append]
    refine ⟨_, rfl, by simp, ?_⟩
    rw [List.take_replicate, Nat.min_eq_left hlen]
    refine (List.eq_replicate_iff.mpr ⟨rfl, fun d hm => ?_⟩).symm
    have hz : toU64 (d - minDelta) = 0 := by
      have := hltw (toU64 (d - minDelta)) (by
        rw [← hadj]
        exact List.mem_map.mpr ⟨d, hm, rfl⟩)
      simpa using this
    have hback1 := toI64_add_toU64 (hd d hm) minDelta
    rw [hz] at hback1
    rw [← hback1]
    unfold IsI64 at hmin
    rw [Nat.cast_zero, Int.add_zero, toI64_of_range hmin.1 hmin.2]
  · rw [if_neg h0, if_neg h0]
    by_cases h32 : w ≤ 32
    · -- bit-packed, four groups of eight
      have hmod : (padded.map fun v => v % 4294967296) = padded := by
        conv_rhs => rw [← List.map_id padded]
        refine List.map_congr_left fun v hm => Nat.mod_eq_of_lt ?_
        exact Nat.lt_of_lt_of_le (hpadlt v hm) (Nat.pow_le_pow_right (by omega) h32)
      have hpack : bitpack32 w padded = bitpackGroups w 4 padded := by
        rw [bitpack32, if_neg h0]
        simp [hpadlen]
      have hgroups := @length_bitpackGroups w 4 padded (by omega)
      have hsize : (32 * w + 7) / 8 = 4 * w := by omega
      simp only [if_pos h32, hmod, hpack, hsize]
      rw [if_neg (by rw [List.length_append]; omega), List.drop_append_of_le_length (by omega),
        List.drop_of_length_le (by omega), List.nil_append, bitunpack32, if_neg h0]
      simp only [show 32 % 8 = 0 from rfl, show 32 / 8 = 4 from rfl, if_true]
      rw [bitunpackGroups_bitpackGroups (by omega) hpadlt]
      exact ⟨_, rfl, by simp [hpadlen], hpadback⟩
    · -- whole bytes
      generalize hb : (w + 7) / 8 = b
      have hbytes : ∀ v ∈ padded, v < 256 ^ b := by
        intro v hm
        rw [show (256 : Nat) = 2 ^ 8 from rfl, ← Nat.pow_mul]
        exact Nat.lt_of_lt_of_le (hpadlt v hm) (Nat.pow_le_pow_right (by omega) (by omega))
      have hwidth : ∀ p ∈ padded.map fun v => leBytes b v, p.length = b := by
        intro p hp
        obtain ⟨v, -, rfl⟩ := List.mem_map.mp hp
        exact length_leBytes b v
      have hflat := length_flatten_of_width hwidth
      rw [List.length_map, hpadlen] at hflat
      have hsplit := splitChunks_flatten hwidth rest
      rw [List.length_map, hpadlen] at hsplit
      simp only [if_neg h32, if_pos hw64]
      rw [if_neg (by rw [List.length_append]; omega), hsplit,
        List.drop_append_of_le_length (by omega), List.drop_of_length_le (by omega),
        List.nil_append]
      have hval : ((padded.map fun v => leBytes b v).map fun v => toI64 (minDelta + leNat v)) =
          padded.map fun u : Nat => toI64 (minDelta + u) := by
        rw [List.map_map]
        refine List.map_congr_left fun v hm => ?_
        simp only [Function.comp, leNat_leBytes_of_lt (hbytes v hm)]
      rw [hval]
      exact ⟨_, rfl, by simp [hpadlen], hpadback⟩

/-! ## Stepping through a block -/

/-- One delta: the mini-block is made sure of, then its next value is taken. -/
theorem deltaNext_succ {n : Nat} {dec : DeltaDecoder} {r : List Int × DeltaDecoder} :
    deltaNext (n + 1) dec = .ok r ↔ ∃ dec₁ vs dec₂, deltaEnsureMiniBlock dec = .ok dec₁ ∧
      deltaNext n { dec₁ with miniBlockPos := dec₁.miniBlockPos + 1 } = .ok (vs, dec₂) ∧
      r = (dec₁.miniBlockValues.getD dec₁.miniBlockPos 0 :: vs, dec₂) := by
  rw [deltaNext, bind_eq_ok]
  constructor
  · rintro ⟨dec₁, h1, h2⟩
    obtain ⟨⟨vs, dec₂⟩, h3, h4⟩ := bind_eq_ok.mp h2
    exact ⟨dec₁, vs, dec₂, h1, h3, (Except.ok.inj h4).symm⟩
  · rintro ⟨dec₁, vs, dec₂, h1, h2, rfl⟩
    exact ⟨dec₁, h1, bind_eq_ok.mpr ⟨_, h2, rfl⟩⟩

theorem deltaNext_append {m n : Nat} {dec dec₁ dec₂ : DeltaDecoder} {as bs : List Int}
    (h1 : deltaNext m dec = .ok (as, dec₁)) (h2 : deltaNext n dec₁ = .ok (bs, dec₂)) :
    deltaNext (m + n) dec = .ok (as ++ bs, dec₂) := by
  induction m generalizing dec as with
  | zero =>
    simp only [deltaNext, Except.ok.injEq, Prod.mk.injEq] at h1
    obtain ⟨rfl, rfl⟩ := h1
    simpa using h2
  | succ m ih =>
    have hadd : m + 1 + n = m + n + 1 := by omega
    obtain ⟨d, vs, d', hread, hnext, heq⟩ := deltaNext_succ.mp h1
    simp only [Prod.mk.injEq] at heq
    obtain ⟨rfl, rfl⟩ := heq
    rw [hadd]
    exact deltaNext_succ.mpr ⟨d, vs ++ bs, dec₂, hread, ih hnext, rfl⟩

/-- Values that are already unpacked. -/
theorem deltaNext_buffered {n : Nat} {dec : DeltaDecoder}
    (hn : dec.miniBlockPos + n ≤ dec.valuesInMiniBlock)
    (hv : dec.valuesInMiniBlock ≤ dec.miniBlockValues.length) :
    deltaNext n dec = .ok ((dec.miniBlockValues.drop dec.miniBlockPos).take n,
      { dec with miniBlockPos := dec.miniBlockPos + n }) := by
  induction n generalizing dec with
  | zero => simp [deltaNext]
  | succ n ih =>
    have hlt : dec.miniBlockPos < dec.miniBlockValues.length := by omega
    have hnext := @ih { dec with miniBlockPos := dec.miniBlockPos + 1 }
      (by simp only; omega) hv
    have hpos : dec.miniBlockPos + 1 + n = dec.miniBlockPos + (n + 1) := by omega
    refine deltaNext_succ.mpr ⟨dec, _, _, ?_, hnext, ?_⟩
    · rw [deltaEnsureMiniBlock, if_neg (by omega)]
    · rw [List.drop_eq_getElem_cons hlt, List.take_succ_cons, List.getD_eq_getElem _ _ hlt, hpos]

/-- At the end of a mini-block the next one is read first. -/
theorem deltaNext_mini {k : Nat} {dec dec₁ : DeltaDecoder}
    (hpos : dec.valuesInMiniBlock ≤ dec.miniBlockPos) (hread : deltaReadMiniBlock dec = .ok dec₁)
    (hpos₁ : dec₁.miniBlockPos = 0) (hlen : dec₁.valuesInMiniBlock ≤ dec₁.miniBlockValues.length)
    (hk0 : 0 < k) (hk : k ≤ dec₁.valuesInMiniBlock) :
    deltaNext k dec = .ok (dec₁.miniBlockValues.take k, { dec₁ with miniBlockPos := k }) := by
  have hbuf := deltaNext_buffered (n := k) (by omega) hlen
  rw [hpos₁, List.drop_zero, Nat.zero_add] at hbuf
  obtain ⟨j, rfl⟩ : ∃ j, k = j + 1 := ⟨k - 1, by omega⟩
  obtain ⟨d, vs, d', hd, hnext, heq⟩ := deltaNext_succ.mp hbuf
  rw [deltaEnsureMiniBlock, if_neg (by omega), Except.ok.injEq] at hd
  subst hd
  rw [heq]
  refine deltaNext_succ.mpr ⟨dec₁, vs, d', ?_, hnext, rfl⟩
  rw [deltaEnsureMiniBlock, if_pos hpos, hread]

theorem deltaPackMinis_nil (minDelta : Int) (n : Nat) : deltaPackMinis minDelta n [] = [] := by
  induction n with
  | zero => rfl
  | succ n ih =>
    simp [deltaPackMinis, ih, deltaAdjusted, maxNat, bitWidthRequired, deltaPackMini]

/-- The layout the encoder writes: 128 deltas in four mini-blocks. -/
structure DeltaDecoder.Standard (dec : DeltaDecoder) : Prop where
  blockSize : dec.blockSize = 128
  miniBlocks : dec.miniBlocksPerBlock = 4
  buffer : dec.miniBlockValues.length = 32

/-- Before the first value of a block. -/
structure DeltaDecoder.AtBlock (dec : DeltaDecoder) : Prop where
  standard : dec.Standard
  block : 4 ≤ dec.currentMiniBlock
  empty : dec.valuesInMiniBlock ≤ dec.miniBlockPos

/-- The mini-blocks of a block from number `4 - n` on. -/
theorem deltaNext_minis {n : Nat} {dec : DeltaDecoder} {deltas : List Int} {more : Bytes}
    (hmin : IsI64 dec.minDelta) (hd : ∀ d ∈ deltas, IsI64 d) (hlen : deltas.length ≤ n * 32)
    (hstd : dec.Standard) (hcur : dec.currentMiniBlock + n = 4)
    (hpos : dec.valuesInMiniBlock ≤ dec.miniBlockPos)
    (hwidths : dec.bitWidths.drop dec.currentMiniBlock = deltaWidths dec.minDelta n deltas)
    (hrest : dec.rest = deltaPackMinis dec.minDelta n deltas ++ more) :
    ∃ dec', deltaNext deltas.length dec = .ok (deltas, dec') ∧ dec'.rest = more ∧
      (deltas.length = n * 32 → dec'.AtBlock) := by
  induction n generalizing dec deltas with
  | zero =>
    have hnil : deltas = [] := List.length_eq_zero_iff.mp (by omega)
    subst hnil
    exact ⟨dec, rfl, by simpa [deltaPackMinis] using hrest, fun _ => ⟨hstd, by omega, hpos⟩⟩
  | succ n ih =>
    by_cases hnil : deltas = []
    · subst hnil
      refine ⟨dec, rfl, ?_, fun h => ?_⟩
      · rw [hrest, deltaPackMinis_nil, List.nil_append]
      · simp only [List.length_nil] at h
        omega
    · have hpos0 : 0 < deltas.length := List.length_pos_iff.mpr hnil
      generalize hchunk : deltas.take deltaMiniBlockSize = chunk at *
      have hclen : chunk.length = min 32 deltas.length := by
        rw [← hchunk, List.length_take]
        rfl
      have hcd : ∀ d ∈ chunk, IsI64 d := by
        intro d hm
        rw [← hchunk] at hm
        exact hd d (List.mem_of_mem_take hm)
      rw [deltaPackMinis] at hrest
      simp only [hchunk] at hrest
      rw [deltaWidths, hchunk] at hwidths
      obtain ⟨values, hunpack, hvlen, htake⟩ := deltaUnpackMini_pack hmin
        (show chunk.length ≤ deltaMiniBlockSize by rw [hclen]; unfold deltaMiniBlockSize; omega) hcd
        (deltaPackMinis dec.minDelta n (deltas.drop deltaMiniBlockSize) ++ more)
      -- the mini-block is read
      have hwidth : dec.bitWidths.getD dec.currentMiniBlock 0 =
          bitWidthRequired (maxNat (deltaAdjusted dec.minDelta chunk)) := by
        have h0 := congrArg (fun l => l.getD 0 0) hwidths
        simpa [List.getD] using h0
      have hread : deltaReadMiniBlock dec = .ok { dec with
          rest := deltaPackMinis dec.minDelta n (deltas.drop deltaMiniBlockSize) ++ more
          miniBlockValues := overlay values dec.miniBlockValues
          currentMiniBlock := dec.currentMiniBlock + 1
          miniBlockPos := 0
          valuesInMiniBlock := 32 } := by
        have hsize : dec.blockSize / dec.miniBlocksPerBlock = deltaMiniBlockSize := by
          rw [hstd.blockSize, hstd.miniBlocks]
          rfl
        have hopen : deltaEnsureBlock dec = .ok dec := by
          rw [deltaEnsureBlock, if_neg (by rw [hstd.miniBlocks]; omega)]
        refine bind_eq_ok.mpr ⟨dec, hopen, bind_eq_ok.mpr ⟨(values,
          deltaPackMinis dec.minDelta n (deltas.drop deltaMiniBlockSize) ++ more), ?_, ?_⟩⟩
        · rw [hwidth, hsize, hrest, List.append_assoc, hunpack]
        · simp only [hsize]
          rfl
      have hbuflen : (overlay values dec.miniBlockValues).length = 32 := by
        rw [length_overlay, hvlen, hstd.buffer]
        rfl
      have hstep := deltaNext_mini hpos hread rfl (by simp only [hbuflen]; omega)
        (k := chunk.length) (by omega) (by simp only; omega)
      have htake' : (overlay values dec.miniBlockValues).take chunk.length = chunk := by
        rw [take_overlay _ (by rw [hvlen]; unfold deltaMiniBlockSize; omega), htake]
      simp only [htake'] at hstep
      have hdropw : dec.bitWidths.drop (dec.currentMiniBlock + 1) =
          deltaWidths dec.minDelta n (deltas.drop deltaMiniBlockSize) := by
        rw [← List.drop_drop, hwidths]
        rfl
      have hsplit : chunk ++ deltas.drop deltaMiniBlockSize = deltas := by
        rw [← hchunk]
        exact List.take_append_drop _ _
      have hdlen : (deltas.drop deltaMiniBlockSize).length = deltas.length - 32 :=
        List.length_drop
      by_cases hfull : 32 ≤ deltas.length
      · -- and the mini-blocks behind it
        obtain ⟨dec', hnext, hrest', hend⟩ := @ih { dec with
            rest := deltaPackMinis dec.minDelta n (deltas.drop deltaMiniBlockSize) ++ more
            miniBlockValues := overlay values dec.miniBlockValues
            currentMiniBlock := dec.currentMiniBlock + 1
            miniBlockPos := chunk.length
            valuesInMiniBlock := 32 }
          (deltas.drop deltaMiniBlockSize) hmin
          (fun d hm => hd d (List.mem_of_mem_drop hm)) (by omega)
          ⟨hstd.blockSize, hstd.miniBlocks, hbuflen⟩ (by simp only; omega) (by simp only; omega)
          hdropw rfl
        have happ := deltaNext_append hstep hnext
        rw [hsplit, hdlen, hclen, Nat.min_eq_left hfull, Nat.add_sub_cancel' hfull] at happ
        exact ⟨dec', happ, hrest', fun h => hend (by omega)⟩
      · have hempty : deltas.drop deltaMiniBlockSize = [] :=
          List.length_eq_zero_iff.mp (by omega)
        rw [hempty, List.append_nil] at hsplit
        rw [hsplit] at hstep
        refine ⟨_, hstep, ?_, fun h => by omega⟩
        simp only [hempty, deltaPackMinis_nil, List.nil_append]

theorem length_deltaWidths (minDelta : Int) (n : Nat) (deltas : List Int) :
    (deltaWidths minDelta n deltas).length = n := by
  induction n generalizing deltas with
  | zero => rfl
  | succ n ih => simp [deltaWidths, ih]

theorem deltaWidths_lt {minDelta : Int} {n : Nat} {deltas : List Int} :
    ∀ w ∈ deltaWidths minDelta n deltas, w < 256 := by
  induction n generalizing deltas with
  | zero => simp [deltaWidths]
  | succ n ih =>
    intro w hw
    simp only [deltaWidths, List.mem_cons] at hw
    rcases hw with rfl | hw
    · have h64 : ∀ v ∈ deltaAdjusted minDelta (deltas.take deltaMiniBlockSize), v < 2 ^ 64 := by
        intro v hv
        obtain ⟨d, -, rfl⟩ := List.mem_map.mp hv
        unfold toU64
        omega
      have := bitWidthRequired_le (maxNat_lt (by omega) h64)
      omega
    · exact ih w hw

/-- A block read from its start, with `more` behind it. -/
theorem deltaNext_block {dec : DeltaDecoder} {minDelta : Int} {deltas : List Int} {more : Bytes}
    (hb : dec.AtBlock) (hmin : IsI64 minDelta) (hd : ∀ d ∈ deltas, IsI64 d)
    (h0 : deltas ≠ []) (hlen : deltas.length ≤ 128)
    (hrest : dec.rest = deltaBlock minDelta deltas ++ more) :
    ∃ dec', deltaNext deltas.length dec = .ok (deltas, dec') ∧ dec'.rest = more ∧
      (deltas.length = 128 → dec'.AtBlock) := by
  have hwlen := length_deltaWidths minDelta deltaMiniBlocks deltas
  have hwback : ((deltaWidths minDelta deltaMiniBlocks deltas).map UInt8.ofNat).map UInt8.toNat =
      deltaWidths minDelta deltaMiniBlocks deltas := by
    rw [List.map_map]
    conv_rhs => rw [← List.map_id (deltaWidths minDelta deltaMiniBlocks deltas)]
    refine List.map_congr_left fun w hw => ?_
    have := deltaWidths_lt w hw
    simp only [Function.comp, UInt8.toNat_ofNat', id]
    omega
  generalize hws : deltaWidths minDelta deltaMiniBlocks deltas = widths at hwlen hwback
  -- the block header is read
  generalize hdec₀ : ({ dec with
      rest := deltaPackMinis minDelta deltaMiniBlocks deltas ++ more
      minDelta := minDelta
      bitWidths := widths
      currentMiniBlock := 0 } : DeltaDecoder) = dec₀
  have hwidthlen : (widths.map UInt8.ofNat).length = 4 := by
    rw [List.length_map, hwlen]
    rfl
  have hread : deltaReadBlock dec = .ok dec₀ := by
    have hne : ¬ dec.rest.isEmpty = true := by
      rw [hrest, deltaBlock, List.isEmpty_iff]
      intro hnil
      have := writeUleb_ne_nil 9 (zigzagEncode64 minDelta)
      simp only [List.append_eq_nil_iff] at hnil
      exact this hnil.1.1.1
    have hlt := zigzagEncode64_lt hmin.1 hmin.2
    rw [deltaReadBlock, if_neg hne, hrest, deltaBlock, hws]
    simp only [List.append_assoc]
    rw [readUleb128_write hlt]
    simp only
    rw [hb.standard.miniBlocks, if_neg (by rw [List.length_append, hwidthlen]; omega),
      List.drop_append_of_le_length (by omega), List.drop_of_length_le (by omega),
      List.take_append_of_le_length (by omega), List.take_of_length_le (by omega),
      List.nil_append, hwback, zigzagDecode64_encode, ← hdec₀, hb.standard.miniBlocks]
  have hstep := @deltaNext_minis 4 dec₀ deltas more
    (by rw [← hdec₀]; exact hmin) hd hlen
    (by rw [← hdec₀]; exact ⟨hb.standard.1, hb.standard.2, hb.standard.3⟩)
    (by rw [← hdec₀]) (by rw [← hdec₀]; exact hb.empty)
    (by rw [← hdec₀]; exact hws.symm) (by rw [← hdec₀]; rfl)
  obtain ⟨dec', hnext, hrest', hend⟩ := hstep
  refine ⟨dec', ?_, hrest', hend⟩
  -- the first value finds the block open
  obtain ⟨n, hn⟩ : ∃ n, deltas.length = n + 1 :=
    ⟨deltas.length - 1, by have := List.length_pos_iff.mpr h0; omega⟩
  rw [hn] at hnext ⊢
  obtain ⟨d, vs, d', hd₁, hnext', heq⟩ := deltaNext_succ.mp hnext
  refine deltaNext_succ.mpr ⟨d, vs, d', ?_, hnext', heq⟩
  have hempty₀ : dec₀.valuesInMiniBlock ≤ dec₀.miniBlockPos := by
    rw [← hdec₀]
    exact hb.empty
  rw [deltaEnsureMiniBlock, if_pos hempty₀] at hd₁
  rw [deltaEnsureMiniBlock, if_pos hb.empty, ← hd₁]
  have hensure : deltaEnsureBlock dec = .ok dec₀ := by
    rw [deltaEnsureBlock, if_pos (by rw [hb.standard.miniBlocks]; exact hb.block), hread]
  have hensure₀ : deltaEnsureBlock dec₀ = .ok dec₀ := by
    rw [deltaEnsureBlock, if_neg]
    rw [← hdec₀]
    simp only
    rw [hb.standard.miniBlocks]
    omega
  rw [deltaReadMiniBlock, deltaReadMiniBlock, hensure, hensure₀]

/-! ## How many values -/

theorem length_deltaNext {n : Nat} {dec dec' : DeltaDecoder} {values : List Int}
    (h : deltaNext n dec = .ok (values, dec')) : values.length = n := by
  induction n generalizing dec dec' values with
  | zero =>
    simp only [deltaNext, Except.ok.injEq, Prod.mk.injEq] at h
    simp [← h.1]
  | succ n ih =>
    obtain ⟨d, vs, d', -, hnext, heq⟩ := deltaNext_succ.mp h
    simp only [Prod.mk.injEq] at heq
    rw [heq.1, List.length_cons, ih hnext]

theorem length_prefixSum (wrap : Int → Int) (sum : Int) (vs : List Int) :
    (prefixSum wrap sum vs).length = vs.length := by
  induction vs generalizing sum with
  | nil => rfl
  | cons v vs ih => simp [prefixSum, ih]

/-- A decoder that succeeds yields as many values as it was asked for. -/
theorem length_deltaDecode {wrap : Int → Int} {data rest : Bytes} {n : Nat} {values : List Int}
    (h : deltaDecode wrap data n = .ok (values, rest)) : values.length = n := by
  obtain ⟨dec, -, h⟩ := bind_eq_ok.mp h
  split at h
  · rename_i h0
    simp only [Except.ok.injEq, Prod.mk.injEq] at h
    rw [← h.1, h0]
    rfl
  · obtain ⟨⟨deltas, dec'⟩, hnext, h⟩ := bind_eq_ok.mp h
    simp only [Except.ok.injEq, Prod.mk.injEq] at h
    have := length_deltaNext hnext
    rw [← h.1, List.length_cons, length_prefixSum, List.length_map]
    omega

/-! ## The encoder -/

/-- Whole blocks: a decoder before the first of them ends behind the last. -/
def DecodesBlocks (bytes : Bytes) (deltas : List Int) : Prop :=
  ∀ (dec : DeltaDecoder) (more : Bytes), dec.AtBlock → dec.rest = bytes ++ more →
    ∃ dec', deltaNext deltas.length dec = .ok (deltas, dec') ∧ dec'.rest = more ∧ dec'.AtBlock

theorem decodesBlocks_nil : DecodesBlocks [] [] :=
  fun dec _ hb hrest => ⟨dec, rfl, by simpa using hrest, hb⟩

theorem DecodesBlocks.append {a b : Bytes} {xs ys : List Int} (ha : DecodesBlocks a xs)
    (hb : DecodesBlocks b ys) : DecodesBlocks (a ++ b) (xs ++ ys) := by
  intro dec more hdec hrest
  rw [List.append_assoc] at hrest
  obtain ⟨dec₁, h1, hrest₁, hb₁⟩ := ha dec _ hdec hrest
  obtain ⟨dec₂, h2, hrest₂, hb₂⟩ := hb dec₁ more hb₁ hrest₁
  refine ⟨dec₂, ?_, hrest₂, hb₂⟩
  rw [List.length_append]
  exact deltaNext_append h1 h2

theorem foldl_min_mem (d : Int) (ds : List Int) : ds.foldl min d ∈ d :: ds := by
  induction ds generalizing d with
  | nil => simp
  | cons e es ih =>
    have := ih (min d e)
    simp only [List.foldl_cons, List.mem_cons] at this ⊢
    rcases this with h | h
    · rcases Int.le_total d e with h1 | h1
      · left
        rw [h, Int.min_eq_left h1]
      · right
        left
        rw [h, Int.min_eq_right h1]
    · exact Or.inr (Or.inr h)

/-- What the encoder has written and buffered. -/
structure DeltaEncoder.Given (enc : DeltaEncoder) (header : Bytes) (deltas : List Int) :
    Prop where
  range : ∀ d ∈ enc.deltas, IsI64 d
  written : ∃ body done, enc.out = header ++ body ∧ DecodesBlocks body done ∧
    deltas = done ++ enc.deltas

theorem deltaFlushBlock_out {enc enc' : DeltaEncoder} (h : deltaFlushBlock enc = .ok enc')
    (hne : enc.deltas ≠ []) : ∃ minDelta ∈ enc.deltas,
      enc' = { enc with out := enc.out ++ deltaBlock minDelta enc.deltas, deltas := [] } := by
  unfold deltaFlushBlock at h
  split at h
  · rename_i hnil
    exact absurd hnil hne
  · rename_i d ds hcons
    simp only at h
    split at h
    · simp at h
    · refine ⟨ds.foldl min d, ?_, (Except.ok.inj h).symm⟩
      rw [hcons]
      exact foldl_min_mem d ds

theorem given_putOne {enc enc' : DeltaEncoder} {v : Int} {header : Bytes} {deltas : List Int}
    (hg : enc.Given header deltas) (hlen : enc.deltas.length < 128)
    (h : deltaPutOne enc v = .ok enc') :
    enc'.Given header (deltas ++ [toI64 (v - enc.lastValue)]) ∧ enc'.deltas.length < 128 ∧
      enc'.lastValue = v := by
  obtain ⟨hrange, body, done, hout, hdec, hdeltas⟩ := hg
  have hrange' : ∀ d ∈ enc.deltas ++ [toI64 (v - enc.lastValue)], IsI64 d := by
    intro d hd
    rcases List.mem_append.mp hd with h1 | h1
    · exact hrange d h1
    · rw [List.mem_singleton.mp h1]
      exact isI64_toI64 _
  rw [deltaPutOne] at h
  split at h
  · rename_i hfull
    simp only at hfull
    obtain ⟨minDelta, hmem, rfl⟩ := deltaFlushBlock_out h (by simp)
    refine ⟨⟨by simp, body ++ deltaBlock minDelta (enc.deltas ++ [toI64 (v - enc.lastValue)]),
      done ++ (enc.deltas ++ [toI64 (v - enc.lastValue)]), ?_, ?_, ?_⟩, by simp, rfl⟩
    · simp [hout]
    · refine hdec.append ?_
      intro dec more hb hrest
      have hlen128 : (enc.deltas ++ [toI64 (v - enc.lastValue)]).length = 128 := hfull
      obtain ⟨dec', h1, h2, h3⟩ := deltaNext_block hb (hrange' _ hmem) hrange' (by simp)
        (Nat.le_of_eq hlen128) hrest
      exact ⟨dec', h1, h2, h3 hlen128⟩
    · simp [hdeltas]
  · rename_i hfull
    simp only [Except.ok.injEq] at h
    subst h
    simp only [List.length_append, List.length_singleton] at hfull ⊢
    unfold deltaBlockSize at hfull
    exact ⟨⟨hrange', body, done, hout, hdec, by simp [hdeltas]⟩, by omega, trivial⟩

/-- The deltas of a sequence of values. -/
def deltasFrom : Int → List Int → List Int
  | _, [] => []
  | last, v :: vs => toI64 (v - last) :: deltasFrom v vs

theorem length_deltasFrom (last : Int) (vs : List Int) :
    (deltasFrom last vs).length = vs.length := by
  induction vs generalizing last with
  | nil => rfl
  | cons v vs ih => simp [deltasFrom, ih]

theorem given_put_all {vs : List Int} {enc enc' : DeltaEncoder} {header : Bytes}
    {deltas : List Int} (hg : enc.Given header deltas) (hlen : enc.deltas.length < 128)
    (h : deltaPut enc vs = .ok enc') :
    enc'.Given header (deltas ++ deltasFrom enc.lastValue vs) ∧ enc'.deltas.length < 128 := by
  induction vs generalizing enc deltas with
  | nil =>
    simp only [deltaPut, Except.ok.injEq] at h
    subst h
    exact ⟨by simpa [deltasFrom] using hg, hlen⟩
  | cons v vs ih =>
    obtain ⟨enc₁, h1, h2⟩ := bind_eq_ok.mp h
    obtain ⟨hg₁, hlen₁, hlast⟩ := given_putOne hg hlen h1
    obtain ⟨h3, h4⟩ := ih hg₁ hlen₁ h2
    refine ⟨?_, h4⟩
    rw [hlast, List.append_assoc] at h3
    exact h3

/-- What is written in the end decodes to all the deltas, with the rest left over. -/
theorem deltaNext_of_given {enc enc' : DeltaEncoder} {header : Bytes} {deltas : List Int}
    (hg : enc.Given header deltas) (hlen : enc.deltas.length < 128)
    (h : deltaFlushBlock enc = .ok enc') :
    ∃ body, enc'.out = header ++ body ∧ ∀ (dec : DeltaDecoder) (more : Bytes), dec.AtBlock →
      dec.rest = body ++ more →
        ∃ dec', deltaNext deltas.length dec = .ok (deltas, dec') ∧ dec'.rest = more := by
  obtain ⟨hrange, body, done, hout, hdec, rfl⟩ := hg
  by_cases hnil : enc.deltas = []
  · unfold deltaFlushBlock at h
    rw [hnil] at h
    simp only [Except.ok.injEq] at h
    subst h
    refine ⟨body, hout, fun dec more hb hrest => ?_⟩
    obtain ⟨dec', h1, h2, -⟩ := hdec dec more hb hrest
    rw [hnil, List.append_nil]
    exact ⟨dec', h1, h2⟩
  · obtain ⟨minDelta, hmem, rfl⟩ := deltaFlushBlock_out h hnil
    refine ⟨body ++ deltaBlock minDelta enc.deltas, by simp [hout], fun dec more hb hrest => ?_⟩
    rw [List.append_assoc] at hrest
    obtain ⟨dec₁, h1, hrest₁, hb₁⟩ := hdec dec _ hb hrest
    obtain ⟨dec₂, h2, hrest₂, -⟩ := deltaNext_block hb₁ (hrange _ hmem) hrange hnil (by omega)
      hrest₁
    refine ⟨dec₂, ?_, hrest₂⟩
    rw [List.length_append]
    exact deltaNext_append h1 h2

/-! ## The round trip -/

theorem deltaDecoderInit_header {numValues : Nat} {first : Int} (hn : numValues < 2147483648)
    (hf : IsI64 first) (rest : Bytes) :
    ∃ dec, deltaDecoderInit (deltaHeader numValues first ++ rest) = .ok dec ∧ dec.AtBlock ∧
      dec.firstValue = first ∧ dec.rest = rest := by
  have hz := zigzagEncode64_lt hf.1 hf.2
  refine ⟨{
      rest := rest, blockSize := 128, miniBlocksPerBlock := 4, firstValue := first, minDelta := 0
      bitWidths := [], currentMiniBlock := 4, valuesInMiniBlock := 0
      miniBlockValues := List.replicate deltaMiniBlockSize 0
      miniBlockPos := deltaMiniBlockSize }, ?_,
    ⟨⟨rfl, rfl, rfl⟩, Nat.le_refl 4, Nat.zero_le 32⟩, rfl, rfl⟩
  simp only [deltaHeader, List.append_assoc, deltaDecoderInit]
  rw [readUleb128_write (by decide)]
  simp only
  rw [readUleb128_write (by decide)]
  have h1 : toI32 (deltaBlockSize : Nat) = 128 := by decide
  have h2 : toI32 (deltaMiniBlocks : Nat) = 4 := by decide
  simp only [h1, h2]
  rw [if_neg (by decide), if_neg (by decide), if_neg (by decide),
    readUleb128_write (by omega)]
  simp only
  rw [readUleb128_write hz]
  simp only [zigzagDecode64_encode]
  rfl

/-- Adding the deltas up gives the values, in any width the values fit. -/
theorem prefixSum_deltasFrom {wrap : Int → Int} {last : Int} {vs : List Int}
    (hwrap : ∀ a b, b ∈ vs → wrap (a + wrap (toI64 (b - a))) = b) :
    prefixSum wrap last ((deltasFrom last vs).map wrap) = vs := by
  induction vs generalizing last with
  | nil => rfl
  | cons v vs ih =>
    simp only [deltasFrom, List.map_cons, prefixSum, hwrap last v (by simp)]
    rw [ih fun a b hb => hwrap a b (List.mem_cons_of_mem _ hb)]

theorem wrap32_delta {a b : Int} (hb : toI32 b = b) : toI32 (a + toI32 (toI64 (b - a))) = b := by
  unfold toI32 toI64 at *
  omega

theorem wrap64_delta {a b : Int} (hb : toI64 b = b) : toI64 (a + toI64 (toI64 (b - a))) = b := by
  unfold toI64 at *
  omega

theorem deltaDecode_deltaEncode_aux {wrap : Int → Int} {values : List Int} {capacity : Nat}
    {bytes : Bytes} (hlen : values.length < 2147483648) (hrange : ∀ v ∈ values, IsI64 v)
    (hfix : ∀ v ∈ values, wrap v = v)
    (hwrap : ∀ a b, b ∈ values → wrap (a + wrap (toI64 (b - a))) = b)
    (h : deltaEncode values capacity = .ok bytes) (rest : Bytes) :
    deltaDecode wrap (bytes ++ rest) values.length = .ok (values, rest) := by
  unfold deltaEncode at h
  split at h
  · simp at h
  · split at h
    · -- the header alone
      simp only [Except.ok.injEq] at h
      subst h
      obtain ⟨dec, hinit, -, -, hrest⟩ :=
        @deltaDecoderInit_header 0 0 (by decide) ⟨by decide, by decide⟩ rest
      refine bind_eq_ok.mpr ⟨dec, hinit, ?_⟩
      simp [hrest]
    · rename_i first vs
      obtain ⟨enc₁, h1, h⟩ := bind_eq_ok.mp h
      obtain ⟨enc₂, h2, h⟩ := bind_eq_ok.mp h
      simp only [Except.ok.injEq] at h
      subst h
      have hinit : (DeltaEncoder.mk capacity (deltaHeader (first :: vs).length first) first
          []).Given (deltaHeader (first :: vs).length first) [] :=
        ⟨by simp, [], [], by simp, decodesBlocks_nil, rfl⟩
      obtain ⟨hg₁, hlen₁⟩ := given_put_all hinit (by simp) h1
      obtain ⟨body, hout, hbody⟩ := deltaNext_of_given hg₁ hlen₁ h2
      obtain ⟨dec, hdec, hb, hfirst, hrest⟩ :=
        deltaDecoderInit_header hlen (hrange first (by simp)) (body ++ rest)
      obtain ⟨dec', hnext, hrest'⟩ := hbody dec rest hb hrest
      rw [List.nil_append, length_deltasFrom] at hnext
      rw [hout, List.append_assoc]
      refine bind_eq_ok.mpr ⟨dec, hdec, ?_⟩
      rw [if_neg (by simp), hfirst, hfix first (by simp)]
      refine bind_eq_ok.mpr ⟨_, hnext, ?_⟩
      simp only [hrest']
      rw [prefixSum_deltasFrom fun a b hb => hwrap a b (List.mem_cons_of_mem _ hb)]

/-- **INT64 round trip**: what fits the buffer reads back, and the bytes after it are left. -/
theorem deltaDecodeInt64_encode {values : List Int} {capacity : Nat} {bytes : Bytes}
    (hlen : values.length < 2147483648) (hrange : ∀ v ∈ values, IsI64 v)
    (h : deltaEncode values capacity = .ok bytes) (rest : Bytes) :
    deltaDecodeInt64 (bytes ++ rest) values.length = .ok (values, rest) := by
  have hfix : ∀ v ∈ values, toI64 v = v := fun v hv =>
    toI64_of_range (hrange v hv).1 (hrange v hv).2
  exact deltaDecode_deltaEncode_aux hlen hrange hfix (fun _ b hb => wrap64_delta (hfix b hb)) h rest

/-- **INT32 round trip**. -/
theorem deltaDecodeInt32_encode {values : List Int} {capacity : Nat} {bytes : Bytes}
    (hlen : values.length < 2147483648)
    (hrange : ∀ v ∈ values, -2147483648 ≤ v ∧ v < 2147483648)
    (h : deltaEncode values capacity = .ok bytes) (rest : Bytes) :
    deltaDecodeInt32 (bytes ++ rest) values.length = .ok (values, rest) := by
  have hfix : ∀ v ∈ values, toI32 v = v := fun v hv =>
    toI32_of_range (hrange v hv).1 (hrange v hv).2
  have h64 : ∀ v ∈ values, IsI64 v := fun v hv => by
    have := hrange v hv
    unfold IsI64
    omega
  exact deltaDecode_deltaEncode_aux hlen h64 hfix (fun _ b hb => wrap32_delta (hfix b hb)) h rest

end Carquet
