import Carquet.Encoding.DeltaSpec
import Carquet.Lib.BitPacking

/-!
# DELTA_BINARY_PACKED: the format

What the Parquet format says a stream is, whatever carquet does: a block size that is a multiple of
128, a number of mini-blocks that divides it into multiples of 32, and in each mini-block the
distances from the least delta, packed in exactly the bits of its width. Varints may be longer than
they need be, padding and the widths of the mini-blocks that are left out may be anything.

`deltaNext_blocks`: the decoder reads such blocks, of the one shape it takes, in a layout of its
own: wider than 32 bits, each distance has whole bytes. `deltaPackMini_eq_packBits` says where that
is the layout of the format.
-/

namespace Carquet

open LittleEndian Leb128 BitPacking Chunks

/-! ## Streams -/

/-- A varint of `v` of at most ten bytes. -/
structure Varint (v : Nat) where
  bytes : Bytes
  numeral : Numeral bytes v
  length_le : bytes.length ≤ 10

/-- A block of the format: `minis` are the mini-blocks that are there. -/
structure FormatBlock (miniBlocks size maxWidth : Nat) where
  minDelta : Int
  minDelta_isI64 : IsI64 minDelta
  minDeltaBytes : Varint (zigzag minDelta)
  widths : Bytes
  minis : List (List Nat)
  length_widths : widths.length = miniBlocks
  length_minis : minis.length ≤ miniBlocks
  minis_ne_nil : minis ≠ []
  length_mini : ∀ p ∈ minis, p.length = size
  fits : ∀ wp ∈ widths.zip minis, wp.1.toNat ≤ maxWidth ∧ ∀ v ∈ wp.2, v < 2 ^ wp.1.toNat

section Block

variable {miniBlocks size maxWidth : Nat}

/-- A block, with its mini-blocks in a layout. -/
def FormatBlock.bytesIn (layout : Nat → List Nat → Bytes)
    (b : FormatBlock miniBlocks size maxWidth) : Bytes :=
  b.minDeltaBytes.bytes ++ b.widths ++
    (List.zipWith (fun w p => layout w.toNat p) b.widths b.minis).flatten

/-- The deltas of a block, and those of its padding. -/
def FormatBlock.deltas (b : FormatBlock miniBlocks size maxWidth) : List Int :=
  b.minis.flatten.map fun u : Nat => b.minDelta + u

end Block

/-- The values that start at `sum`, in the arithmetic of the type. -/
def runningSums (wrap : Int → Int) : Int → List Int → List Int
  | _, [] => []
  | sum, d :: ds => wrap (sum + d) :: runningSums wrap (wrap (sum + d)) ds

/-- A stream of the format, of widths up to `maxWidth`, in blocks of `miniBlocks * miniSize`
values. -/
structure FormatStream (maxWidth : Nat) where
  miniBlocks : Nat
  miniSize : Nat
  count : Nat
  first : Int
  blockSizeBytes : Varint (miniBlocks * miniSize)
  miniBlocksBytes : Varint miniBlocks
  countBytes : Varint count
  firstBytes : Varint (zigzag first)
  blocks : List (FormatBlock miniBlocks miniSize maxWidth)
  blockSize_pos : 0 < miniBlocks * miniSize
  blockSize_lt : miniBlocks * miniSize < 2147483648
  blockSize_dvd : 128 ∣ miniBlocks * miniSize
  miniSize_dvd : 32 ∣ miniSize
  count_lt : count < 2147483648
  first_isI64 : IsI64 first
  full : ∀ b ∈ blocks.dropLast, b.minis.length = miniBlocks
  enough : (blocks.map fun b => b.minis.length).sum = (count - 1 + (miniSize - 1)) / miniSize

variable {maxWidth : Nat}

def FormatStream.header (s : FormatStream maxWidth) : Bytes :=
  s.blockSizeBytes.bytes ++ s.miniBlocksBytes.bytes ++ s.countBytes.bytes ++ s.firstBytes.bytes

/-- The bytes of a stream: each mini-block takes exactly the bits of its width. -/
def FormatStream.bytes (s : FormatStream maxWidth) : Bytes :=
  s.header ++ s.blocks.flatMap (FormatBlock.bytesIn packBits)

/-- What a stream means, in the arithmetic of the type. -/
def FormatStream.values (wrap : Int → Int) (s : FormatStream maxWidth) : List Int :=
  if s.count = 0 then []
  else wrap s.first ::
    runningSums wrap (wrap s.first) ((s.blocks.flatMap FormatBlock.deltas).take (s.count - 1))

/-! ## The two layouts -/

/-- A width in which whole bytes a value are no waste, or that is packed bit by bit. -/
def Aligned (w : Nat) : Prop := w ≤ 32 ∨ 8 ∣ w

instance (w : Nat) : Decidable (Aligned w) := inferInstanceAs (Decidable (_ ∨ _))

theorem bitpack8_eq_packBits {w : Nat} {values : List Nat} (h : values.length = 8) :
    bitpack8 w values = packBits w values := by
  have hlength := length_bitpack8 (w := w) h
  have hsize : (w * values.length + 7) / 8 = w := by
    rw [h]
    omega
  refine leNat_injective (by rw [hlength, length_packBits, hsize]) ?_
  have hlt := packNat_lt w values
  rw [h] at hlt
  have hpow : 256 ^ w = 2 ^ (w * 8) := by
    rw [show (256 : Nat) = 2 ^ 8 from rfl, ← Nat.pow_mul, Nat.mul_comm]
  rw [packBits, hsize, leNat_leBytes_of_lt (by rwa [hpow])]
  refine Nat.eq_of_testBit_eq fun k => ?_
  by_cases hk : k < 8 * w
  · have hw : 0 < w := by omega
    have hdiv : k / w < 8 := by
      rw [Nat.div_lt_iff_lt_mul hw]
      exact hk
    have hsplit : k / w * w + k % w = k := Nat.div_add_mod' k w
    rw [← hsplit, testBit_bitpack8 h hdiv (Nat.mod_lt k hw), testBit_packNat _ (Nat.mod_lt k hw)]
  · rw [testBit_leNat_of_le _ _ (by omega), Nat.testBit_lt_two_pow
      (Nat.lt_of_lt_of_le hlt (Nat.pow_le_pow_right (by decide) (by omega)))]

theorem bitpackGroups_eq_packBits {w n : Nat} {values : List Nat} (h : values.length = n * 8) :
    bitpackGroups w n values = packBits w values := by
  induction n generalizing values with
  | zero =>
    rw [Nat.zero_mul] at h
    rw [List.eq_nil_of_length_eq_zero h]
    simp [bitpackGroups, packBits]
  | succ n ih =>
    have htake : (values.take 8).length = 8 := by
      rw [List.length_take]
      omega
    rw [bitpackGroups, bitpack8_eq_packBits htake, ih (by rw [List.length_drop]; omega),
      ← packBits_append (by rw [htake]; exact Dvd.intro_left w rfl), List.take_append_drop]

/-- The layout of the code is that of the format, but for wide mini-blocks of broken bytes. -/
theorem deltaPackMini_eq_packBits {w : Nat} {p : List Nat} (hp : p.length = 32)
    (hv : ∀ v ∈ p, v < 2 ^ w) (hw : Aligned w) : deltaPackMini w p = packBits w p := by
  unfold deltaPackMini deltaMiniBlockSize
  rw [hp]
  dsimp only
  rw [Nat.sub_self, List.replicate_zero, List.append_nil]
  by_cases h0 : w = 0
  · subst h0
    simp [packBits]
  · rw [if_neg h0]
    by_cases h32 : w ≤ 32
    · have hmod : (p.map fun v => v % 4294967296) = p := by
        conv_rhs => rw [← List.map_id p]
        refine List.map_congr_left fun v hm => Nat.mod_eq_of_lt ?_
        exact Nat.lt_of_lt_of_le (hv v hm) (Nat.pow_le_pow_right (by decide) h32)
      rw [if_pos h32, hmod, bitpack32, if_neg h0]
      simp only [hp, show 32 % 8 = 0 from rfl, show 32 / 8 = 4 from rfl]
      rw [if_pos trivial, bitpackGroups_eq_packBits hp]
    · obtain ⟨b, rfl⟩ := hw.resolve_left h32
      rw [if_neg h32, show (8 * b + 7) / 8 = b by omega, packBits_bytes b hv]

/-! ## Reading mini-blocks -/

/-- The deltas of a mini-block, as they are unpacked. -/
def unpackedDeltas (minDelta : Int) (p : List Nat) : List Int :=
  p.map fun u : Nat => toI64 (minDelta + u)

theorem deltaUnpackMini_full {minDelta : Int} {w : Nat} {p : List Nat} (hmin : IsI64 minDelta)
    (hw : w ≤ 64) (hp : p.length = 32) (hv : ∀ v ∈ p, v < 2 ^ w) (rest : Bytes) :
    deltaUnpackMini minDelta w 32 (deltaPackMini w p ++ rest) =
      .ok (unpackedDeltas minDelta p, rest) := by
  unfold deltaUnpackMini unpackedDeltas
  by_cases h0 : w = 0
  · subst h0
    have hzero : p = List.replicate 32 0 :=
      List.eq_replicate_iff.mpr ⟨hp, fun v hm => by have := hv v hm; omega⟩
    rw [if_pos rfl, hzero, List.map_replicate, deltaPackMini, if_pos rfl, List.nil_append]
    simp only [Nat.cast_zero, Int.add_zero, toI64_of_range hmin.1 hmin.2]
  · rw [if_neg h0]
    by_cases h32 : w ≤ 32
    · have hpack := deltaPackMini_eq_packBits hp hv (.inl h32)
      have hgroups : packBits w p = bitpackGroups w 4 p :=
        (bitpackGroups_eq_packBits (by rw [hp])).symm
      have hlength : (packBits w p).length = 4 * w := by
        rw [length_packBits, hp]
        omega
      have hsize : (32 * w + 7) / 8 = 4 * w := by omega
      rw [if_pos h32, hpack]
      dsimp only
      rw [hsize, if_neg (by rw [List.length_append]; omega), bitunpack32, if_neg h0]
      dsimp only
      rw [if_pos rfl, show 32 / 8 = 4 from rfl, List.drop_append_of_le_length (by omega),
        List.drop_of_length_le (by omega), List.nil_append, hgroups]
      dsimp only
      rw [bitunpackGroups_bitpackGroups (by omega) hv]
    · unfold deltaPackMini deltaMiniBlockSize
      rw [if_neg h32, if_pos hw, if_neg h0, if_neg h32, hp, Nat.sub_self, List.replicate_zero,
        List.append_nil]
      generalize hb : (w + 7) / 8 = b
      have hbytes : ∀ v ∈ p, v < 256 ^ b := by
        intro v hm
        rw [show (256 : Nat) = 2 ^ 8 from rfl, ← Nat.pow_mul]
        exact Nat.lt_of_lt_of_le (hv v hm) (Nat.pow_le_pow_right (by decide) (by omega))
      have hwidth : ∀ q ∈ p.map fun v => leBytes b v, q.length = b := by
        intro q hq
        obtain ⟨v, -, rfl⟩ := List.mem_map.mp hq
        exact length_leBytes b v
      have hflat := length_flatten_of_width hwidth
      have hsplit := splitChunks_flatten hwidth rest
      rw [List.length_map, hp] at hflat hsplit
      dsimp only
      rw [if_neg (by rw [List.length_append]; omega), hsplit,
        List.drop_append_of_le_length (by omega), List.drop_of_length_le (by omega),
        List.nil_append, List.map_map]
      congr 2
      refine List.map_congr_left fun v hm => ?_
      simp only [Function.comp, leNat_leBytes_of_lt (hbytes v hm)]

/-- The next mini-block of the block that is open, unpacked. -/
theorem deltaReadMiniBlock_open {dec : DeltaDecoder} {values : List Int} {rest : Bytes}
    (hstd : dec.Standard) (hopen : dec.currentMiniBlock < 4)
    (hunpack : deltaUnpackMini dec.minDelta (dec.bitWidths.getD dec.currentMiniBlock 0) 32 dec.rest =
      .ok (values, rest)) :
    deltaReadMiniBlock dec = .ok { dec with
      rest := rest
      miniBlockValues := overlay values dec.miniBlockValues
      currentMiniBlock := dec.currentMiniBlock + 1
      miniBlockPos := 0
      valuesInMiniBlock := 32 } := by
  have hsize : dec.blockSize / dec.miniBlocksPerBlock = 32 := by
    rw [hstd.blockSize, hstd.miniBlocks]
  have hensure : deltaEnsureBlock dec = .ok dec := by
    rw [deltaEnsureBlock, if_neg (by rw [hstd.miniBlocks]; omega)]
  refine bind_eq_ok.mpr ⟨dec, hensure, bind_eq_ok.mpr ⟨(values, rest), ?_, ?_⟩⟩
  · rw [hsize, hunpack]
  · simp only [hsize]

/-- Inside a block, before mini-block number `4 - ws.length`. -/
structure DeltaDecoder.AtMini (dec : DeltaDecoder) (minDelta : Int) (ws : List Nat) : Prop where
  standard : dec.Standard
  empty : dec.valuesInMiniBlock ≤ dec.miniBlockPos
  minDelta_eq : dec.minDelta = minDelta
  current : dec.currentMiniBlock + ws.length = 4
  widths : dec.bitWidths.drop dec.currentMiniBlock = ws

/-- The first deltas of a mini-block. -/
theorem deltaNext_oneMini {dec : DeltaDecoder} {minDelta : Int} {w : Nat} {ws : List Nat}
    (h : dec.AtMini minDelta (w :: ws)) (hmin : IsI64 minDelta) {p : List Nat} (hw : w ≤ 64)
    (hp : p.length = 32) (hv : ∀ v ∈ p, v < 2 ^ w) {more : Bytes}
    (hrest : dec.rest = deltaPackMini w p ++ more) {k : Nat} (hpos : 0 < k) (hk : k ≤ 32) :
    ∃ dec', deltaNext k dec = .ok ((unpackedDeltas minDelta p).take k, dec') ∧ dec'.rest = more ∧
      (k = 32 → dec'.AtMini minDelta ws) := by
  have hcurrent := h.current
  rw [List.length_cons] at hcurrent
  have hwidth : dec.bitWidths.getD dec.currentMiniBlock 0 = w := by
    have := congrArg (fun l => l.getD 0 0) h.widths
    simpa [List.getD] using this
  have hlength : (unpackedDeltas minDelta p).length = 32 := by
    rw [unpackedDeltas, List.length_map, hp]
  have hbuffer : (overlay (unpackedDeltas minDelta p) dec.miniBlockValues).length = 32 := by
    rw [length_overlay, hlength, h.standard.buffer]
    rfl
  have hread := deltaReadMiniBlock_open h.standard (by omega)
    (show deltaUnpackMini dec.minDelta (dec.bitWidths.getD dec.currentMiniBlock 0) 32 dec.rest = _ by
      rw [hwidth, hrest, h.minDelta_eq]
      exact deltaUnpackMini_full hmin hw hp hv more)
  have hnext := deltaNext_mini h.empty hread rfl (Nat.le_of_eq hbuffer.symm) hpos hk
  dsimp only at hnext
  rw [take_overlay _ (by omega)] at hnext
  refine ⟨_, hnext, rfl, fun hfull => ⟨⟨h.standard.blockSize, h.standard.miniBlocks, hbuffer⟩,
    Nat.le_of_eq hfull.symm, h.minDelta_eq, by dsimp only; omega, ?_⟩⟩
  dsimp only
  rw [← List.drop_drop, h.widths]
  rfl

/-- The next mini-blocks of a block, the last one up to the delta that is wanted. -/
theorem deltaNext_minis_in {dec : DeltaDecoder} {minDelta : Int} {ws : List Nat}
    (hmin : IsI64 minDelta) (ps : List (List Nat)) (h : dec.AtMini minDelta ws)
    (hle : ps.length ≤ ws.length) (hp : ∀ p ∈ ps, p.length = 32)
    (hfits : ∀ wp ∈ ws.zip ps, wp.1 ≤ 64 ∧ ∀ v ∈ wp.2, v < 2 ^ wp.1) {more : Bytes}
    (hrest : dec.rest = (List.zipWith deltaPackMini ws ps).flatten ++ more) {k : Nat}
    (hk : k ≤ 32 * ps.length) (hk' : 32 * ps.length < k + 32) :
    ∃ dec', deltaNext k dec = .ok ((ps.flatMap (unpackedDeltas minDelta)).take k, dec') ∧
      dec'.rest = more ∧
      (k = 32 * ps.length → dec'.AtMini minDelta (ws.drop ps.length)) := by
  induction ps generalizing dec ws k with
  | nil =>
    obtain rfl : k = 0 := by simpa using hk
    rw [List.zipWith_nil_right, List.flatten_nil, List.nil_append] at hrest
    exact ⟨dec, rfl, hrest, fun _ => h⟩
  | cons p ps ih =>
    cases ws with
    | nil => exact absurd hle (by simp)
    | cons w ws =>
      obtain ⟨hone, hmany⟩ := List.forall_mem_cons.mp hp
      rw [List.zip_cons_cons, List.forall_mem_cons] at hfits
      rw [List.zipWith_cons_cons, List.flatten_cons, List.append_assoc] at hrest
      simp only [List.length_cons] at hle hk hk'
      have hlength : (unpackedDeltas minDelta p).length = 32 := by
        rw [unpackedDeltas, List.length_map, hone]
      by_cases hlast : k ≤ 32
      · -- the last one
        by_cases hps : ps = []
        · subst hps
          rw [List.zipWith_nil_right, List.flatten_nil, List.nil_append] at hrest
          rw [List.length_nil] at hk'
          obtain ⟨dec', hnext, hrest', hend⟩ := deltaNext_oneMini h hmin hfits.1.1 hone
            hfits.1.2 hrest (show 0 < k by omega) hlast
          refine ⟨dec', ?_, hrest', fun hfull => hend (by simpa using hfull)⟩
          rw [hnext, List.flatMap_cons, List.flatMap_nil, List.append_nil]
        · have := List.length_pos_of_ne_nil hps
          omega
      · obtain ⟨dec₁, hfirst, hrest₁, hend₁⟩ := deltaNext_oneMini h hmin hfits.1.1 hone hfits.1.2
          hrest (show 0 < 32 by decide) (Nat.le_refl 32)
        obtain ⟨dec', hnext, hrest', hend⟩ := ih (hend₁ rfl) (by omega) hmany hfits.2 hrest₁
          (show k - 32 ≤ 32 * ps.length by omega) (by omega)
        have happend := deltaNext_append hfirst hnext
        rw [List.take_of_length_le (Nat.le_of_eq hlength), show 32 + (k - 32) = k by omega]
          at happend
        refine ⟨dec', ?_, hrest', fun hfull => hend (by simp at hfull; omega)⟩
        rw [happend, List.flatMap_cons, List.take_append, hlength,
          List.take_of_length_le (show (unpackedDeltas minDelta p).length ≤ k by omega)]

/-! ## Reading blocks -/

theorem zigzag_lt {n : Int} (h : IsI64 n) : zigzag n < 18446744073709551616 :=
  zigzagEncode64_lt h.1 h.2

theorem Varint.read {v : Nat} (n : Varint v) (hv : v < 18446744073709551616) (rest : Bytes) :
    readUleb128 (n.bytes ++ rest) = some (v, rest) :=
  readUleb_numeral n.numeral n.length_le hv rest

/-- A block, opened: what a run of deltas from it finds. -/
theorem deltaNext_open {dec : DeltaDecoder} (h : dec.AtBlock) (b : FormatBlock 4 32 64)
    {tail : Bytes} (hrest : dec.rest = b.minDeltaBytes.bytes ++ b.widths ++ tail) :
    ∃ dec₀, dec₀.AtMini b.minDelta (b.widths.map UInt8.toNat) ∧ dec₀.rest = tail ∧
      ∀ k, 0 < k → deltaNext k dec = deltaNext k dec₀ := by
  have hread : deltaReadBlock dec = .ok { dec with
      rest := tail, minDelta := b.minDelta, bitWidths := b.widths.map UInt8.toNat
      currentMiniBlock := 0 } := by
    have hne : ¬ dec.rest.isEmpty = true := by
      rw [hrest, List.isEmpty_iff, List.append_eq_nil_iff, List.append_eq_nil_iff]
      exact fun hnil => b.minDeltaBytes.numeral.ne_nil hnil.1.1
    rw [deltaReadBlock, if_neg hne, hrest, List.append_assoc,
      b.minDeltaBytes.read (zigzag_lt b.minDelta_isI64)]
    dsimp only
    rw [h.standard.miniBlocks, if_neg (by rw [List.length_append, b.length_widths]; omega),
      List.drop_left' b.length_widths, List.take_left' b.length_widths]
    have hzigzag : zigzagDecode64 (zigzag b.minDelta) = b.minDelta := zigzagDecode64_encode _
    rw [hzigzag]
  refine ⟨{ dec with
    rest := tail, minDelta := b.minDelta, bitWidths := b.widths.map UInt8.toNat
    currentMiniBlock := 0 }, ⟨⟨h.standard.blockSize, h.standard.miniBlocks, h.standard.buffer⟩,
    h.empty, rfl, ?_, List.drop_zero⟩, rfl, fun k hk => ?_⟩
  · rw [List.length_map, b.length_widths]
  · -- the first delta finds the block open
    have hmini : deltaReadMiniBlock dec = deltaReadMiniBlock { dec with
        rest := tail, minDelta := b.minDelta, bitWidths := b.widths.map UInt8.toNat
        currentMiniBlock := 0 } := by
      have hclosed : deltaEnsureBlock dec = .ok { dec with
          rest := tail, minDelta := b.minDelta, bitWidths := b.widths.map UInt8.toNat
          currentMiniBlock := 0 } := by
        rw [deltaEnsureBlock, if_pos (by rw [h.standard.miniBlocks]; exact h.block), hread]
      unfold deltaReadMiniBlock
      rw [hclosed, deltaEnsureBlock, if_neg (by dsimp only; rw [h.standard.miniBlocks]; omega)]
    obtain ⟨n, rfl⟩ : ∃ n, k = n + 1 := ⟨k - 1, by omega⟩
    have hensure : deltaEnsureMiniBlock dec = deltaEnsureMiniBlock { dec with
        rest := tail, minDelta := b.minDelta, bitWidths := b.widths.map UInt8.toNat
        currentMiniBlock := 0 } := by
      unfold deltaEnsureMiniBlock
      dsimp only
      rw [if_pos h.empty, if_pos h.empty, hmini]
    rw [deltaNext, deltaNext, hensure]

/-- The deltas of a block, as they are unpacked. -/
def FormatBlock.unpacked (b : FormatBlock 4 32 64) : List Int :=
  b.minis.flatMap (unpackedDeltas b.minDelta)

theorem length_unpacked_minis {minDelta : Int} {ps : List (List Nat)}
    (h : ∀ p ∈ ps, p.length = 32) :
    (ps.flatMap (unpackedDeltas minDelta)).length = 32 * ps.length := by
  induction ps with
  | nil => rfl
  | cons p ps ih =>
    obtain ⟨hone, hmany⟩ := List.forall_mem_cons.mp h
    rw [List.flatMap_cons, List.length_append, ih hmany, unpackedDeltas, List.length_map, hone,
      List.length_cons]
    omega

theorem FormatBlock.length_unpacked (b : FormatBlock 4 32 64) :
    b.unpacked.length = 32 * b.minis.length := length_unpacked_minis b.length_mini

theorem zip_map_toNat {widths : Bytes} {minis : List (List Nat)}
    (h : ∀ wp ∈ widths.zip minis, wp.1.toNat ≤ 64 ∧ ∀ v ∈ wp.2, v < 2 ^ wp.1.toNat) :
    ∀ wp ∈ (widths.map UInt8.toNat).zip minis, wp.1 ≤ 64 ∧ ∀ v ∈ wp.2, v < 2 ^ wp.1 := by
  intro wp hwp
  rw [← List.map_id minis, List.zip_map] at hwp
  obtain ⟨⟨w, p⟩, hmem, rfl⟩ := List.mem_map.mp hwp
  exact h (w, p) hmem

/-- A block, the last of its mini-blocks up to the delta that is wanted. -/
theorem deltaNext_formatBlock {dec : DeltaDecoder} (h : dec.AtBlock) (b : FormatBlock 4 32 64)
    {more : Bytes} (hrest : dec.rest = b.bytesIn deltaPackMini ++ more) {k : Nat}
    (hk : k ≤ 32 * b.minis.length) (hk' : 32 * b.minis.length < k + 32) :
    ∃ dec', deltaNext k dec = .ok (b.unpacked.take k, dec') ∧ dec'.rest = more ∧
      (k = 128 → dec'.AtBlock) := by
  have hpos := List.length_pos_of_ne_nil b.minis_ne_nil
  have hle := b.length_minis
  rw [FormatBlock.bytesIn, List.append_assoc] at hrest
  obtain ⟨dec₀, hmini, hrest₀, hopen⟩ := deltaNext_open h b hrest
  have hzip : List.zipWith deltaPackMini (b.widths.map UInt8.toNat) b.minis =
      List.zipWith (fun w p => deltaPackMini w.toNat p) b.widths b.minis := by
    rw [List.zipWith_map_left]
  obtain ⟨dec', hnext, hrest', hend⟩ := deltaNext_minis_in b.minDelta_isI64 b.minis hmini
    (by rw [List.length_map, b.length_widths]; exact hle) b.length_mini (zip_map_toNat b.fits)
    (by rw [hzip]; exact hrest₀) hk hk'
  refine ⟨dec', by rw [hopen k (by omega), hnext, FormatBlock.unpacked], hrest', fun hfull => ?_⟩
  have hat := hend (by omega)
  have hcurrent := hat.current
  rw [List.length_drop, List.length_map, b.length_widths] at hcurrent
  exact ⟨hat.standard, by omega, hat.empty⟩

/-- **Blocks**, all but the last of them whole. -/
theorem deltaNext_blocks {dec : DeltaDecoder} (h : dec.AtBlock) (blocks : List (FormatBlock 4 32 64))
    (hfull : ∀ b ∈ blocks.dropLast, b.minis.length = 4) {more : Bytes}
    (hrest : dec.rest = blocks.flatMap (FormatBlock.bytesIn deltaPackMini) ++ more) {k : Nat}
    (hk : k ≤ 32 * (blocks.map fun b => b.minis.length).sum)
    (hk' : 32 * (blocks.map fun b => b.minis.length).sum < k + 32) :
    ∃ dec', deltaNext k dec = .ok ((blocks.flatMap FormatBlock.unpacked).take k, dec') ∧
      dec'.rest = more := by
  induction blocks generalizing dec k with
  | nil =>
    obtain rfl : k = 0 := by simpa using hk
    exact ⟨dec, rfl, hrest⟩
  | cons b bs ih =>
    rw [List.flatMap_cons, List.append_assoc] at hrest
    simp only [List.map_cons, List.sum_cons] at hk hk'
    cases bs with
    | nil =>
      rw [List.flatMap_nil, List.nil_append] at hrest
      simp only [List.map_nil, List.sum_nil, Nat.add_zero] at hk hk'
      obtain ⟨dec', hnext, hrest', -⟩ := deltaNext_formatBlock h b hrest hk hk'
      exact ⟨dec', by rw [hnext, List.flatMap_cons, List.flatMap_nil, List.append_nil], hrest'⟩
    | cons c cs =>
      rw [List.dropLast_cons_cons, List.forall_mem_cons] at hfull
      have hc := List.length_pos_of_ne_nil c.minis_ne_nil
      have hsum : 1 ≤ ((c :: cs).map fun b => b.minis.length).sum := by
        rw [List.map_cons, List.sum_cons]
        omega
      have hlength := b.length_unpacked
      rw [hfull.1] at hk hk' hlength
      obtain ⟨dec₁, hfirst, hrest₁, hend₁⟩ := deltaNext_formatBlock h b hrest
        (show 128 ≤ 32 * b.minis.length by omega) (by omega)
      obtain ⟨dec', hnext, hrest'⟩ := ih (hend₁ rfl) hfull.2 hrest₁
        (show k - 128 ≤ _ by omega) (by omega)
      have happend := deltaNext_append hfirst hnext
      rw [List.take_of_length_le (Nat.le_of_eq hlength), show 128 + (k - 128) = k by omega]
        at happend
      have htake : ((b :: c :: cs).flatMap FormatBlock.unpacked).take k =
          b.unpacked ++ ((c :: cs).flatMap FormatBlock.unpacked).take (k - 128) := by
        rw [List.flatMap_cons, List.take_append, hlength,
          List.take_of_length_le (show b.unpacked.length ≤ k by omega)]
      exact ⟨dec', by rw [happend, htake], hrest'⟩

end Carquet
