import Carquet.Encoding.DeltaFormat

/-!
# DELTA_BINARY_PACKED: which streams of the format are read

The decoder takes only blocks of 128 values in four mini-blocks (delta.c:105-117), and a value of
more than 32 bits in whole bytes (delta.c:192-209).

* `deltaDecode_stream`: a stream of that shape is decoded to what it means, when no width is over
  32 bits and broken.
* `deltaNext_probe`: of every other shape there is a stream that is not: a one next to a zero in the
  first mini-block of such a width.
* `readsRight_shape_iff`, `readsRight_int32_iff` put the two together.
-/

namespace Carquet

open LittleEndian Leb128 BitPacking Chunks

/-! ## The header -/

section Header

variable {maxWidth : Nat}

theorem FormatStream.miniBlocks_pos (s : FormatStream maxWidth) :
    0 < s.miniBlocks ∧ 0 < s.miniSize :=
  ⟨Nat.pos_of_mul_pos_right s.blockSize_pos, Nat.pos_of_mul_pos_left s.blockSize_pos⟩

/-- The shape the decoder takes. -/
def FormatStream.Standard (s : FormatStream maxWidth) : Prop :=
  s.miniBlocks = 4 ∧ s.miniSize = 32

instance (s : FormatStream maxWidth) : Decidable s.Standard :=
  inferInstanceAs (Decidable (_ ∧ _))

/-- Mini-blocks of at most 32 values in a block of at most 128 make the shape. -/
theorem FormatStream.standard_of_le (s : FormatStream maxWidth)
    (hblock : s.miniBlocks * s.miniSize ≤ 128) (hsize : s.miniSize ≤ 32) : s.Standard := by
  have hpos := s.blockSize_pos
  have hminiPos := s.miniBlocks_pos.2
  obtain ⟨n, hn⟩ := s.blockSize_dvd
  obtain ⟨m, hm⟩ := s.miniSize_dvd
  have hm32 : s.miniSize = 32 := by omega
  rw [hm32] at hblock hn hpos
  exact ⟨by omega, hm32⟩

/-- The header of a stream: it is read to its end, or not taken. -/
theorem deltaDecoderInit_stream (s : FormatStream maxWidth) (rest : Bytes) :
    (s.Standard → ∃ dec, deltaDecoderInit (s.header ++ rest) = .ok dec ∧ dec.AtBlock ∧
      dec.firstValue = s.first ∧ dec.rest = rest) ∧
    (¬ s.Standard → deltaDecoderInit (s.header ++ rest) = .error .decode) := by
  obtain ⟨hminisPos, hsizePos⟩ := s.miniBlocks_pos
  have hminisLe : s.miniBlocks ≤ s.miniBlocks * s.miniSize := Nat.le_mul_of_pos_right _ hsizePos
  have hblockLt := s.blockSize_lt
  have hcountLt := s.count_lt
  have hfirst := zigzag_lt s.first_isI64
  have hblock := s.blockSizeBytes.read (by omega)
    (s.miniBlocksBytes.bytes ++ (s.countBytes.bytes ++ (s.firstBytes.bytes ++ rest)))
  have hminis := s.miniBlocksBytes.read (by omega)
    (s.countBytes.bytes ++ (s.firstBytes.bytes ++ rest))
  have hcount := s.countBytes.read (by omega) (s.firstBytes.bytes ++ rest)
  have hbytes : s.header ++ rest = s.blockSizeBytes.bytes ++ (s.miniBlocksBytes.bytes ++
      (s.countBytes.bytes ++ (s.firstBytes.bytes ++ rest))) := by
    simp only [FormatStream.header, List.append_assoc]
  have hblock32 : toI32 (s.miniBlocks * s.miniSize : Nat) = (s.miniBlocks * s.miniSize : Nat) :=
    toI32_of_range (by omega) (by omega)
  have hminis32 : toI32 s.miniBlocks = s.miniBlocks := toI32_of_range (by omega) (by omega)
  have hdiv : ((s.miniBlocks * s.miniSize : Nat) : Int) / (s.miniBlocks : Int) = s.miniSize := by
    rw [← Int.natCast_ediv, Nat.mul_div_cancel_left _ hminisPos]
  unfold deltaDecoderInit
  rw [hbytes, hblock]
  dsimp only
  rw [hminis]
  dsimp only
  rw [hblock32, hminis32, hdiv]
  constructor
  · rintro ⟨h4, h32⟩
    rw [h4, h32, if_neg (by decide), if_neg (by decide), if_neg (by decide), hcount]
    dsimp only
    rw [s.firstBytes.read hfirst]
    refine ⟨_, rfl, ⟨⟨rfl, rfl, rfl⟩, Nat.le_refl 4, Nat.zero_le _⟩, ?_, rfl⟩
    have hzigzag : zigzagDecode64 (zigzag s.first) = s.first := zigzagDecode64_encode _
    exact hzigzag
  · intro hshape
    by_cases hminisGt : 4 < s.miniBlocks
    · exact if_pos (.inr (by unfold deltaMiniBlocks; omega))
    · rw [if_neg (by unfold deltaMiniBlocks; omega)]
      by_cases hblockGt : 128 < s.miniBlocks * s.miniSize
      · exact if_pos (.inr (by unfold deltaBlockSize; omega))
      · rw [if_neg (by unfold deltaBlockSize; omega)]
        refine if_pos ?_
        by_contra hsize
        unfold deltaMiniBlockSize at hsize
        exact hshape (s.standard_of_le (by omega) (by omega))

end Header

/-! ## Streams of aligned widths -/

section Widths

variable {miniBlocks size maxWidth : Nat}

/-- The widths of the mini-blocks that are there. -/
def FormatBlock.used (b : FormatBlock miniBlocks size maxWidth) : List Nat :=
  (b.widths.zip b.minis).map fun wp => wp.1.toNat

/-- A mini-block that is there, and its width. -/
theorem FormatBlock.mem_used {b : FormatBlock miniBlocks size maxWidth} {wp : UInt8 × List Nat}
    (h : wp ∈ b.widths.zip b.minis) : wp.1.toNat ∈ b.used ∧ wp.2 ∈ b.minis :=
  ⟨List.mem_map_of_mem h, (List.of_mem_zip h).2⟩

theorem FormatBlock.used_le (b : FormatBlock miniBlocks size maxWidth) :
    ∀ w ∈ b.used, w ≤ maxWidth := by
  intro w hw
  obtain ⟨wp, hmem, rfl⟩ := List.mem_map.mp hw
  exact (b.fits wp hmem).1

theorem FormatBlock.bytesIn_congr {f g : Nat → List Nat → Bytes}
    (b : FormatBlock miniBlocks size maxWidth)
    (h : ∀ wp ∈ b.widths.zip b.minis, f wp.1.toNat wp.2 = g wp.1.toNat wp.2) :
    b.bytesIn f = b.bytesIn g := by
  unfold FormatBlock.bytesIn
  rw [← List.map_uncurry_zip_eq_zipWith, ← List.map_uncurry_zip_eq_zipWith]
  exact congrArg (fun minis => b.minDeltaBytes.bytes ++ b.widths ++ minis.flatten)
    (List.map_congr_left h)

/-- A block of aligned widths is in the layout of the code. -/
theorem FormatBlock.bytesIn_aligned (b : FormatBlock miniBlocks 32 maxWidth)
    (h : ∀ w ∈ b.used, Aligned w) : b.bytesIn packBits = b.bytesIn deltaPackMini := by
  refine b.bytesIn_congr fun wp hmem => ?_
  obtain ⟨hw, hp⟩ := FormatBlock.mem_used hmem
  exact (deltaPackMini_eq_packBits (b.length_mini _ hp) (b.fits wp hmem).2 (h _ hw)).symm

end Widths

theorem FormatBlock.unpacked_eq (b : FormatBlock 4 32 64) : b.unpacked = b.deltas.map toI64 := by
  unfold FormatBlock.unpacked FormatBlock.deltas
  rw [List.map_map, List.map_flatten, List.flatMap_def]
  rfl

theorem prefixSum_eq_runningSums {wrap : Int → Int}
    (hwrap : ∀ a d, wrap (a + wrap (toI64 d)) = wrap (a + d)) (sum : Int) (ds : List Int) :
    prefixSum wrap sum ((ds.map toI64).map wrap) = runningSums wrap sum ds := by
  induction ds generalizing sum with
  | nil => rfl
  | cons d ds ih =>
    rw [List.map_cons, List.map_cons, prefixSum, runningSums, hwrap, ih]

theorem wrap64_absorbs (a d : Int) : toI64 (a + toI64 (toI64 d)) = toI64 (a + d) := by
  unfold toI64
  omega

theorem wrap32_absorbs (a d : Int) : toI32 (a + toI32 (toI64 d)) = toI32 (a + d) := by
  unfold toI32 toI64
  omega

/-- What `deltaDecode` does behind the header. -/
theorem deltaDecode_of_init {wrap : Int → Int} {data : Bytes} {n : Nat} {dec : DeltaDecoder}
    (h : deltaDecoderInit data = .ok dec) (hn : n ≠ 0) :
    deltaDecode wrap data n = (do
      let (deltas, dec') ← deltaNext (n - 1) dec
      .ok (wrap dec.firstValue :: prefixSum wrap (wrap dec.firstValue) (deltas.map wrap),
        dec'.rest)) := by
  unfold deltaDecode
  rw [h]
  exact if_neg hn

/-- Blocks of aligned widths, behind a header. -/
theorem deltaDecode_blocks {wrap : Int → Int}
    (hwrap : ∀ a d, wrap (a + wrap (toI64 d)) = wrap (a + d)) {data rest : Bytes}
    {dec : DeltaDecoder} (hinit : deltaDecoderInit data = .ok dec) (hblock : dec.AtBlock)
    (blocks : List (FormatBlock 4 32 64)) (hw : ∀ b ∈ blocks, ∀ w ∈ b.used, Aligned w)
    (hrest : dec.rest = blocks.flatMap (FormatBlock.bytesIn packBits) ++ rest)
    (hfull : ∀ b ∈ blocks.dropLast, b.minis.length = 4) {count : Nat}
    (henough : (blocks.map fun b => b.minis.length).sum = (count - 1 + 31) / 32) :
    deltaDecode wrap data count = .ok (if count = 0 then [] else wrap dec.firstValue ::
      runningSums wrap (wrap dec.firstValue) ((blocks.flatMap FormatBlock.deltas).take (count - 1)),
      rest) := by
  have hlayout : blocks.flatMap (FormatBlock.bytesIn packBits) =
      blocks.flatMap (FormatBlock.bytesIn deltaPackMini) :=
    List.flatMap_congr fun b hb => b.bytesIn_aligned (hw b hb)
  rw [hlayout] at hrest
  obtain ⟨dec', hnext, hrest'⟩ := deltaNext_blocks hblock blocks hfull hrest
    (show count - 1 ≤ _ by omega) (by omega)
  by_cases hcount : count = 0
  · subst hcount
    unfold deltaDecode
    rw [hinit, if_pos rfl]
    cases hnext
    exact congrArg (fun r => Except.ok ([], r)) hrest'
  · have hvalues : blocks.flatMap FormatBlock.unpacked =
        (blocks.flatMap FormatBlock.deltas).map toI64 := by
      rw [List.map_flatMap]
      exact List.flatMap_congr fun b _ => b.unpacked_eq
    rw [deltaDecode_of_init hinit hcount, hnext, if_neg hcount, hvalues, ← List.map_take]
    dsimp only [bind, Except.bind]
    rw [prefixSum_eq_runningSums hwrap, hrest']

/-- **A stream of aligned widths** is decoded to its values, and to nothing else. -/
theorem deltaDecode_stream {wrap : Int → Int}
    (hwrap : ∀ a d, wrap (a + wrap (toI64 d)) = wrap (a + d)) (s : FormatStream 64)
    (hs : s.Standard) (hw : ∀ b ∈ s.blocks, ∀ w ∈ b.used, Aligned w) (rest : Bytes) :
    deltaDecode wrap (s.bytes ++ rest) s.count = .ok (s.values wrap, rest) := by
  have hinit := (deltaDecoderInit_stream s
    (s.blocks.flatMap (FormatBlock.bytesIn packBits) ++ rest)).1 hs
  rw [← List.append_assoc] at hinit
  change ∃ dec, deltaDecoderInit (s.bytes ++ rest) = _ ∧ _ at hinit
  obtain ⟨dec, hinit, hblock, hfirst, hrest⟩ := hinit
  obtain ⟨miniBlocks, miniSize, count, first, _, _, _, _, blocks, _, _, _, _, _, _, hfull,
    henough⟩ := s
  obtain ⟨rfl, rfl⟩ := hs
  have hdecode := deltaDecode_blocks hwrap hinit hblock blocks hw hrest hfull henough
  rw [hfirst] at hdecode
  exact hdecode

/-! ## A wide mini-block of broken bytes -/

/-- A run of deltas, cut in two. -/
theorem deltaNext_split {m n : Nat} {dec dec₁ dec₂ : DeltaDecoder} {as vs : List Int}
    (hfirst : deltaNext m dec = .ok (as, dec₁)) (h : deltaNext (m + n) dec = .ok (vs, dec₂)) :
    ∃ bs, deltaNext n dec₁ = .ok (bs, dec₂) ∧ vs = as ++ bs := by
  induction m generalizing dec as vs with
  | zero =>
    cases hfirst
    rw [Nat.zero_add] at h
    exact ⟨vs, h, rfl⟩
  | succ m ih =>
    obtain ⟨dec', as', dec'', hensure, hnext, heq⟩ := deltaNext_succ.mp hfirst
    rw [Nat.add_right_comm, deltaNext_succ] at h
    obtain ⟨dec₃, vs', dec₄, hensure', hnext', heq'⟩ := h
    obtain rfl : dec' = dec₃ := Except.ok.inj (hensure.symm.trans hensure')
    cases heq
    cases heq'
    obtain ⟨bs, hrest, rfl⟩ := ih hnext hnext'
    exact ⟨bs, hrest, rfl⟩

/-- The first delta of a mini-block is read with bits of the next one. -/
theorem deltaNext_wide {dec dec' : DeltaDecoder} {minDelta : Int} {w : Nat} {ws : List Nat}
    (h : dec.AtMini minDelta (w :: ws)) (hw : 32 < w) (hw' : w ≤ 64) {p : List Nat}
    (hp : p.length = 32) {more : Bytes} (hrest : dec.rest = packBits w p ++ more) {n : Nat}
    {values : List Int} (hnext : deltaNext (n + 1) dec = .ok (values, dec')) :
    ∃ tail, values = toI64 (minDelta + (packNat w p % 256 ^ ((w + 7) / 8) : Nat)) :: tail := by
  have hcurrent := h.current
  rw [List.length_cons] at hcurrent
  have hwidth : dec.bitWidths.getD dec.currentMiniBlock 0 = w := by
    have := congrArg (fun l => l.getD 0 0) h.widths
    simpa [List.getD] using this
  obtain ⟨dec₁, vs, dec₂, hensure, -, heq⟩ := deltaNext_succ.mp hnext
  unfold deltaEnsureMiniBlock at hensure
  rw [if_pos h.empty] at hensure
  have hunpack : deltaUnpackMini dec.minDelta (dec.bitWidths.getD dec.currentMiniBlock 0) 32
      dec.rest = if dec.rest.length < 32 * ((w + 7) / 8) then .error .decode
        else .ok ((splitChunks ((w + 7) / 8) 32 dec.rest).map fun v => toI64 (minDelta + leNat v),
          dec.rest.drop (32 * ((w + 7) / 8))) := by
    unfold deltaUnpackMini
    rw [hwidth, if_neg (by omega), if_neg (by omega), if_pos hw', h.minDelta_eq]
  by_cases hshort : dec.rest.length < 32 * ((w + 7) / 8)
  · -- no delta at all
    rw [if_pos hshort] at hunpack
    obtain ⟨dec₀, hblock, hread⟩ := bind_eq_ok.mp hensure
    unfold deltaEnsureBlock at hblock
    rw [if_neg (by rw [h.standard.miniBlocks]; omega)] at hblock
    cases hblock
    rw [h.standard.blockSize, h.standard.miniBlocks] at hread
    dsimp only at hread
    rw [show 128 / 4 = 32 from rfl, hunpack] at hread
    cases hread
  · rw [if_neg hshort] at hunpack
    have hread := deltaReadMiniBlock_open h.standard (by omega) hunpack
    obtain rfl := Except.ok.inj (hensure.symm.trans hread)
    have hchunk : dec.rest.take ((w + 7) / 8) = (packBits w p).take ((w + 7) / 8) := by
      rw [hrest, List.take_append_of_le_length (by rw [length_packBits, hp]; omega)]
    have hlength : packNat w p < 256 ^ ((w * p.length + 7) / 8) := by
      rw [show (256 : Nat) = 2 ^ 8 from rfl, ← Nat.pow_mul]
      exact Nat.lt_of_lt_of_le (packNat_lt w p) (Nat.pow_le_pow_right (by decide) (by omega))
    refine ⟨vs, (Prod.mk.inj heq).1.trans ?_⟩
    rw [splitChunks, List.map_cons, hchunk, leNat_take_mod, packBits,
      leNat_leBytes_of_lt hlength]
    rfl

/-! ## A probe for every shape -/

/-- A zero, a one where there is room for it, and zeros. -/
def probeMini (w size : Nat) : List Nat :=
  if w = 0 then List.replicate size 0 else (List.replicate size 0).set 1 1

theorem length_probeMini (w size : Nat) : (probeMini w size).length = size := by
  unfold probeMini
  split
  · exact List.length_replicate
  · rw [List.length_set, List.length_replicate]

theorem probeMini_lt {w size : Nat} : ∀ v ∈ probeMini w size, v < 2 ^ w := by
  intro v hv
  unfold probeMini at hv
  split at hv
  · rw [List.eq_of_mem_replicate hv]
    exact Nat.two_pow_pos w
  · have hw : 1 < 2 ^ w := Nat.one_lt_two_pow (by assumption)
    rcases List.mem_or_eq_of_mem_set hv with hzero | hone
    · rw [List.eq_of_mem_replicate hzero]
      omega
    · omega

theorem packNat_replicate (w n : Nat) : packNat w (List.replicate n 0) = 0 := by
  induction n with
  | zero => rfl
  | succ n ih => rw [List.replicate_succ, packNat, ih, Nat.zero_mod, Nat.mul_zero]

/-- The one is next to the zero. -/
theorem packNat_probeMini {w : Nat} (hw : w ≠ 0) : packNat w (probeMini w 32) = 2 ^ w := by
  have hlt : 1 < 2 ^ w := Nat.one_lt_two_pow hw
  have hprobe : probeMini w 32 = 0 :: 1 :: List.replicate 30 0 := by
    rw [probeMini, if_neg hw]
    rfl
  rw [hprobe, packNat, packNat, packNat_replicate, Nat.zero_mod, Nat.mod_eq_of_lt hlt]
  omega

theorem zip_map_zip {α β γ : Type} (f : α × β → γ) (as : List α) (bs : List β) :
    as.zip ((as.zip bs).map f) = (as.zip bs).map fun p => (p.1, f p) := by
  induction as generalizing bs with
  | nil => rfl
  | cons a as ih =>
    cases bs with
    | nil => rfl
    | cons b bs => rw [List.zip_cons_cons, List.map_cons, List.zip_cons_cons, ih, List.map_cons]

theorem numeral_zero : Numeral [0] 0 := .last (b := 0) (by decide)

/-- Zero, in one byte. -/
def varintZero : Varint 0 := ⟨[0], numeral_zero, by decide⟩

section Probe

variable {miniBlocks size maxWidth : Nat}

/-- A block of the same widths, of deltas that are zero or one. -/
def FormatBlock.probe (b : FormatBlock miniBlocks size maxWidth) :
    FormatBlock miniBlocks size maxWidth where
  minDelta := 0
  minDelta_isI64 := by unfold IsI64; omega
  minDeltaBytes := varintZero
  widths := b.widths
  minis := (b.widths.zip b.minis).map fun wp => probeMini wp.1.toNat size
  length_widths := b.length_widths
  length_minis := by
    rw [List.length_map, List.length_zip]
    exact Nat.le_trans (Nat.min_le_right ..) b.length_minis
  minis_ne_nil := by
    have hminis := List.length_pos_of_ne_nil b.minis_ne_nil
    have hwidths := b.length_widths
    have hle := b.length_minis
    rw [ne_eq, List.map_eq_nil_iff, ← List.length_eq_zero_iff, List.length_zip]
    omega
  length_mini := by
    intro p hp
    obtain ⟨wp, -, rfl⟩ := List.mem_map.mp hp
    exact length_probeMini _ _
  fits := by
    intro wp hwp
    rw [zip_map_zip] at hwp
    obtain ⟨wp', hmem, rfl⟩ := List.mem_map.mp hwp
    exact ⟨(b.fits wp' hmem).1, probeMini_lt⟩

theorem FormatBlock.length_probe (b : FormatBlock miniBlocks size maxWidth) :
    b.probe.minis.length = b.minis.length := by
  have hwidths := b.length_widths
  have hle := b.length_minis
  show ((b.widths.zip b.minis).map _).length = _
  rw [List.length_map, List.length_zip]
  omega

theorem FormatBlock.used_probe (b : FormatBlock miniBlocks size maxWidth) :
    b.probe.used = b.used := by
  show ((b.widths.zip ((b.widths.zip b.minis).map _)).map _) = _
  rw [zip_map_zip, List.map_map]
  rfl

/-- A stream of the same shape, of values that grow by zero or one. -/
def FormatStream.probe (s : FormatStream maxWidth) : FormatStream maxWidth :=
  { s with
    first := 0
    firstBytes := varintZero
    first_isI64 := by unfold IsI64; omega
    blocks := s.blocks.map FormatBlock.probe
    full := by
      intro b hb
      rw [← List.map_dropLast] at hb
      obtain ⟨b', hb', rfl⟩ := List.mem_map.mp hb
      rw [b'.length_probe, s.full b' hb']
    enough := by
      rw [List.map_map, ← s.enough]
      exact congrArg List.sum (List.map_congr_left fun b _ => b.length_probe) }

end Probe

/-! ## The probe is read wrong -/

theorem exists_first {α : Type} {good : α → Prop} {l : List α} (h : ¬ ∀ x ∈ l, good x) :
    ∃ pre x post, l = pre ++ x :: post ∧ (∀ y ∈ pre, good y) ∧ ¬ good x := by
  induction l with
  | nil => exact absurd (fun x hx => absurd hx List.not_mem_nil) h
  | cons x xs ih =>
    by_cases hx : good x
    · obtain ⟨pre, y, post, rfl, hpre, hy⟩ := ih fun hxs => h (List.forall_mem_cons.mpr ⟨hx, hxs⟩)
      exact ⟨x :: pre, y, post, rfl, List.forall_mem_cons.mpr ⟨hx, hpre⟩, hy⟩
    · exact ⟨[], x, xs, rfl, fun y hy => absurd hy List.not_mem_nil, hx⟩

theorem length_blocks_full {blocks : List (FormatBlock 4 32 64)}
    (hfull : ∀ b ∈ blocks, b.minis.length = 4) :
    (blocks.map fun b => b.minis.length).sum = 4 * blocks.length ∧
      (blocks.flatMap FormatBlock.unpacked).length = 128 * blocks.length := by
  induction blocks with
  | nil => exact ⟨rfl, rfl⟩
  | cons b bs ih =>
    obtain ⟨hone, hmany⟩ := List.forall_mem_cons.mp hfull
    obtain ⟨hsum, hlength⟩ := ih hmany
    rw [List.map_cons, List.sum_cons, hsum, List.flatMap_cons, List.length_append, hlength,
      b.length_unpacked, hone, List.length_cons]
    omega

theorem decodesBlocks_full (blocks : List (FormatBlock 4 32 64))
    (hfull : ∀ b ∈ blocks, b.minis.length = 4) :
    DecodesBlocks (blocks.flatMap (FormatBlock.bytesIn deltaPackMini))
      (blocks.flatMap FormatBlock.unpacked) := by
  induction blocks with
  | nil => exact decodesBlocks_nil
  | cons b bs ih =>
    obtain ⟨hone, hmany⟩ := List.forall_mem_cons.mp hfull
    refine DecodesBlocks.append (fun dec more hdec hrest => ?_) (ih hmany)
    have hlength : b.unpacked.length = 128 := by
      rw [b.length_unpacked, hone]
    obtain ⟨dec', hnext, hrest', hend⟩ := deltaNext_formatBlock hdec b hrest
      (show 128 ≤ 32 * b.minis.length by omega) (by omega)
    rw [List.take_of_length_le (Nat.le_of_eq hlength)] at hnext
    exact ⟨dec', hlength.symm ▸ hnext, hrest', hend rfl⟩

/-- A block, up to a wide mini-block of broken bytes. -/
theorem deltaNext_wideBlock {dec dec' : DeltaDecoder} (hblock : dec.AtBlock)
    (b : FormatBlock 4 32 64) {ws wt : Bytes} {w : UInt8} {ys zs : List (List Nat)} {p : List Nat}
    (hwidths : b.widths = ws ++ w :: wt) (hminis : b.minis = ys ++ p :: zs)
    (hlen : ws.length = ys.length) (haligned : ∀ wp ∈ ws.zip ys, Aligned wp.1.toNat)
    (hw : ¬ Aligned w.toNat) {more : Bytes} (hrest : dec.rest = b.bytesIn packBits ++ more)
    {n : Nat} {values : List Int}
    (hnext : deltaNext (32 * ys.length + (n + 1)) dec = .ok (values, dec')) :
    ∃ tail, values = ys.flatMap (unpackedDeltas b.minDelta) ++
      toI64 (b.minDelta + (packNat w.toNat p % 256 ^ ((w.toNat + 7) / 8) : Nat)) :: tail := by
  have hfour := b.length_widths
  have hfits := b.fits
  have hmini := b.length_mini
  rw [hwidths, List.length_append, List.length_cons] at hfour
  rw [hminis, List.forall_mem_append, List.forall_mem_cons] at hmini
  rw [hwidths, hminis, List.zip_append hlen, List.forall_mem_append, List.zip_cons_cons,
    List.forall_mem_cons] at hfits
  rw [FormatBlock.bytesIn, hwidths, hminis, List.zipWith_append hlen, List.zipWith_cons_cons,
    List.flatten_append, List.flatten_cons, ← hwidths] at hrest
  simp only [List.append_assoc] at hrest
  rw [← List.append_assoc] at hrest
  obtain ⟨dec₀, hmini₀, hrest₀, hopen⟩ := deltaNext_open hblock b hrest
  rw [hopen _ (by omega)] at hnext
  -- the mini-blocks before it are in the layout of the code
  have hlayout : List.zipWith (fun w p => packBits w.toNat p) ws ys =
      List.zipWith deltaPackMini (b.widths.map UInt8.toNat) ys := by
    have hnil : ys = ys ++ [] := (List.append_nil ys).symm
    rw [hwidths, List.map_append]
    conv_rhs => rw [hnil]
    rw [List.zipWith_append (by rw [List.length_map, hlen]), List.zipWith_nil_right,
      List.append_nil, List.zipWith_map_left, ← List.map_uncurry_zip_eq_zipWith,
      ← List.map_uncurry_zip_eq_zipWith]
    refine List.map_congr_left fun wp hmem => ?_
    exact (deltaPackMini_eq_packBits (hmini.1 _ (List.of_mem_zip hmem).2) (hfits.1 wp hmem).2
      (haligned wp hmem)).symm
  have hfits₀ : ∀ wp ∈ (b.widths.map UInt8.toNat).zip ys,
      wp.1 ≤ 64 ∧ ∀ v ∈ wp.2, v < 2 ^ wp.1 := by
    have hnil : ys = ys ++ [] := (List.append_nil ys).symm
    rw [hwidths, List.map_append]
    conv in List.zip _ ys => rw [hnil]
    rw [List.zip_append (by rw [List.length_map, hlen]), List.zip_nil_right, List.append_nil]
    exact zip_map_toNat hfits.1
  rw [hlayout] at hrest₀
  obtain ⟨dec₁, hfirst, hrest₁, hend⟩ := deltaNext_minis_in b.minDelta_isI64 ys hmini₀
    (by rw [List.length_map, b.length_widths]; omega) hmini.1 hfits₀ hrest₀
    (Nat.le_refl (32 * ys.length)) (by omega)
  obtain ⟨values₁, hlast, rfl⟩ := deltaNext_split hfirst hnext
  have hat := hend rfl
  have hdrop : (b.widths.map UInt8.toNat).drop ys.length = w.toNat :: wt.map UInt8.toNat := by
    rw [hwidths, List.map_append, List.drop_left' (by rw [List.length_map, hlen]), List.map_cons]
  rw [hdrop] at hat
  unfold Aligned at hw
  obtain ⟨tail, rfl⟩ := deltaNext_wide hat (by omega) hfits.2.1.1 hmini.2.1 hrest₁ hlast
  refine ⟨tail, ?_⟩
  rw [List.take_of_length_le (Nat.le_of_eq (length_unpacked_minis hmini.1))]

theorem toI64_two_pow_ne_zero {w : Nat} (hw : w < 64) : toI64 (2 ^ w : Nat) ≠ 0 := by
  have hlt : 2 ^ w < 2 ^ 64 := Nat.pow_lt_pow_right (by decide) hw
  have hpos := Nat.two_pow_pos w
  unfold toI64
  omega

/-- The first deltas of a probe's mini-blocks are zeros, and one of them is read as another. -/
theorem deltaNext_probe {dec dec' : DeltaDecoder} (hblock : dec.AtBlock)
    (blocks : List (FormatBlock 4 32 64)) (hfull : ∀ b ∈ blocks.dropLast, b.minis.length = 4)
    (hbad : ¬ ∀ b ∈ blocks, ∀ w ∈ b.used, Aligned w)
    (hrest : dec.rest = (blocks.map FormatBlock.probe).flatMap (FormatBlock.bytesIn packBits))
    {n : Nat} (hn : (blocks.map fun b => b.minis.length).sum = (n + 31) / 32) {values : List Int}
    (hnext : deltaNext n dec = .ok (values, dec')) :
    ∃ as v tail more, v ≠ 0 ∧ IsI64 v ∧ values = as ++ v :: tail ∧
      ((blocks.map FormatBlock.probe).flatMap FormatBlock.unpacked).take n = as ++ 0 :: more := by
  obtain ⟨pre, b, post, rfl, hpre, hb⟩ := exists_first hbad
  have hbzip : ¬ ∀ wp ∈ b.widths.zip b.minis, Aligned wp.1.toNat :=
    fun h => hb fun w hw => by
      obtain ⟨wp, hmem, rfl⟩ := List.mem_map.mp hw
      exact h wp hmem
  obtain ⟨zpre, ⟨w, p⟩, zpost, hzip, haligned, hw⟩ := exists_first hbzip
  -- the widths and the mini-blocks of the probe, cut at the first that is not aligned
  have hminis : b.probe.minis = (zpre.map fun wp => probeMini wp.1.toNat 32) ++
      probeMini w.toNat 32 :: zpost.map fun wp => probeMini wp.1.toNat 32 := by
    show (b.widths.zip b.minis).map _ = _
    rw [hzip, List.map_append, List.map_cons]
  obtain ⟨ws, xs, ys, zs, hlen, hwidths, -, rfl, hrestzip⟩ := List.zip_eq_append_iff.mp hzip
  obtain ⟨wt, zt, rfl, -, -⟩ := List.zip_eq_cons_iff.mp hrestzip.symm
  generalize hps : (ws.zip ys).map (fun wp => probeMini wp.1.toNat 32) = ps at hminis
  generalize hqs : zpost.map (fun wp => probeMini wp.1.toNat 32) = qs at hminis
  have hlenps : ws.length = ps.length := by
    rw [← hps, List.length_map, List.length_zip]
    omega
  have halignedps : ∀ wp ∈ ws.zip ps, Aligned wp.1.toNat := by
    intro wp hwp
    rw [← hps, zip_map_zip] at hwp
    obtain ⟨wp', hmem, rfl⟩ := List.mem_map.mp hwp
    exact haligned wp' hmem
  -- the blocks before it are whole
  have hfullpre : ∀ c ∈ pre, c.minis.length = 4 := fun c hc =>
    hfull c (by
      rw [List.dropLast_append_of_ne_nil (List.cons_ne_nil _ _)]
      exact List.mem_append_left _ hc)
  have hsum := (length_blocks_full hfullpre).1
  have hcount := b.length_probe
  rw [hminis, List.length_append, List.length_cons] at hcount
  rw [List.map_append, List.map_cons, List.sum_append, List.sum_cons, hsum] at hn
  obtain ⟨m, rfl⟩ : ∃ m, n = 128 * pre.length + (32 * ps.length + (m + 1)) :=
    ⟨n - 128 * pre.length - 32 * ps.length - 1, by omega⟩
  have hlayout : (pre.map FormatBlock.probe).flatMap (FormatBlock.bytesIn packBits) =
      (pre.map FormatBlock.probe).flatMap (FormatBlock.bytesIn deltaPackMini) := by
    refine List.flatMap_congr fun c hc => ?_
    obtain ⟨c', hmem, rfl⟩ := List.mem_map.mp hc
    exact c'.probe.bytesIn_aligned (c'.used_probe ▸ hpre c' hmem)
  have hfullprobe : ∀ c ∈ pre.map FormatBlock.probe, c.minis.length = 4 := by
    intro c hc
    obtain ⟨c', hmem, rfl⟩ := List.mem_map.mp hc
    rw [c'.length_probe, hfullpre c' hmem]
  have hlength := (length_blocks_full hfullprobe).2
  rw [List.length_map] at hlength
  rw [List.map_append, List.map_cons, List.flatMap_append, List.flatMap_cons, hlayout] at hrest
  obtain ⟨dec₁, hfirst, hrest₁, hblock₁⟩ := decodesBlocks_full _ hfullprobe dec _ hblock hrest
  rw [hlength] at hfirst
  obtain ⟨values₁, hlast, rfl⟩ := deltaNext_split hfirst hnext
  obtain ⟨tail, rfl⟩ := deltaNext_wideBlock hblock₁ b.probe hwidths hminis hlenps halignedps hw
    hrest₁ hlast
  -- where the two part: the first delta of the mini-block
  have hwide : 32 < w.toNat ∧ w.toNat < 64 ∧ w.toNat < 8 * ((w.toNat + 7) / 8) := by
    have hle := (b.fits (w, p) (hzip ▸ by simp)).1
    unfold Aligned at hw
    dsimp only at hle hw
    omega
  have hpslength : (ps.flatMap (unpackedDeltas b.probe.minDelta)).length = 32 * ps.length :=
    length_unpacked_minis fun q hq => b.probe.length_mini q (hminis ▸ List.mem_append_left _ hq)
  have hprobe : probeMini w.toNat 32 = 0 :: 1 :: List.replicate 30 0 := by
    rw [probeMini, if_neg (by omega)]
    rfl
  have hzero : unpackedDeltas b.probe.minDelta (probeMini w.toNat 32) =
      0 :: unpackedDeltas b.probe.minDelta (1 :: List.replicate 30 0) := by
    rw [hprobe]
    rfl
  have hmin : b.probe.minDelta = 0 := rfl
  have hbits : 2 ^ w.toNat % 256 ^ ((w.toNat + 7) / 8) = 2 ^ w.toNat := by
    refine Nat.mod_eq_of_lt ?_
    rw [show (256 : Nat) = 2 ^ 8 from rfl, ← Nat.pow_mul]
    exact Nat.pow_lt_pow_right (by decide) hwide.2.2
  rw [packNat_probeMini (by omega), hbits]
  rw [List.map_append, List.map_cons, List.flatMap_append, List.flatMap_cons,
    FormatBlock.unpacked, hminis, List.flatMap_append, List.flatMap_cons, hzero, ← hlength,
    List.take_length_add_append, List.append_assoc, ← hpslength, List.take_length_add_append,
    List.cons_append, List.cons_append, List.take_succ_cons]
  refine ⟨_, toI64 (b.probe.minDelta + (2 ^ w.toNat : Nat)), tail, _, ?_, isI64_toI64 _,
    (List.append_assoc ..).symm, (List.append_assoc ..).symm⟩
  rw [hmin, Int.zero_add]
  exact toI64_two_pow_ne_zero hwide.2.1

/-! ## What is read right -/

/-- A stream is decoded to what it means. -/
def ReadsRight {maxWidth : Nat} (decode : Bytes → Nat → Except Status (List Int × Bytes))
    (wrap : Int → Int) (s : FormatStream maxWidth) : Prop :=
  (decode s.bytes s.count).map Prod.fst = .ok (s.values wrap)

/-- What the headers of a stream say, but for the least deltas. -/
structure StreamShape where
  miniBlocks : Nat
  miniSize : Nat
  count : Nat
  widths : List (List Nat)
  deriving DecidableEq

def FormatStream.shape {maxWidth : Nat} (s : FormatStream maxWidth) : StreamShape where
  miniBlocks := s.miniBlocks
  miniSize := s.miniSize
  count := s.count
  widths := s.blocks.map FormatBlock.used

/-- Blocks of 128 values in four mini-blocks, none of them of more than 32 bits and of broken
bytes. -/
def StreamShape.Readable (shape : StreamShape) : Prop :=
  shape.miniBlocks = 4 ∧ shape.miniSize = 32 ∧ ∀ ws ∈ shape.widths, ∀ w ∈ ws, Aligned w

instance (shape : StreamShape) : Decidable shape.Readable :=
  inferInstanceAs (Decidable (_ ∧ _))

theorem FormatStream.readable_iff {maxWidth : Nat} (s : FormatStream maxWidth) :
    s.shape.Readable ↔ s.Standard ∧ ∀ b ∈ s.blocks, ∀ w ∈ b.used, Aligned w := by
  unfold StreamShape.Readable FormatStream.shape FormatStream.Standard
  rw [List.forall_mem_map, and_assoc]

theorem FormatStream.shape_probe {maxWidth : Nat} (s : FormatStream maxWidth) :
    s.probe.shape = s.shape := by
  unfold FormatStream.shape FormatStream.probe
  rw [List.map_map]
  congr 1
  exact List.map_congr_left fun b _ => b.used_probe

theorem readsRight_of_readable {wrap : Int → Int}
    (hwrap : ∀ a d, wrap (a + wrap (toI64 d)) = wrap (a + d)) (s : FormatStream 64)
    (h : s.shape.Readable) : ReadsRight (deltaDecode wrap) wrap s := by
  obtain ⟨hs, hw⟩ := s.readable_iff.mp h
  have hdecode := deltaDecode_stream hwrap s hs hw []
  rw [List.append_nil] at hdecode
  unfold ReadsRight
  rw [hdecode]
  rfl

/-- Another shape is refused. -/
theorem not_readsRight_of_shape {maxWidth : Nat} {wrap : Int → Int} (s : FormatStream maxWidth)
    (h : ¬ s.Standard) : ¬ ReadsRight (deltaDecode wrap) wrap s := by
  intro hreads
  have hinit := (deltaDecoderInit_stream s
    (s.blocks.flatMap (FormatBlock.bytesIn packBits))).2 h
  change deltaDecoderInit s.bytes = _ at hinit
  unfold ReadsRight deltaDecode at hreads
  rw [hinit] at hreads
  cases hreads

theorem prefixSum_injective {sum : Int} {xs ys : List Int} (hx : ∀ x ∈ xs, IsI64 x)
    (hy : ∀ y ∈ ys, IsI64 y) (h : prefixSum toI64 sum xs = prefixSum toI64 sum ys) : xs = ys := by
  induction xs generalizing sum ys with
  | nil =>
    cases ys with
    | nil => rfl
    | cons y ys => cases h
  | cons x xs ih =>
    cases ys with
    | nil => cases h
    | cons y ys =>
      rw [List.forall_mem_cons] at hx hy
      obtain ⟨hhead, htail⟩ := List.cons.inj h
      have hxy : x = y := by
        have hx1 := hx.1
        have hy1 := hy.1
        unfold IsI64 at hx1 hy1
        unfold toI64 at hhead
        omega
      subst hxy
      rw [ih hx.2 hy.2 htail]

theorem toI64_idem (x : Int) : toI64 (toI64 x) = toI64 x :=
  toI64_of_range (isI64_toI64 x).1 (isI64_toI64 x).2

/-- Behind the header, a probe that is not of aligned widths is refused, or read to other values. -/
theorem deltaDecode_probe {data : Bytes} {dec : DeltaDecoder}
    (hinit : deltaDecoderInit data = .ok dec) (hblock : dec.AtBlock)
    (blocks : List (FormatBlock 4 32 64)) (hfull : ∀ b ∈ blocks.dropLast, b.minis.length = 4)
    (hbad : ¬ ∀ b ∈ blocks, ∀ w ∈ b.used, Aligned w)
    (hrest : dec.rest = (blocks.map FormatBlock.probe).flatMap (FormatBlock.bytesIn packBits))
    {count : Nat} (henough : (blocks.map fun b => b.minis.length).sum = (count - 1 + 31) / 32) :
    (deltaDecode toI64 data count).map Prod.fst ≠ .ok (if count = 0 then [] else
      toI64 dec.firstValue :: runningSums toI64 (toI64 dec.firstValue)
        (((blocks.map FormatBlock.probe).flatMap FormatBlock.deltas).take (count - 1))) := by
  intro hreads
  by_cases hcount : count = 0
  · obtain ⟨as, v, tail, more, -, -, hvalues, -⟩ := deltaNext_probe hblock blocks hfull hbad hrest
      (by rw [henough, hcount]) (show deltaNext 0 dec = .ok ([], dec) from rfl)
    exact absurd hvalues (by simp)
  · rw [deltaDecode_of_init hinit hcount, if_neg hcount] at hreads
    cases hnext : deltaNext (count - 1) dec with
    | error e =>
      rw [hnext] at hreads
      cases hreads
    | ok r =>
      obtain ⟨deltas, dec'⟩ := r
      rw [hnext] at hreads
      have hsums := (List.cons.inj (Except.ok.inj hreads)).2
      obtain ⟨as, v, tail, more, hv, hrange, hvalues, htake⟩ :=
        deltaNext_probe hblock blocks hfull hbad hrest henough hnext
      have hunpacked : (blocks.map FormatBlock.probe).flatMap FormatBlock.unpacked =
          ((blocks.map FormatBlock.probe).flatMap FormatBlock.deltas).map toI64 := by
        rw [List.map_flatMap]
        exact List.flatMap_congr fun b _ => b.unpacked_eq
      rw [hunpacked, ← List.map_take] at htake
      rw [← prefixSum_eq_runningSums wrap64_absorbs, htake, hvalues] at hsums
      have hmap : ∀ xs : List Int, ∀ x ∈ xs.map toI64, IsI64 x := by
        intro xs x hx
        obtain ⟨y, -, rfl⟩ := List.mem_map.mp hx
        exact isI64_toI64 y
      have heq := prefixSum_injective (hmap _) (hmap _) hsums
      rw [List.map_append, List.map_append, List.map_cons, List.map_cons] at heq
      have hhead := (List.cons.inj (List.append_cancel_left heq)).1
      rw [toI64_of_range hrange.1 hrange.2] at hhead
      exact hv hhead

/-- The probe is refused, or read to other values. -/
theorem not_readsRight_probe (s : FormatStream 64) (hs : s.Standard)
    (hbad : ¬ ∀ b ∈ s.blocks, ∀ w ∈ b.used, Aligned w) :
    ¬ ReadsRight deltaDecodeInt64 toI64 s.probe := by
  have hinit := (deltaDecoderInit_stream s.probe
    (s.probe.blocks.flatMap (FormatBlock.bytesIn packBits))).1 hs
  change ∃ dec, deltaDecoderInit s.probe.bytes = _ ∧ _ at hinit
  obtain ⟨dec, hinit, hblock, hfirst, hrest⟩ := hinit
  obtain ⟨miniBlocks, miniSize, count, first, _, _, _, _, blocks, _, _, _, _, _, _, hfull,
    henough⟩ := s
  obtain ⟨rfl, rfl⟩ := hs
  have hwrong := deltaDecode_probe hinit hblock blocks hfull hbad hrest henough
  rw [hfirst] at hwrong
  exact hwrong

/-- **A shape of INT64 streams** is read right when it is readable, and on no wider condition. -/
theorem readsRight_shape_iff (s : FormatStream 64) :
    (∀ s' : FormatStream 64, s'.shape = s.shape → ReadsRight deltaDecodeInt64 toI64 s') ↔
      s.shape.Readable := by
  constructor
  · intro h
    have hs : s.Standard := by
      by_contra hs
      exact not_readsRight_of_shape s hs (h s rfl)
    rw [s.readable_iff]
    refine ⟨hs, ?_⟩
    by_contra hbad
    exact not_readsRight_probe s hs hbad (h s.probe s.shape_probe)
  · intro h s' hshape
    exact readsRight_of_readable wrap64_absorbs s' (hshape ▸ h)

/-! ## Streams of INT32 -/

/-- The same block, of widths up to 64 bits. -/
def FormatBlock.widen {miniBlocks size : Nat} (b : FormatBlock miniBlocks size 32) :
    FormatBlock miniBlocks size 64 :=
  { b with fits := fun wp h => ⟨Nat.le_trans (b.fits wp h).1 (by decide), (b.fits wp h).2⟩ }

/-- The same stream, of widths up to 64 bits. -/
def FormatStream.widen (s : FormatStream 32) : FormatStream 64 :=
  { s with
    blocks := s.blocks.map FormatBlock.widen
    full := by
      intro b hb
      rw [← List.map_dropLast] at hb
      obtain ⟨b', hb', rfl⟩ := List.mem_map.mp hb
      exact s.full b' hb'
    enough := by
      rw [List.map_map]
      exact s.enough }

theorem FormatStream.widen_eq (s : FormatStream 32) :
    s.widen.bytes = s.bytes ∧ ∀ wrap, s.widen.values wrap = s.values wrap := by
  unfold FormatStream.bytes FormatStream.values FormatStream.widen
  dsimp only
  rw [List.flatMap_map, List.flatMap_map]
  exact ⟨rfl, fun _ => rfl⟩

/-- **An INT32 stream** is read right when it has the shape, whatever its widths. -/
theorem readsRight_int32_iff (s : FormatStream 32) :
    ReadsRight deltaDecodeInt32 toI32 s ↔ s.Standard := by
  constructor
  · intro h
    by_contra hs
    exact not_readsRight_of_shape s hs h
  · intro hs
    have hreadable : s.widen.shape.Readable := by
      rw [s.widen.readable_iff]
      refine ⟨hs, fun b hb w hw => ?_⟩
      obtain ⟨b', -, rfl⟩ := List.mem_map.mp hb
      exact .inl (b'.used_le w hw)
    have hreads := readsRight_of_readable wrap32_absorbs s.widen hreadable
    unfold ReadsRight at hreads
    rw [s.widen_eq.1, s.widen_eq.2] at hreads
    exact hreads

end Carquet
