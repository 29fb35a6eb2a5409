import Carquet.Encoding.DeltaReads
import Carquet.Encoding.DeltaCapacity

/-!
# DELTA_BINARY_PACKED: how far the codec is the format

`deltaEncode_bytes`: the encoder writes a header and one block for every 128 deltas. Each block is
one of the format, but for its mini-blocks of more than 32 bits, where each value has whole bytes
(delta.c:441-458). So the stream is one of the format when no such width is broken
(`deltaConforms_iff`); `deltaCodec_right_iff` adds what the decoder makes of the streams of others.
-/

namespace Carquet

open LittleEndian Leb128 BitPacking Chunks

/-! ## The blocks of a list -/

/-- The deltas of a list of values. -/
def deltasOf : List Int → List Int
  | [] => []
  | first :: rest => deltasFrom first rest

/-- The deltas, in blocks of 128. -/
def deltaChunks (deltas : List Int) : List (List Int) :=
  splitChunks 128 ((deltas.length + 127) / 128) deltas

theorem deltaChunks_short {deltas : List Int} (h0 : deltas ≠ []) (h : deltas.length ≤ 128) :
    deltaChunks deltas = [deltas] := by
  have hpos := List.length_pos_of_ne_nil h0
  rw [deltaChunks, show (deltas.length + 127) / 128 = 1 by omega, splitChunks, splitChunks,
    List.take_of_length_le h]

theorem deltaChunks_append {block : List Int} (h : block.length = 128) (deltas : List Int) :
    deltaChunks (block ++ deltas) = block :: deltaChunks deltas := by
  rw [deltaChunks, List.length_append, h,
    show (128 + deltas.length + 127) / 128 = (deltas.length + 127) / 128 + 1 by omega, splitChunks,
    List.take_left' h, List.drop_left' h]
  rfl

/-- The least delta of a block (delta.c:372-377). -/
def leastDelta : List Int → Int
  | [] => 0
  | d :: ds => ds.foldl min d

/-- A block as it is written. -/
def encodedBlock (deltas : List Int) : Bytes := deltaBlock (leastDelta deltas) deltas

/-- The blocks of a list of deltas, as they are written. -/
def encodedBlocks (deltas : List Int) : Bytes := (deltaChunks deltas).flatMap encodedBlock

/-- The widths of the mini-blocks of an encoded list. -/
def encodedWidths (values : List Int) : List Nat :=
  (deltaChunks (deltasOf values)).flatMap fun ds => deltaWidths (leastDelta ds) deltaMiniBlocks ds

theorem encodedBlocks_nil : encodedBlocks [] = [] := rfl

theorem encodedBlocks_append {block : List Int} (h : block.length = 128) (deltas : List Int) :
    encodedBlocks (block ++ deltas) = encodedBlock block ++ encodedBlocks deltas := by
  rw [encodedBlocks, deltaChunks_append h, List.flatMap_cons]
  rfl

theorem deltaFlushBlock_bytes {enc enc' : DeltaEncoder} (h : deltaFlushBlock enc = .ok enc')
    (hlen : enc.deltas.length ≤ 128) :
    enc'.out = enc.out ++ encodedBlocks enc.deltas ∧ enc'.deltas = [] ∧
      enc'.lastValue = enc.lastValue := by
  unfold deltaFlushBlock at h
  split at h
  · rename_i hnil
    cases h
    rw [hnil, encodedBlocks_nil, List.append_nil]
    exact ⟨rfl, rfl, rfl⟩
  · rename_i d ds hdeltas
    dsimp only at h
    split at h
    · cases h
    · cases h
      have hne : enc.deltas ≠ [] := by
        rw [hdeltas]
        exact List.cons_ne_nil _ _
      refine ⟨?_, rfl, rfl⟩
      rw [encodedBlocks, deltaChunks_short hne hlen, List.flatMap_cons, List.flatMap_nil,
        List.append_nil, encodedBlock, hdeltas]
      rfl

/-- A value adds its delta to the blocks that are written in the end. -/
theorem deltaPutOne_bytes {enc enc' : DeltaEncoder} {v : Int} (h : deltaPutOne enc v = .ok enc')
    (hlen : enc.deltas.length < 128) (more : List Int) :
    enc'.out ++ encodedBlocks (enc'.deltas ++ more) =
        enc.out ++ encodedBlocks (enc.deltas ++ toI64 (v - enc.lastValue) :: more) ∧
      enc'.deltas.length < 128 ∧ enc'.lastValue = v := by
  unfold deltaPutOne at h
  dsimp only at h
  have hshift : enc.deltas ++ toI64 (v - enc.lastValue) :: more =
      (enc.deltas ++ [toI64 (v - enc.lastValue)]) ++ more := by
    rw [List.append_assoc]
    rfl
  split at h
  next hfull =>
    obtain ⟨hout, hnil, hlast⟩ := deltaFlushBlock_bytes h (Nat.le_of_eq hfull)
    have hone := encodedBlocks_append hfull []
    rw [List.append_nil, encodedBlocks_nil, List.append_nil] at hone
    rw [hshift, encodedBlocks_append hfull, hout, hnil, List.nil_append]
    dsimp only
    rw [hone, List.append_assoc]
    exact ⟨rfl, Nat.zero_lt_succ _, hlast⟩
  next hfull =>
    cases h
    rw [hshift]
    refine ⟨rfl, ?_, rfl⟩
    rw [List.length_append, List.length_singleton] at hfull ⊢
    unfold deltaBlockSize at hfull
    omega

theorem deltaPut_bytes {vs : List Int} {enc enc' : DeltaEncoder} (h : deltaPut enc vs = .ok enc')
    (hlen : enc.deltas.length < 128) :
    enc'.out ++ encodedBlocks enc'.deltas =
        enc.out ++ encodedBlocks (enc.deltas ++ deltasFrom enc.lastValue vs) ∧
      enc'.deltas.length < 128 := by
  induction vs generalizing enc with
  | nil =>
    cases h
    rw [deltasFrom, List.append_nil]
    exact ⟨rfl, hlen⟩
  | cons v vs ih =>
    obtain ⟨enc₁, hone, hrest⟩ := bind_eq_ok.mp h
    obtain ⟨hbytes, hlen₁, hlast⟩ := deltaPutOne_bytes hone hlen (deltasFrom v vs)
    obtain ⟨hbytes', hlen'⟩ := ih hrest hlen₁
    rw [hlast] at hbytes'
    exact ⟨hbytes'.trans hbytes, hlen'⟩

/-- **What the encoder writes**: a header and the blocks. -/
theorem deltaEncode_bytes {values : List Int} {capacity : Nat} {bytes : Bytes}
    (h : deltaEncode values capacity = .ok bytes) :
    bytes = deltaHeader values.length (values.headD 0) ++ encodedBlocks (deltasOf values) := by
  unfold deltaEncode at h
  split at h
  · cases h
  · split at h
    · cases h
      rfl
    · rename_i first rest
      obtain ⟨enc₁, hput, h⟩ := bind_eq_ok.mp h
      obtain ⟨enc₂, hflush, h⟩ := bind_eq_ok.mp h
      cases h
      obtain ⟨hbytes, hlen⟩ := deltaPut_bytes hput (Nat.zero_lt_succ _)
      obtain ⟨hout, -, -⟩ := deltaFlushBlock_bytes hflush (Nat.le_of_lt hlen)
      exact hout.trans hbytes

/-! ## A block of the format for every block -/

/-- The mini-blocks of a block. -/
theorem deltaWidths_eq_map (minDelta : Int) (n : Nat) (deltas : List Int) :
    deltaWidths minDelta n deltas = (splitChunks 32 n deltas).map fun c =>
      bitWidthRequired (maxNat (deltaAdjusted minDelta c)) := by
  induction n generalizing deltas with
  | zero => rfl
  | succ n ih =>
    rw [deltaWidths, ih]
    rfl

theorem deltaPackMinis_eq_flatMap (minDelta : Int) (n : Nat) (deltas : List Int) :
    deltaPackMinis minDelta n deltas = (splitChunks 32 n deltas).flatMap fun c =>
      deltaPackMini (bitWidthRequired (maxNat (deltaAdjusted minDelta c)))
        (deltaAdjusted minDelta c) := by
  induction n generalizing deltas with
  | zero => rfl
  | succ n ih =>
    rw [deltaPackMinis, ih]
    rfl

/-- The mini-blocks a block needs, and the empty ones. -/
theorem splitChunks_needed {deltas : List Int} (hlen : deltas.length ≤ 128) :
    splitChunks 32 4 deltas = splitChunks 32 ((deltas.length + 31) / 32) deltas ++
      List.replicate (4 - (deltas.length + 31) / 32) [] := by
  have hnil : ∀ n, splitChunks 32 n ([] : List Int) = List.replicate n [] := by
    intro n
    induction n with
    | zero => rfl
    | succ n ih => rw [splitChunks, List.take_nil, List.drop_nil, ih, List.replicate_succ]
  have hcut : ∀ (m n : Nat) (ds : List Int), ds.length ≤ 32 * m →
      splitChunks 32 (m + n) ds = splitChunks 32 m ds ++ List.replicate n [] := by
    intro m
    induction m with
    | zero =>
      intro n ds hds
      rw [List.eq_nil_of_length_eq_zero (Nat.le_zero.mp hds), Nat.zero_add, hnil]
      rfl
    | succ m ih =>
      intro n ds hds
      rw [Nat.add_right_comm, splitChunks, splitChunks,
        ih n (ds.drop 32) (by rw [List.length_drop]; omega), List.cons_append]
  have h4 := hcut ((deltas.length + 31) / 32) (4 - (deltas.length + 31) / 32) deltas (by omega)
  rwa [show (deltas.length + 31) / 32 + (4 - (deltas.length + 31) / 32) = 4 by omega] at h4

/-- A mini-block, filled up with zeros. -/
def paddedMini (minDelta : Int) (deltas : List Int) : List Nat :=
  deltaAdjusted minDelta deltas ++ List.replicate (32 - deltas.length) 0

theorem length_paddedMini {minDelta : Int} {deltas : List Int} (h : deltas.length ≤ 32) :
    (paddedMini minDelta deltas).length = 32 := by
  rw [paddedMini, List.length_append, deltaAdjusted, List.length_map, List.length_replicate]
  omega

theorem deltaPackMini_padded {w : Nat} {minDelta : Int} {deltas : List Int}
    (h : deltas.length ≤ 32) :
    deltaPackMini w (paddedMini minDelta deltas) =
      deltaPackMini w (deltaAdjusted minDelta deltas) := by
  unfold deltaPackMini
  rw [length_paddedMini h, show deltaMiniBlockSize - 32 = 0 from rfl, List.replicate_zero,
    List.append_nil, paddedMini, deltaAdjusted, List.length_map]
  rfl

theorem paddedMini_lt {minDelta : Int} {deltas : List Int} :
    ∀ v ∈ paddedMini minDelta deltas,
      v < 2 ^ bitWidthRequired (maxNat (deltaAdjusted minDelta deltas)) := by
  intro v hv
  rcases List.mem_append.mp hv with hv | hv
  · exact Nat.lt_of_le_of_lt (le_maxNat hv) (lt_two_pow_bitWidthRequired _)
  · rw [List.eq_of_mem_replicate hv]
    exact Nat.two_pow_pos _

/-- The padding is at the end. -/
theorem paddedMinis_flatten (minDelta : Int) (n : Nat) (deltas : List Int)
    (h : deltas.length ≤ 32 * n) :
    ((splitChunks 32 n deltas).map (paddedMini minDelta)).flatten =
      deltaAdjusted minDelta deltas ++ List.replicate (32 * n - deltas.length) 0 := by
  induction n generalizing deltas with
  | zero =>
    rw [List.eq_nil_of_length_eq_zero (Nat.le_zero.mp h)]
    rfl
  | succ n ih =>
    rw [splitChunks, List.map_cons, List.flatten_cons, ih _ (by rw [List.length_drop]; omega),
      List.length_drop, paddedMini]
    by_cases hlong : 32 ≤ deltas.length
    · have hadjusted : deltaAdjusted minDelta (deltas.take 32) ++
          deltaAdjusted minDelta (deltas.drop 32) = deltaAdjusted minDelta deltas := by
        rw [deltaAdjusted, deltaAdjusted, ← List.map_append, List.take_append_drop]
        rfl
      rw [List.length_take, Nat.min_eq_left hlong, Nat.sub_self, List.replicate_zero,
        List.append_nil, ← List.append_assoc, hadjusted]
      congr 2
      omega
    · rw [List.take_of_length_le (by omega), List.drop_of_length_le (by omega), List.append_assoc]
      congr 1
      rw [deltaAdjusted, List.map_nil, List.nil_append, List.replicate_append_replicate]
      congr 1
      omega

theorem length_le_of_mem_splitChunks {n : Nat} {deltas c : List Int}
    (h : c ∈ splitChunks 32 n deltas) : c.length ≤ 32 := by
  rw [splitChunks_eq_map] at h
  obtain ⟨i, -, rfl⟩ := List.mem_map.mp h
  rw [List.length_take]
  exact Nat.min_le_left ..

theorem isI64_leastDelta {deltas : List Int} (h : ∀ d ∈ deltas, IsI64 d) :
    IsI64 (leastDelta deltas) := by
  cases deltas with
  | nil => exact ⟨by decide, by decide⟩
  | cons d ds => exact h _ (foldl_min_mem d ds)

theorem leastDelta_le {deltas : List Int} : ∀ d ∈ deltas, leastDelta deltas ≤ d := by
  cases deltas with
  | nil => exact fun d h => absurd h List.not_mem_nil
  | cons d ds => exact foldl_min_le d ds

/-- The width of a mini-block. -/
def miniWidth (minDelta : Int) (deltas : List Int) : Nat :=
  bitWidthRequired (maxNat (deltaAdjusted minDelta deltas))

theorem miniWidth_le (minDelta : Int) (deltas : List Int) : miniWidth minDelta deltas ≤ 64 := by
  refine bitWidthRequired_le (maxNat_lt (by decide) fun v hv => ?_)
  obtain ⟨d, -, rfl⟩ := List.mem_map.mp hv
  unfold toU64
  omega

theorem toNat_miniWidth (minDelta : Int) (deltas : List Int) :
    (UInt8.ofNat (miniWidth minDelta deltas)).toNat = miniWidth minDelta deltas := by
  have := miniWidth_le minDelta deltas
  rw [UInt8.toNat_ofNat']
  omega

/-- The mini-blocks a block needs, each with its width. -/
theorem zip_widths_minis (minDelta : Int) {deltas : List Int} (hlen : deltas.length ≤ 128) :
    ((deltaWidths minDelta 4 deltas).map UInt8.ofNat).zip
        ((splitChunks 32 ((deltas.length + 31) / 32) deltas).map (paddedMini minDelta)) =
      (splitChunks 32 ((deltas.length + 31) / 32) deltas).map fun c =>
        (UInt8.ofNat (miniWidth minDelta c), paddedMini minDelta c) := by
  rw [deltaWidths_eq_map, splitChunks_needed hlen, List.map_append, List.map_append, List.map_map,
    ← List.append_nil (List.map (paddedMini minDelta) _),
    List.zip_append (by rw [List.length_map, List.length_map]), List.zip_nil_right,
    List.append_nil, List.zip_map']
  rfl

/-- The block of the format with the header of an encoded one. -/
def FormatBlock.ofDeltas (deltas : List Int) (h0 : deltas ≠ []) (hlen : deltas.length ≤ 128)
    (hrange : ∀ d ∈ deltas, IsI64 d) : FormatBlock 4 32 64 where
  minDelta := leastDelta deltas
  minDelta_isI64 := isI64_leastDelta hrange
  minDeltaBytes :=
    { bytes := writeUleb128 (zigzagEncode64 (leastDelta deltas))
      numeral := numeral_writeUleb (Nat.lt_of_lt_of_le
        (zigzag_lt (isI64_leastDelta hrange)) (by decide))
      length_le := length_writeUleb 9 _ }
  widths := (deltaWidths (leastDelta deltas) 4 deltas).map UInt8.ofNat
  minis := (splitChunks 32 ((deltas.length + 31) / 32) deltas).map
    (paddedMini (leastDelta deltas))
  length_widths := by rw [List.length_map, length_deltaWidths]
  length_minis := by
    rw [List.length_map, length_splitChunks]
    omega
  minis_ne_nil := by
    have hpos := List.length_pos_of_ne_nil h0
    rw [ne_eq, ← List.length_eq_zero_iff, List.length_map, length_splitChunks]
    omega
  length_mini := by
    intro p hp
    obtain ⟨c, hc, rfl⟩ := List.mem_map.mp hp
    exact length_paddedMini (length_le_of_mem_splitChunks hc)
  fits := by
    intro wp hwp
    rw [zip_widths_minis _ hlen] at hwp
    obtain ⟨c, -, rfl⟩ := List.mem_map.mp hwp
    dsimp only
    rw [toNat_miniWidth]
    exact ⟨miniWidth_le _ _, paddedMini_lt⟩

section OfDeltas

variable {deltas : List Int} (h0 : deltas ≠ []) (hlen : deltas.length ≤ 128)
  (hrange : ∀ d ∈ deltas, IsI64 d)

theorem FormatBlock.length_ofDeltas :
    (FormatBlock.ofDeltas deltas h0 hlen hrange).minis.length = (deltas.length + 31) / 32 := by
  show ((splitChunks 32 _ deltas).map _).length = _
  rw [List.length_map, length_splitChunks]

theorem toU64_distance {d minDelta : Int} (hd : IsI64 d) (hmin : IsI64 minDelta)
    (hle : minDelta ≤ d) : minDelta + (toU64 (d - minDelta) : Nat) = d := by
  unfold IsI64 at hd hmin
  unfold toU64
  omega

/-- The deltas, and the least one as often as there is padding. -/
theorem FormatBlock.deltas_ofDeltas :
    (FormatBlock.ofDeltas deltas h0 hlen hrange).deltas = deltas ++
      List.replicate (32 * ((deltas.length + 31) / 32) - deltas.length) (leastDelta deltas) := by
  show (((splitChunks 32 _ deltas).map (paddedMini (leastDelta deltas))).flatten.map
    fun u : Nat => leastDelta deltas + u) = _
  rw [paddedMinis_flatten _ _ _ (by omega), List.map_append, List.map_replicate, deltaAdjusted,
    List.map_map, Nat.cast_zero, Int.add_zero]
  congr 1
  conv_rhs => rw [← List.map_id deltas]
  exact List.map_congr_left fun d hd =>
    toU64_distance (hrange d hd) (isI64_leastDelta hrange) (leastDelta_le d hd)

/-- Laid out as the code does, it is the block that is written. -/
theorem FormatBlock.bytesIn_ofDeltas :
    (FormatBlock.ofDeltas deltas h0 hlen hrange).bytesIn deltaPackMini = encodedBlock deltas := by
  show _ ++ _ ++ (List.zipWith (fun w p => deltaPackMini (UInt8.toNat w) p)
    ((deltaWidths (leastDelta deltas) 4 deltas).map UInt8.ofNat)
    ((splitChunks 32 _ deltas).map (paddedMini (leastDelta deltas)))).flatten = _
  rw [← List.map_uncurry_zip_eq_zipWith, zip_widths_minis _ hlen, List.map_map, encodedBlock,
    deltaBlock, deltaPackMinis_eq_flatMap, ← List.flatMap_def]
  congr 1
  have hempty : (List.replicate (4 - (deltas.length + 31) / 32) []).flatMap (fun c =>
      deltaPackMini (bitWidthRequired (maxNat (deltaAdjusted (leastDelta deltas) c)))
        (deltaAdjusted (leastDelta deltas) c)) = [] := by
    refine List.flatMap_eq_nil_iff.mpr fun c hc => ?_
    rw [List.eq_of_mem_replicate hc]
    rfl
  unfold deltaMiniBlocks
  rw [splitChunks_needed hlen, List.flatMap_append, hempty, List.append_nil]
  refine List.flatMap_congr fun c hc => ?_
  show deltaPackMini (UInt8.ofNat (miniWidth (leastDelta deltas) c)).toNat _ = _
  rw [toNat_miniWidth, deltaPackMini_padded (length_le_of_mem_splitChunks hc)]
  rfl

/-- The widths of the mini-blocks that are there are among those that are written. -/
theorem FormatBlock.used_ofDeltas : ∀ w ∈ (FormatBlock.ofDeltas deltas h0 hlen hrange).used,
    w ∈ deltaWidths (leastDelta deltas) deltaMiniBlocks deltas := by
  intro w hw
  change w ∈ (((deltaWidths (leastDelta deltas) 4 deltas).map UInt8.ofNat).zip
    ((splitChunks 32 _ deltas).map (paddedMini (leastDelta deltas)))).map _ at hw
  rw [zip_widths_minis _ hlen, List.map_map] at hw
  obtain ⟨c, hc, rfl⟩ := List.mem_map.mp hw
  unfold deltaMiniBlocks
  rw [deltaWidths_eq_map, splitChunks_needed hlen, List.map_append]
  refine List.mem_append_left _ (List.mem_map.mpr ⟨c, hc, ?_⟩)
  exact (toNat_miniWidth (leastDelta deltas) c).symm

end OfDeltas

/-! ## Conformance -/

/-- What stands before the mini-blocks of a block. -/
def FormatBlock.header {miniBlocks size maxWidth : Nat}
    (b : FormatBlock miniBlocks size maxWidth) : Bytes :=
  b.minDeltaBytes.bytes ++ b.widths

/-- The header of an encoded block (delta.c:414-419). -/
def encodedBlockHeader (deltas : List Int) : Bytes :=
  writeUleb128 (zigzagEncode64 (leastDelta deltas)) ++
    (deltaWidths (leastDelta deltas) deltaMiniBlocks deltas).map UInt8.ofNat

/-- The bytes are a stream of the format that means the values: it has the headers the encoder
writes, and mini-blocks of exactly the widths these say. -/
def DeltaConforms (values : List Int) (bytes : Bytes) : Prop :=
  ∃ s : FormatStream 64, s.Standard ∧ s.bytes = bytes ∧ s.count = values.length ∧
    s.values toI64 = values ∧ s.header = deltaHeader values.length (values.headD 0) ∧
    s.blocks.map FormatBlock.header = (deltaChunks (deltasOf values)).map encodedBlockHeader

/-- The blocks of the format for a list of deltas. -/
theorem exists_formatBlocks (deltas : List Int) (hrange : ∀ d ∈ deltas, IsI64 d) :
    ∃ blocks : List (FormatBlock 4 32 64),
      blocks.map FormatBlock.header = (deltaChunks deltas).map encodedBlockHeader ∧
      (∀ b ∈ blocks.dropLast, b.minis.length = 4) ∧
      (blocks.map fun b => b.minis.length).sum = (deltas.length + 31) / 32 ∧
      (blocks.flatMap FormatBlock.deltas).take deltas.length = deltas ∧
      blocks.flatMap (FormatBlock.bytesIn deltaPackMini) = encodedBlocks deltas ∧
      ∀ b ∈ blocks, ∀ w ∈ b.used, w ∈ (deltaChunks deltas).flatMap fun ds =>
        deltaWidths (leastDelta ds) deltaMiniBlocks ds := by
  induction hn : deltas.length using Nat.strongRecOn generalizing deltas with
  | ind n ih =>
    subst hn
    by_cases h0 : deltas = []
    · subst h0
      exact ⟨[], rfl, by simp, rfl, rfl, rfl, by simp⟩
    · by_cases hlen : deltas.length ≤ 128
      · -- the last block
        refine ⟨[FormatBlock.ofDeltas deltas h0 hlen hrange], ?_, by simp, ?_, ?_, ?_, ?_⟩
        · rw [deltaChunks_short h0 hlen]
          rfl
        · rw [List.map_singleton, List.sum_singleton, FormatBlock.length_ofDeltas]
        · rw [List.flatMap_singleton, FormatBlock.deltas_ofDeltas, List.take_left]
        · rw [List.flatMap_singleton, FormatBlock.bytesIn_ofDeltas, encodedBlocks,
            deltaChunks_short h0 hlen, List.flatMap_singleton]
        · rw [deltaChunks_short h0 hlen, List.flatMap_singleton, List.forall_mem_singleton]
          exact FormatBlock.used_ofDeltas h0 hlen hrange
      · -- a whole block, and others
        have hone : (deltas.take 128).length = 128 := by
          rw [List.length_take]
          omega
        have hne : deltas.take 128 ≠ [] := by
          rw [ne_eq, ← List.length_eq_zero_iff, hone]
          decide
        have hsplit : deltas = deltas.take 128 ++ deltas.drop 128 :=
          (List.take_append_drop 128 deltas).symm
        have hrange₁ : ∀ d ∈ deltas.take 128, IsI64 d :=
          fun d hd => hrange d (List.mem_of_mem_take hd)
        obtain ⟨blocks, hheaders, hfull, hsum, hdeltas, hbytes, hused⟩ :=
          ih (deltas.drop 128).length (by rw [List.length_drop]; omega) (deltas.drop 128)
            (fun d hd => hrange d (List.mem_of_mem_drop hd)) rfl
        have hle := Nat.le_of_eq hone
        have hblock : (FormatBlock.ofDeltas _ hne hle hrange₁).deltas = deltas.take 128 := by
          rw [FormatBlock.deltas_ofDeltas, hone, show 32 * ((128 + 31) / 32) - 128 = 0 from rfl,
            List.replicate_zero, List.append_nil]
        have hminis : (FormatBlock.ofDeltas _ hne hle hrange₁).minis.length = 4 := by
          rw [FormatBlock.length_ofDeltas, hone]
        have hchunks : deltaChunks deltas = deltas.take 128 :: deltaChunks (deltas.drop 128) := by
          conv_lhs => rw [hsplit]
          exact deltaChunks_append hone _
        refine ⟨FormatBlock.ofDeltas _ hne hle hrange₁ :: blocks, ?_, ?_, ?_, ?_, ?_, ?_⟩
        · rw [hchunks, List.map_cons, List.map_cons, hheaders]
          rfl
        · cases blocks with
          | nil => simp
          | cons b bs =>
            rw [List.dropLast_cons_cons, List.forall_mem_cons]
            exact ⟨hminis, hfull⟩
        · rw [List.map_cons, List.sum_cons, hminis, hsum, List.length_drop]
          omega
        · rw [List.flatMap_cons, hblock]
          conv_lhs => rw [show deltas.length = (deltas.take 128).length +
            (deltas.drop 128).length by rw [hone, List.length_drop]; omega]
          rw [List.take_length_add_append, hdeltas, ← hsplit]
        · rw [List.flatMap_cons, FormatBlock.bytesIn_ofDeltas, hbytes, ← encodedBlocks_append hone,
            ← hsplit]
        · rw [hchunks, List.flatMap_cons, List.forall_mem_cons]
          exact ⟨fun w hw => List.mem_append_left _ (FormatBlock.used_ofDeltas _ _ _ w hw),
            fun b hb w hw => List.mem_append_right _ (hused b hb w hw)⟩

theorem isI64_deltasFrom (last : Int) (vs : List Int) : ∀ d ∈ deltasFrom last vs, IsI64 d := by
  induction vs generalizing last with
  | nil => exact fun d hd => absurd hd List.not_mem_nil
  | cons v vs ih => exact List.forall_mem_cons.mpr ⟨isI64_toI64 _, ih v⟩

theorem isI64_deltasOf (values : List Int) : ∀ d ∈ deltasOf values, IsI64 d := by
  cases values with
  | nil => exact fun d hd => absurd hd List.not_mem_nil
  | cons first rest => exact isI64_deltasFrom first rest

theorem length_deltasOf (values : List Int) : (deltasOf values).length = values.length - 1 := by
  cases values with
  | nil => rfl
  | cons first rest => exact length_deltasFrom first rest

theorem runningSums_deltasFrom {last : Int} {vs : List Int} (hvs : ∀ v ∈ vs, IsI64 v) :
    runningSums toI64 last (deltasFrom last vs) = vs := by
  induction vs generalizing last with
  | nil => rfl
  | cons v vs ih =>
    obtain ⟨hv, hvs⟩ := List.forall_mem_cons.mp hvs
    have hadd : toI64 (last + toI64 (v - last)) = v := by
      unfold IsI64 at hv
      unfold toI64
      omega
    rw [deltasFrom, runningSums, hadd, ih hvs]


/-- Mini-blocks of aligned widths are laid out as the format says. -/
theorem deltaConforms_of_aligned {values : List Int} (hlen : values.length < 2147483648)
    (hrange : ∀ v ∈ values, IsI64 v) (hw : ∀ w ∈ encodedWidths values, Aligned w) :
    DeltaConforms values
      (deltaHeader values.length (values.headD 0) ++ encodedBlocks (deltasOf values)) := by
  obtain ⟨blocks, hheaders, hfull, hsum, hdeltas, hbytes, hused⟩ :=
    exists_formatBlocks (deltasOf values) (isI64_deltasOf values)
  rw [length_deltasOf] at hsum hdeltas
  have hfirst : IsI64 (values.headD 0) := by
    cases values with
    | nil => exact ⟨by decide, by decide⟩
    | cons first rest => exact hrange first (List.mem_cons_self ..)
  have hvarint : ∀ {v : Nat}, v < 18446744073709551616 → Numeral (writeUleb128 v) v :=
    fun h => numeral_writeUleb (Nat.lt_of_lt_of_le h (by decide))
  refine ⟨{
    miniBlocks := 4, miniSize := 32, count := values.length, first := values.headD 0
    blockSizeBytes := ⟨writeUleb128 128, hvarint (by decide), length_writeUleb 9 _⟩
    miniBlocksBytes := ⟨writeUleb128 4, hvarint (by decide), length_writeUleb 9 _⟩
    countBytes := ⟨writeUleb128 values.length, hvarint (by omega), length_writeUleb 9 _⟩
    firstBytes := ⟨writeUleb128 (zigzagEncode64 (values.headD 0)), hvarint (zigzag_lt hfirst),
      length_writeUleb 9 _⟩
    blocks := blocks
    blockSize_pos := by decide
    blockSize_lt := by decide
    blockSize_dvd := by decide
    miniSize_dvd := by decide
    count_lt := hlen
    first_isI64 := hfirst
    full := hfull
    enough := hsum }, ⟨rfl, rfl⟩, ?_, rfl, ?_, rfl, hheaders⟩
  · refine congrArg (deltaHeader values.length (values.headD 0) ++ ·) ?_
    rw [← hbytes]
    refine List.flatMap_congr fun b hb => b.bytesIn_aligned fun w hmem => ?_
    exact hw w (hused b hb w hmem)
  · unfold FormatStream.values
    dsimp only
    rw [hdeltas]
    cases values with
    | nil => rfl
    | cons first rest =>
      have hone := hrange first (List.mem_cons_self ..)
      rw [if_neg (by simp), List.headD_cons, toI64_of_range hone.1 hone.2, deltasOf,
        runningSums_deltasFrom fun v hv => hrange v (List.mem_cons_of_mem _ hv)]

/-! ## Broken bytes take more room -/

/-- The layout of the code is never shorter, and as short only for aligned widths. -/
theorem deltaMiniBytes_ge (w : Nat) :
    4 * w ≤ deltaMiniBytes w ∧ (deltaMiniBytes w = 4 * w → Aligned w) := by
  unfold deltaMiniBytes deltaMiniBlockSize Aligned
  split
  · omega
  · split <;> omega

theorem sum_deltaMiniBytes_ge (ws : List Nat) :
    (ws.map (4 * ·)).sum ≤ (ws.map deltaMiniBytes).sum ∧
      ((ws.map deltaMiniBytes).sum = (ws.map (4 * ·)).sum → ∀ w ∈ ws, Aligned w) := by
  induction ws with
  | nil => exact ⟨Nat.le_refl _, fun _ w hw => absurd hw List.not_mem_nil⟩
  | cons w ws ih =>
    obtain ⟨hle, halign⟩ := deltaMiniBytes_ge w
    obtain ⟨hles, haligns⟩ := ih
    simp only [List.map_cons, List.sum_cons, List.forall_mem_cons]
    exact ⟨by omega, fun h => ⟨halign (by omega), haligns (by omega)⟩⟩

theorem length_minis_le {widths : Bytes} {minis : List (List Nat)}
    (h : ∀ p ∈ minis, p.length = 32) :
    (List.zipWith (fun w p => packBits (UInt8.toNat w) p) widths minis).flatten.length ≤
      (widths.map fun w => 4 * w.toNat).sum := by
  induction widths generalizing minis with
  | nil => exact Nat.le_refl _
  | cons w ws ih =>
    cases minis with
    | nil => exact Nat.zero_le _
    | cons p ps =>
      obtain ⟨hone, hmany⟩ := List.forall_mem_cons.mp h
      have hrest := ih hmany
      rw [List.zipWith_cons_cons, List.flatten_cons, List.length_append, length_packBits, hone,
        List.map_cons, List.sum_cons]
      omega

/-- A block of the format under the header of an encoded one. -/
theorem length_bytesIn_le {b : FormatBlock 4 32 64} {deltas : List Int}
    (h : b.header = encodedBlockHeader deltas) :
    (b.bytesIn packBits).length ≤ (encodedBlock deltas).length ∧
      ((encodedBlock deltas).length = (b.bytesIn packBits).length →
        ∀ w ∈ deltaWidths (leastDelta deltas) deltaMiniBlocks deltas, Aligned w) := by
  have hwidths : b.widths =
      (deltaWidths (leastDelta deltas) deltaMiniBlocks deltas).map UInt8.ofNat := by
    refine (List.append_inj' h ?_).2
    rw [b.length_widths, List.length_map, length_deltaWidths]
    rfl
  have hsum : (b.widths.map fun w => 4 * w.toNat).sum =
      ((deltaWidths (leastDelta deltas) deltaMiniBlocks deltas).map (4 * ·)).sum := by
    rw [hwidths, List.map_map]
    refine congrArg List.sum (List.map_congr_left fun w hw => ?_)
    have := deltaWidths_lt w hw
    simp only [Function.comp, UInt8.toNat_ofNat']
    omega
  have hminis : (List.zipWith (fun w p => packBits (UInt8.toNat w) p) b.widths b.minis).flatten.length ≤
      (b.widths.map fun w => 4 * w.toNat).sum := length_minis_le b.length_mini
  obtain ⟨hle, halign⟩ := sum_deltaMiniBytes_ge
    (deltaWidths (leastDelta deltas) deltaMiniBlocks deltas)
  have hcode : (encodedBlock deltas).length = b.header.length +
      ((deltaWidths (leastDelta deltas) deltaMiniBlocks deltas).map deltaMiniBytes).sum := by
    rw [h, encodedBlock, deltaBlock, List.length_append, length_deltaPackMinis]
    rfl
  have hformat : (b.bytesIn packBits).length = b.header.length +
      (List.zipWith (fun w p => packBits (UInt8.toNat w) p) b.widths b.minis).flatten.length := by
    rw [FormatBlock.bytesIn, List.length_append]
    rfl
  exact ⟨by omega, fun heq => halign (by omega)⟩

theorem length_blocks_le {blocks : List (FormatBlock 4 32 64)} {chunks : List (List Int)}
    (h : blocks.map FormatBlock.header = chunks.map encodedBlockHeader) :
    (blocks.flatMap (FormatBlock.bytesIn packBits)).length ≤ (chunks.flatMap encodedBlock).length ∧
      ((chunks.flatMap encodedBlock).length =
          (blocks.flatMap (FormatBlock.bytesIn packBits)).length →
        ∀ w ∈ chunks.flatMap fun ds => deltaWidths (leastDelta ds) deltaMiniBlocks ds,
          Aligned w) := by
  induction blocks generalizing chunks with
  | nil =>
    obtain rfl : chunks = [] := List.map_eq_nil_iff.mp h.symm
    exact ⟨Nat.le_refl _, fun _ w hw => absurd hw List.not_mem_nil⟩
  | cons b bs ih =>
    cases chunks with
    | nil => cases h
    | cons c cs =>
      obtain ⟨hhead, htail⟩ := List.cons.inj h
      obtain ⟨hle, halign⟩ := length_bytesIn_le hhead
      obtain ⟨hles, haligns⟩ := ih htail
      simp only [List.flatMap_cons, List.length_append, List.forall_mem_append]
      exact ⟨by omega, fun heq => ⟨halign (by omega), haligns (by omega)⟩⟩

/-- **A list is encoded as the format says** when no mini-block is wide and of broken bytes. -/
theorem deltaConforms_iff {values : List Int} {capacity : Nat} {bytes : Bytes}
    (hlen : values.length < 2147483648) (hrange : ∀ v ∈ values, IsI64 v)
    (h : deltaEncode values capacity = .ok bytes) :
    DeltaConforms values bytes ↔ ∀ w ∈ encodedWidths values, Aligned w := by
  have hbytes := deltaEncode_bytes h
  constructor
  · rintro ⟨s, ⟨h4, h32⟩, hsame, -, -, hheader, hheaders⟩
    rw [hbytes, FormatStream.bytes, hheader] at hsame
    have hblocks := List.append_cancel_left hsame
    obtain ⟨miniBlocks, miniSize, _, _, _, _, _, _, blocks, _, _, _, _, _, _, _, _⟩ := s
    obtain rfl : miniBlocks = 4 := h4
    obtain rfl : miniSize = 32 := h32
    exact (length_blocks_le hheaders).2 (congrArg List.length hblocks.symm)
  · intro hw
    rw [hbytes]
    exact deltaConforms_of_aligned hlen hrange hw

/-! ## The codec -/

/-- **The codec is the format**, on both sides, for widths of up to 32 bits or of whole bytes, and in
blocks of 128 values in four mini-blocks: a list it encodes, an INT64 stream of a shape and an INT32
stream. -/
theorem deltaCodec_right_iff (values : List Int) (s : FormatStream 64) (s' : FormatStream 32) :
    (∀ (capacity : Nat) (bytes : Bytes), values.length < 2147483648 → (∀ v ∈ values, IsI64 v) →
      deltaEncode values capacity = .ok bytes →
        (DeltaConforms values bytes ↔ ∀ w ∈ encodedWidths values, Aligned w)) ∧
    ((∀ t : FormatStream 64, t.shape = s.shape → ReadsRight deltaDecodeInt64 toI64 t) ↔
      s.shape.Readable) ∧
    (ReadsRight deltaDecodeInt32 toI32 s' ↔ s'.shape.Readable) := by
  refine ⟨fun _ _ hlen hrange h => deltaConforms_iff hlen hrange h, readsRight_shape_iff s, ?_⟩
  rw [readsRight_int32_iff, s'.readable_iff]
  exact ⟨fun hs => ⟨hs, fun b _ w hw => .inl (b.used_le w hw)⟩, And.left⟩

/-- A mini-block of 33 bits is written in five bytes a value. -/
theorem deltaCodec_not_right : ∃ bytes, deltaEncode [0, 0, 4294967296] 1000 = .ok bytes ∧
    ¬ DeltaConforms [0, 0, 4294967296] bytes := by
  have hlen : [0, 0, 4294967296].length < 2147483648 := by decide
  have hrange : ∀ v ∈ [0, 0, 4294967296], IsI64 v := by
    unfold IsI64
    decide
  have hwide : ¬ ∀ w ∈ encodedWidths [0, 0, 4294967296], Aligned w := by decide
  obtain ⟨bytes, hbytes⟩ : ∃ bytes, deltaEncode [0, 0, 4294967296] 1000 = .ok bytes :=
    ⟨_, rfl⟩
  exact ⟨bytes, hbytes, fun h => hwide ((deltaConforms_iff hlen hrange hbytes).mp h)⟩

end Carquet
