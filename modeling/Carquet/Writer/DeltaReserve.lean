import Carquet.Encoding.DeltaConformance
import Carquet.Writer.PageValues

/-!
# What the delta branches of a page reserve

`carquet_page_writer_add_values` gives the delta encoders a buffer of its own reckoning: the plain
size, a byte a value and 512 more for integers (page_writer.c:938-941, 981), ten bytes a value and
100 more for lengths (delta_length.c:176, delta_strings.c:369).

`deltaEncode_iff` says what the encoder wants of a buffer (`deltaRoom`). For INT64 the reserve is
always that much (`deltaRoom_int64`), for INT32 it is up to 4865 values (`deltaRoom_int32`): a
distance of two deltas has 33 bits, for which a value takes five bytes and a block of 128 nine more
than the 640 that are reserved for it. `deltaBranch_iff` puts the branches together.
-/

namespace Carquet

open LittleEndian Leb128 Chunks

/-! ## The room of the encoder -/

/-- The mini-blocks of a block, in bytes (delta.c:379-406). -/
def packedBytes (deltas : List Int) : Nat :=
  ((deltaWidths (leastDelta deltas) deltaMiniBlocks deltas).map deltaMiniBytes).sum

/-- A block, in bytes. -/
def blockBytes (deltas : List Int) : Nat :=
  (writeUleb128 (zigzagEncode64 (leastDelta deltas))).length + deltaMiniBlocks + packedBytes deltas

theorem length_encodedBlock (deltas : List Int) :
    (encodedBlock deltas).length = blockBytes deltas := by
  rw [encodedBlock, deltaBlock, List.length_append, List.length_append, List.length_map,
    length_deltaWidths, length_deltaPackMinis]
  rfl

/-- Where the encoder gets to with `written` bytes before the blocks; the last block is taken to
have a least delta of ten bytes (delta.c:408-412). -/
def deltaNeeds : Nat → List (List Int) → Nat
  | written, [] => written
  | written, [deltas] => written + (10 + deltaMiniBlocks + packedBytes deltas)
  | written, deltas :: next :: more => deltaNeeds (written + blockBytes deltas) (next :: more)

/-- The buffer that a list of values wants. -/
def deltaRoom (values : List Int) : Nat :=
  deltaNeeds (deltaHeader values.length (values.headD 0)).length (deltaChunks (deltasOf values))

theorem le_deltaNeeds (written : Nat) (chunks : List (List Int)) :
    written ≤ deltaNeeds written chunks := by
  induction chunks generalizing written with
  | nil => exact Nat.le_refl _
  | cons deltas chunks ih =>
    cases chunks with
    | nil => exact Nat.le_add_right ..
    | cons next more => exact Nat.le_trans (Nat.le_add_right ..) (ih _)

/-- What a block wants is wanted in the end, too. -/
theorem first_le_deltaNeeds (written : Nat) (deltas : List Int) (chunks : List (List Int)) :
    written + (10 + deltaMiniBlocks + packedBytes deltas) ≤
      deltaNeeds written (deltas :: chunks) := by
  induction chunks generalizing written deltas with
  | nil => exact Nat.le_refl _
  | cons next more ih =>
    have hnext := ih (written + blockBytes deltas) next
    rw [deltaNeeds]
    unfold blockBytes at hnext ⊢
    unfold deltaMiniBlocks at *
    omega

/-- A block that fits is out of the way of those after it. -/
theorem deltaNeeds_cons_iff {written capacity : Nat} {deltas : List Int}
    {chunks : List (List Int)} :
    deltaNeeds written (deltas :: chunks) ≤ capacity ↔
      written + (10 + deltaMiniBlocks + packedBytes deltas) ≤ capacity ∧
        deltaNeeds (written + blockBytes deltas) chunks ≤ capacity := by
  have hfirst := first_le_deltaNeeds written deltas chunks
  cases chunks with
  | nil =>
    have hmin : (writeUleb128 (zigzagEncode64 (leastDelta deltas))).length ≤ 10 :=
      length_writeUleb 9 _
    rw [deltaNeeds, deltaNeeds, blockBytes]
    omega
  | cons next more =>
    rw [deltaNeeds]
    exact ⟨fun h => ⟨Nat.le_trans hfirst h, h⟩, And.right⟩

/-- A flush succeeds when its block fits. -/
theorem deltaFlushBlock_iff (enc : DeltaEncoder) (hlen : enc.deltas.length ≤ 128)
    (hle : enc.out.length ≤ enc.capacity) :
    (∃ enc', deltaFlushBlock enc = .ok enc') ↔
      deltaNeeds enc.out.length (deltaChunks enc.deltas) ≤ enc.capacity := by
  unfold deltaFlushBlock
  split
  · rename_i hnil
    rw [hnil]
    exact ⟨fun _ => hle, fun _ => ⟨_, rfl⟩⟩
  · rename_i d ds hdeltas
    have hne : enc.deltas ≠ [] := by
      rw [hdeltas]
      exact List.cons_ne_nil _ _
    have hpacked : ((deltaWidths (ds.foldl min d) deltaMiniBlocks enc.deltas).map
        deltaMiniBytes).sum = packedBytes enc.deltas := by
      rw [packedBytes, hdeltas]
      rfl
    rw [deltaChunks_short hne hlen, deltaNeeds]
    dsimp only
    rw [hpacked]
    split
    · constructor
      · rintro ⟨_, ⟨⟩⟩
      · omega
    · exact ⟨fun _ => by omega, fun _ => ⟨_, rfl⟩⟩

/-- The rest of an encode: the values that are left, and the last block. -/
theorem deltaPut_iff {vs : List Int} {enc : DeltaEncoder} (hlen : enc.deltas.length < 128)
    (hle : enc.out.length ≤ enc.capacity) :
    (∃ enc₁, deltaPut enc vs = .ok enc₁ ∧ ∃ enc₂, deltaFlushBlock enc₁ = .ok enc₂) ↔
      deltaNeeds enc.out.length (deltaChunks (enc.deltas ++ deltasFrom enc.lastValue vs)) ≤
        enc.capacity := by
  induction vs generalizing enc with
  | nil =>
    rw [deltasFrom, List.append_nil, ← deltaFlushBlock_iff enc (Nat.le_of_lt hlen) hle]
    constructor
    · rintro ⟨enc₁, ⟨⟩, hflush⟩
      exact hflush
    · intro hflush
      exact ⟨enc, rfl, hflush⟩
  | cons v vs ih =>
    have hput : ∀ {enc' : DeltaEncoder}, deltaPutOne enc v = .ok enc' →
        ((∃ enc₁, deltaPut enc (v :: vs) = .ok enc₁ ∧ ∃ enc₂, deltaFlushBlock enc₁ = .ok enc₂) ↔
          ∃ enc₁, deltaPut enc' vs = .ok enc₁ ∧ ∃ enc₂, deltaFlushBlock enc₁ = .ok enc₂) := by
      intro enc' hone
      rw [deltaPut, hone]
      rfl
    have hshift : enc.deltas ++ deltasFrom enc.lastValue (v :: vs) =
        (enc.deltas ++ [toI64 (v - enc.lastValue)]) ++ deltasFrom v vs := by
      rw [deltasFrom, List.append_assoc]
      rfl
    rw [hshift]
    by_cases hfull : (enc.deltas ++ [toI64 (v - enc.lastValue)]).length = 128
    · -- the block is full: it is written, if it fits
      have hiff := deltaFlushBlock_iff { enc with
        deltas := enc.deltas ++ [toI64 (v - enc.lastValue)], lastValue := v }
        (Nat.le_of_eq hfull) hle
      have hone : deltaPutOne enc v = deltaFlushBlock { enc with
          deltas := enc.deltas ++ [toI64 (v - enc.lastValue)], lastValue := v } := if_pos hfull
      have hchunk := deltaChunks_append hfull []
      rw [List.append_nil] at hchunk
      dsimp only at hiff
      rw [hchunk] at hiff
      rw [deltaChunks_append hfull, deltaNeeds_cons_iff]
      cases hflush : deltaFlushBlock { enc with
          deltas := enc.deltas ++ [toI64 (v - enc.lastValue)], lastValue := v } with
      | error e =>
        rw [hflush] at hiff hone
        have hno : ¬ enc.out.length + (10 + deltaMiniBlocks +
            packedBytes (enc.deltas ++ [toI64 (v - enc.lastValue)])) ≤ enc.capacity := by
          intro hfits
          obtain ⟨_, ⟨⟩⟩ := hiff.mpr hfits
        constructor
        · rintro ⟨enc₁, hrest, -⟩
          rw [deltaPut, hone] at hrest
          cases hrest
        · rintro ⟨hfits, -⟩
          exact absurd hfits hno
      | ok enc' =>
        rw [hflush] at hiff hone
        have hfits : enc.out.length + (10 + deltaMiniBlocks +
            packedBytes (enc.deltas ++ [toI64 (v - enc.lastValue)])) ≤ enc.capacity :=
          hiff.mp ⟨_, rfl⟩
        obtain ⟨hout, hnil, hlast⟩ := deltaFlushBlock_bytes hflush (Nat.le_of_eq hfull)
        have hroom := length_deltaFlushBlock hflush hle
        have hlength : enc'.out.length = enc.out.length +
            blockBytes (enc.deltas ++ [toI64 (v - enc.lastValue)]) := by
          rw [hout, encodedBlocks, List.length_append]
          dsimp only
          rw [hchunk, ← length_encodedBlock]
          simp [deltaChunks, splitChunks]
        have hcapacity : enc'.capacity = enc.capacity := hroom.2
        have hrest := @ih enc' (by rw [hnil]; exact Nat.zero_lt_succ _) hroom.1
        rw [hnil, hlast, hlength, List.nil_append, hcapacity] at hrest
        rw [hput hone, hrest]
        exact ⟨fun h => ⟨hfits, h⟩, And.right⟩
    · -- the delta waits in the buffer
      have hone : deltaPutOne enc v = .ok { enc with
          deltas := enc.deltas ++ [toI64 (v - enc.lastValue)], lastValue := v } := if_neg hfull
      rw [hput hone]
      refine ih ?_ hle
      rw [List.length_append, List.length_singleton] at hfull ⊢
      omega

/-- **When an encode succeeds**: the buffer has the room that its blocks want. -/
theorem deltaEncode_iff (values : List Int) (capacity : Nat) :
    (∃ bytes, deltaEncode values capacity = .ok bytes) ↔
      40 ≤ capacity ∧ deltaRoom values ≤ capacity := by
  unfold deltaEncode
  by_cases hcapacity : capacity < 40
  · rw [if_pos hcapacity]
    constructor
    · rintro ⟨_, ⟨⟩⟩
    · omega
  · rw [if_neg hcapacity]
    cases values with
    | nil => exact ⟨fun _ => ⟨Nat.le_of_not_lt hcapacity, Nat.le_trans (length_deltaHeader_le 0 0)
        (Nat.le_of_not_lt hcapacity)⟩, fun _ => ⟨_, rfl⟩⟩
    | cons first rest =>
      have hheader := length_deltaHeader_le (first :: rest).length first
      have hiff := @deltaPut_iff rest
        ⟨capacity, deltaHeader (first :: rest).length first, first, []⟩
        (Nat.zero_lt_succ _) (by dsimp only; omega)
      rw [List.nil_append] at hiff
      refine Iff.trans ⟨?_, ?_⟩ (hiff.trans ⟨fun h => ⟨Nat.le_of_not_lt hcapacity, h⟩, And.right⟩)
      · rintro ⟨bytes, hbytes⟩
        obtain ⟨enc₁, hput, hbytes⟩ := bind_eq_ok.mp hbytes
        obtain ⟨enc₂, hflush, -⟩ := bind_eq_ok.mp hbytes
        exact ⟨enc₁, hput, enc₂, hflush⟩
      · rintro ⟨enc₁, hput, enc₂, hflush⟩
        exact ⟨enc₂.out, bind_eq_ok.mpr ⟨enc₁, hput, bind_eq_ok.mpr ⟨enc₂, hflush, rfl⟩⟩⟩

theorem deltaFlushBlock_error {enc : DeltaEncoder} {e : Status}
    (h : deltaFlushBlock enc = .error e) : e = .encode := by
  unfold deltaFlushBlock at h
  split at h
  · cases h
  · dsimp only at h
    split at h
    · cases h
      rfl
    · cases h

theorem deltaPut_error {vs : List Int} {enc : DeltaEncoder} {e : Status}
    (h : deltaPut enc vs = .error e) : e = .encode := by
  induction vs generalizing enc with
  | nil => cases h
  | cons v vs ih =>
    rw [deltaPut] at h
    cases hone : deltaPutOne enc v with
    | ok enc' =>
      rw [hone] at h
      exact ih h
    | error e' =>
      rw [hone] at h
      cases h
      unfold deltaPutOne at hone
      dsimp only at hone
      split at hone
      · exact deltaFlushBlock_error hone
      · cases hone

/-- An encode fails for want of room only. -/
theorem deltaEncode_error {values : List Int} {capacity : Nat} {e : Status}
    (h : deltaEncode values capacity = .error e) : e = .encode := by
  unfold deltaEncode at h
  split at h
  · cases h
    rfl
  · cases values with
    | nil => cases h
    | cons first rest =>
      dsimp only at h
      cases hput : deltaPut ⟨capacity, deltaHeader (first :: rest).length first, first, []⟩ rest
      with
      | error e' =>
        rw [hput] at h
        cases h
        exact deltaPut_error hput
      | ok enc =>
        rw [hput] at h
        cases hflush : deltaFlushBlock enc with
        | error e' =>
          have herror : (Except.error e' : Except Status Bytes) = .error e := by
            rw [← h]
            show _ = (deltaFlushBlock enc >>= fun enc => _)
            rw [hflush]
            rfl
          cases herror
          exact deltaFlushBlock_error hflush
        | ok enc' =>
          have hok : (Except.ok enc'.out : Except Status Bytes) = .error e := by
            rw [← h]
            show _ = (deltaFlushBlock enc >>= fun enc => _)
            rw [hflush]
            rfl
          cases hok

/-! ## Integers -/

/-- Blocks of at most `4 * mini` bytes behind a least delta of at most `least`. -/
structure BlocksWithin (least mini : Nat) (deltas : List Int) : Prop where
  varint : (writeUleb128 (zigzagEncode64 (leastDelta deltas))).length ≤ least
  width : ∀ part : List Int, (∀ d ∈ part, d ∈ deltas) →
    deltaMiniBytes (miniWidth (leastDelta deltas) part) ≤ mini

theorem sum_minis_le {least : Int} {mini : Nat} (n : Nat) (deltas : List Int)
    (h : ∀ part : List Int, (∀ d ∈ part, d ∈ deltas) →
      deltaMiniBytes (miniWidth least part) ≤ mini) :
    ((deltaWidths least n deltas).map deltaMiniBytes).sum ≤ mini * ((deltas.length + 31) / 32) := by
  induction n generalizing deltas with
  | zero => exact Nat.zero_le _
  | succ n ih =>
    rw [deltaWidths, List.map_cons, List.sum_cons]
    have hrest := ih (deltas.drop deltaMiniBlockSize) fun part hpart =>
      h part fun d hd => List.mem_of_mem_drop (hpart d hd)
    have hone := h (deltas.take deltaMiniBlockSize) fun d hd => List.mem_of_mem_take hd
    unfold miniWidth at hone
    by_cases hnil : deltas = []
    · subst hnil
      have hzero : deltaMiniBytes (bitWidthRequired (maxNat (deltaAdjusted least
          (List.take deltaMiniBlockSize [])))) = 0 := rfl
      rw [hzero, Nat.zero_add]
      exact hrest
    · have hpos := List.length_pos_of_ne_nil hnil
      have hcount : (deltas.length + 31) / 32 =
          ((deltas.drop deltaMiniBlockSize).length + 31) / 32 + 1 := by
        rw [List.length_drop]
        unfold deltaMiniBlockSize
        omega
      rw [hcount, Nat.mul_add, Nat.mul_one]
      omega

theorem packedBytes_le {least mini : Nat} {deltas : List Int} (h : BlocksWithin least mini deltas) :
    packedBytes deltas ≤ mini * ((deltas.length + 31) / 32) :=
  sum_minis_le deltaMiniBlocks deltas h.width

/-- Full blocks, and what is left. -/
theorem deltaNeeds_le {least mini : Nat} (written : Nat) (deltas : List Int)
    (h : ∀ part : List Int, (∀ d ∈ part, d ∈ deltas) → BlocksWithin least mini part) :
    deltaNeeds written (deltaChunks deltas) ≤ written +
      (least + 4 + 4 * mini) * ((deltas.length - 1) / 128) + 14 +
        mini * (((deltas.length - 1) % 128 + 32) / 32) := by
  induction hn : deltas.length / 128 using Nat.strong_induction_on generalizing written deltas with
  | _ n ih =>
    subst hn
    by_cases hshort : deltas.length ≤ 128
    · by_cases hnil : deltas = []
      · subst hnil
        show written ≤ _
        omega
      · have hpos := List.length_pos_of_ne_nil hnil
        have hpacked := packedBytes_le (h deltas fun _ hd => hd)
        rw [deltaChunks_short hnil hshort, deltaNeeds,
          show (deltas.length - 1) / 128 = 0 by omega,
          show (deltas.length - 1) % 128 + 32 = deltas.length + 31 by omega]
        unfold deltaMiniBlocks
        omega
    · have hfull : (deltas.take 128).length = 128 := by
        rw [List.length_take]
        omega
      have hdrop : (deltas.drop 128).length = deltas.length - 128 := List.length_drop
      have hrest := ih ((deltas.drop 128).length / 128) (by omega)
        (written + blockBytes (deltas.take 128)) (deltas.drop 128)
        (fun part hpart => h part fun d hd => List.mem_of_mem_drop (hpart d hd)) rfl
      have hblock : blockBytes (deltas.take 128) ≤ least + 4 + 4 * mini := by
        have hbounded := h (deltas.take 128) fun d hd => List.mem_of_mem_take hd
        have hpacked := packedBytes_le hbounded
        have hvarint := hbounded.varint
        rw [hfull] at hpacked
        unfold blockBytes deltaMiniBlocks
        omega
      have hsplit := deltaChunks_append hfull (deltas.drop 128)
      rw [List.take_append_drop] at hsplit
      obtain ⟨next, more, hchunks⟩ : ∃ next more, deltaChunks (deltas.drop 128) = next :: more := by
        rw [deltaChunks, hdrop, show (deltas.length - 128 + 127) / 128 =
          (deltas.length - 129) / 128 + 1 by omega]
        exact ⟨_, _, rfl⟩
      rw [hchunks] at hsplit hrest
      rw [hsplit, deltaNeeds]
      rw [hdrop] at hrest
      rw [show (deltas.length - 1) % 128 = (deltas.length - 128 - 1) % 128 by omega,
        show (deltas.length - 1) / 128 = (deltas.length - 128 - 1) / 128 + 1 by omega,
        Nat.mul_add, Nat.mul_one]
      omega

theorem blocksWithin_int64 (deltas : List Int) : BlocksWithin 10 256 deltas where
  varint := length_writeUleb 9 _
  width := by
    intro part _
    have hwidth := miniWidth_le (leastDelta deltas) part
    generalize miniWidth (leastDelta deltas) part = w at hwidth
    unfold deltaMiniBytes deltaMiniBlockSize
    split
    · omega
    · split <;> omega

/-- **The reserve of INT64** is what the encoder wants. -/
theorem deltaRoom_int64 (values : List Int) :
    deltaRoom values ≤ values.length * 8 + values.length + 512 := by
  have hheader : (deltaHeader values.length (values.headD 0)).length ≤ 23 := by
    have hblock : (writeUleb128 deltaBlockSize).length = 2 := rfl
    have hminis : (writeUleb128 deltaMiniBlocks).length = 1 := rfl
    have hcount : (writeUleb128 values.length).length ≤ 10 := length_writeUleb 9 _
    have hfirst : (writeUleb128 (zigzagEncode64 (values.headD 0))).length ≤ 10 :=
      length_writeUleb 9 _
    rw [deltaHeader, List.length_append, List.length_append, List.length_append]
    omega
  have hneeds := deltaNeeds_le (deltaHeader values.length (values.headD 0)).length
    (deltasOf values) fun part _ => blocksWithin_int64 part
  rw [length_deltasOf] at hneeds
  unfold deltaRoom
  omega

/-- A distance of INT32 values. -/
def Distance32 (d : Int) : Prop := -4294967296 < d ∧ d < 4294967296

theorem distance32_deltasFrom {last : Int} {vs : List Int}
    (hlast : -2147483648 ≤ last ∧ last < 2147483648)
    (hvs : ∀ v ∈ vs, -2147483648 ≤ v ∧ v < 2147483648) :
    ∀ d ∈ deltasFrom last vs, Distance32 d := by
  induction vs generalizing last with
  | nil => exact fun d hd => absurd hd List.not_mem_nil
  | cons v vs ih =>
    have hv := hvs v (List.mem_cons_self ..)
    refine List.forall_mem_cons.mpr ⟨?_, ih hv fun u hu => hvs u (List.mem_cons_of_mem _ hu)⟩
    rw [toI64_of_range (by omega) (by omega)]
    unfold Distance32
    omega

theorem blocksWithin_int32 {deltas : List Int} (h : ∀ d ∈ deltas, Distance32 d) :
    BlocksWithin 5 160 deltas where
  varint := by
    have hleast : Distance32 (leastDelta deltas) := by
      cases deltas with
      | nil => exact ⟨by decide, by decide⟩
      | cons d ds => exact h _ (foldl_min_mem d ds)
    refine length_writeUleb_le 9 (n := 4) ?_
    unfold Distance32 at hleast
    unfold zigzagEncode64
    split <;> omega
  width := by
    intro part hpart
    have hwidth : miniWidth (leastDelta deltas) part ≤ 33 := by
      refine bitWidthRequired_le (maxNat_lt (by decide) fun v hv => ?_)
      obtain ⟨d, hd, rfl⟩ := List.mem_map.mp hv
      have hrange := h d (hpart d hd)
      have hle := leastDelta_le d (hpart d hd)
      have hleast : Distance32 (leastDelta deltas) := by
        cases deltas with
        | nil => exact ⟨by decide, by decide⟩
        | cons d ds => exact h _ (foldl_min_mem d ds)
      unfold Distance32 at hrange hleast
      unfold toU64
      omega
    generalize miniWidth (leastDelta deltas) part = w at hwidth
    unfold deltaMiniBytes deltaMiniBlockSize
    split
    · omega
    · split <;> omega

/-- **The reserve of INT32** is what the encoder wants, up to 4865 values. -/
theorem deltaRoom_int32 {values : List Int} (hlen : values.length ≤ 4865)
    (hvs : ∀ v ∈ values, -2147483648 ≤ v ∧ v < 2147483648) :
    deltaRoom values ≤ values.length * 4 + values.length + 512 := by
  have hfirst : -2147483648 ≤ values.headD 0 ∧ values.headD 0 < 2147483648 := by
    cases values with
    | nil => exact ⟨by decide, by decide⟩
    | cons first rest => exact hvs first (List.mem_cons_self ..)
  have hheader : (deltaHeader values.length (values.headD 0)).length ≤ 10 := by
    have hblock : (writeUleb128 deltaBlockSize).length = 2 := rfl
    have hminis : (writeUleb128 deltaMiniBlocks).length = 1 := rfl
    have hcount : (writeUleb128 values.length).length ≤ 2 :=
      length_writeUleb_le 9 (n := 1) (by omega)
    have hzigzag : (writeUleb128 (zigzagEncode64 (values.headD 0))).length ≤ 5 := by
      refine length_writeUleb_le 9 (n := 4) ?_
      unfold zigzagEncode64
      split <;> omega
    rw [deltaHeader, List.length_append, List.length_append, List.length_append]
    omega
  have hdistance : ∀ d ∈ deltasOf values, Distance32 d := by
    cases values with
    | nil => exact fun d hd => absurd hd List.not_mem_nil
    | cons first rest =>
      exact distance32_deltasFrom hfirst fun v hv => hvs v (List.mem_cons_of_mem _ hv)
  have hneeds := deltaNeeds_le (deltaHeader values.length (values.headD 0)).length
    (deltasOf values) fun part hpart => blocksWithin_int32 fun d hd => hdistance d (hpart d hd)
  rw [length_deltasOf] at hneeds
  unfold deltaRoom
  omega

/-! ## The branches -/

/-- The delta encodings of a type. -/
def isDeltaBranch : PhysicalType → Encoding → Bool
  | .int32, .deltaBinaryPacked | .int64, .deltaBinaryPacked => true
  | .byteArray, .deltaLengthByteArray | .byteArray, .deltaByteArray => true
  | .fixedLenByteArray, .deltaByteArray => true
  | _, _ => false

/-- What has to hold of the values for the reserve to be enough: the blocks of INT32 values fit
their five bytes a value and 512, and no three to five lengths are too far apart. -/
def ReserveEnough (type : PhysicalType) (encoding : Encoding) (values : List Value) : Prop :=
  match type with
  | .int32 =>
    deltaRoom (values.map (intOf 4 false)) ≤ values.length * 4 + values.length + 512
  | .int64 => True
  | _ =>
    if encoding = .deltaLengthByteArray then DeltaFits (values.map fun v => (v.length : Int))
    else DeltaFits ((prefixLengths [] values).map fun n : Nat => (n : Int)) ∧
      DeltaFits ((suffixesOf [] values).map fun s => (s.length : Int))

/-- **When a delta branch writes its values**: an INT64 page always, an INT32 page or one of byte
arrays if the reserve is enough. -/
theorem deltaBranch_iff (column : Column) (collects : Bool) (encoding : Encoding)
    (values : List Value) (hbranch : isDeltaBranch column.type encoding = true)
    (hlen : values.length < 2147483648) (hv : ∀ v ∈ values, v.length < 2147483648) :
    (∃ bytes, encodeValues column collects encoding values = .ok bytes) ↔
      ReserveEnough column.type encoding values := by
  unfold encodeValues ReserveEnough
  cases htype : column.type <;> cases encoding <;> rw [htype] at hbranch <;>
    first
    | exact absurd hbranch (by decide)
    | skip
  case int32.deltaBinaryPacked =>
    have hiff := deltaEncode_iff (values.map (intOf 4 false))
      (values.length * 4 + values.length + 512)
    have hnever : ¬ (values = [] ∧
        Encoding.deltaBinaryPacked ≠ Encoding.deltaBinaryPacked) := fun h => h.2 rfl
    dsimp only
    unfold encodeIntValues
    rw [if_pos (by decide), if_neg hnever, if_neg (by decide), if_pos rfl, hiff]
    omega
  case int64.deltaBinaryPacked =>
    have hiff := deltaEncode_iff (values.map (intOf 8 false))
      (values.length * 8 + values.length + 512)
    have hroom := deltaRoom_int64 (values.map (intOf 8 false))
    rw [List.length_map] at hroom
    have hnever : ¬ (values = [] ∧
        Encoding.deltaBinaryPacked ≠ Encoding.deltaBinaryPacked) := fun h => h.2 rfl
    dsimp only
    unfold encodeIntValues
    rw [if_pos (by decide), if_neg hnever, if_neg (by decide), if_pos rfl, hiff]
    exact ⟨fun _ => trivial, fun _ => ⟨by omega, hroom⟩⟩
  case byteArray.deltaLengthByteArray => exact deltaLengthEncode_iff hlen hv
  case byteArray.deltaByteArray => exact deltaStringsEncode_iff hlen hv
  case fixedLenByteArray.deltaByteArray =>
    by_cases hnil : values = []
    · subst hnil
      exact ⟨fun _ => by decide, fun _ => ⟨[], rfl⟩⟩
    · have hiff := deltaStringsEncode_iff hlen hv
      dsimp only
      unfold encodeFixedLenValues
      rw [if_neg (by decide), if_pos rfl, if_neg hnil]
      exact hiff

theorem intOf_int32_range (v : Value) :
    -2147483648 ≤ intOf 4 false v ∧ intOf 4 false v < 2147483648 := by
  have hlt : leNat (v.take 4) < 256 ^ 4 := by
    refine Nat.lt_of_lt_of_le (leNat_lt _) (Nat.pow_le_pow_right (by decide) ?_)
    rw [List.length_take]
    exact Nat.min_le_left ..
  unfold intOf
  simp only [Bool.false_eq_true, false_or]
  split <;> omega

/-- An INT32 page of up to 4865 values is written. -/
theorem reserveEnough_int32 {values : List Value} (hlen : values.length ≤ 4865) :
    ReserveEnough .int32 .deltaBinaryPacked values := by
  have hroom := @deltaRoom_int32 (values.map (intOf 4 false)) (by rwa [List.length_map])
    (by
      intro v hv
      obtain ⟨bytes, -, rfl⟩ := List.mem_map.mp hv
      exact intOf_int32_range bytes)
  rw [List.length_map] at hroom
  exact hroom

/-- A page of one INT32 value. -/
theorem oneInt_written_iff :
    (∃ bytes, encodeValues ⟨.int32, 0, 0, 0⟩ true .deltaBinaryPacked [[7, 0, 0, 0]] = .ok bytes) ↔
      ReserveEnough .int32 .deltaBinaryPacked [[7, 0, 0, 0]] :=
  deltaBranch_iff ⟨.int32, 0, 0, 0⟩ true .deltaBinaryPacked [[7, 0, 0, 0]] (by decide) (by decide)
    (by decide)

/-! ### Values that swing -/

/-- `n` times up from the least INT32 value to the greatest and down again. -/
def swings (n : Nat) : List Value :=
  [0, 0, 0, 128] :: (List.replicate n [[255, 255, 255, 127], [0, 0, 0, 128]]).flatten

/-- The deltas of `n` swings. -/
def swingDeltas (n : Nat) : List Int := (List.replicate n [4294967295, -4294967295]).flatten

theorem deltasOf_swings (n : Nat) :
    deltasOf ((swings n).map (intOf 4 false)) = swingDeltas n := by
  have hup : intOf 4 false [255, 255, 255, 127] = 2147483647 := by decide
  have hdown : intOf 4 false [0, 0, 0, 128] = -2147483648 := by decide
  have hrise : toI64 (2147483647 - -2147483648) = 4294967295 := by decide
  have hfall : toI64 (-2147483648 - 2147483647) = -4294967295 := by decide
  have hfrom : ∀ n, deltasFrom (-2147483648)
      ((List.replicate n [[255, 255, 255, 127], [0, 0, 0, 128]]).flatten.map (intOf 4 false)) =
        swingDeltas n := by
    intro n
    induction n with
    | zero => rfl
    | succ n ih =>
      rw [List.replicate_succ, List.flatten_cons, swingDeltas, List.replicate_succ,
        List.flatten_cons, List.map_append, ← swingDeltas, ← ih, List.map_cons, List.map_cons,
        List.map_nil, hup, hdown, List.cons_append, List.cons_append, deltasFrom, deltasFrom,
        hrise, hfall]
      rfl
  rw [swings, List.map_cons, hdown]
  exact hfrom n

theorem swingDeltas_add (m n : Nat) : swingDeltas (m + n) = swingDeltas m ++ swingDeltas n := by
  rw [swingDeltas, List.replicate_add, List.flatten_append]
  rfl

/-- A block of swings takes 649 bytes. -/
theorem blockBytes_swings : blockBytes (swingDeltas 64) = 649 := by decide +kernel

/-- `n` blocks, and one swing more. -/
theorem deltaNeeds_swings (written n : Nat) :
    deltaNeeds written (deltaChunks (swingDeltas (64 * n + 1))) = written + 649 * n + 174 := by
  induction n generalizing written with
  | zero =>
    rw [show deltaChunks (swingDeltas (64 * 0 + 1)) = [swingDeltas 1] from rfl, deltaNeeds,
      show packedBytes (swingDeltas 1) = 160 by decide +kernel]
    rfl
  | succ n ih =>
    have hfull : (swingDeltas 64).length = 128 := by decide +kernel
    obtain ⟨next, more, hchunks⟩ : ∃ next more,
        deltaChunks (swingDeltas (64 * n + 1)) = next :: more := by
      have hlen : (swingDeltas (64 * n + 1)).length = 128 * n + 2 := by
        rw [swingDeltas, Chunks.length_flatten_of_width (w := 2), List.length_replicate]
        · omega
        · intro p hp
          rw [List.eq_of_mem_replicate hp]
          rfl
      rw [deltaChunks, hlen, show (128 * n + 2 + 127) / 128 = n + 1 by omega]
      exact ⟨_, _, rfl⟩
    have hrest := ih (written + 649)
    rw [show 64 * (n + 1) + 1 = 64 + (64 * n + 1) by ring, swingDeltas_add,
      deltaChunks_append hfull]
    rw [hchunks] at hrest ⊢
    rw [deltaNeeds, blockBytes_swings, hrest]
    ring

/-- A page of 4995 INT32 values that swing between the ends wants 25495 bytes, and has 25487. -/
theorem swings_not_written : (∀ v ∈ swings 2497, v.length = 4) ∧ (swings 2497).length = 4995 ∧
    encodeValues ⟨.int32, 0, 0, 0⟩ true .deltaBinaryPacked (swings 2497) = .error .encode := by
  have hmem : ∀ v ∈ swings 2497, v.length = 4 := by
    intro v hv
    rcases List.mem_cons.mp hv with rfl | hv
    · rfl
    · obtain ⟨p, hp, hv⟩ := List.mem_flatten.mp hv
      rw [List.eq_of_mem_replicate hp] at hv
      rcases List.mem_cons.mp hv with rfl | hv
      · rfl
      · rw [List.mem_singleton.mp hv]
        rfl
  have hlen : (swings 2497).length = 4995 := by
    rw [swings, List.length_cons, Chunks.length_flatten_of_width (w := 2), List.length_replicate]
    intro p hp
    rw [List.eq_of_mem_replicate hp]
    rfl
  refine ⟨hmem, hlen, ?_⟩
  have hroom : deltaRoom ((swings 2497).map (intOf 4 false)) = 25495 := by
    rw [deltaRoom, deltasOf_swings, List.length_map, hlen, show 2497 = 64 * 39 + 1 from rfl,
      deltaNeeds_swings]
    decide +kernel
  have hiff := deltaEncode_iff ((swings 2497).map (intOf 4 false)) 25487
  rw [hroom] at hiff
  have hencode : encodeValues ⟨.int32, 0, 0, 0⟩ true .deltaBinaryPacked (swings 2497) =
      deltaEncode ((swings 2497).map (intOf 4 false)) 25487 := by
    show encodeIntValues 4 true .deltaBinaryPacked (swings 2497) = _
    have hnever : ¬ (swings 2497 = [] ∧
        Encoding.deltaBinaryPacked ≠ Encoding.deltaBinaryPacked) := fun h => h.2 rfl
    unfold encodeIntValues
    rw [if_pos (by decide), if_neg hnever, if_neg (by decide), if_pos rfl, hlen]
  rw [hencode]
  cases hresult : deltaEncode ((swings 2497).map (intOf 4 false)) 25487 with
  | ok bytes => exact absurd (hiff.mp ⟨bytes, hresult⟩).2 (by decide)
  | error e => rw [deltaEncode_error hresult]

end Carquet
