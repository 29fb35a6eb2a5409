import Carquet.Encoding.DeltaSpec

/-!
# DELTA_BINARY_PACKED: the buffer of the encoder

What a block takes (`length_deltaBlock_le`) is within what `delta_encoder_flush_block` asks for
(delta.c:408-412), so the encoder stays in its buffer. `delta_roundTrips` puts this and the round
trip together.

The byte array encodings give the encoder ten bytes a length and 100 more (delta_length.c:176,
delta_strings.c:369). `deltaEncode_lengths_iff` says when that is enough: always, but for three to
five lengths far apart.
-/

namespace Carquet

open LittleEndian Leb128

/-! ## What a block takes -/

theorem length_deltaPackMini {w : Nat} {adjusted : List Nat}
    (h : adjusted.length ≤ deltaMiniBlockSize) :
    (deltaPackMini w adjusted).length = deltaMiniBytes w := by
  have hpad : (adjusted ++ List.replicate (deltaMiniBlockSize - adjusted.length) 0).length = 32 := by
    rw [List.length_append, List.length_replicate]
    unfold deltaMiniBlockSize at *
    omega
  unfold deltaPackMini deltaMiniBytes
  split
  · rfl
  · dsimp only
    generalize adjusted ++ List.replicate (deltaMiniBlockSize - adjusted.length) 0 = padded at hpad
    split
    · have h0 : w ≠ 0 := by assumption
      rw [bitpack32, if_neg h0]
      simp only [List.length_map, hpad, show 32 % 8 = 0 from rfl, show 32 / 8 = 4 from rfl]
      rw [if_pos trivial, length_bitpackGroups (by rw [List.length_map, hpad])]
      unfold deltaMiniBlockSize
      omega
    · rw [Chunks.length_flatten_of_width (w := (w + 7) / 8), List.length_map, hpad]
      · rfl
      · intro p hp
        obtain ⟨v, -, rfl⟩ := List.mem_map.mp hp
        exact length_leBytes _ v

theorem length_deltaPackMinis (minDelta : Int) (n : Nat) (deltas : List Int) :
    (deltaPackMinis minDelta n deltas).length =
      ((deltaWidths minDelta n deltas).map deltaMiniBytes).sum := by
  induction n generalizing deltas with
  | zero => rfl
  | succ n ih =>
    have hle : (deltaAdjusted minDelta (deltas.take deltaMiniBlockSize)).length ≤
        deltaMiniBlockSize := by
      rw [deltaAdjusted, List.length_map, List.length_take]
      exact Nat.min_le_left ..
    rw [deltaPackMinis, deltaWidths, List.length_append, length_deltaPackMini hle, ih,
      List.map_cons, List.sum_cons]

/-- A block takes at most the bytes it asks for. -/
theorem length_deltaBlock_le (minDelta : Int) (deltas : List Int) :
    (deltaBlock minDelta deltas).length ≤ 10 + deltaMiniBlocks +
      ((deltaWidths minDelta deltaMiniBlocks deltas).map deltaMiniBytes).sum := by
  have hmin : (writeUleb128 (zigzagEncode64 minDelta)).length ≤ 10 := length_writeUleb 9 _
  rw [deltaBlock, List.length_append, List.length_append, List.length_map, length_deltaWidths,
    length_deltaPackMinis]
  omega

/-! ## The encoder stays in its buffer -/

theorem length_deltaFlushBlock {enc enc' : DeltaEncoder} (h : deltaFlushBlock enc = .ok enc')
    (hle : enc.out.length ≤ enc.capacity) :
    enc'.out.length ≤ enc'.capacity ∧ enc'.capacity = enc.capacity := by
  unfold deltaFlushBlock at h
  split at h
  · cases h
    exact ⟨hle, rfl⟩
  · rename_i d ds hdeltas
    dsimp only at h
    split at h
    · cases h
    · cases h
      have hblock := length_deltaBlock_le (ds.foldl min d) enc.deltas
      refine ⟨?_, rfl⟩
      rw [List.length_append]
      dsimp only
      omega

theorem length_deltaPutOne {enc enc' : DeltaEncoder} {v : Int} (h : deltaPutOne enc v = .ok enc')
    (hle : enc.out.length ≤ enc.capacity) :
    enc'.out.length ≤ enc'.capacity ∧ enc'.capacity = enc.capacity := by
  unfold deltaPutOne at h
  dsimp only at h
  split at h
  · have hstep := length_deltaFlushBlock h hle
    exact hstep
  · cases h
    exact ⟨hle, rfl⟩

/-- The states an encode comes to, each with the values that are left: behind the header, after
each value, and after the last block. -/
inductive DeltaReaches (capacity : Nat) (values : List Int) : List Int → DeltaEncoder → Prop
  | header {first : Int} {rest : List Int} (hvalues : values = first :: rest)
      (hcapacity : 40 ≤ capacity) :
      DeltaReaches capacity values rest ⟨capacity, deltaHeader values.length first, first, []⟩
  | put {v : Int} {rest : List Int} {enc enc' : DeltaEncoder}
      (h : DeltaReaches capacity values (v :: rest) enc) (hput : deltaPutOne enc v = .ok enc') :
      DeltaReaches capacity values rest enc'
  | last {enc enc' : DeltaEncoder} (h : DeltaReaches capacity values [] enc)
      (hflush : deltaFlushBlock enc = .ok enc') : DeltaReaches capacity values [] enc'

theorem length_deltaHeader_le (n : Nat) (first : Int) : (deltaHeader n first).length ≤ 40 := by
  have hblock : (writeUleb128 deltaBlockSize).length ≤ 10 := length_writeUleb 9 _
  have hminis : (writeUleb128 deltaMiniBlocks).length ≤ 10 := length_writeUleb 9 _
  have hcount : (writeUleb128 n).length ≤ 10 := length_writeUleb 9 _
  have hfirst : (writeUleb128 (zigzagEncode64 first)).length ≤ 10 := length_writeUleb 9 _
  rw [deltaHeader, List.length_append, List.length_append, List.length_append]
  omega

/-- **Every state of an encode** has written within the buffer. -/
theorem DeltaReaches.length_le {capacity : Nat} {values left : List Int} {enc : DeltaEncoder}
    (h : DeltaReaches capacity values left enc) :
    enc.out.length ≤ enc.capacity ∧ enc.capacity = capacity := by
  induction h with
  | header hvalues hcapacity =>
    exact ⟨Nat.le_trans (length_deltaHeader_le _ _) hcapacity, rfl⟩
  | put h hput ih =>
    have hstep := length_deltaPutOne hput ih.1
    exact ⟨hstep.1, hstep.2.trans ih.2⟩
  | last h hflush ih =>
    have hstep := length_deltaFlushBlock hflush ih.1
    exact ⟨hstep.1, hstep.2.trans ih.2⟩

theorem DeltaReaches.put_all {capacity : Nat} {values vs : List Int} {enc enc' : DeltaEncoder}
    (h : DeltaReaches capacity values vs enc) (hput : deltaPut enc vs = .ok enc') :
    DeltaReaches capacity values [] enc' := by
  induction vs generalizing enc with
  | nil =>
    cases hput
    exact h
  | cons v vs ih =>
    obtain ⟨enc₁, hone, hrest⟩ := bind_eq_ok.mp hput
    exact ih (h.put hone) hrest

theorem length_deltaEncode_le {values : List Int} {capacity : Nat} {bytes : Bytes}
    (h : deltaEncode values capacity = .ok bytes) : bytes.length ≤ capacity := by
  unfold deltaEncode at h
  split at h
  · cases h
  · rename_i hcapacity
    split at h
    · cases h
      exact Nat.le_trans (length_deltaHeader_le 0 0) (by omega)
    · rename_i first rest
      obtain ⟨enc₁, hput, h⟩ := bind_eq_ok.mp h
      obtain ⟨enc₂, hflush, h⟩ := bind_eq_ok.mp h
      cases h
      have hreach : DeltaReaches capacity (first :: rest) rest _ :=
        .header rfl (Nat.le_of_not_lt hcapacity)
      have hlast := ((hreach.put_all hput).last hflush).length_le
      exact hlast.2 ▸ hlast.1

/-! ## The round trip within a buffer -/

/-- What an encode of `values` writes is read back as `values`, all of it consumed, and nothing is
written behind the buffer, whether the encode succeeds or not. -/
structure DeltaRoundTrips (decode : Bytes → Nat → Except Status (List Int × Bytes))
    (values : List Int) (capacity : Nat) : Prop where
  decodes : ∀ bytes, deltaEncode values capacity = .ok bytes →
    decode bytes values.length = .ok (values, [])
  length_le : ∀ bytes, deltaEncode values capacity = .ok bytes → bytes.length ≤ capacity
  within : ∀ left enc, DeltaReaches capacity values left enc → enc.out.length ≤ capacity

/-- **DELTA_BINARY_PACKED round trips** every list of INT32 and of INT64 values. -/
theorem delta_roundTrips (values : List Int) (capacity : Nat)
    (hlen : values.length < 2147483648) :
    ((∀ v ∈ values, -2147483648 ≤ v ∧ v < 2147483648) →
      DeltaRoundTrips deltaDecodeInt32 values capacity) ∧
    ((∀ v ∈ values, -9223372036854775808 ≤ v ∧ v < 9223372036854775808) →
      DeltaRoundTrips deltaDecodeInt64 values capacity) := by
  have hwithin : ∀ left enc, DeltaReaches capacity values left enc → enc.out.length ≤ capacity :=
    fun left enc h => h.length_le.2 ▸ h.length_le.1
  refine ⟨fun hrange => ⟨fun bytes h => ?_, fun _ => length_deltaEncode_le, hwithin⟩,
    fun hrange => ⟨fun bytes h => ?_, fun _ => length_deltaEncode_le, hwithin⟩⟩
  · have := deltaDecodeInt32_encode hlen hrange h []
    rwa [List.append_nil] at this
  · have := deltaDecodeInt64_encode hlen hrange h []
    rwa [List.append_nil] at this

/-- The least and the greatest value, one after the other: the deltas wrap around. -/
theorem delta_extremes_roundTrip :
    DeltaRoundTrips deltaDecodeInt32 [-2147483648, 2147483647, -2147483648] 200 ∧
      DeltaRoundTrips deltaDecodeInt64 [-9223372036854775808, 9223372036854775807] 200 :=
  ⟨(delta_roundTrips _ _ (by decide)).1 (by decide),
    (delta_roundTrips _ _ (by decide)).2 (by decide)⟩

/-! ## Ten bytes a value and 100 more -/

/-- The greatest distance of two deltas of a list of values, in bits. -/
def deltaSpread : List Int → Nat
  | [] => 0
  | first :: rest =>
    match deltasFrom first rest with
    | [] => 0
    | d :: ds => bitWidthRequired (maxNat (deltaAdjusted (ds.foldl min d) (d :: ds)))

/-- Whether the values leave room for their only block: the capacity counts ten bytes a value, the
mini-block is padded to 32 values. -/
def DeltaFits (values : List Int) : Prop :=
  3 ≤ values.length → values.length ≤ 5 →
    (writeUleb128 (zigzagEncode64 (values.headD 0))).length + 4 * deltaSpread values ≤
      values.length * 10 + 82

instance (values : List Int) : Decidable (DeltaFits values) :=
  inferInstanceAs (Decidable (_ → _ → _))

/-- The deltas of lengths. -/
def Small (d : Int) : Prop := -2147483648 < d ∧ d < 2147483648

theorem deltaMiniBytes_le {minDelta : Int} (deltas : List Int) (hmin : Small minDelta)
    (h : ∀ d ∈ deltas, Small d) (hle : ∀ d ∈ deltas, minDelta ≤ d) :
    bitWidthRequired (maxNat (deltaAdjusted minDelta deltas)) ≤ 32 ∧
      deltaMiniBytes (bitWidthRequired (maxNat (deltaAdjusted minDelta deltas))) =
        4 * bitWidthRequired (maxNat (deltaAdjusted minDelta deltas)) := by
  have hbound : maxNat (deltaAdjusted minDelta deltas) < 2 ^ 32 := by
    refine maxNat_lt (by decide) fun v hv => ?_
    obtain ⟨d, hd, rfl⟩ := List.mem_map.mp hv
    have hd' := h d hd
    have hge := hle d hd
    unfold Small at hmin hd'
    unfold toU64
    omega
  have hwidth := bitWidthRequired_le hbound
  generalize bitWidthRequired (maxNat (deltaAdjusted minDelta deltas)) = w at hwidth
  refine ⟨hwidth, ?_⟩
  unfold deltaMiniBytes deltaMiniBlockSize
  split <;> omega

/-- The mini-blocks of a block: four bytes a delta, up to the padding of the last one. -/
theorem sum_deltaMiniBytes_le {minDelta : Int} (hmin : Small minDelta) (n : Nat)
    (deltas : List Int) (h : ∀ d ∈ deltas, Small d) (hle : ∀ d ∈ deltas, minDelta ≤ d) :
    ((deltaWidths minDelta n deltas).map deltaMiniBytes).sum ≤ 4 * deltas.length + 124 ∧
      (deltas = [] → ((deltaWidths minDelta n deltas).map deltaMiniBytes).sum = 0) := by
  induction n generalizing deltas with
  | zero => exact ⟨Nat.zero_le _, fun _ => rfl⟩
  | succ n ih =>
    obtain ⟨hrest, hnil⟩ := ih (deltas.drop deltaMiniBlockSize)
      (fun d hd => h d (List.mem_of_mem_drop hd)) (fun d hd => hle d (List.mem_of_mem_drop hd))
    obtain ⟨hwidth, hbytes⟩ := deltaMiniBytes_le (deltas.take deltaMiniBlockSize) hmin
      (fun d hd => h d (List.mem_of_mem_take hd)) (fun d hd => hle d (List.mem_of_mem_take hd))
    rw [deltaWidths, List.map_cons, List.sum_cons, hbytes]
    constructor
    · by_cases hlong : deltaMiniBlockSize < deltas.length
      · rw [List.length_drop] at hrest
        unfold deltaMiniBlockSize at *
        omega
      · have hzero := hnil (List.drop_eq_nil_of_le (Nat.le_of_not_lt hlong))
        by_cases hdeltas : deltas = []
        · subst hdeltas
          have hempty : bitWidthRequired (maxNat (deltaAdjusted minDelta
              (List.take deltaMiniBlockSize []))) = 0 := rfl
          omega
        · have := List.length_pos_of_ne_nil hdeltas
          omega
    · rintro rfl
      rw [hnil (List.drop_nil ..)]
      rfl

theorem foldl_min_le (d : Int) (ds : List Int) : ∀ e ∈ d :: ds, ds.foldl min d ≤ e := by
  induction ds generalizing d with
  | nil => simp
  | cons c cs ih =>
    have hleast := ih (min d c)
    rw [List.forall_mem_cons] at hleast
    simp only [List.foldl_cons, List.mem_cons, forall_eq_or_imp]
    exact ⟨by omega, by omega, hleast.2⟩

/-- A flush with enough room. -/
theorem deltaFlushBlock_of_room {enc : DeltaEncoder} (h : ∀ d ∈ enc.deltas, Small d)
    (hroom : enc.out.length + (4 * enc.deltas.length + 138) ≤ enc.capacity) :
    ∃ out, deltaFlushBlock enc = .ok { enc with out := out, deltas := [] } ∧
      out.length ≤ enc.out.length + (4 * enc.deltas.length + 138) := by
  unfold deltaFlushBlock
  split
  · rename_i hdeltas
    exact ⟨enc.out, by rw [← hdeltas], Nat.le_add_right ..⟩
  · rename_i d ds hdeltas
    have hmin : Small (ds.foldl min d) := h _ (hdeltas ▸ foldl_min_mem d ds)
    have hle : ∀ e ∈ enc.deltas, ds.foldl min d ≤ e := hdeltas ▸ foldl_min_le d ds
    have hsum := (sum_deltaMiniBytes_le hmin deltaMiniBlocks enc.deltas h hle).1
    have hblock := length_deltaBlock_le (ds.foldl min d) enc.deltas
    have hminis : deltaMiniBlocks = 4 := rfl
    dsimp only
    rw [if_neg (by omega)]
    refine ⟨_, rfl, ?_⟩
    rw [List.length_append]
    omega

/-- Encoded so far: whole blocks, and deltas in the buffer. -/
structure DeltaEncoder.Paced (enc : DeltaEncoder) (given : Nat) : Prop where
  small : ∀ d ∈ enc.deltas, Small d
  last : 0 ≤ enc.lastValue ∧ enc.lastValue < 2147483648
  buffered : enc.deltas.length < 128
  written : ∃ blocks, given = 128 * blocks + enc.deltas.length ∧
    enc.out.length ≤ 13 + 650 * blocks

theorem DeltaEncoder.Paced.put {enc : DeltaEncoder} {given : Nat} (h : enc.Paced given) {v : Int}
    (hv : 0 ≤ v ∧ v < 2147483648) (hcapacity : (given + 2) * 10 + 100 ≤ enc.capacity) :
    ∃ enc', deltaPutOne enc v = .ok enc' ∧ enc'.Paced (given + 1) ∧
      enc'.capacity = enc.capacity := by
  obtain ⟨blocks, hgiven, hwritten⟩ := h.written
  have hlast := h.last
  have hsmall : ∀ d ∈ enc.deltas ++ [toI64 (v - enc.lastValue)], Small d := by
    intro d hd
    rcases List.mem_append.mp hd with hd | hd
    · exact h.small d hd
    · rw [List.mem_singleton.mp hd, toI64_of_range (by omega) (by omega)]
      unfold Small
      omega
  unfold deltaPutOne
  dsimp only
  split
  next hfull =>
    have hfull' : enc.deltas.length = 127 := by
      rw [List.length_append, List.length_singleton] at hfull
      unfold deltaBlockSize at hfull
      omega
    have hlength : (enc.deltas ++ [toI64 (v - enc.lastValue)]).length = 128 := by
      rw [List.length_append, hfull', List.length_singleton]
    obtain ⟨out, hflush, hout⟩ : ∃ out, deltaFlushBlock { enc with
        deltas := enc.deltas ++ [toI64 (v - enc.lastValue)], lastValue := v } =
          .ok { enc with out := out, deltas := [], lastValue := v } ∧
        out.length ≤ enc.out.length + 650 := by
      have hroom : enc.out.length + (4 * (enc.deltas ++ [toI64 (v - enc.lastValue)]).length + 138) ≤
          enc.capacity := by omega
      obtain ⟨out, hflush, hout⟩ := deltaFlushBlock_of_room (show
        ∀ d ∈ ({ enc with deltas := enc.deltas ++ [toI64 (v - enc.lastValue)], lastValue := v } :
          DeltaEncoder).deltas, Small d from hsmall) hroom
      rw [hlength] at hout
      exact ⟨out, hflush, hout⟩
    have hout' : out.length ≤ 13 + 650 * (blocks + 1) :=
      Nat.le_trans hout (Nat.le_trans (Nat.add_le_add_right hwritten 650) (Nat.le_of_eq (by ring)))
    refine ⟨_, hflush, ⟨by simp, hv, Nat.zero_lt_succ _, blocks + 1, ?_, hout'⟩, rfl⟩
    rw [List.length_nil]
    omega
  next hfull =>
    refine ⟨_, rfl, ⟨hsmall, hv, ?_, blocks, ?_, hwritten⟩, rfl⟩
    · rw [List.length_append, List.length_singleton] at hfull ⊢
      have := h.buffered
      unfold deltaBlockSize at hfull
      omega
    · rw [List.length_append, List.length_singleton]
      omega

theorem DeltaEncoder.Paced.put_all {vs : List Int} {enc : DeltaEncoder} {given : Nat}
    (h : enc.Paced given) (hvs : ∀ v ∈ vs, 0 ≤ v ∧ v < 2147483648)
    (hcapacity : (given + vs.length + 1) * 10 + 100 ≤ enc.capacity) :
    ∃ enc', deltaPut enc vs = .ok enc' ∧ enc'.Paced (given + vs.length) ∧
      enc'.capacity = enc.capacity := by
  induction vs generalizing enc given with
  | nil => exact ⟨enc, rfl, h, rfl⟩
  | cons v vs ih =>
    rw [List.length_cons] at hcapacity
    obtain ⟨enc₁, hput, hpaced, hsame⟩ := h.put (hvs v (List.mem_cons_self ..)) (by omega)
    obtain ⟨enc₂, hrest, hpaced₂, hsame₂⟩ := ih hpaced
      (fun u hu => hvs u (List.mem_cons_of_mem _ hu)) (by omega)
    refine ⟨enc₂, bind_eq_ok.mpr ⟨enc₁, hput, hrest⟩, ?_, hsame₂.trans hsame⟩
    rw [List.length_cons]
    convert hpaced₂ using 1
    omega

/-- Deltas that do not fill a block stay in the buffer. -/
theorem deltaPut_short (vs : List Int) (enc : DeltaEncoder)
    (h : enc.deltas.length + vs.length < 128) :
    ∃ last, deltaPut enc vs =
      .ok { enc with deltas := enc.deltas ++ deltasFrom enc.lastValue vs, lastValue := last } := by
  induction vs generalizing enc with
  | nil => exact ⟨enc.lastValue, by rw [deltaPut, deltasFrom, List.append_nil]⟩
  | cons v vs ih =>
    rw [List.length_cons] at h
    have hput : deltaPutOne enc v = .ok { enc with
        deltas := enc.deltas ++ [toI64 (v - enc.lastValue)], lastValue := v } := by
      refine if_neg ?_
      rw [List.length_append, List.length_singleton]
      unfold deltaBlockSize
      omega
    obtain ⟨last, hrest⟩ := ih { enc with
      deltas := enc.deltas ++ [toI64 (v - enc.lastValue)], lastValue := v } (by
        rw [List.length_append, List.length_singleton]
        omega)
    refine ⟨last, bind_eq_ok.mpr ⟨_, hput, ?_⟩⟩
    rw [hrest, deltasFrom, List.append_assoc]
    rfl

theorem small_deltasFrom {last : Int} {vs : List Int} (hlast : 0 ≤ last ∧ last < 2147483648)
    (hvs : ∀ v ∈ vs, 0 ≤ v ∧ v < 2147483648) : ∀ d ∈ deltasFrom last vs, Small d := by
  induction vs generalizing last with
  | nil => simp [deltasFrom]
  | cons v vs ih =>
    have hv := hvs v (List.mem_cons_self ..)
    refine List.forall_mem_cons.mpr ⟨?_, ih hv fun u hu => hvs u (List.mem_cons_of_mem _ hu)⟩
    rw [toI64_of_range (by omega) (by omega)]
    unfold Small
    omega

/-- A block of one mini-block fits when its header and its deltas do. -/
theorem deltaFlushBlock_short {enc : DeltaEncoder} {d : Int} {ds : List Int}
    (hdeltas : enc.deltas = d :: ds) (hlen : ds.length < 32) (hsmall : ∀ e ∈ d :: ds, Small e) :
    (∃ enc', deltaFlushBlock enc = .ok enc') ↔ enc.out.length + 14 +
      4 * bitWidthRequired (maxNat (deltaAdjusted (ds.foldl min d) (d :: ds))) ≤ enc.capacity := by
  obtain ⟨-, hbytes⟩ := deltaMiniBytes_le (d :: ds) (hsmall _ (foldl_min_mem d ds)) hsmall
    (foldl_min_le d ds)
  have hwidths : deltaWidths (ds.foldl min d) deltaMiniBlocks (d :: ds) =
      [bitWidthRequired (maxNat (deltaAdjusted (ds.foldl min d) (d :: ds))), 0, 0, 0] := by
    have htake : (d :: ds).take deltaMiniBlockSize = d :: ds :=
      List.take_of_length_le (by rw [List.length_cons]; exact hlen)
    have hdrop : (d :: ds).drop deltaMiniBlockSize = [] :=
      List.drop_of_length_le (by rw [List.length_cons]; exact hlen)
    unfold deltaMiniBlocks
    rw [deltaWidths, htake, hdrop]
    rfl
  have hsum : ((deltaWidths (ds.foldl min d) deltaMiniBlocks (d :: ds)).map deltaMiniBytes).sum =
      4 * bitWidthRequired (maxNat (deltaAdjusted (ds.foldl min d) (d :: ds))) := by
    rw [hwidths, List.map_cons, List.sum_cons, hbytes]
    rfl
  generalize bitWidthRequired (maxNat (deltaAdjusted (ds.foldl min d) (d :: ds))) = w at hsum
  unfold deltaFlushBlock
  rw [hdeltas]
  dsimp only
  rw [hsum]
  have hminis : deltaMiniBlocks = 4 := rfl
  split
  · constructor
    · rintro ⟨_, ⟨⟩⟩
    · omega
  · exact ⟨fun _ => by omega, fun _ => ⟨_, rfl⟩⟩

theorem length_deltaHeader {n : Nat} (first : Int) (hn : n < 128) :
    (deltaHeader n first).length = 4 + (writeUleb128 (zigzagEncode64 first)).length := by
  have hcount : writeUleb128 n = [UInt8.ofNat n] := if_neg (by omega)
  rw [deltaHeader, hcount]
  simp only [List.length_append]
  rfl

theorem length_zigzag_le {v : Int} (h : 0 ≤ v ∧ v < 2147483648) :
    1 ≤ (writeUleb128 (zigzagEncode64 v)).length ∧
      (writeUleb128 (zigzagEncode64 v)).length ≤ 5 := by
  refine ⟨List.length_pos_of_ne_nil (writeUleb_ne_nil 9 _), length_writeUleb_le 9 (n := 4) ?_⟩
  unfold zigzagEncode64
  split <;> omega

theorem length_deltaHeader_le13 {n : Nat} {first : Int} (hn : n < 2147483648)
    (hfirst : 0 ≤ first ∧ first < 2147483648) : (deltaHeader n first).length ≤ 13 := by
  have hcount : (writeUleb128 n).length ≤ 5 :=
    length_writeUleb_le 9 (n := 4) (Nat.lt_of_lt_of_le hn (by decide))
  have hzigzag := (length_zigzag_le hfirst).2
  have hblock : (writeUleb128 deltaBlockSize).length = 2 := rfl
  have hminis : (writeUleb128 deltaMiniBlocks).length = 1 := rfl
  rw [deltaHeader, List.length_append, List.length_append, List.length_append]
  omega

/-- An encode succeeds when its last flush does. -/
theorem deltaEncode_ok_iff {first : Int} {rest : List Int} {capacity : Nat} {enc : DeltaEncoder}
    (hcapacity : 40 ≤ capacity)
    (hput : deltaPut ⟨capacity, deltaHeader (rest.length + 1) first, first, []⟩ rest = .ok enc) :
    (∃ bytes, deltaEncode (first :: rest) capacity = .ok bytes) ↔
      ∃ enc', deltaFlushBlock enc = .ok enc' := by
  unfold deltaEncode
  rw [if_neg (by omega)]
  constructor
  · rintro ⟨bytes, hbytes⟩
    obtain ⟨enc₁, hput', hbytes⟩ := bind_eq_ok.mp hbytes
    obtain ⟨enc', hflush, -⟩ := bind_eq_ok.mp hbytes
    obtain rfl : enc = enc₁ := Except.ok.inj (hput.symm.trans hput')
    exact ⟨enc', hflush⟩
  · rintro ⟨enc', hflush⟩
    exact ⟨enc'.out, bind_eq_ok.mpr ⟨enc, hput, bind_eq_ok.mpr ⟨enc', hflush, rfl⟩⟩⟩

theorem deltaSpread_pair (first v : Int) : deltaSpread [first, v] = 0 := by
  simp [deltaSpread, deltasFrom, deltaAdjusted, toU64, maxNat, bitWidthRequired]

/-- Up to seven lengths: one block, in the buffer until the end. -/
theorem deltaEncode_short_iff {first : Int} {rest : List Int} (hshort : rest.length < 7)
    (hfirst : 0 ≤ first ∧ first < 2147483648) (hrest : ∀ v ∈ rest, 0 ≤ v ∧ v < 2147483648) :
    (∃ bytes, deltaEncode (first :: rest) ((rest.length + 1) * 10 + 100) = .ok bytes) ↔
      DeltaFits (first :: rest) := by
  obtain ⟨last, hput⟩ := deltaPut_short rest ⟨(rest.length + 1) * 10 + 100,
    deltaHeader (rest.length + 1) first, first, []⟩ (by simp; omega)
  rw [deltaEncode_ok_iff (by omega) hput]
  obtain ⟨hpos, hzigzag⟩ := length_zigzag_le hfirst
  have hheader := length_deltaHeader first (show rest.length + 1 < 128 by omega)
  have hsmall := small_deltasFrom hfirst hrest
  have hlength := length_deltasFrom first rest
  unfold DeltaFits
  rw [List.length_cons, List.headD_cons]
  cases hdeltas : deltasFrom first rest with
  | nil =>
    rw [hdeltas, List.length_nil] at hlength
    exact ⟨fun _ h => by omega, fun _ => ⟨_, rfl⟩⟩
  | cons d ds =>
    rw [hdeltas] at hlength hsmall
    rw [List.length_cons] at hlength
    rw [deltaFlushBlock_short (show _ = d :: ds from rfl) (by omega) hsmall]
    have hwidth := (deltaMiniBytes_le (d :: ds) (hsmall _ (foldl_min_mem d ds)) hsmall
      (foldl_min_le d ds)).1
    have hspread : deltaSpread (first :: rest) =
        bitWidthRequired (maxNat (deltaAdjusted (ds.foldl min d) (d :: ds))) := by
      rw [deltaSpread, hdeltas]
    have hzero : ds.length = 0 → deltaSpread (first :: rest) = 0 := by
      intro h
      obtain ⟨v, rfl⟩ := List.length_eq_one_iff.mp (show rest.length = 1 by omega)
      exact deltaSpread_pair first v
    rw [← hspread] at hwidth ⊢
    dsimp only
    rw [hheader]
    generalize deltaSpread (first :: rest) = w at hwidth hzero
    omega

/-- **Ten bytes a value and 100 more** are enough for lengths, unless three to five of them are far
apart. -/
theorem deltaEncode_lengths_iff (values : List Int) (hlen : values.length < 2147483648)
    (hvs : ∀ v ∈ values, 0 ≤ v ∧ v < 2147483648) :
    (∃ bytes, deltaEncode values (values.length * 10 + 100) = .ok bytes) ↔ DeltaFits values := by
  cases values with
  | nil => exact ⟨fun _ h => absurd h (by decide), fun _ => ⟨_, rfl⟩⟩
  | cons first rest =>
    obtain ⟨hfirst, hrest⟩ := List.forall_mem_cons.mp hvs
    by_cases hshort : rest.length < 7
    · exact deltaEncode_short_iff hshort hfirst hrest
    · -- the buffer is never short
      rw [List.length_cons] at hlen
      have hheader := length_deltaHeader_le13 hlen hfirst
      have hstart : DeltaEncoder.Paced ⟨(rest.length + 1) * 10 + 100,
          deltaHeader (rest.length + 1) first, first, []⟩ 0 :=
        ⟨by simp, hfirst, by simp, 0, rfl, hheader⟩
      obtain ⟨enc, hput, hpaced, hcapacity⟩ := hstart.put_all hrest (by simp)
      obtain ⟨blocks, hgiven, hwritten⟩ := hpaced.written
      dsimp only at hcapacity
      obtain ⟨out, hflush, -⟩ := deltaFlushBlock_of_room hpaced.small (by omega)
      rw [List.length_cons, deltaEncode_ok_iff (by omega) hput]
      refine ⟨fun _ h1 h2 => ?_, fun _ => ⟨_, hflush⟩⟩
      rw [List.length_cons] at h1 h2
      omega

end Carquet
