import Carquet.Compression.SnappyBounds
import Carquet.Compression.SnappyRoundTrip

/-!
# What the Snappy decoder accepts

`carquet_snappy_decompress` (snappy.c:452-595) against the format: `snappyDecompress_right`. It takes the
valid streams that fit the destination and no other input, except that the empty input is an empty output,
that the header of a literal of `2^32` bytes passes for an element that adds nothing, and that a build
without vector shuffles copies wrong bytes where it reads ahead.
-/

namespace Carquet

open LittleEndian BackReference Leb128

/-- A valid stream of the output `y`. -/
def SnappyStream (src y : Bytes) : Prop :=
  ∃ (preamble : Bytes) (es : List SnappyElement) (pieces : List Bytes),
    src = preamble ++ pieces.flatten ∧ Preamble preamble y.length ∧
    List.Forall₂ SnappyElement.Encoded es pieces ∧ Decodes [] es y

/-- The input cut into a length and elements, as the decoder takes them. -/
def SnappyCut (src : Bytes) (length : Nat) (es : List SnappyElement) : Prop :=
  ∃ (preamble : Bytes) (pieces : List Bytes), src = preamble ++ pieces.flatten ∧
    Preamble preamble length ∧ List.Forall₂ SnappyElement.Taken es pieces

/-- No element is the header of a literal of `2^32` bytes. -/
def NoWrappedLiteral (src : Bytes) : Prop :=
  ∀ length es, SnappyCut src length es → SnappyElement.literal [] ∉ es

/-- No element is a copy that reads ahead. -/
def NoReadAhead (src : Bytes) : Prop :=
  ∀ length es, SnappyCut src length es → StreamSafe length 0 es

/-- The decoder returns `y`. -/
def SnappyReturns (vectorShuffle : Bool) (src : Bytes) (dst : Memory) (dstCapacity : Nat)
    (y : Bytes) : Prop :=
  ∃ m, snappyDecompress vectorShuffle src dst dstCapacity = .ok (y.length, m) ∧
    cells m y.length = y

/-- What the decoder returns is what the input is a stream of, whatever the destination held. -/
def DecompressRight (vectorShuffle : Bool) (src : Bytes) (dstCapacity : Nat) : Prop :=
  ∀ (dst : Memory) (y : Bytes), SnappyReturns vectorShuffle src dst dstCapacity y ↔
    SnappyStream src y ∧ y.length ≤ dstCapacity

theorem forall₂_encoded {es : List SnappyElement} {pieces : List Bytes}
    (h : List.Forall₂ SnappyElement.Taken es pieces) (hnone : SnappyElement.literal [] ∉ es) :
    List.Forall₂ SnappyElement.Encoded es pieces := by
  induction h with
  | nil => exact .nil
  | cons hone hmore ih =>
    rw [List.mem_cons, not_or] at hnone
    exact .cons (hone.resolve_right fun hw => hnone.1 hw.1.symm) (ih hnone.2)

theorem forall₂_taken {es : List SnappyElement} {pieces : List Bytes}
    (h : List.Forall₂ SnappyElement.Encoded es pieces) : List.Forall₂ SnappyElement.Taken es pieces := by
  induction h with
  | nil => exact .nil
  | cons hone _ ih => exact .cons (.inl hone) ih

/-- An input that is taken is cut into elements that fill the output. -/
theorem snappyDecompress_ok {v : Bool} {src : Bytes} {dst : Memory} {capacity length : Nat}
    {m : Memory} (hne : src ≠ []) (h : snappyDecompress v src dst capacity = .ok (length, m)) :
    length ≤ capacity ∧ ∃ es, SnappyCut src length es ∧ Fits length 0 es ∧ addedBytes es = length := by
  unfold snappyDecompress at h
  rw [if_neg hne] at h
  split at h
  · cases h
  · rename_i n rest hpreamble
    split at h
    · cases h
    · rename_i hcapacity
      obtain ⟨s, hs, hend⟩ := bind_eq_ok.mp h
      split at hend
      · cases hend
      · rename_i hall
        obtain ⟨rfl, rfl⟩ := Prod.mk.inj (Except.ok.inj hend)
        obtain ⟨preamble, rfl, hbytes⟩ := snappyReadVarint_iff.mp hpreamble
        obtain ⟨es, pieces, hrest, htaken, hfits, hop⟩ := decodeElements_shape hs
        obtain ⟨hlen, hnil⟩ : s.op = n ∧ s.rest = [] := by
          simpa only [not_or, ne_eq, Decidable.not_not] using hall
        rw [hnil, List.append_nil] at hrest
        have hsum : s.op = 0 + addedBytes es := hop
        have hpieces : rest = pieces.flatten := hrest
        exact ⟨by omega, es, ⟨preamble, pieces, by rw [hpieces], hbytes, htaken⟩, hfits, by omega⟩

/-- **A valid stream** that fits is decoded. -/
theorem snappyDecompress_stream (v : Bool) {src y : Bytes} (dst : Memory) {capacity : Nat}
    (h : SnappyStream src y) (hcapacity : y.length ≤ capacity)
    (hsafe : v = true ∨ NoReadAhead src) : SnappyReturns v src dst capacity y := by
  obtain ⟨preamble, es, pieces, rfl, hpreamble, henc, hdecodes⟩ := h
  have hcut : SnappyCut (preamble ++ pieces.flatten) y.length es :=
    ⟨preamble, pieces, rfl, hpreamble, forall₂_taken henc⟩
  obtain ⟨m, hdecode, hcells⟩ := decodeElements_encoded v hpreamble.length_lt henc
    (preamble ++ pieces.flatten).length (show Decodes (cells dst 0) es y from hdecodes)
    (Nat.le_refl _) (by rw [List.length_append]; omega) (hsafe.imp_right fun h => h _ _ hcut)
  have hread : snappyReadVarint 4 0 0 (preamble ++ pieces.flatten) =
      some (y.length, pieces.flatten) := snappyReadVarint_iff.mpr ⟨_, rfl, hpreamble⟩
  have hne : preamble ++ pieces.flatten ≠ [] :=
    List.append_ne_nil_of_left_ne_nil hpreamble.numeral.ne_nil _
  refine ⟨m, ?_, hcells⟩
  unfold snappyDecompress
  rw [if_neg hne, hread]
  dsimp only
  rw [if_neg (by omega), hdecode]
  simp [Bind.bind, Except.bind]

theorem decompressRight_of_safe {v : Bool} {src : Bytes} (capacity : Nat) (hne : src ≠ [])
    (hwrapped : NoWrappedLiteral src) (hsafe : v = true ∨ NoReadAhead src) :
    DecompressRight v src capacity := by
  intro dst y
  constructor
  · rintro ⟨m, hm, hy⟩
    obtain ⟨hcapacity, es, hcut, hfits, hsum⟩ := snappyDecompress_ok hne hm
    have hnone := hwrapped _ _ hcut
    obtain ⟨preamble, pieces, hsrc, hpreamble, htaken⟩ := hcut
    obtain ⟨y', hdecodes⟩ := @exists_decodes es [] _ hfits
    have hlen : y'.length = y.length := by
      rw [decodes_length hdecodes, List.length_nil, hsum, Nat.zero_add]
    have hstream : SnappyStream src y' :=
      ⟨preamble, es, pieces, hsrc, hlen ▸ hpreamble, forall₂_encoded htaken hnone, hdecodes⟩
    -- the stream is decoded to what it means, and there is only one result
    obtain ⟨m', hm', hy'⟩ := snappyDecompress_stream v dst hstream (hlen ▸ hcapacity) hsafe
    rw [hm, hlen] at hm'
    obtain ⟨-, rfl⟩ := Prod.mk.inj (Except.ok.inj hm')
    rw [hlen, hy] at hy'
    exact ⟨hy' ▸ hstream, hcapacity⟩
  · rintro ⟨hstream, hcapacity⟩
    exact snappyDecompress_stream v dst hstream hcapacity hsafe

/-- **Decompression**: no access is outside the input or the destination; the empty input is an empty
output; and an input without the header of a literal of `2^32` bytes returns `y` just if it is a valid
stream of `y` and `y` fits, in a build with vector shuffles, and in the others when no copy reads
ahead. -/
theorem snappyDecompress_right (vectorShuffle : Bool) (src : Bytes) (dstCapacity : Nat) :
    (∀ dst, snappyDecompressIn vectorShuffle src dst dstCapacity =
      some (snappyDecompress vectorShuffle src dst dstCapacity)) ∧
    (src = [] → ∀ dst, snappyDecompress vectorShuffle src dst dstCapacity = .ok (0, dst)) ∧
    (src ≠ [] → NoWrappedLiteral src → (vectorShuffle = true ∨ NoReadAhead src) →
      DecompressRight vectorShuffle src dstCapacity) :=
  ⟨fun dst => snappyDecompressIn_eq vectorShuffle src dst dstCapacity, fun h _ => if_pos h,
    fun hne hwrapped hsafe => decompressRight_of_safe dstCapacity hne hwrapped hsafe⟩

/-! ### What is not a stream -/

theorem not_snappyStream_nil (y : Bytes) : ¬ SnappyStream [] y := by
  rintro ⟨preamble, -, pieces, hsrc, hpreamble, -⟩
  exact hpreamble.numeral.ne_nil (List.append_eq_nil_iff.mp hsrc.symm).1

/-- A length of 1, the header of a literal of `2^32` bytes, and a literal of one byte. -/
def wrappedThenOne : Bytes := [1, 252, 255, 255, 255, 255, 0, 97]

theorem not_snappyStream_wrapped (y : Bytes) : ¬ SnappyStream wrappedThenOne y := by
  rintro ⟨preamble, es, pieces, hsrc, hpreamble, henc, -⟩
  have hread : snappyReadVarint 4 0 0 wrappedThenOne = some (y.length, pieces.flatten) :=
    snappyReadVarint_iff.mpr ⟨preamble, hsrc, hpreamble⟩
  have hrest : pieces.flatten = [252, 255, 255, 255, 255, 0, 97] :=
    (Prod.mk.inj (Option.some.inj (hread.symm.trans
      (show _ = some (1, [252, 255, 255, 255, 255, 0, 97]) from rfl)))).2
  cases henc with
  | nil => cases hrest
  | @cons e piece es pieces hone hmore =>
    rw [List.flatten_cons] at hrest
    have hlength := congrArg List.length hrest
    rw [List.length_append] at hlength
    cases hone with
    | @short bytes h0 h =>
      have htag := congrArg UInt8.toNat (List.cons.inj hrest).1
      rw [toNat_ofNat_of_lt (by omega)] at htag
      have : (bytes.length - 1) * 4 = 252 := htag
      omega
    | @long bytes count h1 h4 h0 h =>
      obtain ⟨hhead, htail⟩ := List.cons.inj hrest
      have htag := congrArg UInt8.toNat hhead
      rw [toNat_ofNat_of_lt (by omega)] at htag
      obtain rfl : count = 4 := by
        have : (59 + count) * 4 = 252 := htag
        omega
      have hpos := List.length_pos_of_ne_nil h0
      rw [List.length_cons, List.length_append, length_leBytes] at hlength
      -- the two bytes that are left are no literal of 2^32 bytes
      have hshort : bytes.length - 1 = 0 ∨ bytes.length - 1 = 1 := by
        simp only [List.length_cons, List.length_nil] at hlength
        omega
      rcases hshort with hlen | hlen <;> rw [hlen] at htail <;>
        exact absurd (List.cons.inj htail).1 (by decide)
    | @copy1 offset length h4 h11 h =>
      have htag := congrArg UInt8.toNat (List.cons.inj hrest).1
      rw [toNat_ofNat_of_lt (by omega)] at htag
      have : (length - 4) * 4 + 1 + offset / 256 * 32 = 252 := htag
      omega
    | @copy2 offset length h1 h64 h =>
      have htag := congrArg UInt8.toNat (List.cons.inj hrest).1
      rw [toNat_ofNat_of_lt (by omega)] at htag
      have : (length - 1) * 4 + 2 = 252 := htag
      omega
    | @copy4 offset length h1 h64 h =>
      have htag := congrArg UInt8.toNat (List.cons.inj hrest).1
      rw [toNat_ofNat_of_lt (by omega)] at htag
      have : (length - 1) * 4 + 3 = 252 := htag
      omega

theorem snappyStream_fiveTimesEight : SnappyStream fiveTimesEightStream fiveTimesEight := by
  have hliteral : (SnappyElement.literal [65, 66, 67, 68, 69, 70, 71, 72]).Encoded
      [28, 65, 66, 67, 68, 69, 70, 71, 72] := .short (by decide) (by decide)
  have hcopy : (SnappyElement.copy 8 32).Encoded [126, 8, 0] :=
    .copy2 (by decide) (by decide) (by decide)
  refine ⟨[40], [.literal [65, 66, 67, 68, 69, 70, 71, 72], .copy 8 32], _, rfl,
    ⟨.last (b := 40) (by decide), by decide, by decide⟩, .cons hliteral (.cons hcopy .nil),
    trivial, ⟨by decide, by decide⟩, ?_⟩
  show repeatBack 8 32 [65, 66, 67, 68, 69, 70, 71, 72] = fiveTimesEight
  decide

/-- Each of the three exceptions: the empty input, a literal of `2^32` bytes, and, without vector
shuffles, a copy that reads ahead. -/
theorem snappyDecompress_not_right :
    ¬ DecompressRight true [] 0 ∧ ¬ DecompressRight true wrappedThenOne 1 ∧
    ¬ DecompressRight false fiveTimesEightStream 40 := by
  refine ⟨fun h => ?_, fun h => ?_, fun h => ?_⟩
  · exact not_snappyStream_nil [] ((h (fun _ => 0) []).mp ⟨fun _ => 0, rfl, rfl⟩).1
  · have htaken : SnappyReturns true wrappedThenOne (fun _ => 0) 1 [97] := ⟨_, rfl, by decide⟩
    exact not_snappyStream_wrapped [97] ((h (fun _ => 0) [97]).mp htaken).1
  · obtain ⟨m, hm, hcells⟩ :=
      (h (fun _ => 0) fiveTimesEight).mpr ⟨snappyStream_fiveTimesEight, by decide⟩
    exact fiveTimesEight_lost hm hcells

end Carquet
