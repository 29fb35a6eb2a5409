import Carquet.Compression.Snappy

/-!
# The copies of the Snappy decoder

`copyMatch` and `incrementalCopy` (snappy.c:331-447, 545-566) copy a back reference with loads and
stores of 8, 16 and 64 bytes. Each path keeps `Copied`: the cells stored so far that count have
the period of the back reference.

Main result `copyMatch_cells`. A copy needs blocks of 16 bytes that do not overlap themselves: the
decoder has a path of its own for shorter patterns, except in a build without vector shuffles,
where only patterns below 8 bytes have one.
-/

namespace Carquet

open LittleEndian BackReference

/-- Whether a copy of `length` bytes at `op` reads, with a load of 16 bytes, cells that it has not
stored yet: the pattern has 8 to 15 bytes, and the 16 bytes from `op` on lie in the buffer. -/
def ReadsAhead (offset length op opEnd : Nat) : Prop :=
  8 ≤ offset ∧ offset < 16 ∧ offset < length ∧ op + 16 < opEnd

instance (offset length op opEnd : Nat) : Decidable (ReadsAhead offset length op opEnd) :=
  inferInstanceAs (Decidable (_ ∧ _ ∧ _ ∧ _))

section Paths

variable {m m' : Memory} {base off len : Nat}

/-- `incrementalCopySlow` copies byte by byte, over any multiple of the period. -/
theorem incrementalCopySlow_copied (n : Nat) (h : Copied m base off len m') (hoff : 0 < off)
    (hle : off ≤ len) {gap src op : Nat} (hsrc : src + gap = op) (hop : op = base + len)
    (hdvd : off ∣ gap) (hgap : gap ≤ len) (hpos : 0 < gap) :
    Copied m base off (len + n) (incrementalCopySlow n src op m') := by
  induction n generalizing len src op m' with
  | zero => exact h
  | succ n ih =>
    have hone := h.block hoff hle hsrc hop hdvd hgap (n := 1) (N := 1) hpos (Nat.le_refl 1)
    have := ih hone (by omega) (show src + 1 + gap = op + 1 by omega) (by omega) (by omega)
    rwa [Nat.add_assoc, Nat.add_comm 1 n] at this

/-- It stores nothing before `op`. -/
theorem incrementalCopySlow_before (n : Nat) {src op j : Nat} (m : Memory) (hj : j < op) :
    incrementalCopySlow n src op m j = m j := by
  induction n generalizing src op m with
  | zero => rfl
  | succ n ih => rw [incrementalCopySlow, ih _ (by omega), copyBlock_of_lt hj]

/-- The four blocks of 16 bytes, for a pattern of at least as many. -/
theorem copyBlocks16_copied (h16 : 16 ≤ off) {length src op : Nat} (hlen : length ≤ 64)
    (hsrc : src + off = op) (hop : op = base + off) :
    Copied m base off (off + length) (copyBlocks16 src op length m) := by
  have hoff : 0 < off := by omega
  have hdvd := Nat.dvd_refl off
  have h₁ := (Copied.start m base off).block hoff (Nat.le_refl off) hsrc hop hdvd
    (Nat.le_refl off) h16 (Nat.le_refl 16)
  unfold copyBlocks16
  by_cases h16' : 16 < length
  · have h₂ := h₁.block hoff (by omega) (show src + 16 + off = op + 16 by omega) (by omega)
      hdvd (by omega) h16 (Nat.le_refl 16)
    by_cases h32 : 32 < length
    · have h₃ := h₂.block hoff (by omega) (show src + 32 + off = op + 32 by omega) (by omega)
        hdvd (by omega) h16 (Nat.le_refl 16)
      by_cases h48 : 48 < length
      · have h₄ := h₃.block hoff (by omega) (show src + 48 + off = op + 48 by omega) (by omega)
          hdvd (by omega) h16 (Nat.le_refl 16)
        simp only [if_pos h16', if_pos h32, if_pos h48]
        exact h₄.mono (by omega)
      · simp only [if_pos h16', if_pos h32, if_neg h48]
        exact h₃.mono (by omega)
    · simp only [if_pos h16', if_neg h32, if_neg (show ¬ 48 < length by omega)]
      exact h₂.mono (by omega)
  · simp only [if_neg h16', if_neg (show ¬ 32 < length by omega),
      if_neg (show ¬ 48 < length by omega)]
    exact h₁.mono (by omega)

/-- A back reference that does not overlap itself, in one block. -/
theorem copyBlock_copied {length src op N : Nat} (hoff : 0 < off) (hle : length ≤ off)
    (hN : length ≤ N) (hsrc : src + off = op) (hop : op = base + off) :
    Copied m base off (off + length) (copyBlock N src op m) :=
  (Copied.start m base off).block hoff (Nat.le_refl off) hsrc hop (Nat.dvd_refl off)
    (Nat.le_refl off) hle hN

/-! ### Patterns of at least `big_pattern` bytes -/

/-- What the blocks near the end leave behind, for a pattern of at least 16 bytes. -/
theorem copyBlocksToEnd_copied (bufLimit fuel : Nat) (h : Copied m base off len m') (h16 : 16 ≤ off)
    (hle : off ≤ len) {src op : Nat} (hsrc : src + off = op) (hop : op = base + len) :
    ∃ n, (copyBlocksToEnd bufLimit fuel src op m').1 = src + n ∧
      (copyBlocksToEnd bufLimit fuel src op m').2.1 = op + n ∧
      Copied m base off (len + n) (copyBlocksToEnd bufLimit fuel src op m').2.2 := by
  induction fuel generalizing src op m' len with
  | zero => exact ⟨0, rfl, rfl, h⟩
  | succ fuel ih =>
    unfold copyBlocksToEnd
    split
    · have hone := h.block (by omega) hle hsrc hop (Nat.dvd_refl off) (by omega) h16
        (Nat.le_refl 16)
      obtain ⟨n, hsrc', hop', hcopied⟩ :=
        ih hone (by omega) (show src + 16 + off = op + 16 by omega) (by omega)
      refine ⟨16 + n, by rw [hsrc']; omega, by rw [hop']; omega, ?_⟩
      rwa [← Nat.add_assoc]
    · exact ⟨0, rfl, rfl, h⟩

/-- The blocks near the end store nothing before `op`. -/
theorem copyBlocksToEnd_before (bufLimit fuel : Nat) (src op : Nat) (m : Memory) :
    op ≤ (copyBlocksToEnd bufLimit fuel src op m).2.1 ∧
      ∀ j < op, (copyBlocksToEnd bufLimit fuel src op m).2.2 j = m j := by
  induction fuel generalizing src op m with
  | zero => exact ⟨Nat.le_refl op, fun _ _ => rfl⟩
  | succ fuel ih =>
    unfold copyBlocksToEnd
    split
    · obtain ⟨hop, hbefore⟩ := ih (src + 16) (op + 16) (copyBlock 16 src op m)
      refine ⟨by omega, fun j hj => ?_⟩
      rw [hbefore j (by omega), copyBlock_of_lt hj]
    · exact ⟨Nat.le_refl op, fun _ _ => rfl⟩

/-- The last bytes: a block of 8 where it fits, and single bytes. -/
theorem copyLast_copied (h : Copied m base off len m') (h8 : 8 ≤ off) (hle : off ≤ len)
    {src op opLimit bufLimit : Nat} (hsrc : src + off = op) (hop : op = base + len)
    (hlt : op < opLimit) :
    Copied m base off (opLimit - base)
      (if op + 8 ≤ bufLimit then
        incrementalCopySlow (opLimit - (op + 8)) (src + 8) (op + 8) (copyBlock 8 src op m')
      else incrementalCopySlow (opLimit - op) src op m') := by
  have hoff : 0 < off := by omega
  have hdvd := Nat.dvd_refl off
  split
  · have h₁ := h.block hoff hle hsrc hop hdvd hle h8 (Nat.le_refl 8)
    exact (incrementalCopySlow_copied _ h₁ hoff (by omega) (by omega) (by omega) hdvd (by omega)
      hoff).mono (by omega)
  · exact (incrementalCopySlow_copied _ h hoff hle hsrc hop hdvd hle hoff).mono (by omega)

/-- In the last 16 bytes of the buffer no block of 16 is stored. -/
theorem incrementalCopyBig_last {length src op bufLimit : Nat} (h8 : 8 ≤ off)
    (hsrc : src + off = op) (hop : op = base + off) (hroom : ¬ op + 16 < bufLimit) :
    Copied m base off (off + length)
      (let (src, op', m) := copyBlocksToEnd bufLimit bufLimit src op m
      if op + length ≤ op' then m
      else if op' + 8 ≤ bufLimit then
        incrementalCopySlow (op + length - (op' + 8)) (src + 8) (op' + 8) (copyBlock 8 src op' m)
      else incrementalCopySlow (op + length - op') src op' m) := by
  have hnone : copyBlocksToEnd bufLimit bufLimit src op m = (src, op, m) := by
    cases bufLimit with
    | zero => rfl
    | succ n => rw [copyBlocksToEnd, if_neg hroom]
  rw [hnone]
  simp only
  split
  · exact (Copied.start m base off).mono (by omega)
  · exact (copyLast_copied (Copied.start m base off) h8 (Nat.le_refl off) hsrc hop (by omega)).mono
      (by omega)

/-- A copy of at least `big_pattern` bytes that does not read ahead. -/
theorem incrementalCopyBig_copied {length src op bufLimit : Nat} (h8 : 8 ≤ off)
    (hlen : length ≤ 64) (hsrc : src + off = op) (hop : op = base + off)
    (hsafe : ¬ ReadsAhead off length op bufLimit) :
    Copied m base off (off + length) (incrementalCopyBig src op (op + length) bufLimit m) := by
  have hoff : 0 < off := by omega
  have hstart := Copied.start m base off
  unfold incrementalCopyBig
  rw [show op + length - op = length by omega]
  by_cases h16 : 16 ≤ off
  · split
    · exact copyBlocks16_copied h16 hlen hsrc hop
    · obtain ⟨n, hsrc', hop', hcopied⟩ := copyBlocksToEnd_copied bufLimit bufLimit hstart h16
        (Nat.le_refl off) hsrc hop
      generalize copyBlocksToEnd bufLimit bufLimit src op m = blocks at hsrc' hop' hcopied
      obtain ⟨src', op', m'⟩ := blocks
      simp only at hsrc' hop' hcopied ⊢
      split
      · exact hcopied.mono (by omega)
      · exact (copyLast_copied hcopied h8 (by omega) (by omega) (by omega) (by omega)).mono
          (by omega)
  · unfold ReadsAhead at hsafe
    by_cases hle : length ≤ off
    · split
      · -- at most 15 bytes are wanted, so one block is stored
        unfold copyBlocks16
        simp only [if_neg (show ¬ 16 < length by omega), if_neg (show ¬ 32 < length by omega),
          if_neg (show ¬ 48 < length by omega)]
        exact copyBlock_copied hoff hle (by omega) hsrc hop
      · by_cases hroom : op + 16 < bufLimit
        · obtain ⟨fuel, rfl⟩ : ∃ fuel, bufLimit = fuel + 1 := ⟨bufLimit - 1, by omega⟩
          unfold copyBlocksToEnd
          rw [if_pos hroom]
          have hone := copyBlock_copied (m := m) (N := 16) hoff hle (by omega) hsrc hop
          obtain ⟨hop', hbefore⟩ := copyBlocksToEnd_before (fuel + 1) fuel (src + 16) (op + 16)
            (copyBlock 16 src op m)
          generalize copyBlocksToEnd (fuel + 1) fuel (src + 16) (op + 16)
            (copyBlock 16 src op m) = blocks at hop' hbefore
          obtain ⟨src', op', m'⟩ := blocks
          simp only at hop' hbefore ⊢
          rw [if_pos (by omega)]
          exact hone.beyond (by omega) fun j hj => hbefore j (by omega)
        · exact incrementalCopyBig_last h8 hsrc hop hroom
    · have hroom : ¬ op + 16 < bufLimit := by omega
      rw [if_neg (by omega)]
      exact incrementalCopyBig_last h8 hsrc hop hroom

/-! ### Short patterns, with shuffles -/

/-- Block `j` of the pattern of `off` bytes at `base`. -/
def patternBlock (m : Memory) (base off j : Nat) : Bytes :=
  (List.range 16).map fun i => m (base + (16 * j + i) % off)

theorem snappyMasksOffset0_eq : ∀ off < 16, 0 < off →
    snappyMasksOffset0.getD off [] = (List.range 16).map fun i => i % off := by decide

theorem snappyMasksOffset16_eq : ∀ off < 16, 0 < off →
    snappyMasksOffset16.getD off [] = (List.range 16).map fun i => (16 + i) % off := by decide

theorem shuffle_first (hoff : 0 < off) (hlt : off < 16) :
    shuffle ((List.range 16).map fun i => m (base + i)) (snappyMasksOffset0.getD off []) =
      patternBlock m base off 0 := by
  rw [snappyMasksOffset0_eq off hlt hoff, shuffle, patternBlock, List.map_map]
  refine List.map_congr_left fun i _ => ?_
  have := Nat.mod_lt i hoff
  have hi : i % off < 16 := by omega
  simp [List.getD, List.getElem?_map, List.getElem?_range hi]

theorem shuffle_next (hoff : 0 < off) (hlt : off < 16) (j : Nat) :
    shuffle (patternBlock m base off j) (snappyMasksOffset16.getD off []) =
      patternBlock m base off (j + 1) := by
  rw [snappyMasksOffset16_eq off hlt hoff, shuffle]
  unfold patternBlock
  rw [List.map_map]
  refine List.map_congr_left fun i _ => ?_
  have := Nat.mod_lt (16 + i) hoff
  have hi : (16 + i) % off < 16 := by omega
  simp only [Function.comp, List.getD, List.getElem?_map, List.getElem?_range hi, Option.map_some,
    Option.getD_some, Nat.add_mod_mod]
  congr 3
  ring

/-- One more block of the pattern. -/
theorem patternBlock_copied {j : Nat} (h : Copied m base off (off + 16 * j) m') (hoff : 0 < off)
    {op : Nat} (hop : op = base + off + 16 * j) :
    Copied m base off (off + 16 * (j + 1)) (writeBytes (patternBlock m base off j) op m') := by
  have := h.bytes hoff (by omega) (patternBlock m base off j)
    (show op = base + (off + 16 * j) by omega) fun k hk => ?_
  · simpa [patternBlock, Nat.add_assoc, Nat.mul_add] using this
  · simp [patternBlock, Nat.add_assoc]

/-- The copy of a pattern below 16 bytes. -/
theorem incrementalCopyPattern_copied {length src op : Nat} (hoff : 0 < off) (hlt : off < 16)
    (hlen : length ≤ 64) (hsrc : src + off = op) (hop : op = base + off) :
    Copied m base off (off + length) (incrementalCopyPattern src op (op + length) m) := by
  obtain rfl : src = base := by omega
  have h₁ := patternBlock_copied (j := 0) (Copied.start m src off) hoff
    (show op = src + off + 16 * 0 by omega)
  have h₂ := patternBlock_copied h₁ hoff (show op + 16 = src + off + 16 * 1 by omega)
  have h₃ := patternBlock_copied h₂ hoff (show op + 32 = src + off + 16 * 2 by omega)
  have h₄ := patternBlock_copied h₃ hoff (show op + 48 = src + off + 16 * 3 by omega)
  unfold incrementalCopyPattern
  simp only [show op - src = off by omega, shuffle_first hoff hlt]
  by_cases h16 : 16 < length
  · simp only [if_pos (show op + 16 < op + length by omega), shuffle_next hoff hlt]
    by_cases h32 : 32 < length
    · simp only [if_pos (show op + 32 < op + length by omega), shuffle_next hoff hlt]
      by_cases h48 : 48 < length
      · simp only [if_pos (show op + 48 < op + length by omega)]
        exact h₄.mono (by omega)
      · simp only [if_neg (show ¬ op + 48 < op + length by omega)]
        exact h₃.mono (by omega)
    · simp only [if_neg (show ¬ op + 32 < op + length by omega),
        if_neg (show ¬ op + 48 < op + length by omega)]
      exact h₂.mono (by omega)
  · simp only [if_neg (show ¬ op + 16 < op + length by omega),
      if_neg (show ¬ op + 32 < op + length by omega),
      if_neg (show ¬ op + 48 < op + length by omega)]
    exact h₁.mono (by omega)

/-! ### Short patterns, without shuffles -/

/-- The pattern is doubled until it has 8 bytes: then it ends at `op`, and all of it is right. -/
theorem doublePattern_copied (fuel : Nat) {patternSize op : Nat}
    (h : Copied m base off patternSize m') (hoff : 0 < off) (hop : op = base + patternSize)
    (hdvd : off ∣ patternSize) (hle : off ≤ patternSize) (hfuel : 8 ≤ patternSize * 2 ^ fuel) :
    ∃ size, (doublePattern base fuel op patternSize m').1 = base + size ∧
      (doublePattern base fuel op patternSize m').2.1 = size ∧
      8 ≤ size ∧ off ∣ size ∧ off ≤ size ∧
      Copied m base off size (doublePattern base fuel op patternSize m').2.2 := by
  induction fuel generalizing patternSize op m' with
  | zero => exact ⟨patternSize, hop, rfl, by omega, hdvd, hle, h⟩
  | succ fuel ih =>
    unfold doublePattern
    split
    · have hdouble := h.block hoff hle (show base + patternSize = op by omega) hop hdvd (Nat.le_refl _)
        (Nat.le_refl patternSize) (N := 8) (by omega)
      rw [← Nat.mul_two] at hdouble
      refine ih hdouble (by omega) (Dvd.dvd.mul_right hdvd 2) (by omega) ?_
      rw [Nat.mul_assoc, ← Nat.pow_succ']
      exact hfuel
    · exact ⟨patternSize, hop, rfl, by omega, hdvd, hle, h⟩

/-- The blocks of 8 bytes, over a gap of at least as many. -/
theorem copyBlocks8_copied (opLimit bufLimit fuel : Nat) (h : Copied m base off len m')
    (hoff : 0 < off) (hle : off ≤ len) {gap src op : Nat} (hsrc : src + gap = op)
    (hop : op = base + len) (hdvd : off ∣ gap) (hgap : gap ≤ len) (h8 : 8 ≤ gap) :
    ∃ n, (copyBlocks8 opLimit bufLimit fuel src op m').1 = src + n ∧
      (copyBlocks8 opLimit bufLimit fuel src op m').2.1 = op + n ∧
      Copied m base off (len + n) (copyBlocks8 opLimit bufLimit fuel src op m').2.2 := by
  induction fuel generalizing src op m' len with
  | zero => exact ⟨0, rfl, rfl, h⟩
  | succ fuel ih =>
    unfold copyBlocks8
    split
    · have hone := h.block hoff hle hsrc hop hdvd hgap h8 (Nat.le_refl 8)
      obtain ⟨n, hsrc', hop', hcopied⟩ :=
        ih hone (by omega) (show src + 8 + gap = op + 8 by omega) (by omega) (by omega)
      refine ⟨8 + n, by rw [hsrc']; omega, by rw [hop']; omega, ?_⟩
      rwa [← Nat.add_assoc]
    · exact ⟨0, rfl, rfl, h⟩

/-- The copy of a pattern below 8 bytes. -/
theorem incrementalCopyDoubling_copied {length src op bufLimit : Nat} (hoff : 0 < off)
    (hlt : off < 8) (hsrc : src + off = op) (hop : op = base + off) :
    Copied m base off (off + length) (incrementalCopyDoubling src op (op + length) bufLimit m) := by
  obtain rfl : src = base := by omega
  have hstart := Copied.start m src off
  unfold incrementalCopyDoubling
  split
  · obtain ⟨size, hop', hsize, h8, hdvd, hle, hcopied⟩ := doublePattern_copied 8 hstart hoff hop
      (Nat.dvd_refl off) (Nat.le_refl off) (by omega)
    rw [show op - src = off by omega]
    generalize doublePattern src 8 op off m = doubled at hop' hsize hcopied
    obtain ⟨op', patternSize, m'⟩ := doubled
    simp only at hop' hsize hcopied ⊢
    subst hop' hsize
    split
    · exact hcopied.mono (by omega)
    · obtain ⟨n, hsrc₂, hop₂, hcopied₂⟩ := copyBlocks8_copied (op + length) bufLimit (op + length)
        hcopied hoff hle
        (show src + patternSize - patternSize + patternSize = src + patternSize by omega) rfl hdvd
        (Nat.le_refl _) h8
      generalize copyBlocks8 (op + length) bufLimit (op + length)
        (src + patternSize - patternSize) (src + patternSize) m' = blocks at hsrc₂ hop₂ hcopied₂
      obtain ⟨src₂, op₂, m₂⟩ := blocks
      simp only at hsrc₂ hop₂ hcopied₂ ⊢
      split
      · exact hcopied₂.mono (by omega)
      · exact (incrementalCopySlow_copied _ hcopied₂ hoff (by omega)
          (show _ + patternSize = _ by omega) (by omega) hdvd (by omega) (by omega)).mono (by omega)
  · rw [show op + length - op = length by omega]
    exact incrementalCopySlow_copied length hstart hoff (Nat.le_refl off) hsrc hop
      (Nat.dvd_refl off) (Nat.le_refl off) hoff

/-! ### Every copy -/

/-- `incremental_copy`, where it does not read ahead. -/
theorem incrementalCopy_copied (vectorShuffle : Bool) {length src op bufLimit : Nat}
    (hoff : 0 < off) (hlen : length ≤ 64) (hsrc : src + off = op) (hop : op = base + off)
    (hsafe : vectorShuffle = true ∨ ¬ ReadsAhead off length op bufLimit) :
    Copied m base off (off + length)
      (incrementalCopy vectorShuffle src op (op + length) bufLimit m) := by
  unfold incrementalCopy
  rw [show op - src = off by omega]
  cases vectorShuffle with
  | true =>
    rw [if_pos rfl]
    split
    · split
      · exact incrementalCopyPattern_copied hoff ‹_› hlen hsrc hop
      · rw [show op + length - op = length by omega]
        exact incrementalCopySlow_copied length (Copied.start m base off) hoff (Nat.le_refl off)
          hsrc hop (Nat.dvd_refl off) (Nat.le_refl off) hoff
    · refine incrementalCopyBig_copied (by omega) hlen hsrc hop ?_
      unfold ReadsAhead
      omega
  | false =>
    rw [if_neg (by decide)]
    split
    · exact incrementalCopyDoubling_copied hoff ‹_› hsrc hop
    · exact incrementalCopyBig_copied (by omega) hlen hsrc hop (hsafe.resolve_left (by decide))

end Paths

/-- **The copy of an element**: a back reference, in every build with vector shuffles, and in the
others where the copy does not read ahead. -/
theorem copyMatch_cells (vectorShuffle : Bool) {offset length op opEnd : Nat} (m : Memory)
    (hpos : 0 < offset) (hle : offset ≤ op) (hlen : length ≤ 64)
    (hsafe : vectorShuffle = true ∨ ¬ ReadsAhead offset length op opEnd) :
    cells (copyMatch vectorShuffle offset length op opEnd m) (op + length) =
      repeatBack offset length (cells m op) := by
  have hsrc : op - offset + offset = op := by omega
  have hcopied : Copied m (op - offset) offset (offset + length)
      (copyMatch vectorShuffle offset length op opEnd m) := by
    unfold copyMatch
    generalize (if 64 ≤ opEnd then opEnd - 63 else 0) = opLimitMinSlop
    dsimp only
    split
    next h => exact copyBlocks16_copied h.1 hlen hsrc hsrc.symm
    next =>
      split
      next h => exact copyBlock_copied hpos h.2.2 h.1 hsrc hsrc.symm
      next => exact incrementalCopy_copied vectorShuffle hpos hlen hsrc hsrc.symm hsafe
  have := hcopied.cells_eq hpos
  rwa [hsrc] at this

theorem incrementalCopy_cells (vectorShuffle : Bool) {offset length op opEnd : Nat} (m : Memory)
    (hpos : 0 < offset) (hle : offset ≤ op) (hlen : length ≤ 64)
    (hsafe : vectorShuffle = true ∨ ¬ ReadsAhead offset length op opEnd) :
    cells (incrementalCopy vectorShuffle (op - offset) op (op + length) opEnd m) (op + length) =
      repeatBack offset length (cells m op) := by
  have hsrc : op - offset + offset = op := by omega
  have hcopied := incrementalCopy_copied (m := m) vectorShuffle hpos hlen hsrc hsrc.symm hsafe
  have := hcopied.cells_eq hpos
  rwa [hsrc] at this

end Carquet
