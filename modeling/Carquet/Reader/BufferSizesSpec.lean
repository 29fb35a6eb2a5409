import Carquet.Reader.BufferSizes

/-!
# Which writes fit their buffers

A write fits (`Access.Fits`) when the buffer was sized for elements as large as those written and
has the bytes. `Access.Sound` says when it does, of the reader before the write: the decode buffers
forget for which elements they were made, and the type of a chunk is never compared with the
schema's.
-/

namespace Carquet

/-- The capacity that survives, which a view has not. -/
def DecodeBuffers.keptCapacity (b : DecodeBuffers) : Nat := if b.isView then 0 else b.capacity

/-- Whether decoding a page writes indices. -/
def SizedReader.writesIndices (r : SizedReader) (page : EncodedPage) : Bool :=
  r.preserveDictionary && page.encoding.isDictionary

/-- Whether the decode buffers of a page are made for indices: those that are kept are what they
were, others are made under the flag as it is. -/
def SizedReader.madeForIndices (r : SizedReader) (page : EncodedPage) : Bool :=
  if page.numValues ≤ r.buffers.keptCapacity then r.buffers.preserved else r.preserveDictionary

namespace Access

/-- The bytes a page takes that is decompressed at once. -/
def coalescedSize (valueSize : Nat) (page : CoalescedPage) : Nat :=
  if page.encoding = .plain then page.size
  else page.numValues * BatchColumn.splitWidth valueSize

/-- The bytes written are in the buffer, whose elements are as large as those written. -/
def Fits : Access → Prop
  | .decode r page b =>
    (r.decodes page = true → r.fillSize page.encoding ≤ r.elementSize b.preserved) ∧
      r.cells page * r.fillSize page.encoding ≤ b.bytes ∧
      (0 < r.maxDefLevel → 2 * page.numValues ≤ b.defBytes.getD 0) ∧
      (0 < r.maxRepLevel → 2 * page.numValues ≤ b.repBytes.getD 0)
  | .copy column r cells room =>
    r.elementSize r.preserveDictionary ≤
        BatchColumn.effectiveValueSize column r.preserveDictionary ∧
      cells * r.elementSize r.preserveDictionary ≤ room
  | .rows bytes room => bytes ≤ room
  | .bulkCopy column r _ cells room =>
    r.elementSize r.preserveDictionary ≤ column.valueSize ∧
      cells * r.elementSize r.preserveDictionary ≤ room
  | .coalesced column r _ page start room =>
    r.elementSize false ≤ column.valueSize ∧
      start * r.elementSize false + coalescedSize (r.elementSize false) page ≤ room

/-- Whether a write goes into a slot of the pipeline. -/
def inSlot : Access → Bool
  | .bulkCopy .. => true
  | .coalesced .. => true
  | _ => false

/-- The chunk's type is no wider than the schema's. -/
def NoWider (column : ProjectedColumn) (r : SizedReader) : Prop :=
  getValueSize r.type r.typeLength ≤ column.valueSize

/-- Into buffers made for indices go indices or values that are as narrow, into buffers made for
values no indices that are wider; types agree; the size of a slot does not overflow; a page that is
decompressed at once has the length of its values. -/
def Sound : Access → Prop
  | .decode r page _ => r.decodes page = true →
    (r.madeForIndices page = true →
        r.writesIndices page = true ∨ getValueSize r.type r.typeLength ≤ 4) ∧
      (r.madeForIndices page = false →
        r.writesIndices page = true → 4 ≤ getValueSize r.type r.typeLength)
  | .copy column r _ _ => r.preserveDictionary = false → NoWider column r
  | .rows _ _ => True
  | .bulkCopy column r numRows _ _ =>
    NoWider column r ∧ numRows.toNat * column.valueSize < 18446744073709551616
  | .coalesced column r numRows page _ _ =>
    NoWider column r ∧ numRows.toNat * column.valueSize < 18446744073709551616 ∧
      coalescedSize (r.elementSize false) page ≤ page.numValues * r.elementSize false

instance (column : ProjectedColumn) (r : SizedReader) : Decidable (NoWider column r) :=
  inferInstanceAs (Decidable (_ ≤ _))

instance (a : Access) : Decidable a.Fits :=
  match a with
  | .decode .. => inferInstanceAs (Decidable (_ ∧ _))
  | .copy .. => inferInstanceAs (Decidable (_ ∧ _))
  | .rows .. => inferInstanceAs (Decidable (_ ≤ _))
  | .bulkCopy .. => inferInstanceAs (Decidable (_ ∧ _))
  | .coalesced .. => inferInstanceAs (Decidable (_ ∧ _))

instance (a : Access) : Decidable a.Sound :=
  match a with
  | .decode .. => inferInstanceAs (Decidable (_ → _))
  | .copy .. => inferInstanceAs (Decidable (_ → _))
  | .rows .. => inferInstanceAs (Decidable True)
  | .bulkCopy .. => inferInstanceAs (Decidable (_ ∧ _))
  | .coalesced .. => inferInstanceAs (Decidable (_ ∧ _))

end Access

@[simp] theorem getValueSize_boolean (typeLength : Int) :
    getValueSize .boolean typeLength = 1 := rfl

namespace SizedReader

/-! ## The decode buffers -/

/-- What the decode buffers of a reader always satisfy: their bytes are those of `decoded_capacity`
elements of the size they were made for, and their levels are as many. -/
structure Sized (r : SizedReader) (b : DecodeBuffers) : Prop where
  bytes_eq : b.bytes = b.capacity * r.elementSize b.preserved
  defBytes_eq : 0 < b.capacity → 0 < r.maxDefLevel → b.defBytes = some (2 * b.capacity)
  repBytes_eq : 0 < b.capacity → 0 < r.maxRepLevel → b.repBytes = some (2 * b.capacity)

/-- Another reader of the same column, whatever it has read. -/
structure Kin (r r' : SizedReader) : Prop where
  type_eq : r'.type = r.type
  typeLength_eq : r'.typeLength = r.typeLength
  maxDefLevel_eq : r'.maxDefLevel = r.maxDefLevel
  maxRepLevel_eq : r'.maxRepLevel = r.maxRepLevel
  preserve_eq : r'.preserveDictionary = r.preserveDictionary

theorem Kin.refl (r : SizedReader) : Kin r r := ⟨rfl, rfl, rfl, rfl, rfl⟩

theorem Kin.trans {r s t : SizedReader} (h : Kin r s) (k : Kin s t) : Kin r t :=
  ⟨k.1.trans h.1, k.2.trans h.2, k.3.trans h.3, k.4.trans h.4, k.5.trans h.5⟩

theorem Kin.elementSize_eq {r r' : SizedReader} (h : Kin r r') (preserved : Bool) :
    r'.elementSize preserved = r.elementSize preserved := by
  unfold elementSize
  rw [h.type_eq, h.typeLength_eq]

theorem Sized.kin {r r' : SizedReader} {b : DecodeBuffers} (hb : Sized r b) (h : Kin r r') :
    Sized r' b := by
  refine ⟨?_, ?_, ?_⟩
  · rw [h.elementSize_eq]
    exact hb.bytes_eq
  · rw [h.maxDefLevel_eq]
    exact hb.defBytes_eq
  · rw [h.maxRepLevel_eq]
    exact hb.repBytes_eq

theorem sized_of_capacity_zero {r : SizedReader} {b : DecodeBuffers} (hbytes : b.bytes = 0)
    (hcapacity : b.capacity = 0) : Sized r b := by
  refine ⟨?_, ?_, ?_⟩
  · rw [hbytes, hcapacity, Nat.zero_mul]
  · omega
  · omega

theorem sized_dropView {r : SizedReader} {b : DecodeBuffers} (h : Sized r b) :
    Sized r (dropView b) := by
  unfold dropView
  split
  · exact sized_of_capacity_zero rfl rfl
  · exact h

theorem dropView_capacity (b : DecodeBuffers) : (dropView b).capacity = b.keptCapacity := by
  unfold dropView DecodeBuffers.keptCapacity
  split
  · rfl
  · rfl

theorem dropView_preserved (b : DecodeBuffers) : (dropView b).preserved = b.preserved := by
  unfold dropView
  split
  · rfl
  · rfl

theorem allocLevels_eq {alloc : Nat → Bool} {maxLevel : Int} {n : Nat}
    (h : allocLevels alloc maxLevel n ≠ none) : allocLevels alloc maxLevel n = some (2 * n) := by
  unfold allocLevels at h ⊢
  split at h
  · rw [if_pos ‹_›]
  · exact absurd rfl h

theorem growBuffers_preserved (r : SizedReader) (alloc : Nat → Bool) (page : EncodedPage) :
    (r.growBuffers alloc page.numValues).preserved = r.madeForIndices page := by
  unfold growBuffers madeForIndices
  simp only [dropView_capacity]
  by_cases hgrow : r.buffers.keptCapacity < page.numValues
  · rw [if_pos hgrow, if_neg (Nat.not_le.mpr hgrow)]
  · rw [if_neg hgrow, if_pos (Nat.le_of_not_lt hgrow)]
    exact dropView_preserved _

/-- Buffers that lack nothing have the size of the elements they are made for, and are large
enough. -/
theorem growBuffers_sized {r : SizedReader} (h : Sized r r.buffers) {alloc : Nat → Bool} {n : Nat}
    (hlacks : ¬ r.lacksBuffers n (r.growBuffers alloc n)) :
    Sized r (r.growBuffers alloc n) ∧ n ≤ (r.growBuffers alloc n).capacity := by
  have hdropped := sized_dropView h
  unfold growBuffers at hlacks ⊢
  simp only at hlacks ⊢
  split at hlacks
  · -- made anew
    rename_i hgrow
    rw [if_pos hgrow]
    simp only [lacksBuffers, not_or, not_and] at hlacks
    obtain ⟨hbytes, hdef, hrep⟩ := hlacks
    refine ⟨⟨?_, fun _ hmax => allocLevels_eq (hdef hmax),
      fun _ hmax => allocLevels_eq (hrep hmax)⟩, Nat.le_refl n⟩
    simp only
    split
    · exact Nat.mul_comm _ _
    · rename_i hfail
      rw [if_neg hfail] at hbytes
      have hzero : r.elementSize r.preserveDictionary * n = 0 := by
        by_contra hne
        exact hbytes (Nat.pos_of_ne_zero hne) rfl
      rw [Nat.mul_comm, hzero]
  · -- kept
    rename_i hkeep
    rw [if_neg hkeep]
    have hlevels : ∀ {maxLevel : Int} {bytes : Option Nat},
        (0 < (dropView r.buffers).capacity → 0 < maxLevel →
          bytes = some (2 * (dropView r.buffers).capacity)) →
        0 < (dropView r.buffers).capacity → 0 < maxLevel →
        (if 0 < maxLevel then bytes.orElse fun _ => allocLevels alloc maxLevel n else none) =
          some (2 * (dropView r.buffers).capacity) := by
      intro maxLevel bytes hbytes hpos hmax
      rw [if_pos hmax, hbytes hpos hmax]
      rfl
    exact ⟨⟨hdropped.bytes_eq, hlevels hdropped.defBytes_eq, hlevels hdropped.repBytes_eq⟩,
      Nat.le_of_not_lt hkeep⟩

/-- `ensure_decoded_page_buffers` keeps the reader, whether it fails or not. -/
theorem ensureDecodedPageBuffers_kin (r : SizedReader) (alloc : Nat → Bool) (n : Nat) :
    Kin r (r.ensureDecodedPageBuffers alloc n).2 := by
  unfold ensureDecodedPageBuffers
  split
  · exact .refl r
  split
  · exact .refl r
  simp only
  split
  · exact ⟨rfl, rfl, rfl, rfl, rfl⟩
  · exact ⟨rfl, rfl, rfl, rfl, rfl⟩

theorem ensureDecodedPageBuffers_sized {r : SizedReader} (h : Sized r r.buffers)
    (alloc : Nat → Bool) (n : Nat) : Sized r (r.ensureDecodedPageBuffers alloc n).2.buffers := by
  unfold ensureDecodedPageBuffers
  split
  · exact h
  split
  · exact h
  simp only
  split
  · exact sized_of_capacity_zero rfl rfl
  · exact (growBuffers_sized h ‹_›).1

/-- What it leaves when it succeeds. -/
theorem ensureDecodedPageBuffers_ok {r r' : SizedReader} (h : Sized r r.buffers)
    {alloc : Nat → Bool} {page : EncodedPage}
    (hensure : r.ensureDecodedPageBuffers alloc page.numValues = (.ok (), r')) :
    page.numValues ≤ r'.buffers.capacity ∧
      r'.buffers.preserved = r.madeForIndices page := by
  unfold ensureDecodedPageBuffers at hensure
  split at hensure
  · cases hensure
  split at hensure
  · cases hensure
  simp only at hensure
  split at hensure
  · cases hensure
  · obtain rfl := (Prod.mk.inj hensure).2
    exact ⟨(growBuffers_sized h ‹_›).2, r.growBuffers_preserved alloc page⟩

/-! ## Decoding a page -/

theorem present_le (r : SizedReader) (page : EncodedPage) : r.present page ≤ page.numValues := by
  unfold present
  split
  · refine Nat.le_trans List.countP_le_length ?_
    rw [List.length_take]
    exact Nat.min_le_left _ _
  · exact Nat.le_refl _

theorem cells_le (r : SizedReader) (page : EncodedPage) : r.cells page ≤ page.numValues := by
  have hpresent := r.present_le page
  unfold cells
  split
  · split
    · exact Nat.le_trans (Nat.min_le_right _ _) hpresent
    · split
      · exact Nat.le_refl _
      · exact hpresent
  · exact Nat.zero_le _

theorem cells_eq_zero {r : SizedReader} {page : EncodedPage} (h : r.decodes page = false) :
    r.cells page = 0 := by
  unfold cells
  rw [if_neg (by simp [h])]

/-- The elements a page writes are those of its decode buffers or smaller, just if it is sound. -/
theorem fillSize_le_iff (r : SizedReader) (page : EncodedPage) :
    r.fillSize page.encoding ≤ r.elementSize (r.madeForIndices page) ↔
      (r.madeForIndices page = true →
        r.writesIndices page = true ∨ getValueSize r.type r.typeLength ≤ 4) ∧
      (r.madeForIndices page = false →
        r.writesIndices page = true → 4 ≤ getValueSize r.type r.typeLength) := by
  unfold fillSize elementSize writesIndices
  by_cases htype : r.type = .boolean
  · cases r.madeForIndices page <;> cases r.preserveDictionary <;>
    cases page.encoding.isDictionary <;> simp [htype]
  · cases r.madeForIndices page <;> cases r.preserveDictionary <;>
    cases page.encoding.isDictionary <;> simp [htype]

/-- A write into the decode buffers fits just if it is sound. -/
theorem decode_fits_iff {r r' : SizedReader} (h : Sized r r.buffers) {alloc : Nat → Bool}
    {page : EncodedPage}
    (hensure : r.ensureDecodedPageBuffers alloc page.numValues = (.ok (), r')) :
    (Access.decode r page r'.buffers).Fits ↔ (Access.decode r page r'.buffers).Sound := by
  have hsized : Sized r r'.buffers := by
    have := ensureDecodedPageBuffers_sized h alloc page.numValues
    rwa [hensure] at this
  obtain ⟨hcapacity, hmade⟩ := ensureDecodedPageBuffers_ok h hensure
  have hpos : 0 < r'.buffers.capacity := Nat.lt_of_lt_of_le page.numValues_pos hcapacity
  simp only [Access.Fits, Access.Sound, hmade]
  constructor
  · rintro ⟨hfill, -⟩ hdecodes
    exact (r.fillSize_le_iff page).mp (hfill hdecodes)
  · intro hsound
    refine ⟨fun hdecodes => (r.fillSize_le_iff page).mpr (hsound hdecodes), ?_, ?_, ?_⟩
    · cases hdecodes : r.decodes page with
      | false =>
        rw [cells_eq_zero hdecodes, Nat.zero_mul]
        exact Nat.zero_le _
      | true =>
        rw [hsized.bytes_eq, hmade]
        exact Nat.mul_le_mul (Nat.le_trans (r.cells_le page) hcapacity)
          ((r.fillSize_le_iff page).mpr (hsound hdecodes))
    · intro hmax
      rw [hsized.defBytes_eq hpos hmax]
      exact Nat.mul_le_mul_left 2 hcapacity
    · intro hmax
      rw [hsized.repBytes_eq hpos hmax]
      exact Nat.mul_le_mul_left 2 hcapacity

/-! ## Loads and batches -/

/-- What each call on a reader does: it stays a reader of its column, its buffers keep their sizes,
and what it writes fits just if it is sound. -/
structure Keeps (r r' : SizedReader) (accesses : List Access) : Prop where
  kin : Kin r r'
  sized : Sized r r.buffers → Sized r r'.buffers
  fits : Sized r r.buffers → ∀ a ∈ accesses, a.Fits ↔ a.Sound

theorem fits_nil (a : Access) (h : a ∈ []) : a.Fits ↔ a.Sound := absurd h List.not_mem_nil

theorem Keeps.refl (r : SizedReader) : Keeps r r [] := ⟨.refl r, id, fun _ => fits_nil⟩

theorem Keeps.trans {r s t : SizedReader} {first later : List Access} (h : Keeps r s first)
    (k : Keeps s t later) : Keeps r t (first ++ later) := by
  have hsized (hr : Sized r r.buffers) : Sized s s.buffers := (h.sized hr).kin h.kin
  have hback : Kin s r := ⟨h.1.1.symm, h.1.2.symm, h.1.3.symm, h.1.4.symm, h.1.5.symm⟩
  refine ⟨h.kin.trans k.kin, fun hr => (k.sized (hsized hr)).kin hback, fun hr a ha => ?_⟩
  rcases List.mem_append.mp ha with hfirst | hlater
  · exact h.fits hr a hfirst
  · exact k.fits (hsized hr) a hlater

/-- The same buffers. -/
theorem keeps_of_buffers_eq {r r' : SizedReader} (h : Kin r r') (hb : r'.buffers = r.buffers) :
    Keeps r r' [] := by
  refine ⟨h, fun hr => ?_, fun _ => fits_nil⟩
  rw [hb]
  exact hr

theorem keeps_viewPage (r : SizedReader) (page : EncodedPage) : Keeps r (r.viewPage page) [] :=
  ⟨⟨rfl, rfl, rfl, rfl, rfl⟩, fun _ => sized_of_capacity_zero rfl rfl, fun _ => fits_nil⟩

theorem keeps_decodePage (r : SizedReader) (alloc : Nat → Bool) (page : EncodedPage) :
    Keeps r (r.decodePage alloc page).2.1 (r.decodePage alloc page).2.2 := by
  have hkin := r.ensureDecodedPageBuffers_kin alloc page.numValues
  unfold decodePage
  rcases hensure : r.ensureDecodedPageBuffers alloc page.numValues with ⟨_ | _, r'⟩ <;>
  rw [hensure] at hkin
  · refine ⟨hkin, fun hr => ?_, fun _ => fits_nil⟩
    have hsized := ensureDecodedPageBuffers_sized hr alloc page.numValues
    rwa [hensure] at hsized
  · have hsized (hr : Sized r r.buffers) : Sized r r'.buffers := by
      have := ensureDecodedPageBuffers_sized hr alloc page.numValues
      rwa [hensure] at this
    have hfits (hr : Sized r r.buffers) :
        ∀ a ∈ [Access.decode r page r'.buffers], a.Fits ↔ a.Sound := by
      intro a ha
      obtain rfl := List.mem_singleton.mp ha
      exact decode_fits_iff hr hensure
    simp only
    split
    · exact ⟨⟨hkin.1, hkin.2, hkin.3, hkin.4, hkin.5⟩, hsized, hfits⟩
    · exact ⟨hkin, hsized, hfits⟩

theorem keeps_loadNextPage (r : SizedReader) (attempt : PageAttempt) :
    Keeps r (r.loadNextPage attempt).2.1 (r.loadNextPage attempt).2.2 := by
  unfold loadNextPage
  simp only
  split
  · exact .refl r
  have hdict (dict : Bool) : Keeps r { r with hasDictionary := dict } [] :=
    keeps_of_buffers_eq ⟨rfl, rfl, rfl, rfl, rfl⟩ rfl
  split
  · exact hdict _
  split
  · exact (hdict _).trans (keeps_viewPage _ _)
  split
  · split
    · exact hdict _
    · exact (hdict _).trans (keeps_viewPage _ _)
  · exact (hdict _).trans (keeps_decodePage _ _ _)

theorem keeps_loadFrom (r : SizedReader) (attempts : List PageAttempt) :
    Keeps r (r.loadFrom attempts).1.2.1 (r.loadFrom attempts).1.2.2 := by
  cases attempts with
  | nil => exact .refl r
  | cons attempt attempts => exact keeps_loadNextPage r attempt

theorem keeps_ensurePageLoaded (r : SizedReader) (attempts : List PageAttempt) :
    Keeps r (r.ensurePageLoaded attempts).1.2.1 (r.ensurePageLoaded attempts).1.2.2 := by
  unfold ensurePageLoaded
  split
  · exact keeps_loadFrom r attempts
  split
  · have hpage : Keeps r { r with page := none } [] :=
      keeps_of_buffers_eq ⟨rfl, rfl, rfl, rfl, rfl⟩ rfl
    exact hpage.trans (keeps_loadFrom _ attempts)
  · exact .refl r

theorem keeps_take (r : SizedReader) (n : Nat) : Keeps r (r.take n) [] :=
  keeps_of_buffers_eq ⟨rfl, rfl, rfl, rfl, rfl⟩ rfl

/-- A slice has as many rows as are asked for at most, and no more cells than rows. -/
theorem nextSlice_le (r : SizedReader) {maxValues : Int} (hpos : 0 < maxValues) :
    ((r.nextSlice maxValues).1 : Int) ≤ maxValues ∧
      (r.nextSlice maxValues).2 ≤ (r.nextSlice maxValues).1 := by
  have htoI32 : toI32 maxValues ≤ maxValues := by
    unfold toI32
    omega
  unfold nextSlice
  split
  · exact ⟨by simp only; omega, Nat.le_refl _⟩
  simp only
  split
  · refine ⟨by simp only; omega, ?_⟩
    simp only
    split
    · refine Nat.le_trans List.countP_le_length ?_
      rw [List.length_take]
      exact Nat.min_le_left _ _
    · exact Nat.le_refl _
  · exact ⟨by simp only; omega, Nat.le_refl _⟩

/-- The loop keeps its counters within the batch. -/
theorem keeps_readBatchLoop {maxValues : Int} (fuel : Nat) (r : SizedReader)
    (attempts : List PageAttempt) (total dense : Nat) :
    Keeps r (readBatchLoop maxValues fuel r attempts total dense).2.1
        (readBatchLoop maxValues fuel r attempts total dense).2.2 ∧
      ((total : Int) ≤ maxValues → dense ≤ total → ∀ count cells,
        (readBatchLoop maxValues fuel r attempts total dense).1 = some (count, cells) →
        (count : Int) ≤ maxValues ∧ cells ≤ count) := by
  have hhere : ∀ {total dense : Nat}, (total : Int) ≤ maxValues → dense ≤ total →
      ∀ count cells, some (total, dense) = some (count, cells) →
      (count : Int) ≤ maxValues ∧ cells ≤ count := by
    intro total dense h hdense count cells heq
    obtain ⟨rfl, rfl⟩ := Prod.mk.inj (Option.some.inj heq)
    exact ⟨h, hdense⟩
  induction fuel generalizing r attempts total dense with
  | zero => exact ⟨.refl r, fun h hdense => hhere h hdense⟩
  | succ fuel ih =>
    rw [readBatchLoop]
    by_cases hmore : (total : Int) < maxValues ∧ 0 < r.valuesRemaining
    · rw [if_pos hmore]
      have hload := keeps_ensurePageLoaded r attempts
      rcases hens : r.ensurePageLoaded attempts with ⟨⟨_ | _, s, accesses⟩, rest⟩ <;>
      rw [hens] at hload
      · refine ⟨hload, fun h hdense count cells heq => ?_⟩
        simp only at heq
        split at heq
        · exact hhere h hdense count cells heq
        · cases heq
      · simp only
        split
        · exact ⟨hload, fun h hdense => hhere h hdense⟩
        · obtain ⟨hkeeps, hcount⟩ := ih (s.take (s.nextSlice (maxValues - total)).1) rest
            (total + (s.nextSlice (maxValues - total)).1)
            (dense + (s.nextSlice (maxValues - total)).2)
          refine ⟨hload.trans ((keeps_take s _).trans hkeeps), fun h hdense => ?_⟩
          obtain ⟨hrows, hcells⟩ :=
            s.nextSlice_le (show 0 < maxValues - (total : Int) by omega)
          exact hcount (by omega) (by omega)
    · rw [if_neg hmore]
      exact ⟨.refl r, fun h hdense => hhere h hdense⟩

theorem keeps_readBatch (r : SizedReader) (maxValues : Int) (attempts : List PageAttempt) :
    Keeps r (r.readBatch maxValues attempts).2.1 (r.readBatch maxValues attempts).2.2 := by
  unfold readBatch
  split
  · exact .refl r
  split
  · split
    · exact keeps_ensurePageLoaded r attempts
    · exact .refl r
  split
  · exact .refl r
  · exact (keeps_readBatchLoop _ r attempts 0 0).1

/-- A batch has as many rows as are asked for at most, and no more cells than rows. -/
theorem readBatch_le {r : SizedReader} {maxValues : Int} {attempts : List PageAttempt}
    {count cells : Nat}
    (h : (r.readBatch maxValues attempts).1 = some (count, cells)) :
    (count : Int) ≤ maxValues ∧ cells ≤ count := by
  unfold readBatch at h
  split at h
  · cases h
  have hzero (hpos : ¬ maxValues < 0) (heq : some (0, 0) = some (count, cells)) :
      (count : Int) ≤ maxValues ∧ cells ≤ count := by
    obtain ⟨rfl, rfl⟩ := Prod.mk.inj (Option.some.inj heq)
    exact ⟨by omega, Nat.le_refl 0⟩
  split at h
  · split at h
    · exact hzero ‹_› h
    · exact hzero ‹_› h
  split at h
  · exact hzero ‹_› h
  · exact (keeps_readBatchLoop _ r attempts 0 0).2 (by omega) (Nat.le_refl 0) count cells h

theorem keeps_reset_sized {r : SizedReader} (h : Sized r r.buffers) (chunk : ChunkMeta) :
    Sized (r.reset chunk) (r.reset chunk).buffers :=
  (sized_dropView h).kin ⟨rfl, rfl, rfl, rfl, rfl⟩

theorem sized_getColumn (column : ProjectedColumn) (chunk : ChunkMeta) :
    Sized (getColumn column chunk) (getColumn column chunk).buffers :=
  sized_of_capacity_zero rfl rfl

end SizedReader

namespace BatchColumn

open SizedReader

/-! ## Columns of a batch reader -/

/-- The writes of a call: each that is sound fits, and outside a slot only those. -/
def Exact (accesses : List Access) : Prop :=
  ∀ a ∈ accesses, (a.Sound → a.Fits) ∧ (a.inSlot = false → a.Fits → a.Sound)

theorem exact_nil : Exact [] := fun _ ha => absurd ha List.not_mem_nil

theorem exact_of_iff {accesses : List Access} (h : ∀ a ∈ accesses, a.Fits ↔ a.Sound) :
    Exact accesses := fun a ha => ⟨(h a ha).mpr, fun _ => (h a ha).mp⟩

theorem Exact.append {first later : List Access} (h : Exact first) (k : Exact later) :
    Exact (first ++ later) := by
  intro a ha
  rcases List.mem_append.mp ha with hfirst | hlater
  · exact h a hfirst
  · exact k a hlater

/-- The readers of a column have decode buffers of their sizes, and that of a slot never keeps
indices. -/
structure Inv (c : BatchColumn) : Prop where
  sized : Sized c.reader c.reader.buffers
  slot_sized : ∀ r, c.slot.reader = some r → Sized r r.buffers
  slot_preserve : ∀ r, c.slot.reader = some r → r.preserveDictionary = false

theorem Inv.withReader {c : BatchColumn} (h : Inv c) {r : SizedReader} (pool : ColumnPool)
    (hr : Sized r r.buffers) : Inv { c with reader := r, pool := pool } :=
  ⟨hr, h.slot_sized, h.slot_preserve⟩

theorem keeps_sized {r r' : SizedReader} {accesses : List Access} (h : Keeps r r' accesses)
    (hr : Sized r r.buffers) : Sized r' r'.buffers := (h.sized hr).kin h.kin

theorem poolEnsure_le {alloc : Nat → Bool} {capacity needed room : Nat}
    (h : poolEnsure alloc capacity needed = some room) : needed ≤ room := by
  unfold poolEnsure at h
  split at h
  · rename_i hle
    obtain rfl := Option.some.inj h
    exact hle
  split at h
  · obtain rfl := Option.some.inj h
    exact Nat.le_refl _
  · cases h

/-- A copy of as many cells as there are rows fits just if the types agree. -/
theorem copy_fits_iff {column : ProjectedColumn} {r : SizedReader} {cells rows room : Nat}
    (hcells : cells ≤ rows)
    (hroom : effectiveValueSize column r.preserveDictionary * rows ≤ room) :
    (Access.copy column r cells room).Fits ↔ (Access.copy column r cells room).Sound := by
  simp only [Access.Fits, Access.Sound, Access.NoWider]
  unfold elementSize effectiveValueSize at *
  cases hp : r.preserveDictionary with
  | true =>
    rw [hp, if_pos rfl] at hroom
    rw [if_pos rfl, if_pos rfl]
    refine iff_of_true ⟨Nat.le_refl 4, ?_⟩ nofun
    calc cells * 4 ≤ rows * 4 := Nat.mul_le_mul_right 4 hcells
      _ = 4 * rows := Nat.mul_comm rows 4
      _ ≤ room := hroom
  | false =>
    rw [hp, if_neg (by decide)] at hroom
    rw [if_neg (by decide), if_neg (by decide)]
    refine ⟨fun h _ => h.1, fun h => ⟨h rfl, ?_⟩⟩
    calc cells * getValueSize r.type r.typeLength ≤ rows * column.valueSize :=
          Nat.mul_le_mul hcells (h rfl)
      _ = column.valueSize * rows := Nat.mul_comm _ _
      _ ≤ room := hroom

theorem exact_perRow {nullable : Bool} {buffer : Option Nat} {bytes : Nat}
    (h : nullable = true → ∀ room, buffer = some room → bytes ≤ room) :
    Exact (perRow nullable buffer bytes) := by
  unfold perRow
  split
  · rename_i room
    intro a ha
    obtain rfl := List.mem_singleton.mp ha
    exact ⟨fun _ => h rfl room rfl, fun _ _ => trivial⟩
  · exact exact_nil

theorem inv_copyRows {c : BatchColumn} (h : Inv c) (alloc : Nat → Bool) (rows : Int)
    (attempts : List PageAttempt) :
    Inv (c.copyRows alloc rows attempts).1 ∧ Exact (c.copyRows alloc rows attempts).2 := by
  have hkeeps := keeps_readBatch c.reader rows attempts
  unfold copyRows
  simp only
  split
  · exact ⟨h, exact_nil⟩
  split
  · exact ⟨⟨h.sized, h.slot_sized, h.slot_preserve⟩, exact_nil⟩
  rename_i hsizes _ data hdata
  simp only [not_or, Int.not_le] at hsizes
  obtain ⟨-, hrows, -⟩ := hsizes
  have hdata := poolEnsure_le hdata
  rcases hread : c.reader.readBatch rows attempts with ⟨_ | ⟨count, cells⟩, r, accesses⟩ <;>
  rw [hread] at hkeeps
  · exact ⟨h.withReader _ (keeps_sized hkeeps h.sized), exact_of_iff (hkeeps.fits h.sized)⟩
  have hcount := readBatch_le (congrArg Prod.fst hread)
  have hle : count ≤ rows.toNat := by omega
  refine ⟨h.withReader _ (keeps_sized hkeeps h.sized), ?_⟩
  have hcopy : Exact [.copy c.column r cells data] := by
    refine exact_of_iff fun a ha => ?_
    obtain rfl := List.mem_singleton.mp ha
    refine copy_fits_iff (hcount.2.trans hle) ?_
    rw [hkeeps.kin.preserve_eq]
    exact hdata
  refine ((((exact_of_iff (hkeeps.fits h.sized)).append hcopy).append (exact_perRow ?_)).append
    (exact_perRow ?_)).append (exact_perRow ?_)
  · -- the levels
    intro hnull room hroom
    rw [if_pos hnull] at hroom
    have := poolEnsure_le hroom
    omega
  · -- the expanded values
    intro _ room hroom
    obtain ⟨-, -, rfl⟩ := Option.map_eq_some_iff.mp hroom
    exact (Nat.mul_le_mul_right _ hle).trans ((Nat.mul_comm _ _).trans_le hdata)
  · -- the bitmap
    intro hnull room hroom
    obtain ⟨_, -, hroom⟩ := Option.bind_eq_some_iff.mp hroom
    rw [if_pos hnull] at hroom
    have := poolEnsure_le hroom
    omega

theorem inv_readProjectedColumn {c : BatchColumn} (h : Inv c) (alloc : Nat → Bool) (rows : Int)
    (peeked attempts : List PageAttempt) :
    Inv (c.readProjectedColumn alloc rows peeked attempts).1 ∧
      Exact (c.readProjectedColumn alloc rows peeked attempts).2 := by
  have hsized : Sized c.setPreserve c.setPreserve.buffers :=
    ⟨h.sized.bytes_eq, h.sized.defBytes_eq, h.sized.repBytes_eq⟩
  have hkeeps : Keeps c.setPreserve (c.tryZeroCopy c.setPreserve peeked).1
      (c.tryZeroCopy c.setPreserve peeked).2 := by
    unfold tryZeroCopy
    split
    · exact keeps_readBatch _ 0 peeked
    · exact .refl _
  unfold readProjectedColumn
  rcases hpeek : c.tryZeroCopy c.setPreserve peeked with ⟨r, accesses⟩
  rw [hpeek] at hkeeps
  have hr := keeps_sized hkeeps hsized
  have hexact := exact_of_iff (hkeeps.fits hsized)
  simp only
  split
  · exact ⟨h.withReader c.pool (keeps_sized (keeps_take r _) hr), hexact⟩
  · obtain ⟨hinv, hlater⟩ := inv_copyRows (h.withReader c.pool hr) alloc rows attempts
    exact ⟨hinv, hexact.append hlater⟩

/-! ## Slots -/

/-- The size of a slot that does not overflow. -/
theorem toU64_mul_mod {n : Int} {size : Nat} (hpos : 0 < n)
    (h : n.toNat * size < 18446744073709551616) :
    toU64 n * size % 18446744073709551616 = n.toNat * size := by
  have htoU64 : toU64 n = n.toNat % 18446744073709551616 := by
    unfold toU64
    omega
  rw [htoU64, Nat.mod_mul_mod, Nat.mod_eq_of_lt h]

theorem exact_coalescedRead {column : ProjectedColumn} {r : SizedReader} {rows : Int} {room : Nat}
    (hpos : 0 < rows) (hroom : toU64 rows * column.valueSize % 18446744073709551616 ≤ room)
    (total : Nat) (pages : List (Option CoalescedPage)) :
    Exact (coalescedRead column r rows room total pages).1 := by
  induction pages generalizing total with
  | nil => exact exact_nil
  | cons page pages ih =>
    cases page with
    | none => exact exact_nil
    | some page =>
      rw [coalescedRead]
      split
      · exact exact_nil
      split
      · exact exact_nil
      rename_i hend
      have hend : total + page.numValues ≤ rows.toNat := by omega
      have haccess : Exact [.coalesced column r rows page total room] := by
        intro a ha
        obtain rfl := List.mem_singleton.mp ha
        refine ⟨?_, nofun⟩
        rintro ⟨hwider, hwrap, hsize⟩
        refine ⟨hwider, ?_⟩
        rw [toU64_mul_mod hpos hwrap] at hroom
        calc total * r.elementSize false + Access.coalescedSize (r.elementSize false) page
            ≤ total * r.elementSize false + page.numValues * r.elementSize false :=
              Nat.add_le_add_left hsize _
          _ = (total + page.numValues) * r.elementSize false := (Nat.add_mul _ _ _).symm
          _ ≤ rows.toNat * column.valueSize := Nat.mul_le_mul hend hwider
          _ ≤ room := hroom
      have hnext := haccess.append (ih (total + page.numValues))
      simp only
      split
      · split
        · exact haccess
        · exact hnext
      · split
        · exact exact_nil
        · exact hnext
      · exact exact_nil

theorem exact_bulkReadBatch {column : ProjectedColumn} {r : SizedReader} {rows : Int} {room : Nat}
    (hr : Sized r r.buffers) (hpreserve : r.preserveDictionary = false) (hpos : 0 < rows)
    (hroom : toU64 rows * column.valueSize % 18446744073709551616 ≤ room)
    (attempts : List PageAttempt) :
    Sized (bulkReadBatch column r rows room attempts).1
        (bulkReadBatch column r rows room attempts).1.buffers ∧
      (bulkReadBatch column r rows room attempts).1.preserveDictionary = false ∧
      Exact (bulkReadBatch column r rows room attempts).2 := by
  have hkeeps := keeps_readBatch r rows attempts
  unfold bulkReadBatch
  rcases hread : r.readBatch rows attempts with ⟨result, s, accesses⟩
  rw [hread] at hkeeps
  have hs : s.preserveDictionary = false := hkeeps.kin.preserve_eq.trans hpreserve
  refine ⟨keeps_sized hkeeps hr, hs, (exact_of_iff (hkeeps.fits hr)).append ?_⟩
  intro a ha
  obtain rfl := List.mem_singleton.mp ha
  refine ⟨?_, nofun⟩
  rintro ⟨hwider, hwrap⟩
  rw [toU64_mul_mod hpos hwrap] at hroom
  have hcells : (result.map Prod.snd).getD 0 ≤ rows.toNat := by
    cases result with
    | none => exact Nat.zero_le _
    | some result =>
      obtain ⟨hcount, hcells⟩ := readBatch_le (congrArg Prod.fst hread)
      change result.2 ≤ rows.toNat
      omega
  simp only [Access.Fits, hs]
  exact ⟨hwider, (Nat.mul_le_mul hcells hwider).trans hroom⟩

theorem inv_fill {c : BatchColumn} (h : Inv c) (alloc : Nat → Bool) (chunk : ChunkMeta)
    (rows : Int) (pages : List (Option CoalescedPage)) (attempts : List PageAttempt) :
    Inv (c.fill alloc chunk rows pages attempts).1 ∧
      Exact (c.fill alloc chunk rows pages attempts).2 := by
  have hr : Sized (c.slotReader chunk) (c.slotReader chunk).buffers ∧
      (c.slotReader chunk).preserveDictionary = false := by
    unfold slotReader
    split
    · rename_i s hs
      exact ⟨keeps_reset_sized (h.slot_sized s hs) chunk, h.slot_preserve s hs⟩
    · exact ⟨sized_getColumn _ _, rfl⟩
  unfold fill
  generalize c.slotReader chunk = r at hr
  simp only
  have hinv : ∀ (s : SizedReader) bytes, Sized s s.buffers → s.preserveDictionary = false →
      Inv { c with slot := ⟨some s, bytes⟩ } := by
    intro s bytes hs hp
    refine ⟨h.sized, ?_, ?_⟩
    · rintro t ht
      obtain rfl := Option.some.inj ht
      exact hs
    · rintro t ht
      obtain rfl := Option.some.inj ht
      exact hp
  split
  · exact ⟨hinv r _ hr.1 hr.2, exact_nil⟩
  rename_i bytes hbytes
  have hroom := poolEnsure_le hbytes
  split
  · exact ⟨hinv r _ hr.1 hr.2, exact_nil⟩
  rename_i hread
  have hpos : 0 < rows := by omega
  have hcoalesced : Exact (if canCoalesce r chunk = true then
      coalescedRead c.column r rows bytes 0 pages else ([], true)).1 := by
    split
    · exact exact_coalescedRead hpos hroom 0 pages
    · exact exact_nil
  generalize (if canCoalesce r chunk = true then
    coalescedRead c.column r rows bytes 0 pages else ([], true)) = coalesced at hcoalesced ⊢
  split
  · obtain ⟨hs, hp, hlater⟩ := exact_bulkReadBatch hr.1 hr.2 hpos hroom attempts
    exact ⟨hinv _ _ hs hp, hcoalesced.append hlater⟩
  · exact ⟨hinv r _ hr.1 hr.2, hcoalesced⟩

/-! ## Runs -/

/-- What one operation preserves. -/
theorem inv_step {c : BatchColumn} (h : Inv c) (op : Op) :
    Inv (c.step op).1 ∧ Exact (c.step op).2 := by
  cases op with
  | load attempts =>
    have hkeeps := keeps_ensurePageLoaded c.reader attempts
    exact ⟨h.withReader c.pool (keeps_sized hkeeps h.sized), exact_of_iff (hkeeps.fits h.sized)⟩
  | read maxValues attempts =>
    have hkeeps := keeps_readBatch c.reader maxValues attempts
    exact ⟨h.withReader c.pool (keeps_sized hkeeps h.sized), exact_of_iff (hkeeps.fits h.sized)⟩
  | readProjected alloc rows peeked attempts =>
    exact inv_readProjectedColumn h alloc rows peeked attempts
  | reset chunk => exact ⟨h.withReader c.pool (keeps_reset_sized h.sized chunk), exact_nil⟩
  | fill alloc chunk rows pages attempts => exact inv_fill h alloc chunk rows pages attempts

theorem exact_run {c : BatchColumn} (h : Inv c) (ops : List Op) : Exact (c.run ops) := by
  induction ops generalizing c with
  | nil => exact exact_nil
  | cons op ops ih =>
    obtain ⟨hinv, hexact⟩ := inv_step h op
    exact hexact.append (ih hinv)

theorem inv_create (column : ProjectedColumn) (preserveDictionaries : Bool) (chunk : ChunkMeta)
    (slotBytes : Nat) : Inv (create column preserveDictionaries chunk slotBytes) := by
  refine ⟨sized_getColumn column chunk, ?_, ?_⟩
  · rintro r ⟨⟩
  · rintro r ⟨⟩

/-- **In every run, a write that is sound fits its buffer, and into decode buffers and batches no
other does.** -/
theorem writes_fit (column : ProjectedColumn) (preserveDictionaries : Bool) (chunk : ChunkMeta)
    (slotBytes : Nat) (ops : List Op) (a : Access)
    (ha : a ∈ (create column preserveDictionaries chunk slotBytes).run ops) :
    (a.Sound → a.Fits) ∧ (a.inSlot = false → a.Fits → a.Sound) :=
  exact_run (inv_create column preserveDictionaries chunk slotBytes) ops a ha

/-! ## Two runs -/

/-- An optional INT64 column and its chunk of three values, which has a dictionary. -/
def optionalInt64 : ProjectedColumn := ⟨.int64, 0, 1, 0⟩

def dictionaryChunk : ChunkMeta := ⟨.int64, 3, true, false⟩

/-- A page of the dictionary with one value. -/
def indexPage : PageAttempt :=
  ⟨.ok (), .ok ⟨1, false, .rleDictionary, 16, true, [1], none, by decide, by decide⟩, false,
    fun _ => true⟩

/-- A page with two values as they are. -/
def plainPage : PageAttempt :=
  ⟨.ok (), .ok ⟨2, false, .plain, 32, true, [1, 1], none, by decide, by decide⟩, false,
    fun _ => true⟩

/-- What reading both pages writes where dictionaries are not preserved. -/
def materializedPages : List Access :=
  (create optionalInt64 false dictionaryChunk 0).run
    [.readProjected (fun _ => true) 1 [] [indexPage],
      .readProjected (fun _ => true) 2 [] [plainPage]]

/-- The last of these fits. -/
theorem materializedPages_fit :
    (materializedPages.getLast (by decide +kernel)).Sound ∧
      (materializedPages.getLast (by decide +kernel)).Fits := by
  have hsound : (materializedPages.getLast (by decide +kernel)).Sound := by decide +kernel
  have hmem := List.getLast_mem (show materializedPages ≠ [] by decide +kernel)
  exact ⟨hsound, (writes_fit optionalInt64 false dictionaryChunk 0 _ _ hmem).1 hsound⟩

/-- With preserving dictionaries the second page, of 16 bytes, is decoded into 8. -/
theorem plainPage_overruns :
    ¬ ∀ (column : ProjectedColumn) (preserveDictionaries : Bool) (chunk : ChunkMeta)
      (slotBytes : Nat) (ops : List Op),
      ∀ a ∈ (create column preserveDictionaries chunk slotBytes).run ops, a.Fits := by
  intro h
  have hfits := h optionalInt64 true dictionaryChunk 0
    [.readProjected (fun _ => true) 1 [] [indexPage],
      .readProjected (fun _ => true) 2 [] [plainPage]]
  revert hfits
  decide +kernel

end BatchColumn

end Carquet
