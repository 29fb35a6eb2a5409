import Carquet.Reader.PageDecode

/-!
# Does a page decode the same on every reader?

A column reader keeps two buffers from page to page: the values buffer and the buffer of
dictionary indices (page_reader.c:1080-1097). Two readers with the same column, dictionary and
mode should get the same from a page whatever these buffers hold, and a dictionary-encoded page
whose index stream is too short should be rejected (`Determined`).

`carquet_rle_decode_all` returns how many indices it decoded; the callers test that count for
`< 0` only (page_reader.c:1071, 1102), which it never is. What the stream does not yield is
read from the buffer. `determined_iff` says for which pages this does no harm.
-/

namespace Carquet

open LittleEndian

/-! ## The property -/

/-- What a caller gets to see: levels, present values, count. -/
def PageResult.output (res : PageResult) : List Int × List Int × List Value × Nat :=
  (res.defLevels, res.repLevels, res.values.take res.nonNulls, res.valuesRead)

/-- Failure, or what was read. -/
def outcome (x : Except Status PageResult) : Option (List Int × List Int × List Value × Nat) :=
  match x with
  | .error _ => none
  | .ok res => some res.output

/-- What the outcome of a page may depend on. -/
structure PageInput where
  column : Column
  dictionary : Option Dictionary
  preserveDictionary : Bool
  page : Bytes
  header : PageHeader
  maxValues : Nat
  wanted : Wanted
  deriving DecidableEq, Repr

/-- A reader set up for the page, with some contents of its buffers. -/
def PageInput.reader (p : PageInput) (indicesBuffer : List Nat) (heap : Nat → Nat) : PageReader :=
  ⟨p.column, p.dictionary, p.preserveDictionary, indicesBuffer, heap⟩

def PageInput.read (p : PageInput) (indicesBuffer : List Nat) (heap : Nat → Nat)
    (old : List Value) : Except Status PageResult :=
  readDataPage (p.reader indicesBuffer heap) p.page p.header old p.maxValues p.wanted

def PageInput.levels (p : PageInput) : Except Status PageLevels :=
  pageLevels p.column p.page p.header p.maxValues p.wanted

/-- The page holds a dictionary index stream: its bit width, the bytes of the stream, the
dictionary and how many indices are needed. -/
def PageInput.indexSection (p : PageInput) : Option (Nat × Bytes × Dictionary × Nat) :=
  match p.levels with
  | .error _ => none
  | .ok levels =>
    if p.header.encoding = .rleDictionary ∨ p.header.encoding = .plainDictionary then
      match p.dictionary, levels.payload with
      | some dict, bitWidth :: stream => some (bitWidth.toNat, stream, dict, levels.nonNulls)
      | _, _ => none
    else none

/-- What an index stream holds; nothing when its bit width is none. -/
def heldIndices (bitWidth : Nat) (stream : Bytes) : List Nat :=
  if bitWidth ≤ 32 then hybridValues bitWidth stream else []

/-- The outcome does not depend on the buffers, and an index stream that is too short or has an
invalid bit width is rejected. -/
structure Determined (p : PageInput) : Prop where
  independent : ∀ indices indices' heap heap' old old', indices.length = indices'.length →
    old.length = old'.length →
    outcome (p.read indices heap old) = outcome (p.read indices' heap' old')
  rejects : ∀ bitWidth stream dict needed,
    p.indexSection = some (bitWidth, stream, dict, needed) →
    32 < bitWidth ∨ (heldIndices bitWidth stream).length < needed →
    ∀ indices heap old, outcome (p.read indices heap old) = none

/-! ## The condition -/

/-- The stream holds enough indices, and they are looked up. -/
def IndicesSuffice (p : PageInput) (bitWidth : Nat) (stream : Bytes) (needed : Nat) : Prop :=
  bitWidth ≤ 32 ∧ needed ≤ (heldIndices bitWidth stream).length ∧
    (p.preserveDictionary = true ∨ p.column.type ≠ .boolean ∨ needed = 0)

/-- Some index that is needed lies past the dictionary, so that the lookup fails. -/
def IndexRefused (p : PageInput) (bitWidth : Nat) (stream : Bytes) (dict : Dictionary)
    (needed : Nat) : Prop :=
  p.preserveDictionary = false ∧ p.column.type ≠ .boolean ∧
    ((∃ idx ∈ (heldIndices bitWidth stream).take needed, dict.count ≤ idx) ∨
      (dict.count = 0 ∧ 0 < needed))

/-- Either the page holds no index stream, or the stream is long enough, or it is refused. -/
def IndicesCovered (p : PageInput) : Prop :=
  ∀ bitWidth stream dict needed, p.indexSection = some (bitWidth, stream, dict, needed) →
    IndicesSuffice p bitWidth stream needed ∨ IndexRefused p bitWidth stream dict needed

/-! ## Proof -/

theorem rleDecodeAll_eq_held (bitWidth : Nat) (stream : Bytes) (n : Nat) :
    rleDecodeAll stream bitWidth n = (heldIndices bitWidth stream).take n := by
  unfold heldIndices
  split
  · rw [rleDecodeAll_eq_take (by omega) (by omega), Int.toNat_natCast]
  · rw [rleDecodeAll_of_width (by omega), List.take_nil]

theorem PageInput.read_eq (p : PageInput) (indices : List Nat) (heap : Nat → Nat)
    (old : List Value) : p.read indices heap old =
      (p.levels >>= readPageValues (p.reader indices heap) p.header.encoding old) :=
  readDataPage_eq _ _ _ _ _ _

theorem take_overlay_eq {α : Type} {n : Nat} {new : List α} (old old' : List α)
    (h : n ≤ new.length) : (overlay new old).take n = (overlay new old').take n := by
  rw [take_overlay _ h, take_overlay _ h]

/-- The decoders other than the dictionary one write every value they are asked for. -/
theorem length_decodePlainByteArray {n : Nat} {input : Bytes} {values : List Value}
    (h : decodePlainByteArray n input = some values) : values.length = n := by
  induction n generalizing input values with
  | zero =>
    simp only [decodePlainByteArray, Option.some.injEq] at h
    simp [← h]
  | succ n ih =>
    rw [decodePlainByteArray] at h
    split at h
    · simp at h
    · simp only at h
      split at h
      · simp at h
      · split at h
        · simp at h
        · rename_i values' hv
          simp only [Option.some.injEq] at h
          simp [← h, ih hv]

theorem length_decodePlain {type : PhysicalType} {typeLength : Int} {input : Bytes} {n : Nat}
    {values : List Value} (h : decodePlain type typeLength input n = some values) :
    values.length = n := by
  have hfixed : ∀ w, decodePlainFixed w input n = some values → values.length = n := by
    intro w hw
    rw [decodePlainFixed] at hw
    split at hw
    · simp at hw
    · simp only [Option.some.injEq] at hw
      simp [← hw]
  cases type <;> simp only [decodePlain] at h
  case boolean =>
    rw [decodePlainBoolean] at h
    split at h
    · simp at h
    · simp only [Option.some.injEq] at h
      simp [← h]
  case byteArray => exact length_decodePlainByteArray h
  case fixedLenByteArray =>
    split at h
    · simp at h
    · exact hfixed _ h
  all_goals exact hfixed _ h

theorem length_byteStreamSplitDecode {w : Nat} {data : Bytes} {n : Nat} {values : List Value}
    (h : byteStreamSplitDecode w data n = some values) : values.length = n := by
  rw [byteStreamSplitDecode] at h
  split at h
  · simp at h
  · simp only [Option.some.injEq] at h
    simp [← h]

theorem length_decodePhase3Values {column : Column} {encoding : Encoding} {payload : Bytes}
    {n : Nat} {values : List Value} (h : decodePhase3Values column encoding payload n = .ok values) :
    values.length = n := by
  have hbss : ∀ w, decodePhase3Values.byteStreamSplit payload n w = .ok values →
      values.length = n := by
    intro w hw
    rw [decodePhase3Values.byteStreamSplit] at hw
    split at hw
    · simp at hw
    · rename_i vs hvs
      simp only [Except.ok.injEq] at hw
      rw [← hw]
      exact length_byteStreamSplitDecode hvs
  cases encoding <;> simp only [decodePhase3Values] at h
  case deltaBinaryPacked =>
    split at h
    · obtain ⟨⟨vs, _⟩, hvs, h⟩ := bind_eq_ok.mp h
      simp only [Except.ok.injEq] at h
      rw [← h, List.length_map, length_deltaDecode hvs]
    · obtain ⟨⟨vs, _⟩, hvs, h⟩ := bind_eq_ok.mp h
      simp only [Except.ok.injEq] at h
      rw [← h, List.length_map, length_deltaDecode hvs]
    · simp at h
  case deltaLengthByteArray =>
    split at h
    · simp at h
    · obtain ⟨⟨vs, _⟩, hvs, h⟩ := bind_eq_ok.mp h
      simp only [Except.ok.injEq] at h
      rw [← h, length_deltaLengthDecode hvs]
  case deltaByteArray =>
    split at h
    · simp at h
    · split at h
      · rename_i h0
        simp only [Except.ok.injEq] at h
        rw [← h, h0]
        rfl
      · obtain ⟨_, -, h⟩ := bind_eq_ok.mp h
        obtain ⟨⟨vs, _⟩, hvs, h⟩ := bind_eq_ok.mp h
        simp only at h
        split at h
        · simp at h
        · simp only [Except.ok.injEq] at h
          rw [← h, length_deltaStringsDecode hvs]
  case byteStreamSplit =>
    split at h
    any_goals exact hbss _ h
    · split at h
      · simp at h
      · exact hbss _ h
    · simp at h
  all_goals simp at h

/-- A page without an index stream: every needed cell of the values buffer is written. -/
theorem outcome_of_no_section {p : PageInput} (h : p.indexSection = none)
    (indices indices' : List Nat) (heap heap' : Nat → Nat) (old old' : List Value) :
    outcome (p.read indices heap old) = outcome (p.read indices' heap' old') := by
  rw [PageInput.read_eq, PageInput.read_eq]
  unfold PageInput.indexSection at h
  cases hl : p.levels with
  | error e => rfl
  | ok levels =>
    simp only [hl] at h
    have hphase : ∀ values : List Value, values.length = levels.nonNulls →
        outcome (.ok ⟨levels.defLevels, levels.repLevels, overlay values old, levels.nonNulls,
          levels.numValues, indices⟩) =
        outcome (.ok ⟨levels.defLevels, levels.repLevels, overlay values old', levels.nonNulls,
          levels.numValues, indices'⟩) := by
      intro values hlen
      simp only [outcome, PageResult.output, Option.some.injEq, Prod.mk.injEq, true_and, and_true]
      exact take_overlay_eq _ _ (Nat.le_of_eq hlen.symm)
    simp only [bind, Except.bind, readPageValues]
    cases henc : p.header.encoding
    case plain =>
      simp only [decodePageValues, PageInput.reader]
      cases hd : decodePlain p.column.type p.column.typeLength levels.payload levels.nonNulls with
      | none => rfl
      | some values => exact hphase values (length_decodePlain hd)
    case rleDictionary =>
      simp only [henc, true_or, if_true] at h
      simp only [decodePageValues, PageInput.reader]
      cases hdict : p.dictionary with
      | none => rfl
      | some dict =>
        cases hpay : levels.payload with
        | nil => rfl
        | cons w stream => simp [hdict, hpay] at h
    case plainDictionary =>
      simp only [henc, or_true, if_true] at h
      simp only [decodePageValues, PageInput.reader]
      cases hdict : p.dictionary with
      | none => rfl
      | some dict =>
        cases hpay : levels.payload with
        | nil => rfl
        | cons w stream => simp [hdict, hpay] at h
    all_goals
      simp only [decodePageValues, PageInput.reader, bind, Except.bind]
      cases hd : decodePhase3Values p.column _ levels.payload levels.nonNulls with
      | error e => rfl
      | ok values => exact hphase values (length_decodePhase3Values hd)

/-- What a page does with its indices: `decoded` came from the stream, `buffer` is the indices
buffer with them at its front. -/
def PageInput.lookup (p : PageInput) (dict : Dictionary) (needed : Nat) (decoded buffer : List Nat)
    (old : List Value) : Except Status (List Value) :=
  if p.preserveDictionary then .ok (overlay (decoded.map (leBytes 4)) old)
  else if p.column.type = .boolean then .ok old
  else (gatherDictionary p.column dict (buffer.take needed)).map (overlay · old)

/-- The outcome of a page that holds an index stream. -/
theorem read_of_section {p : PageInput} {bitWidth needed : Nat} {stream : Bytes}
    {dict : Dictionary} (h : p.indexSection = some (bitWidth, stream, dict, needed)) :
    ∃ levels : PageLevels, levels.nonNulls = needed ∧ ∀ indices heap old,
      p.read indices heap old =
        (p.lookup dict needed (rleDecodeAll stream bitWidth needed)
            (decodedIndices (p.reader indices heap) stream bitWidth needed) old >>= fun values =>
          .ok ⟨levels.defLevels, levels.repLevels, values, needed, levels.numValues,
            if p.preserveDictionary then indices
            else decodedIndices (p.reader indices heap) stream bitWidth needed⟩) := by
  unfold PageInput.indexSection at h
  cases hl : p.levels with
  | error e => simp [hl] at h
  | ok levels =>
    simp only [hl] at h
    split at h
    · rename_i henc
      cases hdict : p.dictionary with
      | none => simp [hdict] at h
      | some d =>
        cases hpay : levels.payload with
        | nil => simp [hdict, hpay] at h
        | cons w rest =>
          simp only [hdict, hpay, Option.some.injEq, Prod.mk.injEq] at h
          obtain ⟨rfl, rfl, rfl, rfl⟩ := h
          refine ⟨levels, rfl, fun indices heap old => ?_⟩
          rw [PageInput.read_eq, hl]
          change readPageValues _ _ _ levels = _
          have hdec : decodePageValues (p.reader indices heap) p.header.encoding levels.payload old
              levels.nonNulls = decodePageValues (p.reader indices heap) .rleDictionary
                (w :: rest) old levels.nonNulls := by
            rcases henc with henc | henc <;> rw [henc, hpay]
            rfl
          rw [readPageValues, hdec]
          simp only [decodePageValues, PageInput.reader, hdict, PageInput.lookup]
          split
          · rfl
          · split
            · rfl
            · cases gatherDictionary p.column d _ <;> rfl
    · simp at h

/-- What a caller sees of a page with an index stream. -/
theorem outcome_of_section {p : PageInput} {bitWidth needed : Nat} {stream : Bytes}
    {dict : Dictionary} (h : p.indexSection = some (bitWidth, stream, dict, needed)) :
    ∃ levels : PageLevels, ∀ indices heap old, outcome (p.read indices heap old) =
      (p.lookup dict needed ((heldIndices bitWidth stream).take needed)
        (decodedIndices (p.reader indices heap) stream bitWidth needed) old).toOption.map
        fun values => (levels.defLevels, levels.repLevels, values.take needed, levels.numValues) := by
  obtain ⟨levels, -, hread⟩ := read_of_section h
  refine ⟨levels, fun indices heap old => ?_⟩
  rw [hread, rleDecodeAll_eq_held]
  cases p.lookup dict needed _ _ old <;> rfl

/-- The buffer starts with what the stream holds, and is long enough. -/
theorem decodedIndices_prefix (r : PageReader) (stream : Bytes) (bitWidth needed : Nat) :
    ∃ more, decodedIndices r stream bitWidth needed =
        (heldIndices bitWidth stream).take needed ++ more ∧
      needed ≤ (decodedIndices r stream bitWidth needed).length := by
  refine ⟨(if needed ≤ r.indicesBuffer.length then r.indicesBuffer
    else (List.range needed).map r.heap).drop ((heldIndices bitWidth stream).take needed).length,
    ?_, ?_⟩
  · rw [decodedIndices, rleDecodeAll_eq_held]
    rfl
  · rw [decodedIndices, length_overlay]
    split
    · omega
    · simp

theorem outcome_of_suffice {p : PageInput} {bitWidth needed : Nat} {stream : Bytes}
    {dict : Dictionary} (h : p.indexSection = some (bitWidth, stream, dict, needed))
    (hs : IndicesSuffice p bitWidth stream needed) (indices indices' : List Nat)
    (heap heap' : Nat → Nat) (old old' : List Value) :
    outcome (p.read indices heap old) = outcome (p.read indices' heap' old') := by
  obtain ⟨levels, hout⟩ := outcome_of_section h
  obtain ⟨hw, hlen, hmode⟩ := hs
  have htake : ∀ r : PageReader, (decodedIndices r stream bitWidth needed).take needed =
      (heldIndices bitWidth stream).take needed := by
    intro r
    obtain ⟨more, heq, -⟩ := decodedIndices_prefix r stream bitWidth needed
    rw [heq, List.take_append_of_le_length (by simpa using hlen), List.take_take, Nat.min_self]
  rw [hout, hout]
  simp only [PageInput.lookup, htake]
  split
  · simp only [Except.toOption, Option.map_some, Option.some.injEq, Prod.mk.injEq, true_and,
      and_true]
    exact take_overlay_eq _ _ (by simpa using hlen)
  · rename_i hpre
    split
    · rename_i hbool
      have h0 : needed = 0 := by
        rcases hmode with hm | hm | hm
        · exact absurd hm hpre
        · exact absurd hbool hm
        · exact hm
      subst h0
      rfl
    · rw [gatherDictionary]
      split
      · rfl
      · simp only [Except.map, Except.toOption, Option.map_some, Option.some.injEq, Prod.mk.injEq,
          true_and, and_true]
        exact take_overlay_eq _ _ (by simpa using hlen)

theorem outcome_of_refused {p : PageInput} {bitWidth needed : Nat} {stream : Bytes}
    {dict : Dictionary} (h : p.indexSection = some (bitWidth, stream, dict, needed))
    (hr : IndexRefused p bitWidth stream dict needed) (indices : List Nat) (heap : Nat → Nat)
    (old : List Value) : outcome (p.read indices heap old) = none := by
  obtain ⟨levels, hout⟩ := outcome_of_section h
  obtain ⟨hpre, hbool, hidx⟩ := hr
  obtain ⟨more, heq, hlen⟩ :=
    decodedIndices_prefix (p.reader indices heap) stream bitWidth needed
  have hany : ((decodedIndices (p.reader indices heap) stream bitWidth needed).take needed).any
      (dict.count ≤ ·) = true := by
    rw [List.any_eq_true]
    rcases hidx with ⟨idx, hmem, hle⟩ | ⟨hcount, hpos⟩
    · refine ⟨idx, ?_, by simpa using hle⟩
      rw [heq, List.take_append]
      exact List.mem_append_left _ (by simpa [List.take_take] using hmem)
    · refine ⟨_, List.getElem_mem (n := 0) ?_, by simp [hcount]⟩
      rw [List.length_take]
      omega
  rw [hout]
  simp only [PageInput.lookup, hpre, hbool, gatherDictionary, hany]
  rfl

/-- A reader whose indices buffer holds zeros accepts every other page. -/
theorem accepted_of_not_refused {p : PageInput} {bitWidth needed : Nat} {stream : Bytes}
    {dict : Dictionary} (h : p.indexSection = some (bitWidth, stream, dict, needed))
    (hr : ¬ IndexRefused p bitWidth stream dict needed) (heap : Nat → Nat) (old : List Value) :
    outcome (p.read (List.replicate needed 0) heap old) ≠ none := by
  obtain ⟨levels, hout⟩ := outcome_of_section h
  rw [hout]
  simp only [PageInput.lookup]
  split
  · simp [Except.toOption]
  · rename_i hpre
    split
    · simp [Except.toOption]
    · rename_i hbool
      have hany : ((decodedIndices (p.reader (List.replicate needed 0) heap) stream bitWidth
          needed).take needed).any (dict.count ≤ ·) = false := by
        rw [List.any_eq_false]
        intro idx hmem
        have hmem := List.mem_of_mem_take hmem
        rw [decodedIndices, rleDecodeAll_eq_held] at hmem
        simp only [PageInput.reader, List.length_replicate, Nat.le_refl, if_true, overlay] at hmem
        simp only [decide_eq_true_eq, Nat.not_le]
        by_contra hle
        apply hr
        refine ⟨by simpa using hpre, hbool, ?_⟩
        rcases List.mem_append.mp hmem with hm | hm
        · exact Or.inl ⟨idx, hm, by omega⟩
        · obtain ⟨hpos, rfl⟩ := List.mem_replicate.mp (List.mem_of_mem_drop hm)
          exact Or.inr ⟨by omega, by omega⟩
      rw [gatherDictionary, hany]
      simp [Except.toOption, Except.map]

/-- No case of the lookup writes a BOOLEAN: the caller sees the old cells. -/
theorem outcome_boolean {p : PageInput} {bitWidth needed : Nat} {stream : Bytes}
    {dict : Dictionary} (h : p.indexSection = some (bitWidth, stream, dict, needed))
    (hpre : p.preserveDictionary = false) (hbool : p.column.type = .boolean) :
    ∃ levels : PageLevels, ∀ indices heap old, outcome (p.read indices heap old) =
      some (levels.defLevels, levels.repLevels, old.take needed, levels.numValues) := by
  obtain ⟨levels, hout⟩ := outcome_of_section h
  refine ⟨levels, fun indices heap old => ?_⟩
  rw [hout, PageInput.lookup, hpre, hbool]
  rfl

/-- **A page decodes the same on every reader, and is rejected when its index stream is short
or has no valid bit width, exactly if it has no index stream, or one that suffices, or one that
is refused for an index past the dictionary.** -/
theorem determined_iff (p : PageInput) : Determined p ↔ IndicesCovered p := by
  constructor
  · intro hd bitWidth stream dict needed hsec
    by_cases hr : IndexRefused p bitWidth stream dict needed
    · exact Or.inr hr
    · left
      have haccepted := accepted_of_not_refused hsec hr (fun _ => 0) []
      have hfit : bitWidth ≤ 32 ∧ needed ≤ (heldIndices bitWidth stream).length := by
        by_contra hshort
        exact haccepted (hd.rejects bitWidth stream dict needed hsec (by omega) _ _ _)
      refine ⟨hfit.1, hfit.2, ?_⟩
      by_contra hmode
      push Not at hmode
      obtain ⟨hpre, hbool, hpos⟩ := hmode
      obtain ⟨levels, hout⟩ := outcome_boolean hsec (by simpa using hpre) hbool
      -- two values buffers that differ in every cell
      have hindep := hd.independent [] [] (fun _ => 0) (fun _ => 0)
        (List.replicate needed [0]) (List.replicate needed [1]) rfl (by simp)
      rw [hout, hout] at hindep
      obtain ⟨n, rfl⟩ := Nat.exists_eq_succ_of_ne_zero hpos
      simp [List.replicate_succ] at hindep
  · intro hc
    refine ⟨?_, ?_⟩
    · intro indices indices' heap heap' old old' _ _
      cases hsec : p.indexSection with
      | none => exact outcome_of_no_section hsec _ _ _ _ _ _
      | some sec =>
        obtain ⟨bitWidth, stream, dict, needed⟩ := sec
        rcases hc bitWidth stream dict needed hsec with hs | hr
        · exact outcome_of_suffice hsec hs _ _ _ _ _ _
        · rw [outcome_of_refused hsec hr, outcome_of_refused hsec hr]
    · intro bitWidth stream dict needed hsec hshort indices heap old
      rcases hc bitWidth stream dict needed hsec with ⟨hw, hlen, -⟩ | hr
      · omega
      · exact outcome_of_refused hsec hr _ _ _

/-- One index where two are needed: a V1 page of an INT32 column with a dictionary of one
entry. -/
def shortIndexPage : PageInput where
  column := ⟨.int32, 0, 0, 0⟩
  dictionary := some ⟨[7, 0, 0, 0], 1, none⟩
  preserveDictionary := false
  page := [1, 2, 0]
  header := .v1 ⟨2, .rleDictionary, .rle, .rle⟩
  maxValues := 2
  wanted := ⟨false, false⟩

/-- The page is accepted when the indices buffer holds a zero and refused when it holds 7. -/
theorem shortIndexPage_not_determined :
    outcome (shortIndexPage.read [0, 0] (fun _ => 0) []) ≠
      outcome (shortIndexPage.read [0, 7] (fun _ => 0) []) ∧ ¬ Determined shortIndexPage := by
  have hne : outcome (shortIndexPage.read [0, 0] (fun _ => 0) []) ≠
      outcome (shortIndexPage.read [0, 7] (fun _ => 0) []) := by decide
  exact ⟨hne, fun h => hne (h.independent _ _ _ _ _ _ rfl rfl)⟩

end Carquet
