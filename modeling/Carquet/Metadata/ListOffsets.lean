import Carquet.Lib.Groups
import Mathlib.Data.List.GetD

/-!
# Rows and lists from repetition levels

`src/metadata/schema.c`, "Nested Data Helpers":

* `countRows` — `carquet_count_rows` (schema.c:725-738).
* `listOffsets` — `carquet_list_offsets` (schema.c:740-772), with the stores it makes into
  `offsets_out`; a list is a group of entries in the sense of `Groups`.

The array of offsets has one entry more than there are lists. `carquet_list_offsets` counts every
list, whatever the capacity, as long as there is one: with `max_offsets <= 0` it returns 0 without
looking at the levels.
-/

namespace Carquet

/-! ## Model -/

/-- `carquet_count_rows` (schema.c:725-738). -/
def countRows (repLevels : Option (List Int)) (numValues : Int) : Int :=
  match repLevels with
  | none => if 0 < numValues then numValues else 0
  | some levels =>
    if numValues ≤ 0 then 0
    else (List.range numValues.toNat).foldl
      (fun rows i => if levels.getD i 0 = 0 then rows + 1 else rows) 0

/-- A store into `offsets_out`, unless all `max_offsets` entries are used up. -/
def storeOffset (offsetsOut : List Int) (maxOffsets : Int) (numLists : Nat) (offset : Int) :
    List Int :=
  if (numLists : Int) < maxOffsets then offsetsOut.set numLists offset else offsetsOut

/-- One pass of the loop (schema.c:757-764). -/
def listOffsetsStep (repLevels : List Int) (listRepLevel maxOffsets : Int)
    (s : Nat × List Int) (i : Nat) : Nat × List Int :=
  if repLevels.getD i 0 < listRepLevel then (s.1 + 1, storeOffset s.2 maxOffsets s.1 i) else s

/-- `carquet_list_offsets` (schema.c:740-772): the number returned, and `offsets_out`. -/
def listOffsets (repLevels : List Int) (numValues listRepLevel : Int) (offsetsOut : List Int)
    (maxOffsets : Int) : Nat × List Int :=
  if numValues ≤ 0 ∨ maxOffsets ≤ 0 then (0, offsetsOut)
  else
    let s := (List.range numValues.toNat).foldl (listOffsetsStep repLevels listRepLevel maxOffsets)
      (0, offsetsOut)
    (s.1, storeOffset s.2 maxOffsets s.1 numValues)

/-- An entry starts a list of the level if it repeats further out. -/
def startsList (listRepLevel : Int) (level : Int) : Bool := level < listRepLevel

/-! ## Rows -/

theorem foldl_rows (levels : List Int) (n : Nat) (h : n ≤ levels.length) :
    (List.range n).foldl (fun rows i => if levels.getD i 0 = 0 then rows + 1 else rows) (0 : Int) =
      (levels.take n).count 0 := by
  induction n with
  | zero => rfl
  | succ n ih =>
    have hn : n < levels.length := h
    rw [List.range_succ, List.foldl_append, ih (by omega), List.take_add_one,
      List.getElem?_eq_getElem hn, List.count_append, List.foldl_cons, List.foldl_nil,
      List.getD_eq_getElem _ _ hn]
    by_cases hz : levels[n] = 0
    · simp [hz]
    · simp [hz]

theorem countRows_some (levels : List Int) : countRows (some levels) levels.length = levels.count 0 := by
  unfold countRows
  dsimp only
  split
  · obtain rfl : levels = [] := List.length_eq_zero_iff.mp (by omega)
    rfl
  · rw [Int.toNat_natCast, foldl_rows levels _ (Nat.le_refl _), List.take_length]

/-! ## The loop -/

/-- `offsets_out` where the first `stored` of the offsets were stored. -/
def Stored (offsetsOut : List Int) (maxOffsets : Nat) (stored : List Nat) : List Int :=
  (stored.take maxOffsets).map Int.ofNat ++ offsetsOut.drop (min maxOffsets stored.length)

theorem storeOffset_stored {offsetsOut : List Int} {maxOffsets : Nat} {stored : List Nat}
    (hroom : maxOffsets ≤ offsetsOut.length) (offset : Nat) :
    storeOffset (Stored offsetsOut maxOffsets stored) maxOffsets stored.length offset =
      Stored offsetsOut maxOffsets (stored ++ [offset]) := by
  unfold storeOffset Stored
  by_cases hfull : stored.length < maxOffsets
  · have hlen : ((stored.take maxOffsets).map Int.ofNat).length = stored.length := by
      rw [List.length_map, List.length_take]
      omega
    rw [if_pos (by omega), List.set_append_right _ _ (by omega), hlen, Nat.sub_self,
      List.take_of_length_le (by omega : stored.length ≤ maxOffsets),
      List.take_of_length_le (by rw [List.length_append, List.length_singleton]; omega),
      List.length_append, List.length_singleton, Nat.min_eq_right (by omega),
      Nat.min_eq_right (by omega), List.drop_eq_getElem_cons (by omega), List.set_cons_zero]
    simp
  · rw [if_neg (by omega), List.take_append_of_le_length (by omega), List.length_append,
      Nat.min_eq_left (by omega), Nat.min_eq_left (by omega)]

theorem foldl_listOffsetsStep {repLevels offsetsOut : List Int} {maxOffsets : Nat}
    (listRepLevel : Int) (hroom : maxOffsets ≤ offsetsOut.length) {n : Nat}
    (h : n ≤ repLevels.length) :
    (List.range n).foldl (listOffsetsStep repLevels listRepLevel maxOffsets) (0, offsetsOut) =
      (((repLevels.take n).findIdxs (startsList listRepLevel)).length,
        Stored offsetsOut maxOffsets ((repLevels.take n).findIdxs (startsList listRepLevel))) := by
  induction n with
  | zero => simp [Stored]
  | succ n ih =>
    have hn : n < repLevels.length := h
    have hfind : (repLevels.take (n + 1)).findIdxs (startsList listRepLevel) =
        (repLevels.take n).findIdxs (startsList listRepLevel) ++
          if startsList listRepLevel repLevels[n] then [n] else [] := by
      rw [List.take_add_one, List.getElem?_eq_getElem hn, Option.toList_some,
        List.findIdxs_append, List.findIdxs_singleton, List.length_take]
      simp [Nat.min_eq_left (Nat.le_of_lt hn)]
    rw [List.range_succ, List.foldl_append, ih (by omega), hfind, List.foldl_cons, List.foldl_nil,
      listOffsetsStep, List.getD_eq_getElem _ _ hn]
    by_cases hstart : repLevels[n] < listRepLevel
    · rw [if_pos hstart, if_pos (by simpa [startsList] using hstart), storeOffset_stored hroom,
        List.length_append]
      rfl
    · rw [if_neg hstart, if_neg (by simpa [startsList] using hstart), List.append_nil]

/-- Every list is counted, and of the offsets as many are stored as there is room for. -/
theorem listOffsets_eq {repLevels offsetsOut : List Int} {maxOffsets : Nat} (listRepLevel : Int)
    (hvalues : repLevels ≠ []) (hmax : 0 < maxOffsets) (hroom : maxOffsets ≤ offsetsOut.length) :
    listOffsets repLevels repLevels.length listRepLevel offsetsOut maxOffsets =
      (repLevels.countP (startsList listRepLevel),
        Stored offsetsOut maxOffsets (Groups.offsets (startsList listRepLevel) repLevels)) := by
  have hpos := List.length_pos_of_ne_nil hvalues
  unfold listOffsets
  rw [if_neg (by omega), Int.toNat_natCast,
    foldl_listOffsetsStep listRepLevel hroom (Nat.le_refl _), List.take_length]
  dsimp only
  rw [storeOffset_stored hroom, List.length_findIdxs, Groups.offsets]

/-- **The offsets partition the entries.** For a column that starts with a list and a capacity of
at least one, `carquet_list_offsets` returns the number of entries that start a list. Its offsets,
of which it stores the first `max_offsets` and nothing else, start at 0, end at the number of
entries and increase; between two that follow each other lies a maximal group of entries, and each
such group lies between two. `carquet_count_rows` is the number of entries of level 0. -/
theorem listOffsets_partition (repLevels offsetsOut : List Int) (first listRepLevel : Int)
    (maxOffsets : Nat) (hfirst : repLevels.head? = some first) (hstart : first < listRepLevel)
    (hmax : 0 < maxOffsets) (hroom : maxOffsets ≤ offsetsOut.length) :
    ∃ offsets : List Nat,
      listOffsets repLevels repLevels.length listRepLevel offsetsOut maxOffsets =
        (repLevels.countP (· < listRepLevel),
          (offsets.take maxOffsets).map Int.ofNat ++
            offsetsOut.drop (min maxOffsets offsets.length)) ∧
      offsets.length = repLevels.countP (· < listRepLevel) + 1 ∧
      offsets.head? = some 0 ∧ offsets.getLast? = some repLevels.length ∧
      offsets.Pairwise (· < ·) ∧
      (∀ a b, Groups.IsGroup (startsList listRepLevel) repLevels a b ↔
        ∃ (i : Nat) (h : i + 1 < offsets.length), a = offsets[i] ∧ b = offsets[i + 1]) ∧
      countRows (some repLevels) repLevels.length = repLevels.count 0 := by
  have hvalues : repLevels ≠ [] := by
    rintro rfl
    cases hfirst
  refine ⟨Groups.offsets (startsList listRepLevel) repLevels, ?_, Groups.length_offsets,
    Groups.head?_offsets hfirst (by simpa [startsList] using hstart), Groups.getLast?_offsets,
    Groups.pairwise_offsets, fun a b => Groups.isGroup_iff, countRows_some repLevels⟩
  exact listOffsets_eq listRepLevel hvalues hmax hroom

/-- Two lists at level 1, the second of one entry, and room for all three offsets and another. -/
theorem twoLists_partition :
    [(0 : Int), 1, 0].head? = some 0 ∧ ∃ offsets : List Nat,
      listOffsets [0, 1, 0] ([0, 1, 0] : List Int).length 1 [7, 7, 7, 7] (4 : Nat) =
        (([0, 1, 0] : List Int).countP (· < 1), (offsets.take 4).map Int.ofNat ++
          ([7, 7, 7, 7] : List Int).drop (min 4 offsets.length)) ∧
      offsets.length = ([0, 1, 0] : List Int).countP (· < 1) + 1 ∧
      offsets.head? = some 0 ∧ offsets.getLast? = some ([0, 1, 0] : List Int).length ∧
      offsets.Pairwise (· < ·) ∧
      (∀ a b, Groups.IsGroup (startsList 1) [0, 1, 0] a b ↔
        ∃ (i : Nat) (h : i + 1 < offsets.length), a = offsets[i] ∧ b = offsets[i + 1]) ∧
      countRows (some [0, 1, 0]) ([0, 1, 0] : List Int).length = ([0, 1, 0] : List Int).count 0 :=
  ⟨rfl, listOffsets_partition [0, 1, 0] [7, 7, 7, 7] 0 1 4 rfl (by decide) (by decide) (by decide)⟩

/-- Without capacity the lists are not counted: one row gives zero lists. -/
theorem noCapacity_notCounted :
    ¬ ∀ (repLevels offsetsOut : List Int) (first listRepLevel : Int) (maxOffsets : Nat),
      repLevels.head? = some first → first < listRepLevel → maxOffsets ≤ offsetsOut.length →
      (listOffsets repLevels repLevels.length listRepLevel offsetsOut maxOffsets).1 =
        repLevels.countP (· < listRepLevel) := by
  intro h
  exact absurd (h [0] [] 0 1 0 rfl (by decide) (Nat.le_refl _)) (by decide)

end Carquet
