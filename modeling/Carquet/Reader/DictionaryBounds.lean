import Carquet.Reader.DictionaryPage

/-!
# Dictionary pages of strings: what stays inside

`carquet_read_dictionary_page` (page_reader.c:713-827) walks the length-prefixed entries of a page
once, and the lookups (page_reader.c:1117-1156) trust the offsets it recorded. The size of an entry
is a sum of 32 bits: a prefix of `2^32 - 4` or more wraps to an entry of at most three bytes.

`dictionaryBounds_iff`: but for such prefixes, a page is read if and only if its entries lie
inside it, and every lookup then does.
-/

namespace Carquet

open LittleEndian

/-- The length prefix of the entry at the front. -/
def entryLength (data : Bytes) : Nat := leNat (data.take 4)

/-- The bytes start with `n` length-prefixed entries that lie inside them. -/
def EntriesFit : Nat → Bytes → Prop
  | 0, _ => True
  | n + 1, data =>
    4 + entryLength data ≤ data.length ∧ EntriesFit n (data.drop (4 + entryLength data))

/-- The same with the sizes of the entries taken modulo `2^32`. -/
def EntriesFit32 : Nat → Bytes → Prop
  | 0, _ => True
  | n + 1, data =>
    4 ≤ data.length ∧ (4 + entryLength data) % 4294967296 ≤ data.length ∧
      EntriesFit32 n (data.drop ((4 + entryLength data) % 4294967296))

/-- Of `n` entries, after some that lie inside comes one whose size wraps, and from there on the
others lie inside by their sizes modulo `2^32`. -/
def WrapsInside : Nat → Bytes → Prop
  | 0, _ => False
  | n + 1, data =>
    4 ≤ data.length ∧
      if 4294967296 ≤ 4 + entryLength data then
        EntriesFit32 n (data.drop ((4 + entryLength data) % 4294967296))
      else 4 + entryLength data ≤ data.length ∧ WrapsInside n (data.drop (4 + entryLength data))

theorem entryLength_lt (data : Bytes) : entryLength data < 4294967296 := by
  refine Nat.lt_of_lt_of_le (leNat_lt (data.take 4)) ?_
  exact Nat.pow_le_pow_right (by decide) (by rw [List.length_take]; omega : _ ≤ 4)

/-! ## The scan -/

theorem dictionaryOffsets_succ (n pos : Nat) (data : Bytes) :
    dictionaryOffsets (n + 1) data pos =
      if data.length < 4 then none
      else if data.length < (4 + entryLength data) % 4294967296 then none
      else
        match dictionaryOffsets n (data.drop ((4 + entryLength data) % 4294967296))
          (pos + (4 + entryLength data) % 4294967296) with
        | none => none
        | some offsets => some (pos % 4294967296 :: offsets) := rfl

/-- The scan goes through where the entries fit by their 32-bit sizes. -/
theorem isSome_dictionaryOffsets (n pos : Nat) (data : Bytes) :
    (dictionaryOffsets n data pos).isSome = true ↔ EntriesFit32 n data := by
  induction n generalizing data pos with
  | zero => simp [dictionaryOffsets, EntriesFit32]
  | succ n ih =>
    rw [dictionaryOffsets_succ, EntriesFit32]
    have hrec := ih (pos + (4 + entryLength data) % 4294967296)
      (data.drop ((4 + entryLength data) % 4294967296))
    generalize (4 + entryLength data) % 4294967296 = size at hrec ⊢
    by_cases hlength : data.length < 4
    · rw [if_pos hlength]
      simp only [Option.isSome_none, Bool.false_eq_true, false_iff]
      omega
    · rw [if_neg hlength]
      by_cases hentry : data.length < size
      · rw [if_pos hentry]
        simp only [Option.isSome_none, Bool.false_eq_true, false_iff]
        omega
      · rw [if_neg hentry, ← hrec]
        cases dictionaryOffsets n (data.drop size) (pos + size) with
        | none => simp
        | some offsets =>
          simp only [Option.isSome_some, and_true, true_iff]
          omega

/-- The entries that fit are those that fit as they are, and those that fit because one wraps. -/
theorem entriesFit32_iff {n : Nat} {data : Bytes} (hsize : data.length < 4294967296) :
    EntriesFit32 n data ↔ EntriesFit n data ∨ WrapsInside n data := by
  induction n generalizing data with
  | zero => simp [EntriesFit32, EntriesFit]
  | succ n ih =>
    rw [EntriesFit32, EntriesFit, WrapsInside]
    by_cases hwrap : 4294967296 ≤ 4 + entryLength data
    · have hlt := entryLength_lt data
      have hsmall : (4 + entryLength data) % 4294967296 < 4 := by omega
      rw [if_pos hwrap]
      constructor
      · rintro ⟨hlength, -, hrest⟩
        exact Or.inr ⟨hlength, hrest⟩
      · rintro (⟨hfits, -⟩ | ⟨hlength, hrest⟩)
        · omega
        · exact ⟨hlength, by omega, hrest⟩
    · rw [if_neg hwrap, Nat.mod_eq_of_lt (by omega),
        ih (by rw [List.length_drop]; omega)]
      constructor
      · rintro ⟨hlength, hentry, hrest | hrest⟩
        · exact Or.inl ⟨hentry, hrest⟩
        · exact Or.inr ⟨hlength, hentry, hrest⟩
      · rintro (⟨hentry, hrest⟩ | ⟨hlength, hentry, hrest⟩)
        · exact ⟨by omega, hentry, Or.inl hrest⟩
        · exact ⟨hlength, hentry, Or.inr hrest⟩

/-- A page in which an entry wraps is not one whose entries lie inside. -/
theorem not_fit_of_wraps {n : Nat} {data : Bytes} (hsize : data.length < 4294967296)
    (h : WrapsInside n data) : ¬ EntriesFit n data := by
  induction n generalizing data with
  | zero => exact h.elim
  | succ n ih =>
    rw [WrapsInside] at h
    rw [EntriesFit]
    rintro ⟨hentry, hrest⟩
    by_cases hwrap : 4294967296 ≤ 4 + entryLength data
    · omega
    · rw [if_neg hwrap] at h
      exact ih (by rw [List.length_drop]; omega) h.2.2 hrest

/-- What is recorded of entries that lie inside. -/
theorem dictionaryOffsets_fit {n pos : Nat} {data : Bytes} {offsets : List Nat}
    (hsize : pos + data.length < 4294967296) (hfit : EntriesFit n data)
    (h : dictionaryOffsets n data pos = some offsets) :
    offsets.length = n ∧ ∀ idx, idx < n → ∃ k, offsets.getD idx 0 = pos + k ∧
      k + 4 + entryLength (data.drop k) ≤ data.length := by
  induction n generalizing data pos offsets with
  | zero =>
    simp only [dictionaryOffsets, Option.some.injEq] at h
    subst h
    exact ⟨rfl, fun idx hidx => absurd hidx (Nat.not_lt_zero idx)⟩
  | succ n ih =>
    obtain ⟨hentry, hrest⟩ := hfit
    have hexact : (4 + entryLength data) % 4294967296 = 4 + entryLength data :=
      Nat.mod_eq_of_lt (by omega)
    rw [dictionaryOffsets_succ, if_neg (by omega), hexact, if_neg (by omega)] at h
    split at h
    · cases h
    · rename_i later hlater
      obtain ⟨hlen, hinside⟩ := ih (by rw [List.length_drop]; omega) hrest hlater
      simp only [Option.some.injEq] at h
      subst h
      refine ⟨by rw [List.length_cons, hlen], fun idx hidx => ?_⟩
      cases idx with
      | zero =>
        refine ⟨0, ?_, ?_⟩
        · rw [List.getD_cons_zero, Nat.mod_eq_of_lt (by omega), Nat.add_zero]
        · rw [List.drop_zero]
          omega
      | succ idx =>
        obtain ⟨k, hoffset, hk⟩ := hinside idx (Nat.lt_of_succ_lt_succ hidx)
        refine ⟨4 + entryLength data + k, ?_, ?_⟩
        · rw [List.getD_cons_succ, hoffset, Nat.add_assoc]
        · rw [List.drop_drop, List.length_drop] at hk
          omega

/-! ## The page -/

/-- A page of strings is read exactly when its entries lie inside it, and then each of them is
recorded where a lookup reads a prefix and a value inside the page. -/
def DictionaryBounds (column : Column) (page : Bytes) (numValues : Int) : Prop :=
  ((readDictionaryPage column page numValues).isOk = true ↔
      0 ≤ numValues ∧ EntriesFit numValues.toNat page) ∧
    ∀ dict, readDictionaryPage column page numValues = .ok dict →
      dict.data = page ∧ (dict.count : Int) = numValues ∧
        ∃ offsets, dict.offsets = some offsets ∧ offsets.length = dict.count ∧
          ∀ idx, idx < dict.count →
            offsets.getD idx 0 + 4 + entryLength (page.drop (offsets.getD idx 0)) ≤ page.length

/-- **A dictionary page of strings stays inside its bounds unless an entry wraps.** The sizes of a
page are `int32_t` in its header, so there is no page of `2^32` bytes. -/
theorem dictionaryBounds_iff {column : Column} (htype : column.type = .byteArray) {page : Bytes}
    (hsize : page.length < 4294967296) (numValues : Int) :
    DictionaryBounds column page numValues ↔
      ¬ (0 ≤ numValues ∧ WrapsInside numValues.toNat page) := by
  by_cases hneg : numValues < 0
  · have hread : readDictionaryPage column page numValues = .error .invalidPage := if_pos hneg
    have hcount : ¬ 0 ≤ numValues := by omega
    simp [DictionaryBounds, hread, hcount, Except.isOk, Except.toBool]
  have hread : readDictionaryPage column page numValues =
      match dictionaryOffsets numValues.toNat page 0 with
      | none => .error .decode
      | some offsets => .ok ⟨page, numValues.toNat, some offsets⟩ :=
    (if_neg hneg).trans (if_pos htype)
  have hok : (readDictionaryPage column page numValues).isOk = true ↔
      EntriesFit numValues.toNat page ∨ WrapsInside numValues.toNat page := by
    rw [← entriesFit32_iff hsize, ← isSome_dictionaryOffsets _ 0, hread]
    cases dictionaryOffsets numValues.toNat page 0 <;> simp [Except.isOk, Except.toBool]
  constructor
  · rintro ⟨hiff, -⟩ ⟨-, hwraps⟩
    exact not_fit_of_wraps hsize hwraps (hiff.mp (hok.mpr (Or.inr hwraps))).2
  · intro hsound
    have hnone : ¬ WrapsInside numValues.toNat page := fun h => hsound ⟨by omega, h⟩
    have hfits : (readDictionaryPage column page numValues).isOk = true ↔
        EntriesFit numValues.toNat page := hok.trans (or_iff_left hnone)
    refine ⟨hfits.trans ⟨fun h => ⟨by omega, h⟩, And.right⟩, fun dict hdict => ?_⟩
    have hfit : EntriesFit numValues.toNat page := hfits.mp (by rw [hdict]; rfl)
    rw [hread] at hdict
    split at hdict
    · cases hdict
    · rename_i offsets hoffsets
      obtain ⟨hlen, hinside⟩ := dictionaryOffsets_fit (by omega) hfit hoffsets
      cases hdict
      refine ⟨rfl, Int.toNat_of_nonneg (by omega), offsets, rfl, hlen, fun idx hidx => ?_⟩
      obtain ⟨k, hoffset, hk⟩ := hinside idx hidx
      rw [hoffset, Nat.zero_add]
      exact hk

/-- Two strings, the second empty. -/
theorem twoStrings_inside :
    DictionaryBounds ⟨.byteArray, 0, 0, 0⟩ [1, 0, 0, 0, 0x61, 0, 0, 0, 0] 2 := by
  refine (dictionaryBounds_iff rfl (by decide) 2).mpr fun h => ?_
  simp [WrapsInside, entryLength, leNat] at h

/-- A page of four bytes with one entry whose prefix is `2^32 - 1`: it is read, and the entry
reaches `2^32 - 1` bytes past its prefix. -/
theorem wrappedEntry_outside : ¬ DictionaryBounds ⟨.byteArray, 0, 0, 0⟩ [255, 255, 255, 255] 1 := by
  rintro ⟨hiff, -⟩
  have hok : (readDictionaryPage ⟨.byteArray, 0, 0, 0⟩ [255, 255, 255, 255] 1).isOk = true := by
    decide
  have hfit := (hiff.mp hok).2
  simp [EntriesFit, entryLength, leNat] at hfit

end Carquet
