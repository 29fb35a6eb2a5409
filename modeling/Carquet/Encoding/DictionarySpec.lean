import Carquet.Encoding.Dictionary
import Carquet.Lib.FirstOccurrences

/-!
# What the dictionary builder holds

After any values, the table finds exactly the values seen, each under the index of its first occurrence,
whatever resizes came before (`Holds`, `holds_add`); so the dictionary is PLAIN of the distinct values in
the order of their first occurrence. The capped encoder takes the same steps until its dictionary is
too large, and the dictionary only grows, so it gives up exactly when the whole list's is
(`dictionaryEncodeCapped_eq`).
-/

namespace Carquet

open LittleEndian ChainedTable FirstOccurrences

/-- A dictionary of these entries in PLAIN. -/
def plainEntries (isVariableLength : Bool) (values : List Value) : Bytes :=
  if isVariableLength then encodePlainByteArray values else encodePlainFixed values

theorem plainEntries_concat (varLen : Bool) (values : List Value) (v : Value) :
    plainEntries varLen (values ++ [v]) = plainEntries varLen values ++
      (if varLen then leBytes 4 v.length else []) ++ v := by
  cases varLen with
  | false => simp [plainEntries, encodePlainFixed]
  | true => simp [plainEntries, encodePlainByteArray]

theorem dictBucket_lt {n : Nat} (h : 0 < n) (hash : UInt32) : dictBucket n hash < n := by
  have := @Nat.and_le_right hash.toNat (n - 1)
  unfold dictBucket
  omega

/-- The builder after `values`. -/
structure DictBuilder.Holds (b : DictBuilder) (values : List Value) : Prop where
  count : b.count = values.eraseDups.length
  buckets : 0 < b.buckets.length
  placed : Placed dictSlot b.buckets
  entries : ∀ e, e ∈ entries b.buckets ↔
    ∃ i, values.eraseDups[i]? = some e.data ∧ e.hash = dictHash e.data ∧ e.index = i % 4294967296
  dictBuffer : b.dictBuffer = plainEntries b.isVariableLength values.eraseDups
  indices : b.indices = values.map fun v => values.eraseDups.idxOf v % 4294967296
  abandoned : b.abandoned = true ↔ b.maxDictBytes ≠ 0 ∧ b.maxDictBytes < b.dictBuffer.length

theorem holds_init (varLen : Bool) (maxDictBytes : Nat) :
    (dictBuilderInit varLen maxDictBytes).Holds [] where
  count := rfl
  buckets := by
    rw [dictBuilderInit, List.length_replicate]
    decide
  placed := by
    intro i e he
    rw [dictBuilderInit, bucket, List.getD_eq_getElem?_getD, List.getElem?_replicate] at he
    split at he <;> exact absurd he List.not_mem_nil
  entries := by
    intro e
    simp [dictBuilderInit, ChainedTable.entries]
  dictBuffer := by cases varLen <;> rfl
  indices := rfl
  abandoned := by simp [dictBuilderInit]

section

variable {b : DictBuilder} {values : List Value}

/-- **The lookup is complete** across every resize: it finds the values seen and no others. -/
theorem DictBuilder.Holds.lookup_eq (h : b.Holds values) (v : Value) :
    (b.lookup v = none ↔ v ∉ values) ∧
      ∀ e, b.lookup v = some e → e.index = values.eraseDups.idxOf v % 4294967296 := by
  have hp : ∀ e : DictEntry, (e.hash == dictHash v && e.data == v) = true →
      dictSlot b.buckets.length e = dictBucket b.buckets.length (dictHash v) := by
    intro e he
    simp only [Bool.and_eq_true, beq_iff_eq] at he
    rw [dictSlot, he.1]
  obtain ⟨hnone, hsome⟩ := find?_bucket h.placed (dictBucket_lt h.buckets (dictHash v)) hp
  refine ⟨hnone.trans ⟨fun hall hv => ?_, fun hv e he => ?_⟩, fun e he => ?_⟩
  · obtain ⟨i, hi, hget⟩ := List.getElem_of_mem (List.mem_eraseDups.mpr hv)
    have he := hall ⟨v, dictHash v, i % 4294967296⟩
      ((h.entries _).mpr ⟨i, by rw [List.getElem?_eq_getElem hi, hget], rfl, rfl⟩)
    simp at he
  · obtain ⟨i, hi, -, -⟩ := (h.entries e).mp he
    refine Bool.eq_false_iff.mpr fun hpe => hv ?_
    simp only [Bool.and_eq_true, beq_iff_eq] at hpe
    exact hpe.2 ▸ List.mem_eraseDups.mp (List.mem_of_getElem? hi)
  · obtain ⟨hmem, hpe⟩ := hsome e he
    obtain ⟨i, hi, -, hindex⟩ := (h.entries e).mp hmem
    simp only [Bool.and_eq_true, beq_iff_eq] at hpe
    obtain ⟨hlt, hget⟩ := List.getElem?_eq_some_iff.mp hi
    rw [hindex, ← hpe.2, ← hget, (nodup_eraseDups values).idxOf_getElem]

theorem DictBuilder.Holds.reserve (h : b.Holds values) : b.reserve.Holds values := by
  unfold DictBuilder.reserve
  split
  · have hdouble : 0 < b.buckets.length * 2 := Nat.mul_pos h.buckets (by decide)
    have hslot : ∀ e, dictSlot (b.buckets.length * 2) e < b.buckets.length * 2 :=
      fun e => dictBucket_lt hdouble e.hash
    obtain ⟨hlen, hplaced, hmem⟩ := rehash_spec hslot b.buckets
    exact { h with
      buckets := by rwa [dictBuilderRehash, hlen]
      placed := hplaced
      entries := fun e => (hmem e).trans (h.entries e) }
  · exact h

theorem DictBuilder.Holds.insert (h : b.Holds values) {v : Value} (hv : v ∉ values) :
    (b.insert v).Holds (values ++ [v]) := by
  have hfirsts := eraseDups_concat_of_not_mem hv
  have hbucket := dictBucket_lt h.buckets (dictHash v)
  have hbuffer : (b.insert v).dictBuffer = plainEntries b.isVariableLength (values ++ [v]).eraseDups := by
    rw [hfirsts, plainEntries_concat, ← h.dictBuffer]
    rfl
  refine ⟨?_, ?_, h.placed.push hbucket rfl, ?_, hbuffer, ?_, ?_⟩
  · rw [hfirsts, List.length_append, ← h.count]
    rfl
  · exact (length_push ..).symm ▸ h.buckets
  · intro e
    rw [hfirsts]
    refine (mem_entries_push hbucket _ e).trans ?_
    rw [h.entries]
    constructor
    · rintro (rfl | ⟨i, hi, hrest⟩)
      · exact ⟨values.eraseDups.length, by simp, rfl, by rw [h.count]⟩
      · exact ⟨i, by rw [List.getElem?_append_left (List.getElem?_eq_some_iff.mp hi).1, hi], hrest⟩
    · rintro ⟨i, hi, hhash, hindex⟩
      rcases Nat.lt_or_ge i values.eraseDups.length with hlt | hge
      · exact .inr ⟨i, by rwa [List.getElem?_append_left hlt] at hi, hhash, hindex⟩
      · rw [List.getElem?_append_right hge, List.getElem?_singleton] at hi
        split at hi
        · rename_i hzero
          obtain rfl : v = e.data := Option.some.inj hi
          have hi : i = b.count := by rw [h.count]; omega
          left
          cases e
          simp_all
        · cases hi
  · have hmem : ∀ u ∈ values, (values ++ [v]).eraseDups.idxOf u = values.eraseDups.idxOf u := by
      intro u hu
      rw [hfirsts, List.idxOf_append, if_pos (List.mem_eraseDups.mpr hu)]
    have hnew : (values ++ [v]).eraseDups.idxOf v = b.count := by
      rw [hfirsts, List.idxOf_append, if_neg (fun hm => hv (List.mem_eraseDups.mp hm)), h.count]
      simp
    rw [List.map_append, List.map_singleton, hnew]
    refine congrArg (· ++ [b.count % 4294967296]) ?_
    rw [h.indices]
    exact List.map_congr_left fun u hu => by rw [hmem u hu]
  · have hgrow : b.dictBuffer.length ≤ (b.insert v).dictBuffer.length := by
      rw [hbuffer, hfirsts, plainEntries_concat, ← h.dictBuffer]
      simp only [List.length_append]
      omega
    have habandoned : (b.insert v).abandoned =
        if b.maxDictBytes ≠ 0 ∧ b.maxDictBytes < (b.insert v).dictBuffer.length then true
        else b.abandoned := rfl
    rw [habandoned]
    split
    · rename_i hcap
      exact iff_of_true rfl hcap
    · rename_i hcap
      refine h.abandoned.trans ⟨fun hold => absurd ⟨hold.1, ?_⟩ hcap, fun hnew => absurd hnew hcap⟩
      omega

/-- **One value**: the builder holds it too. -/
theorem DictBuilder.Holds.add (h : b.Holds values) (v : Value) :
    (dictBuilderAdd b v).Holds (values ++ [v]) := by
  obtain ⟨hnone, hsome⟩ := h.lookup_eq v
  unfold dictBuilderAdd
  cases hlookup : b.lookup v with
  | none => exact h.reserve.insert (hnone.mp hlookup)
  | some e =>
    have hv : v ∈ values := by
      by_contra hv
      rw [hnone.mpr hv] at hlookup
      cases hlookup
    have hfirsts := eraseDups_concat_of_mem hv
    refine ⟨?_, h.buckets, h.placed, ?_, ?_, ?_, h.abandoned⟩
    · rw [hfirsts]
      exact h.count
    · rw [hfirsts]
      exact h.entries
    · rw [hfirsts]
      exact h.dictBuffer
    · rw [hfirsts, List.map_append, List.map_singleton, ← hsome e hlookup]
      exact congrArg (· ++ [e.index]) h.indices

end

/-! ## Whole lists -/

theorem holds_foldl {b : DictBuilder} {values : List Value} (h : b.Holds values) (vs : List Value) :
    (vs.foldl dictBuilderAdd b).Holds (values ++ vs) := by
  induction vs generalizing b values with
  | nil => rwa [List.append_nil]
  | cons v vs ih =>
    have hstep := ih (h.add v)
    rwa [List.append_assoc] at hstep

theorem dictBuilderAdd_frame (b : DictBuilder) (v : Value) :
    (dictBuilderAdd b v).isVariableLength = b.isVariableLength ∧
      (dictBuilderAdd b v).maxDictBytes = b.maxDictBytes ∧
      (b.abandoned = true → (dictBuilderAdd b v).abandoned = true) := by
  have hreserve : b.reserve.isVariableLength = b.isVariableLength ∧
      b.reserve.maxDictBytes = b.maxDictBytes ∧ b.reserve.abandoned = b.abandoned := by
    unfold DictBuilder.reserve
    split <;> exact ⟨rfl, rfl, rfl⟩
  unfold dictBuilderAdd
  split
  · exact ⟨rfl, rfl, id⟩
  · refine ⟨hreserve.1, hreserve.2.1, fun h => ?_⟩
    simp only [DictBuilder.insert, hreserve.2.2, h, ite_self]

theorem foldl_dictBuilderAdd_frame (vs : List Value) (b : DictBuilder) :
    (vs.foldl dictBuilderAdd b).isVariableLength = b.isVariableLength ∧
      (vs.foldl dictBuilderAdd b).maxDictBytes = b.maxDictBytes ∧
      (b.abandoned = true → (vs.foldl dictBuilderAdd b).abandoned = true) := by
  induction vs generalizing b with
  | nil => exact ⟨rfl, rfl, id⟩
  | cons v vs ih =>
    obtain ⟨hvar, hmax, habandoned⟩ := dictBuilderAdd_frame b v
    obtain ⟨hvar', hmax', habandoned'⟩ := ih (dictBuilderAdd b v)
    exact ⟨hvar'.trans hvar, hmax'.trans hmax, fun h => habandoned' (habandoned h)⟩

/-- The index stream of a list: the bit width of the entry count, then the index of each value's first
occurrence. -/
def indexStream (values : List Value) : Bytes :=
  let bitWidth := bitWidthForCount (values.eraseDups.length % 4294967296)
  UInt8.ofNat bitWidth ::
    rleEncodeAll bitWidth (values.map fun v => values.eraseDups.idxOf v % 4294967296)

theorem serialize_of_holds {b : DictBuilder} {values : List Value} (h : b.Holds values) :
    b.serialize = (plainEntries b.isVariableLength values.eraseDups, indexStream values) := by
  rw [DictBuilder.serialize, h.count, h.dictBuffer, h.indices]
  rfl

/-- **The encoders**: PLAIN of the first occurrences, and their indices. -/
theorem dictionaryEncodeAll_eq (varLen : Bool) (values : List Value) :
    dictionaryEncodeAll varLen values =
      (plainEntries varLen values.eraseDups, indexStream values) := by
  have h := holds_foldl (holds_init varLen 0) values
  rw [List.nil_append] at h
  rw [dictionaryEncodeAll, serialize_of_holds h, (foldl_dictBuilderAdd_frame values _).1]
  rfl

/-! ## The capped encoder -/

/-- The loop that stops early gives up when the whole loop does, and otherwise is the whole loop. -/
theorem addUntilAbandoned_eq (vs : List Value) (b : DictBuilder) :
    (addUntilAbandoned vs b).abandoned = (vs.foldl dictBuilderAdd b).abandoned ∧
      ((addUntilAbandoned vs b).abandoned = false →
        addUntilAbandoned vs b = vs.foldl dictBuilderAdd b) := by
  induction vs generalizing b with
  | nil => exact ⟨rfl, fun _ => rfl⟩
  | cons v vs ih =>
    rw [addUntilAbandoned]
    split
    · rename_i habandoned
      have hwhole := (foldl_dictBuilderAdd_frame (v :: vs) b).2.2 habandoned
      refine ⟨habandoned.trans hwhole.symm, fun h => ?_⟩
      rw [habandoned] at h
      cases h
    · exact ih (dictBuilderAdd b v)

/-- **The capped encoder** gives up exactly when there is a cap and the PLAIN dictionary of the whole
list exceeds it; otherwise its output is the uncapped one. -/
theorem dictionaryEncodeCapped_eq {type : PhysicalType} {varLen : Bool} {values : List Value}
    (htype : dictVariableLength type = some varLen) (hne : values ≠ []) (maxDictBytes : Nat) :
    dictionaryEncodeCapped type values maxDictBytes =
      .ok (if maxDictBytes ≠ 0 ∧
          maxDictBytes < (plainEntries varLen values.eraseDups).length then none
        else some (dictionaryEncodeAll varLen values)) := by
  have h := holds_foldl (holds_init varLen maxDictBytes) values
  rw [List.nil_append] at h
  obtain ⟨hvar, hmax, -⟩ := foldl_dictBuilderAdd_frame values (dictBuilderInit varLen maxDictBytes)
  have hcap := h.abandoned
  rw [hmax, h.dictBuffer, hvar] at hcap
  obtain ⟨hsame, hwhole⟩ := addUntilAbandoned_eq values (dictBuilderInit varLen maxDictBytes)
  rw [dictionaryEncodeCapped, if_neg (fun hlen => hne (List.length_eq_zero_iff.mp hlen)), htype]
  refine congrArg Except.ok ?_
  split
  · rename_i habandoned
    exact (if_pos (hcap.mp (hsame ▸ habandoned))).symm
  · rename_i habandoned
    have hfalse := Bool.eq_false_iff.mpr habandoned
    rw [hwhole hfalse, serialize_of_holds h, dictionaryEncodeAll_eq, hvar]
    refine (if_neg fun hexceeds => ?_).symm
    rw [hsame] at habandoned
    exact habandoned (hcap.mpr hexceeds)

end Carquet
