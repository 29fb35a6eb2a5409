import Carquet.Encoding.DictionarySpec
import Carquet.Reader.PageDecode

/-!
# Dictionary pages

`src/reader/page_reader.c:713-817` and the round trip of `src/encoding/dictionary.c`. The page reader keeps
the bytes of a dictionary page and, for strings, the offset of each entry.

`dictionary_right`: every list of values is found again through its indices, as long as no value
stands `2^31` times in a row (the count of a repeated run is shifted in 32 bits) and the distinct values can
be counted in an `int32_t`.
-/

namespace Carquet

open LittleEndian Chunks FirstOccurrences

/-! ## Reading a dictionary page -/

/-- Bytes of an entry in a dictionary page (page_reader.c:731-751). -/
def dictionaryValueSize (column : Column) : Nat :=
  if column.type = .boolean then 0 else physicalTypeStride column.type column.typeLength

/-- The scan that fills the offset table (page_reader.c:772-803), `pos` bytes into the page.
`size_t entry_size = 4 + len` is a sum of 32 bits: `len` is a `uint32_t`. -/
def dictionaryOffsets : Nat → Bytes → Nat → Option (List Nat)
  | 0, _, _ => some []
  | n + 1, data, pos =>
    if data.length < 4 then none
    else
      let entrySize := (4 + leNat (data.take 4)) % 4294967296
      if data.length < entrySize then none
      else
        match dictionaryOffsets n (data.drop entrySize) (pos + entrySize) with
        | none => none
        | some offsets => some (pos % 4294967296 :: offsets)

/-- `carquet_read_dictionary_page` (page_reader.c:713-829). -/
def readDictionaryPage (column : Column) (page : Bytes) (numValues : Int) : Except Status Dictionary :=
  if numValues < 0 then .error .invalidPage
  else if column.type = .byteArray then
    match dictionaryOffsets numValues.toNat page 0 with
    | none => .error .decode
    | some offsets => .ok ⟨page, numValues.toNat, some offsets⟩
  else
    let dictSize := dictionaryValueSize column * numValues.toNat
    if page.length < dictSize then .error .decode
    else .ok ⟨page.take dictSize, numValues.toNat, none⟩

/-! ## Entries -/

theorem length_encodePlainByteArray_cons (v : Value) (vs : List Value) :
    (encodePlainByteArray (v :: vs)).length = 4 + v.length + (encodePlainByteArray vs).length := by
  simp [encodePlainByteArray, length_leBytes, Nat.add_assoc]

/-- The entry at the front of a PLAIN dictionary of strings. -/
theorem plainByteArray_front {v : Value} (hv : v.length < 2147483648) (vs : List Value) :
    (encodePlainByteArray (v :: vs)).take 4 = leBytes 4 v.length ∧
      leNat ((encodePlainByteArray (v :: vs)).take 4) = v.length ∧
      ((encodePlainByteArray (v :: vs)).drop 4).take v.length = v ∧
      (encodePlainByteArray (v :: vs)).drop (4 + v.length) = encodePlainByteArray vs := by
  have hcons : encodePlainByteArray (v :: vs) =
      leBytes 4 v.length ++ (v ++ encodePlainByteArray vs) := by
    simp [encodePlainByteArray]
  have h4 := length_leBytes 4 v.length
  have htake : (encodePlainByteArray (v :: vs)).take 4 = leBytes 4 v.length := by
    rw [hcons, List.take_append_of_le_length (by omega), List.take_of_length_le (by omega)]
  have hdrop : (encodePlainByteArray (v :: vs)).drop 4 = v ++ encodePlainByteArray vs := by
    rw [hcons, List.drop_append_of_le_length (by omega), List.drop_of_length_le (by omega),
      List.nil_append]
  refine ⟨htake, ?_, ?_, ?_⟩
  · rw [htake]
    exact leNat_leBytes_of_lt (by omega)
  · rw [hdrop, List.take_left]
  · rw [← List.drop_drop, hdrop, List.drop_left]

/-- Where entry `i` starts. -/
theorem drop_plainByteArray (vs : List Value) (i : Nat) :
    (encodePlainByteArray vs).drop (encodePlainByteArray (vs.take i)).length =
      encodePlainByteArray (vs.drop i) := by
  conv_lhs => rw [← List.take_append_drop i vs, ← encodePlainByteArray_append]
  rw [List.take_append_drop, List.drop_left]

theorem scanDictionary_plain {vs : List Value} (hv : ∀ v ∈ vs, v.length < 2147483648) (i : Nat)
    (hi : i ≤ vs.length) :
    scanDictionary i (encodePlainByteArray vs) = encodePlainByteArray (vs.drop i) := by
  induction i generalizing vs with
  | zero => rfl
  | succ i ih =>
    cases vs with
    | nil => exact absurd hi (Nat.not_succ_le_zero i)
    | cons v vs =>
      obtain ⟨-, hread, -, hrest⟩ := plainByteArray_front (hv v List.mem_cons_self) vs
      have hv' := hv v List.mem_cons_self
      rw [scanDictionary, hread, Nat.mod_eq_of_lt (by omega), hrest, List.drop_succ_cons]
      exact ih (fun u hu => hv u (List.mem_cons_of_mem _ hu)) (Nat.le_of_succ_le_succ hi)

theorem dictionaryOffsets_plain {vs : List Value} (hv : ∀ v ∈ vs, v.length < 2147483648) (pos : Nat) :
    dictionaryOffsets vs.length (encodePlainByteArray vs) pos =
      some ((List.range vs.length).map fun i =>
        (pos + (encodePlainByteArray (vs.take i)).length) % 4294967296) := by
  induction vs generalizing pos with
  | nil => rfl
  | cons v vs ih =>
    obtain ⟨-, hread, -, hrest⟩ := plainByteArray_front (hv v List.mem_cons_self) vs
    have hlen := length_encodePlainByteArray_cons v vs
    have hv' := hv v List.mem_cons_self
    have hsize : (4 + v.length) % 4294967296 = 4 + v.length := Nat.mod_eq_of_lt (by omega)
    rw [List.length_cons, dictionaryOffsets, if_neg (by omega)]
    simp only [hread, hsize, hrest]
    rw [if_neg (by omega), ih fun u hu => hv u (List.mem_cons_of_mem _ hu)]
    simp only [List.range_succ_eq_map, List.map_cons, List.map_map, List.take_zero]
    refine congrArg some (congrArg₂ List.cons rfl (List.map_congr_left fun i _ => ?_))
    simp only [Function.comp, Nat.succ_eq_add_one, List.take_succ_cons,
      length_encodePlainByteArray_cons]
    omega

theorem drop_plainFixed {w : Nat} {vs : List Value} (hv : ∀ v ∈ vs, v.length = w) {i : Nat}
    (hi : i < vs.length) : ((encodePlainFixed vs).drop (i * w)).take w = vs[i] :=
  take_drop_flatten hv hi

/-! ## The lists with a dictionary -/

/-- A list the encoders take: not empty, its values of the type's width or, for strings, of an
`int32_t` length. -/
structure DictList where
  type : PhysicalType
  varLen : Bool
  capable : dictVariableLength type = some varLen
  values : List Value
  nonempty : values ≠ []
  fits : ∀ v ∈ values,
    if varLen then v.length < 2147483648 else v.length = physicalTypeStride type 0

namespace DictList

/-- The distinct values in the order of their first occurrence. -/
def firsts (l : DictList) : List Value := l.values.eraseDups

/-- The PLAIN dictionary of the whole list. -/
def payload (l : DictList) : Bytes := plainEntries l.varLen l.firsts

/-- What the counters can hold: the distinct values in an `int32_t`, each run of a value in 31
bits. -/
structure Countable (l : DictList) : Prop where
  entries : l.firsts.length < 2147483648
  runs : ∀ n v, List.replicate n v <:+: l.values → n < 2147483648

/-- The dictionary as the reader has it: with the offset table of its page, or without one. -/
def Loaded (l : DictList) (column : Column) (dict : Dictionary) : Prop :=
  dict = ⟨l.payload, l.firsts.length, none⟩ ∨
    l.payload.length < 4294967296 ∧
      readDictionaryPage column l.payload l.firsts.length = .ok dict

theorem type_cases (l : DictList) :
    (l.varLen = true ∧ l.type = .byteArray) ∨ (l.varLen = false ∧ l.type ≠ .byteArray ∧
      l.type ≠ .boolean ∧ ∀ typeLength, physicalTypeStride l.type typeLength =
        physicalTypeStride l.type 0) := by
  have h := l.capable
  cases htype : l.type <;> rw [htype] at h <;> simp [dictVariableLength] at h <;>
    simp [h, physicalTypeStride]

theorem fits_firsts (l : DictList) : ∀ v ∈ l.firsts,
    if l.varLen then v.length < 2147483648 else v.length = physicalTypeStride l.type 0 :=
  fun v hv => l.fits v (List.mem_eraseDups.mp hv)

theorem firsts_pos (l : DictList) : 0 < l.firsts.length := by
  obtain ⟨v, hv⟩ := List.exists_mem_of_ne_nil _ l.nonempty
  exact List.length_pos_of_mem (List.mem_eraseDups.mpr hv)

/-- The payload of a fixed-width type. -/
theorem payload_fixed {l : DictList} (h : l.varLen = false) :
    l.payload = encodePlainFixed l.firsts ∧
      (∀ v ∈ l.firsts, v.length = physicalTypeStride l.type 0) ∧
      l.payload.length = l.firsts.length * physicalTypeStride l.type 0 := by
  have hpayload : l.payload = encodePlainFixed l.firsts := by simp [payload, plainEntries, h]
  have hwidth : ∀ v ∈ l.firsts, v.length = physicalTypeStride l.type 0 := by
    intro v hv
    have hfits := l.fits_firsts v hv
    rwa [h, if_neg (by decide)] at hfits
  exact ⟨hpayload, hwidth, hpayload ▸ length_flatten_of_width hwidth⟩

theorem payload_strings {l : DictList} (h : l.varLen = true) :
    l.payload = encodePlainByteArray l.firsts ∧ ∀ v ∈ l.firsts, v.length < 2147483648 := by
  refine ⟨by simp [payload, plainEntries, h], fun v hv => ?_⟩
  have hfits := l.fits_firsts v hv
  rwa [h, if_pos rfl] at hfits

/-- **An entry is the value it was made from**, with and without an offset table. -/
theorem dictionaryEntry_eq {l : DictList} {column : Column} (hcol : column.type = l.type)
    {dict : Dictionary} (hdict : l.Loaded column dict) {i : Nat} (hi : i < l.firsts.length) :
    dict.count = l.firsts.length ∧ dictionaryEntry column dict i = l.firsts[i] := by
  rcases l.type_cases with ⟨hvar, htype⟩ | ⟨hvar, htype, hbool, hstride⟩
  · obtain ⟨hpayload, hlen⟩ := l.payload_strings hvar
    have hfront := plainByteArray_front (hlen _ (List.getElem_mem hi)) (l.firsts.drop (i + 1))
    rw [← List.drop_eq_getElem_cons hi] at hfront
    obtain ⟨-, hread, hvalue, -⟩ := hfront
    rw [dictionaryEntry, if_pos (hcol.trans htype)]
    rcases hdict with rfl | ⟨hsmall, hload⟩
    · simp only [hpayload, scanDictionary_plain hlen i (Nat.le_of_lt hi), hread, hvalue, and_self]
    · rw [readDictionaryPage, if_neg (by omega), if_pos (hcol.trans htype), Int.toNat_natCast,
        hpayload, dictionaryOffsets_plain hlen] at hload
      obtain rfl := Except.ok.inj hload
      have hle : (encodePlainByteArray (l.firsts.take i)).length ≤ l.payload.length := by
        rw [hpayload]
        conv_rhs => rw [← List.take_append_drop i l.firsts, ← encodePlainByteArray_append]
        rw [List.length_append]
        exact Nat.le_add_right ..
      simp only [List.getD_eq_getElem?_getD, List.getElem?_map, List.getElem?_range hi,
        Option.map_some, Option.getD_some, Nat.zero_add, true_and]
      rw [Nat.mod_eq_of_lt (Nat.lt_of_le_of_lt hle hsmall), drop_plainByteArray, hread, hvalue]
  · obtain ⟨hpayload, hwidth, hlen⟩ := l.payload_fixed hvar
    have hnot : column.type ≠ .byteArray := hcol ▸ htype
    have hdata : dict = ⟨l.payload, l.firsts.length, none⟩ := by
      rcases hdict with rfl | ⟨-, hload⟩
      · rfl
      · have hsize : dictionaryValueSize column * l.firsts.length = l.payload.length := by
          rw [dictionaryValueSize, if_neg (hcol ▸ hbool), hcol, hstride, hlen, Nat.mul_comm]
        rw [readDictionaryPage, if_neg (by omega), if_neg hnot, Int.toNat_natCast, hsize,
          if_neg (by omega), List.take_length] at hload
        exact (Except.ok.inj hload).symm
    subst hdata
    rw [dictionaryEntry, if_neg hnot, hcol, hstride]
    exact ⟨rfl, by simp only [hpayload]; exact drop_plainFixed hwidth hi⟩

/-- The page of the dictionary is read. -/
theorem isOk_readDictionaryPage (l : DictList) {column : Column} (hcol : column.type = l.type) :
    ∃ dict, readDictionaryPage column l.payload l.firsts.length = .ok dict := by
  unfold readDictionaryPage
  rw [if_neg (by omega), Int.toNat_natCast]
  rcases l.type_cases with ⟨hvar, htype⟩ | ⟨hvar, htype, hbool, hstride⟩
  · obtain ⟨hpayload, hlen⟩ := l.payload_strings hvar
    rw [if_pos (hcol.trans htype), hpayload, dictionaryOffsets_plain hlen]
    exact ⟨_, rfl⟩
  · obtain ⟨-, -, hlen⟩ := l.payload_fixed hvar
    have hsize : dictionaryValueSize column * l.firsts.length = l.payload.length := by
      rw [dictionaryValueSize, if_neg (hcol ▸ hbool), hcol, hstride, hlen, Nat.mul_comm]
    rw [if_neg (hcol ▸ htype), hsize, if_neg (Nat.lt_irrefl _)]
    exact ⟨_, rfl⟩

/-! ## The indices -/

theorem bitWidthForCount_spec {n : Nat} (h0 : 0 < n) (hn : n < 2147483648) :
    bitWidthForCount n < 32 ∧ ∀ i < n, i < 2 ^ bitWidthForCount n := by
  unfold bitWidthForCount
  rw [if_neg (by omega)]
  by_cases h1 : n - 1 = 0
  · rw [if_pos h1]
    exact ⟨by decide, fun i hi => by simp; omega⟩
  · rw [if_neg h1, if_pos (Nat.succ_pos _)]
    have hlog : (n - 1).log2 < 31 := (Nat.log2_lt h1).mpr (by omega)
    refine ⟨by omega, fun i hi => ?_⟩
    have := (Nat.log2_lt h1).mp (Nat.lt_succ_self (n - 1).log2)
    omega

/-- The index of each value's first occurrence. -/
def indexList (l : DictList) : List Nat := l.values.map fun v => l.firsts.idxOf v

theorem indexList_lt {l : DictList} : ∀ i ∈ l.indexList, i < l.firsts.length := by
  intro i hi
  obtain ⟨v, hv, rfl⟩ := List.mem_map.mp hi
  exact List.idxOf_lt_length_of_mem (List.mem_eraseDups.mpr hv)

/-- A run of one index is a run of one value. -/
theorem runsBelow_indexList {l : DictList} (h : l.Countable) : RunsBelow l.indexList := by
  intro n i hrun
  obtain ⟨vs, hvs, heq⟩ := List.infix_map_iff.mp hrun
  rcases n with - | n
  · decide
  · have hlen : vs.length = n + 1 := by
      have := congrArg List.length heq
      rw [List.length_replicate, List.length_map] at this
      exact this.symm
    have hindex : ∀ u ∈ vs, l.firsts.idxOf u = i := by
      intro u hu
      have : l.firsts.idxOf u ∈ List.replicate (n + 1) i := heq ▸ List.mem_map_of_mem hu
      exact List.eq_of_mem_replicate this
    have hmem : ∀ u ∈ vs, u ∈ l.firsts := fun u hu =>
      List.mem_eraseDups.mpr (hvs.subset hu)
    obtain ⟨v, hv⟩ := List.exists_mem_of_length_pos (l := vs) (by omega)
    have hsame : ∀ u ∈ vs, u = v := by
      intro u hu
      rw [← List.getElem_idxOf (List.idxOf_lt_length_of_mem (hmem u hu)),
        ← List.getElem_idxOf (List.idxOf_lt_length_of_mem (hmem v hv))]
      simp only [hindex u hu, hindex v hv]
    exact h.runs (n + 1) v (List.eq_replicate_iff.mpr ⟨hlen, hsame⟩ ▸ hvs)

/-- **The index stream decodes** to the indices. -/
theorem rleDecodeAll_indexStream {l : DictList} (h : l.Countable) :
    ∃ (bitWidth : UInt8) (stream : Bytes), indexStream l.values = bitWidth :: stream ∧
      rleDecodeAll stream bitWidth.toNat l.values.length = l.indexList := by
  have hcount : l.firsts.length % 4294967296 = l.firsts.length :=
    Nat.mod_eq_of_lt (Nat.lt_trans h.entries (by decide))
  obtain ⟨h32, hfits⟩ := bitWidthForCount_spec l.firsts_pos h.entries
  have hindices : (l.values.map fun v => l.values.eraseDups.idxOf v % 4294967296) = l.indexList := by
    refine List.map_congr_left fun v hv => Nat.mod_eq_of_lt ?_
    have := indexList_lt (l := l) _ (List.mem_map_of_mem hv)
    exact Nat.lt_trans this (Nat.lt_trans h.entries (by decide))
  have hholds := holds_rleEncodeAll_of_runs (fun i hi => hfits i (indexList_lt i hi))
    (runsBelow_indexList h) []
  rw [List.append_nil, hybridValues_nil, List.append_nil] at hholds
  refine ⟨UInt8.ofNat (bitWidthForCount l.firsts.length),
    rleEncodeAll (bitWidthForCount l.firsts.length) l.indexList, ?_, ?_⟩
  · rw [indexStream, hindices]
    exact congrArg (fun n => UInt8.ofNat (bitWidthForCount n) ::
      rleEncodeAll (bitWidthForCount n) l.indexList) hcount
  · have hbyte : (UInt8.ofNat (bitWidthForCount l.firsts.length)).toNat =
        bitWidthForCount l.firsts.length := by
      rw [UInt8.toNat_ofNat']
      omega
    rw [hbyte, rleDecodeAll_eq_take (by omega) (by omega), Int.toNat_natCast, hholds]
    exact List.take_of_length_le (by simp [indexList])

theorem map_indexList {l : DictList} {f : Nat → Value}
    (hf : ∀ (i : Nat) (hi : i < l.firsts.length), f i = l.firsts[i]) : l.indexList.map f = l.values := by
  rw [indexList, List.map_map]
  conv_rhs => rw [← List.map_id l.values]
  refine List.map_congr_left fun v hv => ?_
  have hlt : l.firsts.idxOf v < l.firsts.length :=
    List.idxOf_lt_length_of_mem (List.mem_eraseDups.mpr hv)
  rw [Function.comp, hf _ hlt, List.getElem_idxOf, id]

/-! ## Dictionary encoding -/

/-- The indices, decoded and looked up, are the list: by the decoders of `dictionary.c` and by the page
reader, into any buffer. -/
structure Returned (l : DictList) : Prop where
  decoded : ∀ decode ∈ dictionaryDecode l.type,
    decode l.payload l.firsts.length (indexStream l.values) l.values.length = .ok l.values
  read : ∀ (r : PageReader) (dict : Dictionary), r.column.type = l.type →
    r.preserveDictionary = false → r.dictionary = some dict → l.Loaded r.column dict →
    ∀ old, (decodePageValues r .rleDictionary (indexStream l.values) old l.values.length).map
      Prod.fst = .ok (overlay l.values old)

theorem returned_of_countable {l : DictList} (h : l.Countable) : l.Returned := by
  obtain ⟨bitWidth, stream, hstream, hindices⟩ := rleDecodeAll_indexStream h
  have hlen : l.indexList.length = l.values.length := by rw [indexList, List.length_map]
  have hany : l.indexList.any (l.firsts.length ≤ ·) = false := by
    rw [List.any_eq_false]
    intro i hi
    have := indexList_lt i hi
    simp only [decide_eq_true_eq]
    omega
  refine ⟨fun decode hdecode => ?_, fun r dict hcol hpreserve hdict hloaded old => ?_⟩
  · rcases l.type_cases with ⟨-, htype⟩ | ⟨hvar, -⟩
    · rw [htype] at hdecode
      cases hdecode
    · obtain ⟨hpayload, hwidth, hsize⟩ := l.payload_fixed hvar
      have hfixed : decode = dictionaryDecodeFixed (physicalTypeStride l.type 0) := by
        have hcap := l.capable
        cases htype : l.type <;> rw [htype] at hdecode hcap <;>
          simp [dictVariableLength, dictionaryDecode] at hdecode hcap <;> exact hdecode.symm
      have hpos := List.length_pos_iff.mpr l.nonempty
      have hfirsts := l.firsts_pos
      rw [hfixed, hstream, dictionaryDecodeFixed, if_neg (by omega), if_neg (by omega),
        if_neg (by rw [Int.toNat_natCast, hsize]; omega)]
      simp only [Int.toNat_natCast, hindices, hlen, hany]
      rw [if_neg (by omega), if_neg (by decide), map_indexList]
      intro i hi
      rw [hpayload]
      exact drop_plainFixed hwidth hi
  · have hbool : r.column.type ≠ .boolean := by
      rw [hcol]
      intro hb
      have hcap := l.capable
      rw [hb] at hcap
      cases hcap
    have htake : (decodedIndices r stream bitWidth.toNat l.values.length).take l.values.length =
        l.indexList := by
      rw [decodedIndices, hindices, take_overlay _ (Nat.le_of_eq hlen.symm), ← hlen, List.take_length]
    have hcount : dict.count = l.firsts.length := (dictionaryEntry_eq hcol hloaded l.firsts_pos).1
    have hgather : gatherDictionary r.column dict l.indexList = .ok l.values := by
      rw [gatherDictionary, hcount, hany, if_neg (by decide),
        map_indexList fun i hi => (dictionaryEntry_eq hcol hloaded hi).2]
    simp only [decodePageValues, hdict, hstream, hpreserve, if_neg hbool, htake, hgather]
    rfl

/-- What the encoders and decoders do with a list. -/
structure Right (l : DictList) : Prop where
  encoded : ∀ encode ∈ dictionaryEncode l.type,
    encode l.values = (plainEntries l.varLen l.firsts, indexStream l.values)
  distinct : l.firsts.Nodup
  complete : ∀ v, v ∈ l.firsts ↔ v ∈ l.values
  ordered : l.firsts.Pairwise fun a b => l.values.idxOf a < l.values.idxOf b
  capped : ∀ maxDictBytes, ∀ encode ∈ dictionaryEncode l.type,
    dictionaryEncodeCapped l.type l.values maxDictBytes =
      .ok (if maxDictBytes ≠ 0 ∧ maxDictBytes < l.payload.length then none
        else some (encode l.values))
  returned : l.Countable → l.Returned

theorem encode_eq {l : DictList} : ∀ encode ∈ dictionaryEncode l.type,
    encode = dictionaryEncodeAll l.varLen := by
  intro encode hencode
  have hcap := l.capable
  cases htype : l.type <;> rw [htype] at hencode hcap <;>
    simp [dictVariableLength, dictionaryEncode] at hencode hcap <;>
    exact hcap ▸ hencode.symm

end DictList

/-- **Dictionary encoding**: the dictionary is PLAIN of the distinct values in the order of their first
occurrence; a capped encoder gives up exactly when there is a cap and the dictionary of the whole list
exceeds it, and otherwise writes the same bytes; and the indices of a countable list lead back to
it. -/
theorem dictionary_right (l : DictList) : l.Right where
  encoded := by
    intro encode hencode
    rw [DictList.encode_eq encode hencode, dictionaryEncodeAll_eq]
    rfl
  distinct := nodup_eraseDups l.values
  complete := fun _ => List.mem_eraseDups
  ordered := pairwise_idxOf l.values
  capped := by
    intro maxDictBytes encode hencode
    rw [DictList.encode_eq encode hencode]
    exact dictionaryEncodeCapped_eq l.capable l.nonempty maxDictBytes
  returned := DictList.returned_of_countable

/-! ### Where it fails -/

/-- `n` zeros of type INT32. -/
def zeros (n : Nat) (h : 0 < n) : DictList where
  type := .int32
  varLen := false
  capable := rfl
  values := List.replicate n [0, 0, 0, 0]
  nonempty := by
    intro hnil
    have := congrArg List.length hnil
    rw [List.length_replicate, List.length_nil] at this
    omega
  fits := by
    intro v hv
    rw [List.eq_of_mem_replicate hv]
    rfl

theorem eraseDups_replicate {n : Nat} (h : 0 < n) (v : Value) :
    (List.replicate n v).eraseDups = [v] := by
  obtain ⟨n, rfl⟩ := Nat.exists_eq_succ_of_ne_zero (Nat.pos_iff_ne_zero.mp h)
  rw [List.replicate_succ, List.eraseDups_cons]
  simp

theorem foldl_put_replicate (w value n : Nat) :
    (List.replicate n value).foldl rleEncoderPut ⟨w, value, 1, true, [], 0, []⟩ =
      ⟨w, value, n + 1, true, [], 0, []⟩ := by
  induction n with
  | zero => rfl
  | succ n ih =>
    rw [List.replicate_succ', List.foldl_append, ih]
    simp [rleEncoderPut]

/-- One long run is all the encoder writes for a constant list. -/
theorem rleEncodeAll_replicate {w value n : Nat} (h : 8 ≤ n) :
    rleEncodeAll w (List.replicate n value) = rleRun w n value := by
  obtain ⟨n, rfl⟩ := Nat.exists_eq_succ_of_ne_zero (by omega : n ≠ 0)
  rw [rleEncodeAll, List.replicate_succ, List.foldl_cons]
  have hfirst : rleEncoderPut (rleEncoderInit w) value = ⟨w, value, 1, true, [], 0, []⟩ := rfl
  have hbuffer : flushBitpack ⟨w, value, n + 1, true, [], 0, []⟩ =
      ⟨w, value, n + 1, true, [], 0, []⟩ := rfl
  rw [hfirst, foldl_put_replicate, rleEncoderFlush, if_pos h, hbuffer, flushRle,
    if_neg (Nat.succ_ne_zero n)]
  rfl

/-- A run whose count vanishes in 31 bits leaves no value. -/
theorem decode_zeros {n : Nat} (h : 0 < n) (hrun : n % 2147483648 = 0) :
    dictionaryDecodeInt32 (zeros n h).payload 1 (indexStream (zeros n h).values) n =
      .error .decode := by
  have hvalues : (zeros n h).values = List.replicate n [0, 0, 0, 0] := rfl
  have hfirsts : (zeros n h).values.eraseDups = [[0, 0, 0, 0]] := eraseDups_replicate h _
  have hpayload : (zeros n h).payload = [0, 0, 0, 0] := by
    rw [DictList.payload, DictList.firsts, hfirsts]
    rfl
  have hindices : ((zeros n h).values.map fun v =>
      (zeros n h).values.eraseDups.idxOf v % 4294967296) = List.replicate n 0 := by
    rw [hfirsts, hvalues, List.map_replicate]
    rfl
  have hstream : indexStream (zeros n h).values = [1, 0, 0] := by
    rw [indexStream, hindices, hfirsts]
    simp only [List.length_singleton]
    rw [rleEncodeAll_replicate (by omega), rleRun]
    have hzero : n * 2 % 4294967296 = 0 := by omega
    rw [hzero]
    rfl
  have hnone : hybridValues 1 [0, 0] = [] := by decide
  rw [hpayload, hstream, dictionaryDecodeInt32, dictionaryDecodeFixed, if_neg (by omega),
    if_neg (by decide), if_neg (by decide)]
  have hdecoded : rleDecodeAll [0, 0] (1 : UInt8).toNat n = [] := by
    rw [rleDecodeAll_eq_take (by decide) (by decide)]
    exact (congrArg (List.take n) hnone).trans List.take_nil
  simp only [Int.toNat_natCast, hdecoded, List.length_nil]
  rw [if_pos (by omega)]

/-- A cap of 0 is no cap, and `2^31` zeros are not returned. -/
theorem dictionary_not_always_right :
    (¬ ∀ (l : DictList) (maxDictBytes : Nat),
      dictionaryEncodeCapped l.type l.values maxDictBytes = .ok none ↔
        maxDictBytes < l.payload.length) ∧
    ¬ ∀ l : DictList, ∀ decode ∈ dictionaryDecode l.type,
      decode l.payload l.firsts.length (indexStream l.values) l.values.length = .ok l.values := by
  constructor
  · intro hall
    have hone := (hall (zeros 1 (by decide)) 0).mpr (by decide)
    rw [dictionaryEncodeCapped_eq rfl (zeros 1 (by decide)).nonempty] at hone
    simp at hone
  · intro hall
    have hlong := hall (zeros 2147483648 (by decide)) _ rfl
    have hfirsts : (zeros 2147483648 (by decide)).firsts = [[0, 0, 0, 0]] :=
      eraseDups_replicate (by decide) _
    have hlen : (zeros 2147483648 (by decide)).values.length = 2147483648 :=
      List.length_replicate
    rw [hfirsts, hlen] at hlong
    have hfail := decode_zeros (n := 2147483648) (by decide) (by decide)
    exact absurd (hfail.symm.trans hlong) (by simp)

end Carquet
