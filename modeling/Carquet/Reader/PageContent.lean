import Carquet.Encoding.DeltaSpec
import Carquet.Writer.ColumnWriterSpec
import Carquet.Writer.DeltaReserve
import Carquet.Writer.PageFinalizeSpec
import Carquet.Writer.PageValues

/-!
# What a page holds

The buffers of the page writer, read by the page decoder: `carquet_page_writer_add_values`
(page_writer.c:1026-1284) against `carquet_read_data_page_v1` and `carquet_read_data_page_v2`
(page_reader.c:991-1597).

* `writerEncodingSupported` — `writer_encoding_supported` (file_writer.c:812-846).
* `PageHolds` — a page holds rows, whoever decodes it.
* `encodeCall_holds` — one call makes such a page, whatever the type, the encoding and the levels.
* `PageAccumulator.addAll_accumulates` — more calls do if there are no levels and the values are
  PLAIN: a second level section or a second delta block is behind what the decoder reads.
-/

namespace Carquet

open LittleEndian LevelStream

/-- `writer_encoding_supported` (file_writer.c:812-846). -/
def writerEncodingSupported (encoding : Encoding) (type : PhysicalType) : Bool :=
  match encoding with
  | .plain => true
  | .byteStreamSplit =>
    type = .float || type = .double || type = .int32 || type = .int64 || type = .fixedLenByteArray
  | .deltaBinaryPacked => type = .int32 || type = .int64
  | .deltaLengthByteArray => type = .byteArray
  | .deltaByteArray => type = .byteArray || type = .fixedLenByteArray
  | .rleDictionary | .plainDictionary =>
    type = .int32 || type = .int64 || type = .float || type = .double || type = .byteArray
  | _ => false

/-- The encodings that the column writer keeps from the page writer until it has a dictionary. -/
def Encoding.needsDictionary (encoding : Encoding) : Bool :=
  encoding = .rleDictionary || encoding = .plainDictionary

/-! ## Columns and rows -/

/-- A column of a schema: levels are `int16_t`, a type length is an `int32_t`. -/
structure Column.Valid (column : Column) : Prop where
  typeLength : column.type = .fixedLenByteArray →
    0 < column.typeLength ∧ column.typeLength < 2147483648
  maxDefLevel : 0 ≤ column.maxDefLevel ∧ column.maxDefLevel < 32768
  maxRepLevel : 0 ≤ column.maxRepLevel ∧ column.maxRepLevel < 32768

/-- A value as an array of the column's type has it (carquet.h:1437-1445): of the type's width, a
flag 0 or 1, the length of a BYTE_ARRAY in an `int32_t`. -/
def ValueFits (column : Column) (v : Value) : Prop :=
  match column.type with
  | .boolean => v = [0] ∨ v = [1]
  | .byteArray => v.length < 2147483648
  | type => v.length = physicalTypeStride type column.typeLength

/-- Rows that a column can hold, and an `int32_t` can count. -/
structure RowsFit (column : Column) (s : Entries Value column.maxDefLevel) : Prop where
  length_lt : s.length < 2147483648
  levels : ∀ l ∈ s.levels, 0 ≤ l ∧ l ≤ column.maxDefLevel
  reps : ∀ l ∈ s.reps, 0 ≤ l ∧ l ≤ column.maxRepLevel
  values : ∀ v ∈ s.values, ValueFits column v

theorem values_length_le {column : Column} (s : Entries Value column.maxDefLevel) :
    s.values.length ≤ s.length := by
  rw [s.length_values]
  exact List.countP_le_length

/-! ## Levels -/

theorem bitWidthForMax_bounds {maxLevel : Int} (h : 0 < maxLevel) (hmax : maxLevel < 32768) :
    0 < bitWidthForMax maxLevel ∧ bitWidthForMax maxLevel ≤ 15 ∧
      maxLevel < (2 ^ bitWidthForMax maxLevel : Nat) := by
  have hwidth : bitWidthForMax maxLevel = maxLevel.toNat.log2 + 1 := if_neg (by omega)
  have hlog : maxLevel.toNat.log2 < 15 := (Nat.log2_lt (by omega)).mpr (by omega)
  have hlt : maxLevel.toNat < 2 ^ (maxLevel.toNat.log2 + 1) := Nat.lt_log2_self
  rw [hwidth]
  omega

/-- The bytes hold these levels as `encode_levels` writes them: none where there is one level
only. -/
def LevelsHeld (maxLevel : Int) (withPrefix : Bool) (bytes : Bytes) (levels : List Int) : Prop :=
  if maxLevel = 0 then bytes = []
  else ∃ encoded, encoded.length ≤ 4294967295 ∧
    bytes = (if withPrefix then leBytes 4 encoded.length else []) ++ encoded ∧
    Holds (bitWidthForMax maxLevel) encoded (levels.map toU32)

theorem toU32_lt_of_level {maxLevel l : Int} (hmax : maxLevel < 32768) (h : 0 ≤ l ∧ l ≤ maxLevel) :
    toU32 l < 2 ^ bitWidthForMax maxLevel := by
  by_cases hzero : l = 0
  · rw [hzero]
    exact Nat.two_pow_pos _
  · have hbounds := (bitWidthForMax_bounds (by omega) hmax).2.2
    rw [toU32]
    omega

/-- **Encoded levels are held.** -/
theorem encodeLevels_held {given : Option (List Int)} {count : Nat} {maxLevel : Int}
    {withPrefix : Bool} {bytes : Bytes} {levels : List Int}
    (h : encodeLevels given count maxLevel withPrefix = .ok bytes)
    (hcount : levels.length = count) (hlen : count < 2147483648) (hmax : maxLevel < 32768)
    (hlevels : ∀ l ∈ levels, 0 ≤ l ∧ l ≤ maxLevel)
    (hgiven : ∀ ls, given = some ls → ls.take count = levels)
    (hnone : given = none → ∀ l ∈ levels, l = maxLevel) :
    LevelsHeld maxLevel withPrefix bytes levels := by
  unfold LevelsHeld
  split
  · rename_i hzero
    rw [encodeLevels.eq_def, if_pos hzero] at h
    exact (Except.ok.inj h).symm
  · rename_i hpos
    rw [encodeLevels.eq_def, if_neg hpos] at h
    cases given with
    | some ls =>
      simp only [hgiven ls rfl] at h
      split at h
      · cases h
      · rename_i hle
        refine ⟨_, by omega, (Except.ok.inj h).symm, ?_⟩
        exact holds_rleEncodeLevels (by omega) fun l hl => toU32_lt_of_level hmax (hlevels l hl)
    | none =>
      simp only at h
      split at h
      · cases h
      · rename_i hle
        refine ⟨_, by omega, (Except.ok.inj h).symm, ?_⟩
        have hput : valuesPut [.putRepeat (toU32 maxLevel) count] = levels.map toU32 := by
          simp only [valuesPut, List.flatMap_cons, List.flatMap_nil, List.append_nil, RleOp.values,
            Int.toNat_natCast]
          refine (List.eq_replicate_iff.mpr ⟨by rw [List.length_map, hcount], ?_⟩).symm
          intro n hn
          obtain ⟨l, hl, rfl⟩ := List.mem_map.mp hn
          rw [hnone rfl l hl]
        have hruns : RunsBelow (valuesPut [.putRepeat (toU32 maxLevel) count]) :=
          .of_length (by rw [hput, List.length_map]; omega)
        have hholds := holds_rleEncodeOps (bitWidthForMax maxLevel) _ hruns
        rw [hput] at hholds
        have hmod :
            (levels.map toU32).map (· % 2 ^ bitWidthForMax maxLevel) = levels.map toU32 := by
          rw [List.map_map]
          refine List.map_congr_left fun l hl => Nat.mod_eq_of_lt ?_
          exact toU32_lt_of_level hmax (hlevels l hl)
        rwa [hmod] at hholds

theorem decodeLevelsRle_of_held {maxLevel : Int} {encoded : Bytes} {levels : List Int}
    (hpos : 0 < maxLevel) (hmax : maxLevel < 32768) (hlevels : ∀ l ∈ levels, 0 ≤ l ∧ l ≤ maxLevel)
    (h : Holds (bitWidthForMax maxLevel) encoded (levels.map toU32)) :
    decodeLevelsRle encoded (bitWidthForMax maxLevel) levels.length = .ok levels := by
  have hbounds := bitWidthForMax_bounds hpos hmax
  have hread := rleDecodeLevels_of_holds (by omega) hmax hlevels h
  rw [decodeLevelsRle, if_neg (by omega)]
  simp only [hread, ne_eq, not_true_eq_false, if_false]

/-- A section of the first version, and what follows it. -/
theorem decodeV1LevelSection_of_held {maxLevel : Int} {bytes : Bytes} {levels : List Int}
    (hpos : 0 < maxLevel) (hmax : maxLevel < 32768) (hlevels : ∀ l ∈ levels, 0 ≤ l ∧ l ≤ maxLevel)
    (h : LevelsHeld maxLevel true bytes levels) (rest : Bytes) :
    decodeV1LevelSection (bytes ++ rest) .rle (bitWidthForMax maxLevel) levels.length =
      .ok (levels, rest) := by
  rw [LevelsHeld, if_neg (by omega)] at h
  obtain ⟨encoded, hle, rfl, hholds⟩ := h
  have hfour : (leBytes 4 encoded.length).length = 4 := length_leBytes 4 _
  have hsize : leNat (leBytes 4 encoded.length) = encoded.length := leNat_leBytes_of_lt (by omega)
  have hrle : (Encoding.rle = Encoding.bitPacked) = False := by decide
  simp only [decodeV1LevelSection, hrle, if_false, if_true, List.append_assoc, List.length_append,
    hfour, List.take_left' hfour, List.drop_left' hfour, hsize]
  rw [if_neg (by omega), if_neg (by omega), List.take_left' rfl, List.drop_left' rfl,
    decodeLevelsRle_of_held hpos hmax hlevels hholds]
  rfl

/-- A section of the second version. -/
theorem decodeV2LevelSection_of_held {maxLevel : Int} {bytes : Bytes} {levels : List Int}
    (hpos : 0 < maxLevel) (hmax : maxLevel < 32768) (hlevels : ∀ l ∈ levels, 0 ≤ l ∧ l ≤ maxLevel)
    (h : LevelsHeld maxLevel false bytes levels) (rest : Bytes) :
    decodeV2LevelSection (bytes ++ rest) bytes.length maxLevel levels.length =
      .ok (levels, rest) := by
  rw [LevelsHeld, if_neg (by omega)] at h
  obtain ⟨encoded, hle, hbytes, hholds⟩ := h
  obtain rfl : bytes = encoded := hbytes
  rw [decodeV2LevelSection, if_neg (by rw [List.length_append]; omega)]
  split
  · rw [Int.toNat_natCast, List.take_left' rfl, List.drop_left' rfl,
      decodeLevelsRle_of_held hpos hmax hlevels hholds]
    rfl
  · -- no bytes hold no levels
    obtain rfl : bytes = [] := List.length_eq_zero_iff.mp (by omega)
    have hnil : levels = [] := by
      have hread := hholds []
      rw [List.nil_append, hybridValues_nil, List.append_nil] at hread
      exact List.map_eq_nil_iff.mp hread.symm
    rw [hnil]
    rfl

/-! ## Values -/

/-- A reader of this column that has this dictionary and gives its values, not its indices. -/
structure PageReader.Reads (r : PageReader) (column : Column) (dict : Option Dictionary) :
    Prop where
  column : r.column = column
  dictionary : r.dictionary = dict
  preserveDictionary : r.preserveDictionary = false

/-- The bytes hold these values: whoever decodes a page with them gets them. -/
def ValuesHeld (column : Column) (dict : Option Dictionary) (encoding : Encoding) (bytes : Bytes)
    (values : List Value) : Prop :=
  ∀ (r : PageReader) (old : List Value), r.Reads column dict → ∃ indices,
    decodePageValues r encoding bytes old values.length = .ok (overlay values old, indices)

/-- The PLAIN encoder of a type. -/
def encodePlainOf (type : PhysicalType) (values : List Value) : Bytes :=
  match type with
  | .boolean => encodePlainBoolean values
  | .byteArray => encodePlainByteArray values
  | _ => encodePlainFixed values

theorem length_of_fits {column : Column} {v : Value} (h : ValueFits column v)
    (hne : column.type ≠ .boolean) (hbytes : column.type ≠ .byteArray) :
    v.length = physicalTypeStride column.type column.typeLength := by
  unfold ValueFits at h
  split at h
  · exact absurd ‹_› hne
  · exact absurd ‹_› hbytes
  · exact h

theorem boolImage_of_fits {v : Value} (h : v = [0] ∨ v = [1]) : boolImage v = v := by
  rcases h with rfl | rfl <;> rfl

/-- **PLAIN values are held.** -/
theorem valuesHeld_plain {column : Column} {dict : Option Dictionary} {values : List Value}
    (hcolumn : column.Valid) (h : ∀ v ∈ values, ValueFits column v) :
    ValuesHeld column dict .plain (encodePlainOf column.type values) values := by
  rintro r old ⟨rfl, -, -⟩
  have hdecode : decodePlain r.column.type r.column.typeLength
      (encodePlainOf r.column.type values) values.length = some values := by
    have hwidth := fun v hv => length_of_fits (h v hv)
    have hbytes := fun hv => @decodePlainByteArray_append values hv []
    have hfixed := fun width (hw : ∀ v ∈ values, v.length = width) =>
      decodePlainFixed_append hw rfl []
    unfold ValueFits at h
    simp only [List.append_nil] at hbytes hfixed
    cases htype : r.column.type <;> rw [htype] at h hwidth <;>
      simp only [decodePlain, encodePlainOf]
    case boolean =>
      have hbool := decodePlainBoolean_append values []
      rw [List.append_nil] at hbool
      rw [hbool, Option.some.injEq]
      conv_rhs => rw [← List.map_id values]
      exact List.map_congr_left fun v hv => boolImage_of_fits (h v hv)
    case byteArray => exact hbytes h
    case fixedLenByteArray =>
      rw [if_neg (by have := (hcolumn.typeLength htype).1; omega)]
      exact hfixed _ fun v hv => hwidth v hv (by decide) (by decide)
    all_goals exact hfixed _ fun v hv => hwidth v hv (by decide) (by decide)
  exact ⟨r.indicesBuffer, by simp only [decodePageValues, hdecode]⟩

/-- What `carquet_page_writer_add_values` appends of PLAIN values. -/
theorem encodeValues_plain {column : Column} {collects : Bool} {values : List Value} {bytes : Bytes}
    (h : encodeValues column collects .plain values = .ok bytes) :
    bytes = encodePlainOf column.type values := by
  have hadvance : ∀ b : Bytes, advance b = .ok bytes → bytes = b := by
    intro b hb
    unfold advance at hb
    split at hb
    · cases hb
    · exact (Except.ok.inj hb).symm
  unfold encodeValues at h
  split at h <;> rename_i htype <;> rw [htype]
  case h_1 => exact hadvance _ h
  case h_2 | h_3 =>
    rw [encodeIntValues, if_neg (by decide)] at h
    split at h
    · exact hadvance _ h
    · exact (Except.ok.inj h).symm
  case h_4 | h_5 =>
    unfold encodeFloatValues at h
    split at h
    · split at h
      · rename_i hnil
        rw [hnil]
        exact (Except.ok.inj h).symm
      · exact (Except.ok.inj h).symm
    · exact hadvance _ h
  case h_6 => exact (Except.ok.inj h).symm
  case h_7 =>
    rw [encodeFixedLenValues, if_neg (by decide), if_neg (by decide)] at h
    split at h
    · cases h
    · exact (Except.ok.inj h).symm
  case h_8 => exact (Except.ok.inj h).symm

theorem valuesHeld_phase3 {column : Column} {dict : Option Dictionary} {encoding : Encoding}
    {bytes : Bytes} {values : List Value} (hplain : encoding ≠ .plain)
    (hdict : encoding.needsDictionary = false)
    (h : decodePhase3Values column encoding bytes values.length = .ok values) :
    ValuesHeld column dict encoding bytes values := by
  rintro r old ⟨rfl, -, -⟩
  refine ⟨r.indicesBuffer, ?_⟩
  cases encoding
  case plain => exact absurd rfl hplain
  case rleDictionary | plainDictionary => cases hdict
  all_goals
    simp only [decodePageValues, h]
    rfl

theorem leBytes_toU32_intOf {v : Value} (h : v.length = 4) :
    leBytes 4 (toU32 (intOf 4 false v)) = v := by
  have hlt := leNat_lt v
  rw [h] at hlt
  have hnat : toU32 (intOf 4 false v) = leNat v := by
    rw [intOf, List.take_of_length_le (by omega)]
    simp only [Bool.false_eq_true, false_or, toU32]
    split <;> omega
  rw [hnat, ← h, leBytes_leNat]

theorem leBytes_toU64_intOf {v : Value} (h : v.length = 8) :
    leBytes 8 (toU64 (intOf 8 false v)) = v := by
  have hlt := leNat_lt v
  rw [h] at hlt
  have hnat : toU64 (intOf 8 false v) = leNat v := by
    rw [intOf, List.take_of_length_le (by omega)]
    simp only [Bool.false_eq_true, false_or, toU64]
    split <;> omega
  rw [hnat, ← h, leBytes_leNat]

/-- Memory images back from the numbers that DELTA_BINARY_PACKED stores. -/
theorem map_intOf_images {width : Nat} {image : Int → Value} {values : List Value}
    (himage : ∀ v : Value, v.length = width → image (intOf width false v) = v)
    (h : ∀ v ∈ values, v.length = width) :
    (values.map (intOf width false)).map image = values := by
  rw [List.map_map]
  conv_rhs => rw [← List.map_id values]
  exact List.map_congr_left fun v hv => himage v (h v hv)

theorem intOf_int64_range (v : Value) : IsI64 (intOf 8 false v) := by
  have hlt : leNat (v.take 8) < 256 ^ 8 := by
    refine Nat.lt_of_lt_of_le (leNat_lt _) (Nat.pow_le_pow_right (by decide) ?_)
    rw [List.length_take]
    exact Nat.min_le_left ..
  unfold intOf IsI64
  simp only [Bool.false_eq_true, false_or]
  split <;> omega

theorem advance_eq_ok {b bytes : Bytes} (h : advance b = .ok bytes) : b = bytes := by
  unfold advance at h
  split at h
  · cases h
  · exact Except.ok.inj h

/-- BYTE_STREAM_SPLIT values of any width read back, also when there are none. -/
theorem byteStreamSplit_of_advance {width : Nat} {values : List Value} {bytes : Bytes}
    (hwidth : ∀ v ∈ values, v.length = width)
    (h : (if values = [] then .ok [] else advance (byteStreamSplitEncode width values)) =
      .ok bytes) :
    decodePhase3Values.byteStreamSplit bytes values.length width = .ok values := by
  unfold decodePhase3Values.byteStreamSplit
  split at h
  · rename_i hnil
    rw [hnil, ← Except.ok.inj h]
    simp [byteStreamSplitDecode]
  · have hdecode := byteStreamSplitDecode_append hwidth []
    rw [List.append_nil, advance_eq_ok h] at hdecode
    rw [hdecode]

/-- Integers: DELTA_BINARY_PACKED and BYTE_STREAM_SPLIT. -/
theorem encodeIntValues_phase3 {width : Nat} {collects : Bool} {encoding : Encoding}
    {values : List Value} {bytes : Bytes} (hplain : encoding ≠ .plain)
    (h : encodeIntValues width collects encoding values = .ok bytes) :
    (encoding = .deltaBinaryPacked → ∃ capacity,
      deltaEncode (values.map (intOf width false)) capacity = .ok bytes) ∧
    (encoding = .byteStreamSplit →
      (if values = [] then .ok [] else advance (byteStreamSplitEncode width values)) =
        .ok bytes) := by
  rw [encodeIntValues, if_pos hplain] at h
  constructor
  · rintro rfl
    rw [if_neg (fun hn => hn.2 rfl), if_neg (by decide), if_pos rfl] at h
    exact ⟨_, h⟩
  · rintro rfl
    split at h
    · rename_i hnil
      rwa [if_pos hnil.1]
    · rename_i hne
      rw [if_pos rfl] at h
      rwa [if_neg fun hnil => hne ⟨hnil, by decide⟩]

/-- DELTA_BYTE_ARRAY values, with the lengths that a fixed-width column asks for. -/
theorem decodePhase3_deltaByteArray {column : Column} {values : List Value} {bytes : Bytes}
    (htype : column.type = .byteArray ∨ column.type = .fixedLenByteArray)
    (hlen : values.length < 2147483648) (hv : ∀ v ∈ values, v.length < 2147483648)
    (hwidth : column.type = .fixedLenByteArray →
      ∀ v ∈ values, (v.length : Int) = column.typeLength)
    (h : values ≠ [] → deltaStringsEncode values = .ok bytes) :
    decodePhase3Values column .deltaByteArray bytes values.length = .ok values := by
  simp only [decodePhase3Values]
  rw [if_neg (fun hne => htype.elim hne.1 hne.2)]
  by_cases hnil : values = []
  · rw [hnil]
    rfl
  · have henc := h hnil
    have hsize := deltaStringsDecodedSize_encode hnil hlen hv henc []
    have hdecode := deltaStringsDecode_encode hlen hv (Nat.le_refl _) henc []
    rw [List.append_nil] at hsize hdecode
    rw [if_neg (by simpa using hnil), hsize]
    simp only [bind, Except.bind, hdecode]
    rw [if_neg]
    rintro ⟨hfixed, hany⟩
    obtain ⟨v, hmem, hne⟩ := List.any_eq_true.mp hany
    exact absurd (hwidth hfixed v hmem) (of_decide_eq_true hne)

/-- **What one call appends is held**, in any encoding that a writer may choose for the type. -/
theorem encodeValues_held {column : Column} {dict : Option Dictionary} {collects : Bool}
    {encoding : Encoding} {values : List Value} {bytes : Bytes} (hcolumn : column.Valid)
    (hsupported : writerEncodingSupported encoding column.type = true)
    (hdict : encoding.needsDictionary = false) (hlen : values.length < 2147483648)
    (hfits : ∀ v ∈ values, ValueFits column v)
    (h : encodeValues column collects encoding values = .ok bytes) :
    ValuesHeld column dict encoding bytes values := by
  by_cases hplain : encoding = .plain
  · subst hplain
    rw [encodeValues_plain h]
    exact valuesHeld_plain hcolumn hfits
  refine valuesHeld_phase3 hplain hdict ?_
  have hwidth := fun v hv => length_of_fits (hfits v hv)
  have hvalid := hcolumn.typeLength
  unfold ValueFits at hfits
  unfold encodeValues at h
  cases htype : column.type <;> rw [htype] at h hsupported hwidth hfits hvalid <;>
    simp only [ne_eq, reduceCtorEq, not_false_eq_true, true_implies, physicalTypeStride] at hwidth
  case boolean | int96 => cases encoding <;> contradiction
  case int32 =>
    obtain ⟨hdelta, hsplit⟩ := encodeIntValues_phase3 hplain h
    cases encoding <;> first | contradiction | cases hsupported
    case deltaBinaryPacked =>
      obtain ⟨capacity, hencode⟩ := hdelta rfl
      have hdecode := deltaDecodeInt32_encode (by rwa [List.length_map])
        (fun v hv => by
          obtain ⟨image, -, rfl⟩ := List.mem_map.mp hv
          exact intOf_int32_range image) hencode []
      rw [List.append_nil, List.length_map] at hdecode
      simp only [decodePhase3Values, htype, hdecode, bind, Except.bind]
      rw [map_intOf_images (fun v hv => leBytes_toU32_intOf hv) hwidth]
    case byteStreamSplit =>
      simp only [decodePhase3Values, htype]
      exact byteStreamSplit_of_advance hwidth (hsplit rfl)
  case int64 =>
    obtain ⟨hdelta, hsplit⟩ := encodeIntValues_phase3 hplain h
    cases encoding <;> first | contradiction | cases hsupported
    case deltaBinaryPacked =>
      obtain ⟨capacity, hencode⟩ := hdelta rfl
      have hdecode := deltaDecodeInt64_encode (by rwa [List.length_map])
        (fun v hv => by
          obtain ⟨image, -, rfl⟩ := List.mem_map.mp hv
          exact intOf_int64_range image) hencode []
      rw [List.append_nil, List.length_map] at hdecode
      simp only [decodePhase3Values, htype, hdecode, bind, Except.bind]
      rw [map_intOf_images (fun v hv => leBytes_toU64_intOf hv) hwidth]
    case byteStreamSplit =>
      simp only [decodePhase3Values, htype]
      exact byteStreamSplit_of_advance hwidth (hsplit rfl)
  case float | double =>
    cases encoding <;> first | contradiction | cases hsupported
    simp only [decodePhase3Values, htype]
    refine byteStreamSplit_of_advance hwidth ?_
    simpa [encodeFloatValues] using h
  case byteArray =>
    cases encoding <;> first | contradiction | cases hsupported
    case deltaLengthByteArray =>
      have hdecode := deltaLengthDecode_encode hlen hfits h []
      rw [List.append_nil] at hdecode
      simp only [decodePhase3Values, htype, ne_eq, not_true_eq_false, if_false, hdecode, bind,
        Except.bind]
    case deltaByteArray =>
      exact decodePhase3_deltaByteArray (.inl htype) hlen hfits
        (fun hfixed => by rw [htype] at hfixed; cases hfixed) fun _ => h
  case fixedLenByteArray =>
    obtain ⟨hpos, hlt⟩ := hvalid rfl
    have hv : ∀ v ∈ values, v.length < 2147483648 := fun v hv => by
      have := hwidth v hv
      omega
    cases encoding <;> first | contradiction | cases hsupported
    case byteStreamSplit =>
      simp only [decodePhase3Values, htype]
      rw [if_neg (by omega)]
      refine byteStreamSplit_of_advance hwidth ?_
      rw [encodeFixedLenValues, if_pos rfl] at h
      split
      · rename_i hnil
        -- no values are refused
        rw [hnil] at h
        have hempty : byteStreamSplitEncode column.typeLength.toNat [] = [] := by
          simp [byteStreamSplitEncode]
        rw [hempty] at h
        cases h
      · exact h
    case deltaByteArray =>
      refine decodePhase3_deltaByteArray (.inr htype) hlen hv (fun _ v hv => ?_) fun hnil => ?_
      · have := hwidth v hv
        omega
      · simpa [encodeFixedLenValues, hnil] using h

/-! ## Pages -/

/-- **The page holds these rows.** -/
structure PageHolds (c : ChunkSettings) (dict : Option Dictionary) (encoding : Encoding)
    (page : EncodedCall) (s : Entries Value c.column.maxDefLevel) : Prop where
  repLevels : LevelsHeld c.column.maxRepLevel (!c.dataPageV2) page.repLevels s.reps
  defLevels : LevelsHeld c.column.maxDefLevel (!c.dataPageV2) page.defLevels s.levels
  values : ValuesHeld c.column dict encoding page.values s.values

/-- The payload of a page before it is compressed. -/
def EncodedCall.payload (page : EncodedCall) : Bytes :=
  page.repLevels ++ page.defLevels ++ page.values

/-- What its header tells the page decoder. -/
def EncodedCall.header (page : EncodedCall) (c : ChunkSettings) (encoding : Encoding)
    (numValues : Nat) : PageHeader :=
  if c.dataPageV2 then .v2 ⟨numValues, encoding, page.defLevels.length, page.repLevels.length⟩
  else .v1 ⟨numValues, encoding, .rle, .rle⟩

/-- The level buffers that `ensure_decoded_page_buffers` allocates (page_reader.c:523-601). -/
def Column.wanted (column : Column) : Wanted :=
  ⟨decide (0 < column.maxDefLevel), decide (0 < column.maxRepLevel)⟩

/-- What the page decoder leaves behind of these rows. -/
def decodedRows {column : Column} (indices : List Nat) (old : List Value)
    (s : Entries Value column.maxDefLevel) : PageResult where
  defLevels := if 0 < column.maxDefLevel then s.levels else []
  repLevels := if 0 < column.maxRepLevel then s.reps else []
  values := overlay s.values old
  nonNulls := s.values.length
  valuesRead := s.length
  indicesBuffer := indices

theorem pageNonNulls_eq {column : Column} (s : Entries Value column.maxDefLevel) :
    pageNonNulls column column.wanted (if 0 < column.maxDefLevel then s.levels else []) s.length =
      s.values.length := by
  rw [s.length_values, pageNonNulls, Column.wanted]
  simp only [decide_eq_true_eq]
  split
  · rename_i hpos
    rw [if_pos hpos.1, countP_isPresent_of_nullable hpos.1]
  · rename_i hzero
    rw [countP_isPresent_of_required fun hpos => hzero ⟨hpos, hpos⟩]
    rfl

/-- The two sections of a page of the first version, one after the other. -/
theorem v1Levels_of_sections {column : Column} {page afterReps afterDefs : Bytes}
    {header : DataPageHeader} {n : Nat} {wanted : Wanted} {reps defs : List Int}
    (hrep : (if 0 < column.maxRepLevel ∧ wanted.repLevels = true then
        decodeV1LevelSection page header.repetitionLevelEncoding
          (bitWidthForMax column.maxRepLevel) (min header.numValues n)
      else .ok (if wanted.repLevels then List.replicate (min header.numValues n) 0 else [], page)) =
      .ok (reps, afterReps))
    (hdef : (if 0 < column.maxDefLevel ∧ wanted.defLevels = true then
        decodeV1LevelSection afterReps header.definitionLevelEncoding
          (bitWidthForMax column.maxDefLevel) (min header.numValues n)
      else .ok (if wanted.defLevels then
        List.replicate (min header.numValues n) column.maxDefLevel else [], afterReps)) =
      .ok (defs, afterDefs)) :
    v1Levels column page header n wanted =
      .ok ⟨min header.numValues n, defs, reps,
        pageNonNulls column wanted defs (min header.numValues n), afterDefs⟩ := by
  unfold v1Levels
  by_cases h1 : 0 < column.maxRepLevel ∧ wanted.repLevels = true <;>
    by_cases h2 : 0 < column.maxDefLevel ∧ wanted.defLevels = true <;>
    simp only [h1, h2, if_true, if_false, and_true, bind, Except.bind, Except.ok.injEq,
      Prod.mk.injEq] at hrep hdef ⊢
  all_goals simp only [hrep, hdef]

/-- The two sections of a page of the second version. -/
theorem v2Levels_of_sections {column : Column} {page afterReps afterDefs : Bytes}
    {header : DataPageHeaderV2} {n : Nat} {wanted : Wanted} {reps defs : List Int}
    (hrep : (if 0 < column.maxRepLevel ∧ wanted.repLevels = true then
        decodeV2LevelSection page header.repetitionLevelsByteLength column.maxRepLevel
          (min header.numValues n)
      else .ok (if wanted.repLevels then List.replicate (min header.numValues n) 0 else [],
        skipV2Section page header.repetitionLevelsByteLength)) = .ok (reps, afterReps))
    (hdef : (if 0 < column.maxDefLevel ∧ wanted.defLevels = true then
        decodeV2LevelSection afterReps header.definitionLevelsByteLength column.maxDefLevel
          (min header.numValues n)
      else .ok (if wanted.defLevels then
        List.replicate (min header.numValues n) column.maxDefLevel else [],
        skipV2Section afterReps header.definitionLevelsByteLength)) = .ok (defs, afterDefs)) :
    v2Levels column page header n wanted =
      .ok ⟨min header.numValues n, defs, reps,
        pageNonNulls column wanted defs (min header.numValues n), afterDefs⟩ := by
  unfold v2Levels
  by_cases h1 : 0 < column.maxRepLevel ∧ wanted.repLevels = true <;>
    by_cases h2 : 0 < column.maxDefLevel ∧ wanted.defLevels = true <;>
    simp only [h1, h2, if_true, if_false, and_true, bind, Except.bind, Except.ok.injEq,
      Prod.mk.injEq] at hrep hdef ⊢
  all_goals simp only [hrep, hdef]

/-- The levels of a page that holds rows. -/
theorem pageLevels_of_holds {c : ChunkSettings} {dict : Option Dictionary} {encoding : Encoding}
    {page : EncodedCall} {s : Entries Value c.column.maxDefLevel} (hcolumn : c.column.Valid)
    (hfit : RowsFit c.column s) (h : PageHolds c dict encoding page s) :
    pageLevels c.column page.payload (page.header c encoding s.length) s.length c.column.wanted =
      .ok ⟨s.length, if 0 < c.column.maxDefLevel then s.levels else [],
        if 0 < c.column.maxRepLevel then s.reps else [], s.values.length, page.values⟩ := by
  have hreps : s.reps.length = s.length := s.length_reps
  have hlevels : s.levels.length = s.length := rfl
  obtain ⟨hdefnn, hdefmax⟩ := hcolumn.maxDefLevel
  obtain ⟨hrepnn, hrepmax⟩ := hcolumn.maxRepLevel
  have hrep := h.repLevels
  have hdef := h.defLevels
  rw [← pageNonNulls_eq s, EncodedCall.payload, EncodedCall.header, List.append_assoc]
  cases hv2 : c.dataPageV2 <;> rw [hv2] at hrep hdef
  · have hread := @v1Levels_of_sections c.column
      (page.repLevels ++ (page.defLevels ++ page.values)) (page.defLevels ++ page.values)
      page.values
      ⟨s.length, encoding, .rle, .rle⟩ s.length c.column.wanted
      (if 0 < c.column.maxRepLevel then s.reps else [])
      (if 0 < c.column.maxDefLevel then s.levels else []) ?_ ?_
    · rwa [Nat.min_self] at hread
    · rw [Nat.min_self]
      by_cases hpos : 0 < c.column.maxRepLevel
      · have hsection := decodeV1LevelSection_of_held hpos hrepmax hfit.reps hrep
          (page.defLevels ++ page.values)
        rw [hreps] at hsection
        simp [Column.wanted, hpos, hsection]
      · rw [LevelsHeld, if_pos (by omega)] at hrep
        simp [Column.wanted, hpos, hrep]
    · rw [Nat.min_self]
      by_cases hpos : 0 < c.column.maxDefLevel
      · have hsection := decodeV1LevelSection_of_held hpos hdefmax hfit.levels hdef page.values
        rw [hlevels] at hsection
        simp [Column.wanted, hpos, hsection]
      · rw [LevelsHeld, if_pos (by omega)] at hdef
        simp [Column.wanted, hpos, hdef]
  · have hread := @v2Levels_of_sections c.column
      (page.repLevels ++ (page.defLevels ++ page.values)) (page.defLevels ++ page.values)
      page.values
      ⟨s.length, encoding, page.defLevels.length, page.repLevels.length⟩ s.length c.column.wanted
      (if 0 < c.column.maxRepLevel then s.reps else [])
      (if 0 < c.column.maxDefLevel then s.levels else []) ?_ ?_
    · rwa [Nat.min_self] at hread
    · rw [Nat.min_self]
      by_cases hpos : 0 < c.column.maxRepLevel
      · have hsection := decodeV2LevelSection_of_held hpos hrepmax hfit.reps hrep
          (page.defLevels ++ page.values)
        rw [hreps] at hsection
        simp [Column.wanted, hpos, hsection]
      · rw [LevelsHeld, if_pos (by omega)] at hrep
        simp [Column.wanted, hpos, hrep, skipV2Section]
    · rw [Nat.min_self]
      by_cases hpos : 0 < c.column.maxDefLevel
      · have hsection := decodeV2LevelSection_of_held hpos hdefmax hfit.levels hdef page.values
        rw [hlevels] at hsection
        simp [Column.wanted, hpos, hsection]
      · rw [LevelsHeld, if_pos (by omega)] at hdef
        simp [Column.wanted, hpos, hdef, skipV2Section]

theorem header_encoding (page : EncodedCall) (c : ChunkSettings) (encoding : Encoding) (n : Nat) :
    (page.header c encoding n).encoding = encoding := by
  unfold EncodedCall.header
  split <;> rfl

/-- **A page that holds rows decodes to them.** -/
theorem readDataPage_of_holds {c : ChunkSettings} {dict : Option Dictionary} {encoding : Encoding}
    {page : EncodedCall} {s : Entries Value c.column.maxDefLevel} (hcolumn : c.column.Valid)
    (hfit : RowsFit c.column s) (h : PageHolds c dict encoding page s) {r : PageReader}
    (hr : r.Reads c.column dict) (old : List Value) :
    ∃ indices, readDataPage r page.payload (page.header c encoding s.length) old s.length
      c.column.wanted = .ok (decodedRows indices old s) := by
  obtain ⟨indices, hvalues⟩ := h.values r old hr
  refine ⟨indices, ?_⟩
  rw [readDataPage_eq, hr.column, pageLevels_of_holds hcolumn hfit h, header_encoding]
  show readPageValues r encoding old _ = _
  rw [readPageValues, hvalues]
  rfl

/-! ## Calls -/

/-- The arguments pass these rows: what a callee reads of them. -/
structure PassesRows (column : Column) (args : ChunkArgs Value)
    (s : Entries Value column.maxDefLevel) : Prop where
  read : ∃ passed : Wanted, args.read column.maxDefLevel = argsOf s passed ∧
    (passed.defLevels = false → ∀ l ∈ s.levels, isPresent column.maxDefLevel l) ∧
    (0 < column.maxRepLevel → passed.repLevels = true)

theorem PassesRows.numValues {column : Column} {args : ChunkArgs Value}
    {s : Entries Value column.maxDefLevel} (h : PassesRows column args s) :
    args.numValues = s.length := by
  obtain ⟨passed, hread, -⟩ := h.read
  exact congrArg ChunkArgs.numValues hread

theorem PassesRows.present {column : Column} {args : ChunkArgs Value}
    {s : Entries Value column.maxDefLevel} (h : PassesRows column args s) :
    args.present column.maxDefLevel = s.values := by
  obtain ⟨passed, hread, -⟩ := h.read
  exact congrArg ChunkArgs.values hread

/-- A batch of a column passes its rows. -/
theorem Batch.passesRows {column : Column} (b : Batch Value column.maxDefLevel)
    (hrep : 0 < column.maxRepLevel → b.passed.repLevels = true) :
    PassesRows column b.args b.rows := by
  refine ⟨b.passed, ?_, b.all_present, hrep⟩
  have hread := argsOf_full b
  rwa [Stream.drop_zero, Stream.take_of_length_le (n := b.args.numValues) (Nat.le_refl _)] at hread

section Calls

variable {env : ChunkEnv} {c : ChunkSettings} {encoding : Encoding} {args : ChunkArgs Value}
  {s : Entries Value c.column.maxDefLevel} {call : EncodedCall} {dict : Option Dictionary}

/-- What each part of a call appends, if the call is taken. -/
theorem encodeCall_parts (h : encodeCall env c encoding args = .ok call) :
    (if 0 < c.column.maxDefLevel then
      encodeLevels args.defLevels args.numValues c.column.maxDefLevel (!c.dataPageV2) =
        .ok call.defLevels
      else call.defLevels = []) ∧
    (if 0 < c.column.maxRepLevel ∧ args.repLevels.isSome = true then
      encodeLevels args.repLevels args.numValues c.column.maxRepLevel (!c.dataPageV2) =
        .ok call.repLevels
      else call.repLevels = []) ∧
    encodeValues c.column c.collects encoding (args.present c.column.maxDefLevel) =
      .ok call.values := by
  obtain ⟨defLevels, hdef, h⟩ := bind_eq_ok.mp h
  obtain ⟨repLevels, hrep, h⟩ := bind_eq_ok.mp h
  obtain ⟨values, hvalues, h⟩ := bind_eq_ok.mp h
  obtain ⟨-, -, h⟩ := bind_eq_ok.mp h
  obtain rfl := (Except.ok.inj h).symm
  refine ⟨?_, ?_, hvalues⟩
  · unfold encodeDefLevels at hdef
    split at hdef
    · rename_i hpos
      obtain ⟨levels, hlevels, hdef⟩ := bind_eq_ok.mp hdef
      obtain ⟨-, -, hdef⟩ := bind_eq_ok.mp hdef
      obtain rfl := Except.ok.inj hdef
      rwa [if_pos hpos]
    · rename_i hzero
      rw [if_neg hzero]
      exact (Except.ok.inj hdef).symm
  · unfold encodeRepLevels at hrep
    split at hrep
    · rename_i hpos
      obtain ⟨levels, hlevels, hrep⟩ := bind_eq_ok.mp hrep
      obtain ⟨-, -, hrep⟩ := bind_eq_ok.mp hrep
      obtain rfl := Except.ok.inj hrep
      rwa [if_pos hpos]
    · rename_i hzero
      rw [if_neg hzero]
      exact (Except.ok.inj hrep).symm

/-- **One call makes a page that holds its rows.** -/
theorem encodeCall_holds (hcolumn : c.column.Valid)
    (hsupported : writerEncodingSupported encoding c.column.type = true)
    (hdict : encoding.needsDictionary = false) (hpass : PassesRows c.column args s)
    (hfit : RowsFit c.column s) (h : encodeCall env c encoding args = .ok call) :
    PageHolds c dict encoding call s := by
  obtain ⟨hdef, hrep, hvalues⟩ := encodeCall_parts h
  obtain ⟨passed, hread, hall, hpassed⟩ := hpass.read
  have hnum := hpass.numValues
  have hlength := hfit.length_lt
  have hdefArg : args.defLevels.map (·.take args.numValues) =
      if passed.defLevels then some s.levels else none := congrArg ChunkArgs.defLevels hread
  have hrepArg : args.repLevels.map (·.take args.numValues) =
      if passed.repLevels then some s.reps else none := congrArg ChunkArgs.repLevels hread
  rw [hpass.present] at hvalues
  have hle := values_length_le s
  refine ⟨?_, ?_, encodeValues_held hcolumn hsupported hdict (by omega) hfit.values hvalues⟩
  · by_cases hpos : 0 < c.column.maxRepLevel
    · rw [hpassed hpos, if_pos rfl] at hrepArg
      obtain ⟨levels, hlevels, htake⟩ := Option.map_eq_some_iff.mp hrepArg
      rw [if_pos ⟨hpos, by rw [hlevels]; rfl⟩] at hrep
      refine encodeLevels_held hrep (by rw [s.length_reps, hnum]; rfl) (by omega)
        hcolumn.maxRepLevel.2 hfit.reps ?_ ?_
      · intro ls hls
        obtain rfl := Option.some.inj (hlevels.symm.trans hls)
        exact htake
      · intro hnone
        rw [hlevels] at hnone
        cases hnone
    · have hzero : c.column.maxRepLevel = 0 := by
        have := hcolumn.maxRepLevel.1
        omega
      rw [if_neg fun hp => hpos hp.1] at hrep
      rw [LevelsHeld, if_pos hzero, hrep]
  · by_cases hpos : 0 < c.column.maxDefLevel
    · rw [if_pos hpos] at hdef
      refine encodeLevels_held hdef (by rw [hnum]; rfl) (by omega) hcolumn.maxDefLevel.2
        hfit.levels ?_ ?_
      · intro ls hls
        rw [hls, Option.map_some] at hdefArg
        split at hdefArg
        · exact Option.some.inj hdefArg
        · cases hdefArg
      · intro hnone l hl
        rw [hnone, Option.map_none] at hdefArg
        have hnot : passed.defLevels = false := by
          cases hp : passed.defLevels
          · rfl
          · rw [hp] at hdefArg
            cases hdefArg
        have hpresent := hall hnot l hl
        simp only [isPresent, Bool.or_eq_true, decide_eq_true_eq, beq_iff_eq] at hpresent
        omega
    · have hzero : c.column.maxDefLevel = 0 := by
        have := hcolumn.maxDefLevel.1
        omega
      rw [if_neg hpos] at hdef
      rw [LevelsHeld, if_pos hzero, hdef]

end Calls

/-! ## Several calls -/

/-- The columns whose calls go on where the last one stopped: there are no levels, and PLAIN values
of a whole number of bytes. -/
structure Accumulates (c : ChunkSettings) (encoding : Encoding) : Prop where
  maxDefLevel : c.column.maxDefLevel = 0
  maxRepLevel : c.column.maxRepLevel = 0
  encoding : encoding = .plain
  type : c.column.type ≠ .boolean

instance (c : ChunkSettings) (encoding : Encoding) : Decidable (Accumulates c encoding) :=
  decidable_of_iff (c.column.maxDefLevel = 0 ∧ c.column.maxRepLevel = 0 ∧ encoding = .plain ∧
      c.column.type ≠ .boolean)
    ⟨fun h => ⟨h.1, h.2.1, h.2.2.1, h.2.2.2⟩,
      fun h => ⟨h.maxDefLevel, h.maxRepLevel, h.encoding, h.type⟩⟩

theorem encodePlainOf_append {type : PhysicalType} (h : type ≠ .boolean) (as bs : List Value) :
    encodePlainOf type as ++ encodePlainOf type bs = encodePlainOf type (as ++ bs) := by
  cases type
  case boolean => exact absurd rfl h
  case byteArray => exact encodePlainByteArray_append as bs
  all_goals exact encodePlainFixed_append as bs

/-- The buffers of such a column. -/
def plainContents (column : Column) (s : Entries Value column.maxDefLevel) : EncodedCall :=
  ⟨encodePlainOf column.type s.values, [], []⟩

theorem plainContents_holds {c : ChunkSettings} {dict : Option Dictionary} {encoding : Encoding}
    {s : Entries Value c.column.maxDefLevel} (h : Accumulates c encoding) (hcolumn : c.column.Valid)
    (hvalues : ∀ v ∈ s.values, ValueFits c.column v) :
    PageHolds c dict encoding (plainContents c.column s) s := by
  refine ⟨?_, ?_, ?_⟩
  · rw [LevelsHeld, if_pos h.maxRepLevel]
    rfl
  · rw [LevelsHeld, if_pos h.maxDefLevel]
    rfl
  · rw [h.encoding]
    exact valuesHeld_plain hcolumn hvalues

/-- A call of such a column. -/
theorem encodeCall_accumulates {env : ChunkEnv} {c : ChunkSettings} {encoding : Encoding}
    {args : ChunkArgs Value} {s : Entries Value c.column.maxDefLevel} {call : EncodedCall}
    (happends : Accumulates c encoding) (hpass : PassesRows c.column args s)
    (h : encodeCall env c encoding args = .ok call) : call = plainContents c.column s := by
  obtain ⟨hdef, hrep, hvalues⟩ := encodeCall_parts h
  rw [happends.encoding, hpass.present] at hvalues
  rw [if_neg (by rw [happends.maxDefLevel]; decide)] at hdef
  rw [if_neg (by rw [happends.maxRepLevel]; exact fun hp => absurd hp.1 (by decide))] at hrep
  have hencode := encodeValues_plain hvalues
  cases call
  simp only at hdef hrep hencode
  rw [hdef, hrep, hencode, plainContents]

variable {γ : Type}

/-- What is in the buffers of the page writer. -/
def PageAccumulator.contents (p : PageAccumulator γ) : EncodedCall :=
  ⟨p.valuesBuffer, p.defLevelsBuffer, p.repLevelsBuffer⟩

/-- One call behind another. -/
def EncodedCall.append (page call : EncodedCall) : EncodedCall :=
  ⟨page.values ++ call.values, page.defLevels ++ call.defLevels, page.repLevels ++ call.repLevels⟩

/-- Nothing. -/
def EncodedCall.empty : EncodedCall := ⟨[], [], []⟩

theorem EncodedCall.empty_append (call : EncodedCall) : EncodedCall.empty.append call = call := rfl

theorem plainContents_append {column : Column} (h : column.type ≠ .boolean)
    (s t : Entries Value column.maxDefLevel) :
    (plainContents column s).append (plainContents column t) =
      plainContents column (s.append t) := by
  rw [EncodedCall.append, plainContents, plainContents, plainContents]
  simp only [List.append_nil, encodePlainOf_append h]
  rfl

theorem plainContents_empty {column : Column} (h : column.type ≠ .boolean) :
    plainContents column .empty = .empty := by
  unfold plainContents encodePlainOf
  split
  · exact absurd ‹_› h
  · rfl
  · rfl

/-- What a call that is taken leaves in the page. -/
theorem PageAccumulator.addValues_ok {geo : GeoWalker γ} {env : ChunkEnv} {c : ChunkSettings}
    {p p' : PageAccumulator γ} {args : ChunkArgs Value}
    (h : p.addValues geo env c args = (.ok (), p')) :
    ∃ call, encodeCall env c p.encoding args = .ok call ∧ p'.contents = p.contents.append call ∧
      p'.numValues = p.numValues + args.numValues ∧ p'.encoding = p.encoding := by
  unfold PageAccumulator.addValues at h
  cases hcall : encodeCall env c p.encoding args with
  | error e =>
    rw [hcall] at h
    cases (Prod.mk.inj h).1
  | ok call =>
    rw [hcall] at h
    obtain ⟨-, rfl⟩ := Prod.mk.inj h
    exact ⟨call, rfl, rfl, rfl, rfl⟩

/-- The calls of a page, up to the first that fails. -/
def PageAccumulator.addAll (geo : GeoWalker γ) (c : ChunkSettings) (p : PageAccumulator γ) :
    List (ChunkEnv × ChunkArgs Value) → Except Status Unit × PageAccumulator γ
  | [] => (.ok (), p)
  | (env, args) :: calls =>
    match p.addValues geo env c args with
    | (.error e, p) => (.error e, p)
    | (.ok (), p) => p.addAll geo c calls

theorem PageAccumulator.addAll_cons {geo : GeoWalker γ} {c : ChunkSettings}
    {p p' : PageAccumulator γ} {call : ChunkEnv × ChunkArgs Value}
    {calls : List (ChunkEnv × ChunkArgs Value)}
    (h : p.addAll geo c (call :: calls) = (.ok (), p')) :
    ∃ q, p.addValues geo call.1 c call.2 = (.ok (), q) ∧ q.addAll geo c calls = (.ok (), p') := by
  rw [PageAccumulator.addAll] at h
  rcases hadd : p.addValues geo call.1 c call.2 with ⟨_ | _, q⟩ <;> rw [hadd] at h
  · cases (Prod.mk.inj h).1
  · exact ⟨q, rfl, h⟩

/-- **Calls that append** leave the PLAIN image of all their rows. -/
theorem PageAccumulator.addAll_accumulates {geo : GeoWalker γ} {c : ChunkSettings}
    {p p' : PageAccumulator γ} {s : Entries Value c.column.maxDefLevel}
    {calls : List (ChunkEnv × Batch Value c.column.maxDefLevel)}
    (happends : Accumulates c p.encoding) (hp : p.contents = plainContents c.column s)
    (hnum : p.numValues = s.length)
    (h : p.addAll geo c (calls.map fun call => (call.1, call.2.args)) = (.ok (), p')) :
    let rows := s.append (Stream.concat (calls.map fun call => call.2.rows))
    p'.contents = plainContents c.column rows ∧ p'.numValues = rows.length := by
  induction calls generalizing p s with
  | nil =>
    obtain ⟨-, rfl⟩ := Prod.mk.inj h
    simp only [List.map_nil, Stream.concat, List.foldr_nil, Stream.append_empty]
    exact ⟨hp, hnum⟩
  | cons call calls ih =>
    obtain ⟨q, hadd, hrest⟩ := addAll_cons h
    obtain ⟨encoded, hencode, hcontents, hcount, hencoding⟩ := addValues_ok hadd
    have hpass := call.2.passesRows fun hpos => absurd hpos (by rw [happends.maxRepLevel]; decide)
    rw [encodeCall_accumulates happends hpass hencode, hp, plainContents_append happends.type]
      at hcontents
    have hq := ih (hencoding ▸ happends) hcontents
      (by rw [hcount, hnum, Stream.length_append]; rfl) hrest
    simp only [List.map_cons, Stream.concat, List.foldr_cons]
    rwa [Stream.append_assoc] at hq

/-- The page that calls make, if it was made by one call, or if its calls append. -/
theorem addAll_holds {geo : GeoWalker γ} {c : ChunkSettings} {encoding : Encoding}
    {calls : List (ChunkEnv × Batch Value c.column.maxDefLevel)} {p : PageAccumulator γ}
    (hcolumn : c.column.Valid) (hsupported : writerEncodingSupported encoding c.column.type = true)
    (hdict : encoding.needsDictionary = false)
    (hreps : ∀ call ∈ calls, 0 < c.column.maxRepLevel → call.2.passed.repLevels = true)
    (hfit : RowsFit c.column (Stream.concat (calls.map fun call => call.2.rows)))
    (hcalls : calls.length = 1 ∨ Accumulates c encoding)
    (h : (PageAccumulator.create geo encoding).addAll geo c
      (calls.map fun call => (call.1, call.2.args)) = (.ok (), p)) (dict : Option Dictionary) :
    PageHolds c dict encoding p.contents (Stream.concat (calls.map fun call => call.2.rows)) ∧
      p.numValues = (Stream.concat (calls.map fun call => call.2.rows)).length := by
  rcases hcalls with hone | happends
  · obtain ⟨call, rfl⟩ := List.length_eq_one_iff.mp hone
    obtain ⟨q, hadd, hrest⟩ := PageAccumulator.addAll_cons h
    obtain ⟨-, rfl⟩ := Prod.mk.inj hrest
    obtain ⟨encoded, hencode, hcontents, hcount, -⟩ := PageAccumulator.addValues_ok hadd
    have hpass := call.2.passesRows (hreps call List.mem_cons_self)
    simp only [List.map_cons, List.map_nil, Stream.concat, List.foldr_cons, List.foldr_nil,
      Stream.append_empty] at hfit ⊢
    rw [hcontents]
    refine ⟨encodeCall_holds hcolumn hsupported hdict hpass hfit hencode, ?_⟩
    rw [hcount]
    exact Nat.zero_add _
  · have hempty : (PageAccumulator.create geo encoding).contents =
        plainContents c.column .empty := (plainContents_empty happends.type).symm
    obtain ⟨hcontents, hcount⟩ := PageAccumulator.addAll_accumulates happends hempty rfl h
    rw [Stream.empty_append] at hcontents hcount
    rw [hcontents]
    exact ⟨plainContents_holds happends hcolumn hfit.values, hcount⟩

/-- Numbers in lists that may be null, as deltas. -/
def deltaColumn : ChunkSettings where
  options := ⟨⟨.int32, 0, 1, 1⟩, 0, 0, 0, false⟩
  logicalType := .unknown
  encoding := .deltaBinaryPacked
  compression := .uncompressed
  dataPageV2 := false
  writeCrc := true
  writeStatistics := true
  dictionaryPageSizeLimit := 0
  bloomFilterBytes := none
  pageIndexEnabled := false

/-- Memory without end. -/
def growthWithoutEnd (_ : Nat) : Except Status Unit := .ok ()

theorem growthWithoutEnd_zero : growthWithoutEnd 0 = .ok () := rfl

def unlimitedEnv : ChunkEnv := ⟨plainEnv, growthWithoutEnd, growthWithoutEnd_zero⟩

/-- A walker that sees nothing. -/
def blindWalker : GeoWalker Unit := ⟨(), fun _ _ => ()⟩

/-- The lists `[7, null]` and `[9]`. -/
def deltaBatch : Batch Value deltaColumn.column.maxDefLevel where
  rows := ⟨[1, 0, 1], [0, 1, 0], [[7, 0, 0, 0], [9, 0, 0, 0]], rfl, by decide⟩
  passed := ⟨true, true⟩
  all_present := nofun

/-- The page of that batch. -/
def deltaPage : PageAccumulator Unit :=
  ((PageAccumulator.create blindWalker .deltaBinaryPacked).addAll blindWalker deltaColumn
    [(unlimitedEnv, deltaBatch.args)]).2

end Carquet
