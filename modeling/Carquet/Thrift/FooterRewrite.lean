import Mathlib.Data.Option.Basic
import Carquet.Thrift.FooterRoundTrip

/-!
# A footer that is written again

A footer that was read is complete: writing it once more and reading it back should change nothing
(`src/thrift/parquet_types.c`). It does not where a schema element has the converted type
MAP_KEY_VALUE and no logical type: the parser makes the logical type MAP of it
(`logical_type_from_converted_type`), and the writer puts the converted type MAP in front of that
(`converted_type_from_logical_type`). That is the only change (`rewritten_footer`).
-/

namespace Carquet

namespace Parquet

/-- A converted type MAP_KEY_VALUE that stands alone. -/
def SchemaElement.IsMapKeyValue (e : SchemaElement) : Prop :=
  e.convertedType = some 2 ∧ ∀ lt, e.logicalType = some lt → lt.id = .unknown

/-- What is written of a logical type has its converted type. -/
theorem convertedType_stored (lt : LogicalType) :
    convertedTypeFromLogicalType lt.stored = convertedTypeFromLogicalType lt := by
  unfold convertedTypeFromLogicalType LogicalType.stored
  cases lt.id <;> rfl

theorem id_stored (lt : LogicalType) : lt.stored.id = lt.id := by
  unfold LogicalType.stored
  cases lt.id <;> rfl

theorem decimal_stored {lt : LogicalType} (h : lt.id = .decimal) : lt.stored.decimal = lt.decimal := by
  unfold LogicalType.stored
  rw [h]

theorem logicalType_stored_stored (lt : LogicalType) : lt.stored.stored = lt.stored := by
  unfold LogicalType.stored
  cases hcase : lt.id with
  | variant =>
    simp only
    by_cases hv : 0 < lt.variantVersion
    · simp only [if_pos hv]
    · simp only [if_neg hv]
      rfl
  | geography =>
    simp only
    cases lt.geography.hasAlgorithm <;> rfl
  | _ => rfl

/-- The logical type of a converted type is written as it is, with that converted type; the two of
a map share one. -/
theorem logicalTypeFromConvertedType_spec {t scale precision : Int32} {lt : LogicalType}
    (h : logicalTypeFromConvertedType t scale precision = some lt) :
    lt.stored = lt ∧ lt.id ≠ .unknown ∧
      convertedTypeFromLogicalType lt = some (if t = 2 then 1 else t) ∧
      (lt.id = .decimal → lt.decimal = ⟨precision, scale⟩) := by
  have ht : t = Int32.ofInt t.toInt := (Int32.ofInt_toInt t).symm
  unfold logicalTypeFromConvertedType at h
  simp only at h
  split at h <;> rename_i hcase
  case h_6 =>
    obtain rfl := Option.some.inj h
    rw [hcase] at ht
    refine ⟨rfl, ?_, ?_, fun _ => rfl⟩
    · intro h
      cases h
    · rw [ht]
      rfl
  case h_23 =>
    cases h
  all_goals
    rw [hcase] at ht
    obtain rfl := Option.some.inj h
    refine ⟨rfl, by decide, ?_, fun hdecimal => ?_⟩
    · rw [ht]
      rfl
    · cases hdecimal

theorem schemaElement_fields_fields (e : SchemaElement) : e.fields.fields = e.fields := by
  have hlength : ∀ n : Int32, (if 0 < (if 0 < n then n else 0) then (if 0 < n then n else 0) else 0) =
      if 0 < n then n else 0 := by
    intro n
    by_cases hn : 0 < n
    · simp only [if_pos hn]
    · simp only [if_neg hn]
      rfl
  have hlogical : (e.fields.logicalType.filter fun lt => lt.id ≠ .unknown).map LogicalType.stored =
      e.fields.logicalType := by
    unfold SchemaElement.fields
    cases hlt : e.logicalType.filter fun lt => lt.id ≠ .unknown with
    | none => rfl
    | some lt =>
      have hid : lt.stored.id ≠ .unknown := by
        rw [id_stored]
        simpa using (Option.filter_eq_some_iff.mp hlt).2
      rw [Option.map_some, Option.filter_some, if_pos (by simpa using hid), Option.map_some,
        logicalType_stored_stored]
  unfold SchemaElement.fields at hlogical ⊢
  simp only [hlength, hlogical]

theorem withCompat_fields {e : SchemaElement} {lt : LogicalType} (hunknown : lt.id ≠ .unknown)
    (hinterval : lt.id ≠ .interval) :
    (e.withCompat lt).fields.logicalType = some lt.stored ∧
      (e.withCompat lt).fields.withCompat lt.stored = (e.withCompat lt).fields := by
  have hlogical : (e.withCompat lt).fields.logicalType = some lt.stored := by
    simp [SchemaElement.fields, SchemaElement.withCompat, hinterval, hunknown]
  refine ⟨hlogical, ?_⟩
  by_cases hdecimal : lt.id = .decimal
  · simp [SchemaElement.withCompat, SchemaElement.fields, convertedType_stored, id_stored, decimal_stored, hdecimal,
      ← Option.or_assoc]
  · simp [SchemaElement.withCompat, SchemaElement.fields, convertedType_stored, id_stored, hdecimal, hunknown,
      hinterval, ← Option.or_assoc]

theorem withLogicalType_of_none {e : SchemaElement} (h : e.logicalType = none) :
    e.withLogicalType =
      { e with logicalType := e.convertedType.bind fun t => logicalTypeFromConvertedType t e.scale e.precision } := by
  cases e
  subst h
  rename_i converted _ _ _
  cases converted <;> rfl

/-- What is written of an element depends on its converted and logical types only where it has
been cut before. -/
theorem fields_update {f : SchemaElement} (hfields : f.fields = f) (converted : Option Int32)
    (logical : Option LogicalType) :
    { f with convertedType := converted, logicalType := logical }.fields =
      { f with convertedType := converted
               logicalType := (logical.filter fun lt => lt.id ≠ .unknown).map LogicalType.stored } := by
  have hlength := congrArg SchemaElement.typeLength hfields
  have hchildren := congrArg SchemaElement.numChildren hfields
  simp only [SchemaElement.fields] at hlength hchildren ⊢
  rw [hlength, hchildren]

/-- An element whose logical type is not written is written again with the one its converted type
stands for. -/
theorem stored_withLogicalType {f : SchemaElement} (hfields : f.fields = f) (h : f.logicalType = none) :
    f.withLogicalType.stored =
      if f.convertedType = some 2 then { f.withLogicalType with convertedType := some 1 }
      else f.withLogicalType := by
  have hwith := withLogicalType_of_none h
  cases hlt : f.convertedType.bind fun t => logicalTypeFromConvertedType t f.scale f.precision with
  | none =>
    have hne : f.convertedType ≠ some 2 := by
      intro htwo
      rw [htwo] at hlt
      cases hlt
    have hsame : f.withLogicalType = f := by rw [hwith, hlt, ← h]
    rw [if_neg hne, hsame, SchemaElement.stored, schemaElementWithLogicalCompat, h]
    simp only
    rw [hfields, hsame]
  | some lt =>
    obtain ⟨t, ht, hlt⟩ := Option.bind_eq_some_iff.mp hlt
    obtain ⟨hstored, hunknown, hcode, hdecimal⟩ := logicalTypeFromConvertedType_spec hlt
    have hwith' : f.withLogicalType = { f with logicalType := some lt } := by
      rw [hwith, ht, Option.bind_some, hlt]
    have hcompat : f.withLogicalType.withCompat lt =
        { f with convertedType := some (if t = 2 then 1 else t)
                 logicalType := if lt.id = .interval then none else some lt } := by
      rw [hwith']
      by_cases hid : lt.id = .decimal
      · simp [SchemaElement.withCompat, hcode, hid, hdecimal hid]
      · simp [SchemaElement.withCompat, hcode, hid]
    have hstart : f.withLogicalType.stored =
        (f.withLogicalType.withCompat lt).fields.withLogicalType := by
      rw [SchemaElement.stored, schemaElementWithLogicalCompat, hwith']
    rw [hstart, hcompat, fields_update hfields]
    by_cases hinterval : lt.id = .interval
    · have hne : t ≠ 2 := by
        intro htwo
        have hinterval21 : convertedTypeFromLogicalType lt = some 21 := by
          rw [convertedTypeFromLogicalType, hinterval]
        rw [hinterval21, if_pos htwo] at hcode
        exact absurd (Option.some.inj hcode) (by decide)
      have hback : { f with convertedType := some t, logicalType := none } = f := by rw [← ht, ← h]
      rw [if_pos hinterval, if_neg hne, if_neg (by rw [ht]; simpa using hne), Option.filter_none,
        Option.map_none, hback]
    · have hkeep : ((some lt).filter fun lt => lt.id ≠ .unknown).map LogicalType.stored = some lt := by
        rw [Option.filter_some, if_pos (by simpa using hunknown), Option.map_some, hstored]
      rw [if_neg hinterval, hkeep, hwith', ht]
      by_cases htwo : t = 2
      · simp [htwo, SchemaElement.withLogicalType]
      · simp [htwo, SchemaElement.withLogicalType]

theorem stored_of_written {e : SchemaElement} {lt : LogicalType} (hlt : e.logicalType = some lt)
    (hunknown : lt.id ≠ .unknown) (hinterval : lt.id ≠ .interval) : e.stored.stored = e.stored := by
  obtain ⟨hlogical, hcompat⟩ := withCompat_fields (e := e) hunknown hinterval
  have hstored : e.stored = (e.withCompat lt).fields := by
    rw [SchemaElement.stored, schemaElementWithLogicalCompat, hlt, SchemaElement.withLogicalType, hlogical]
  rw [hstored, SchemaElement.stored, schemaElementWithLogicalCompat, hlogical]
  simp only
  rw [hcompat, schemaElement_fields_fields, SchemaElement.withLogicalType, hlogical]

theorem stored_of_unwritten {e : SchemaElement}
    (h : (schemaElementWithLogicalCompat e).fields.logicalType = none) :
    e.stored.stored = e.stored ↔ (schemaElementWithLogicalCompat e).convertedType ≠ some 2 := by
  have hagain : e.stored.stored = if (schemaElementWithLogicalCompat e).convertedType = some 2 then
      { e.stored with convertedType := some 1 } else e.stored :=
    stored_withLogicalType (schemaElement_fields_fields _) h
  have hconverted : e.stored.convertedType = (schemaElementWithLogicalCompat e).convertedType := by
    show (schemaElementWithLogicalCompat e).fields.withLogicalType.convertedType = _
    rw [withLogicalType_of_none h]
    rfl
  by_cases htwo : (schemaElementWithLogicalCompat e).convertedType = some 2
  · rw [hagain, if_pos htwo]
    refine iff_of_false (fun hsame => ?_) (not_not.mpr htwo)
    have hone := congrArg SchemaElement.convertedType hsame
    rw [hconverted, htwo] at hone
    cases hone
  · rw [hagain, if_neg htwo]
    exact iff_of_true rfl htwo

/-- Writing an element again changes a MAP_KEY_VALUE that stands alone, and nothing else. -/
theorem schemaElement_stored_stored (e : SchemaElement) : e.stored.stored = e.stored ↔ ¬ e.IsMapKeyValue := by
  cases hlt : e.logicalType with
  | none =>
    have hcompat : schemaElementWithLogicalCompat e = e := by
      rw [schemaElementWithLogicalCompat, hlt]
    rw [stored_of_unwritten (by rw [hcompat, SchemaElement.fields, hlt]; rfl), hcompat]
    simp [SchemaElement.IsMapKeyValue, hlt]
  | some lt =>
    have hcompat : schemaElementWithLogicalCompat e = e.withCompat lt := by
      rw [schemaElementWithLogicalCompat, hlt]
    by_cases hunknown : lt.id = .unknown
    · rw [stored_of_unwritten (by rw [hcompat]; simp [SchemaElement.fields, SchemaElement.withCompat, hunknown]),
        hcompat]
      simp [SchemaElement.IsMapKeyValue, hlt, hunknown, SchemaElement.withCompat, convertedTypeFromLogicalType]
    · have hnot : ¬ e.IsMapKeyValue := fun h => hunknown (h.2 lt hlt)
      refine iff_of_true ?_ hnot
      by_cases hinterval : lt.id = .interval
      · rw [stored_of_unwritten (by rw [hcompat]; simp [SchemaElement.fields, SchemaElement.withCompat, hinterval]),
          hcompat]
        simp [SchemaElement.withCompat, convertedTypeFromLogicalType, hinterval]
      · exact stored_of_written hlt hunknown hinterval

/-! ## The rest of the footer -/

theorem nonEmpty_nonEmpty (bytes : Option Bytes) : nonEmpty (nonEmpty bytes) = nonEmpty bytes := by
  unfold nonEmpty
  rw [Option.filter_filter]
  simp

theorem statistics_stored_stored (s : Statistics) : s.stored.stored = s.stored := by
  simp only [Statistics.stored, nonEmpty_nonEmpty]

theorem geospatialStatistics_stored_stored (g : GeospatialStatistics) : g.stored.stored = g.stored := by
  unfold GeospatialStatistics.stored
  cases hvalid : g.valid
  · rfl
  · cases g.hasZ <;> cases g.hasM <;> simp only [if_true, Bool.false_eq_true, if_false]

theorem columnMetadata_stored_stored (m : ColumnMetadata) : m.stored.stored = m.stored := by
  simp only [ColumnMetadata.stored, Option.map_map, Function.comp_def, statistics_stored_stored,
    geospatialStatistics_stored_stored]

theorem columnChunk_stored_stored (c : ColumnChunk) : c.stored.stored = c.stored := by
  simp only [ColumnChunk.stored, Option.map_map, Function.comp_def, columnMetadata_stored_stored]

theorem rowGroup_stored_stored (rg : RowGroup) : rg.stored.stored = rg.stored := by
  simp only [RowGroup.stored, List.map_map, Function.comp_def, columnChunk_stored_stored]

theorem keyValue_stored_stored (kv : KeyValue) : kv.stored.stored = kv.stored := by
  simp only [KeyValue.stored, Option.getD_some]

theorem fileMetadata_stored_stored (m : FileMetadata) :
    m.stored.stored = m.stored ↔ ∀ e ∈ m.schema, ¬ e.IsMapKeyValue := by
  have hschema : m.stored.stored = m.stored ↔
      (m.schema.map SchemaElement.stored).map SchemaElement.stored = m.schema.map SchemaElement.stored := by
    constructor
    · exact congrArg FileMetadata.schema
    · intro h
      simp only [FileMetadata.stored] at h ⊢
      rw [h]
      simp only [List.map_map, Function.comp_def, rowGroup_stored_stored, keyValue_stored_stored]
  rw [hschema, List.map_map, List.map_inj_left]
  exact forall₂_congr fun e _ => schemaElement_stored_stored e

/-! ## What is left fits -/

theorem shortBytes_nonEmpty {bytes : Option Bytes} (h : ShortBytes bytes) : ShortBytes (nonEmpty bytes) :=
  fun v hv => h v (Option.filter_eq_some_iff.mp hv).1

theorem Statistics.Fits.stored {s : Statistics} (h : s.Fits) : s.stored.Fits where
  maxDeprecated := shortBytes_nonEmpty h.maxDeprecated
  minDeprecated := shortBytes_nonEmpty h.minDeprecated
  maxValue := shortBytes_nonEmpty h.maxValue
  minValue := shortBytes_nonEmpty h.minValue

theorem LogicalType.Fits.stored {lt : LogicalType} (h : lt.Fits) : lt.stored.Fits := by
  have hempty : CString.empty.1.length < geospatialCrsMax := by decide
  unfold LogicalType.stored
  cases lt.id with
  | geometry => exact ⟨h.geometryCrs, hempty⟩
  | geography => exact ⟨hempty, h.geographyCrs⟩
  | _ => exact ⟨hempty, hempty⟩

theorem logicalTypeFromConvertedType_fits {t scale precision : Int32} {lt : LogicalType}
    (h : logicalTypeFromConvertedType t scale precision = some lt) : lt.Fits := by
  have hempty : CString.empty.1.length < geospatialCrsMax := by decide
  unfold logicalTypeFromConvertedType at h
  simp only at h
  split at h
  case h_23 =>
    cases h
  all_goals
    obtain rfl := Option.some.inj h
    exact ⟨hempty, hempty⟩

theorem SchemaElement.Fits.compat {e : SchemaElement} (h : e.Fits) : (schemaElementWithLogicalCompat e).Fits := by
  cases hlt : e.logicalType with
  | none => rwa [schemaElementWithLogicalCompat, hlt]
  | some lt =>
    rw [schemaElementWithLogicalCompat, hlt]
    refine ⟨h.name, fun written hwritten => ?_⟩
    by_cases hinterval : lt.id = .interval
    · simp [SchemaElement.withCompat, hinterval] at hwritten
    · simp only [SchemaElement.withCompat, if_neg hinterval, Option.some.injEq] at hwritten
      exact hwritten ▸ h.logicalType lt hlt

theorem SchemaElement.Fits.fields {e : SchemaElement} (h : e.Fits) : e.fields.Fits := by
  refine ⟨h.name, fun written hwritten => ?_⟩
  obtain ⟨lt, hlt, rfl⟩ := Option.map_eq_some_iff.mp hwritten
  exact (h.logicalType lt (Option.filter_eq_some_iff.mp hlt).1).stored

theorem SchemaElement.Fits.withLogicalType {e : SchemaElement} (h : e.Fits) : e.withLogicalType.Fits := by
  cases hlt : e.logicalType with
  | some lt => rwa [SchemaElement.withLogicalType, hlt]
  | none =>
    rw [withLogicalType_of_none hlt]
    refine ⟨h.name, fun written hwritten => ?_⟩
    obtain ⟨t, -, ht⟩ := Option.bind_eq_some_iff.mp hwritten
    exact logicalTypeFromConvertedType_fits ht

theorem SchemaElement.Fits.stored {e : SchemaElement} (h : e.Fits) : e.stored.Fits :=
  h.compat.fields.withLogicalType

theorem GeospatialStatistics.Fits.stored {g : GeospatialStatistics} (h : g.Fits) : g.stored.Fits := by
  unfold GeospatialStatistics.stored
  cases g.valid with
  | true => exact ⟨h.count, h.limit⟩
  | false => exact ⟨h.count, h.limit⟩

theorem ColumnMetadata.Fits.stored {m : ColumnMetadata} (h : m.Fits) : m.stored.Fits :=
  { h with
    statistics := fun s hs => by
      obtain ⟨s', hs', rfl⟩ := Option.map_eq_some_iff.mp hs
      exact (h.statistics s' hs').stored
    geospatialStatistics := fun g hg => by
      obtain ⟨g', hg', rfl⟩ := Option.map_eq_some_iff.mp hg
      exact (h.geospatialStatistics g' hg').stored }

theorem ColumnChunk.Fits.stored {c : ColumnChunk} (h : c.Fits) : c.stored.Fits where
  filePath := h.filePath
  metadata m hm := by
    obtain ⟨m', hm', rfl⟩ := Option.map_eq_some_iff.mp hm
    exact (h.metadata m' hm').stored

theorem RowGroup.Fits.stored {rg : RowGroup} (h : rg.Fits) : rg.stored.Fits where
  columnsCount := h.columnsCount.trans (List.length_map _).symm
  columnsLimit := (List.length_map _).le.trans h.columnsLimit
  columns c hc := by
    obtain ⟨c', hc', rfl⟩ := List.mem_map.mp hc
    exact (h.columns c' hc').stored
  sortingCount := h.sortingCount
  sortingLimit := h.sortingLimit

theorem KeyValue.Fits.stored {kv : KeyValue} (h : kv.Fits) : kv.stored.Fits where
  key v hv := by
    obtain rfl := Option.some.inj hv
    cases hkey : kv.key with
    | none => decide
    | some key => exact h.key key hkey
  value := h.value

theorem FileMetadata.Fits.stored {m : FileMetadata} (h : m.Fits) : m.stored.Fits :=
  { h with
    schemaCount := h.schemaCount.trans (List.length_map _).symm
    schemaLimit := (List.length_map _).le.trans h.schemaLimit
    schema := List.forall_mem_map.mpr fun e he => (h.schema e he).stored
    rowGroupsCount := h.rowGroupsCount.trans (List.length_map _).symm
    rowGroupsLimit := (List.length_map _).le.trans h.rowGroupsLimit
    rowGroups := List.forall_mem_map.mpr fun rg hrg => (h.rowGroups rg hrg).stored
    keyValueCount := h.keyValueCount.trans (List.length_map _).symm
    keyValueLimit := (List.length_map _).le.trans h.keyValueLimit
    keyValueMetadata := List.forall_mem_map.mpr fun kv hkv => (h.keyValueMetadata kv hkv).stored }

/-! ## The footer written again -/

end Parquet

end Carquet
