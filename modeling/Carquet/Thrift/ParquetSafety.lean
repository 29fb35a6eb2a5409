import Carquet.Thrift.Inside
import Carquet.Thrift.PageHeader
import Carquet.Thrift.ParquetParse

/-!
# What a footer's parser does to memory

On every byte string the parsers of the footer and of a page header return, having read inside their
input. Every count of the footer's result is the length of its array and within its limit
(`FileMetadata.Sized`), but for the type codes of geospatial statistics: those of several lists in
one struct go into the same 64 cells, one behind the other, and only the position in its own list is
checked. So a struct stores inside the array exactly where its lists, each counted up to 64, come to
64 together (`GeoRun.total`).
-/

namespace Carquet

namespace Parquet

open Decoder

/-! ## Counts -/

/-- The count is the array's, and within its limit. -/
def Counted {α : Type} (limit num : Nat) (array : List α) : Prop :=
  num = array.length ∧ num ≤ limit

instance {α : Type} (limit num : Nat) (array : List α) : Decidable (Counted limit num array) :=
  inferInstanceAs (Decidable (_ ∧ _))

def GeospatialStatistics.Sized (g : GeospatialStatistics) : Prop :=
  Counted geoMaxTypes g.numTypes g.types

structure ColumnMetadata.Sized (m : ColumnMetadata) : Prop where
  encodings : Counted maxEncodings m.numEncodings m.encodings
  pathInSchema : Counted maxPathElements m.pathLen m.pathInSchema
  keyValueMetadata : Counted maxKeyValuePairs m.numKeyValue m.keyValueMetadata
  encodingStats : Counted maxEncodingStats m.numEncodingStats m.encodingStats
  geospatialStatistics : ∀ g ∈ m.geospatialStatistics, g.Sized

def ColumnChunk.Sized (c : ColumnChunk) : Prop := ∀ m ∈ c.metadata, m.Sized

structure RowGroup.Sized (rg : RowGroup) : Prop where
  columns : Counted maxColumnsPerRg rg.numColumns rg.columns
  sortingColumns : Counted maxColumnsPerRg rg.numSortingColumns rg.sortingColumns
  chunks : ∀ c ∈ rg.columns, c.Sized

/-- Every count of the metadata is the length of its array and within its limit. The column orders
are counted only. -/
structure FileMetadata.Sized (m : FileMetadata) : Prop where
  schema : Counted maxSchemaElements m.numSchemaElements m.schema
  rowGroups : Counted maxRowGroups m.numRowGroups m.rowGroups
  keyValueMetadata : Counted maxKeyValuePairs m.numKeyValue m.keyValueMetadata
  columnOrders : m.numColumnOrders ≤ maxColumnsPerRg
  groups : ∀ rg ∈ m.rowGroups, rg.Sized

theorem Counted.nil {α : Type} (limit : Nat) : Counted limit 0 ([] : List α) :=
  ⟨rfl, Nat.zero_le limit⟩

/-! ## Type codes -/

/-- How many codes of a struct's lists are stored. -/
def GeoRun.total (run : GeoRun) : Nat := (run.counts.map (min · geoMaxTypes)).sum

/-- The stores of a run go through the cells in order. -/
def GeoRun.Ordered (run : GeoRun) : Prop := run.stores = List.range run.total

/-- A run stays in the array exactly where its lists fit into it together. -/
theorem GeoRun.Ordered.inside_iff {run : GeoRun} (h : run.Ordered) :
    (∀ i ∈ run.stores, i < geoMaxTypes) ↔ run.total ≤ geoMaxTypes := by
  rw [h]
  constructor
  · intro hall
    by_contra hlt
    exact absurd (hall geoMaxTypes (List.mem_range.2 (Nat.lt_of_not_le hlt))) (Nat.lt_irrefl _)
  · intro hle i hi
    exact Nat.lt_of_lt_of_le (List.mem_range.1 hi) hle

/-- The cells that are set, their number and the stores agree. -/
structure GeoState.Agrees (s : GeoState) (total : Nat) : Prop where
  stores : s.run.stores = List.range total
  numTypes : s.stats.numTypes = total
  types : s.stats.types.length = total

/-- One store. -/
theorem GeoState.Agrees.store {s : GeoState} {total : Nat} (h : s.Agrees total) (code : Int32) :
    (s.store code).Agrees (total + 1) where
  stores := by rw [GeoState.store, h.stores, h.numTypes, List.range_succ]
  numTypes := by rw [GeoState.store, h.numTypes]
  types := by rw [GeoState.store, List.length_append, h.types, List.length_singleton]

/-- A list's loop takes bytes only, and stores the codes in front of the 64th. -/
theorem geoTypesLoop_spec {s : GeoState} {total : Nat} (h : s.Agrees total) (i n : Nat)
    (d : Decoder) :
    (geoTypesLoop i n s d).1.Agrees (total + (min (i + n) geoMaxTypes - min i geoMaxTypes)) ∧
      (geoTypesLoop i n s d).1.run.counts = s.run.counts ∧
      d.Reads (geoTypesLoop i n s d).2 0 ∧ d.Inside (geoTypesLoop i n s d).2 := by
  induction n generalizing i s total d with
  | zero =>
    rw [Nat.add_zero, Nat.sub_self, Nat.add_zero]
    exact ⟨h, rfl, .refl d, .refl d⟩
  | succ n ih =>
    have hreads : d.Reads d.readI32.2 1 := reads_readVarint d
    have hinside : d.Inside d.readI32.2 := inside_readVarint d
    have hnext : (if i < geoMaxTypes then s.store (.ofInt d.readI32.1) else s).Agrees
        (total + (min (i + 1) geoMaxTypes - min i geoMaxTypes)) := by
      split
      · rename_i hlt
        have hone : min (i + 1) geoMaxTypes - min i geoMaxTypes = 1 := by omega
        rw [hone]
        exact h.store _
      · rename_i hge
        have hnone : min (i + 1) geoMaxTypes - min i geoMaxTypes = 0 := by omega
        rw [hnone]
        exact h
    have hcounts : (if i < geoMaxTypes then s.store (.ofInt d.readI32.1) else s).run.counts =
        s.run.counts := by
      split <;> rfl
    obtain ⟨hagrees, hcounts', hreads', hinside'⟩ := ih hnext (i + 1) d.readI32.2
    have htotal : total + (min (i + 1) geoMaxTypes - min i geoMaxTypes) +
        (min (i + 1 + n) geoMaxTypes - min (i + 1) geoMaxTypes) =
        total + (min (i + (n + 1)) geoMaxTypes - min i geoMaxTypes) := by
      omega
    rw [htotal] at hagrees
    exact ⟨hagrees, hcounts'.trans hcounts, (hreads.trans hreads').mono (Nat.zero_le _),
      hinside.trans hinside'⟩

/-- The statistics and their run, between two fields. -/
def GeoState.Sound (s : GeoState) : Prop := s.Agrees s.run.total

theorem gives_boundingBoxField (id : Int) (type : ThriftType) {s : GeospatialStatistics}
    {total : Nat} (h : s.numTypes = total ∧ s.types.length = total) (d : Decoder) :
    d.Gives (fun g => g.numTypes = total ∧ g.types.length = total)
      (boundingBoxField id type s d) := by
  have hreads : d.Reads (readDoubleBits d).2 0 := by
    unfold readDoubleBits readDouble
    split
    · exact .setError d _ (by decide) 0
    · exact ⟨by simp, fun hok => ⟨hok, by simp⟩⟩
  refine gives_storing hreads (inside_readDouble d) ?_
  split <;> exact h

theorem gives_geospatialStatisticsField (id : Int) (type : ThriftType) (s : GeoState) (d : Decoder)
    (h : s.Sound) : d.Gives GeoState.Sound (geospatialStatisticsField id type s d) := by
  unfold geospatialStatisticsField
  split
  · have hbox : d.Gives (fun g => g.numTypes = s.run.total ∧ g.types.length = s.run.total)
        (d.readStruct boundingBoxField s.stats) :=
      gives_readStruct (fun id type s d hs => gives_boundingBoxField id type hs d)
        ⟨h.numTypes, h.types⟩
    exact hbox.map fun g _ hg => ⟨rfl, h.stores, hg.1, hg.2⟩
  · have hbegin : (s.beginList d.readListBegin.1.2).Agrees s.run.total := ⟨h.stores, h.numTypes, h.types⟩
    obtain ⟨hagrees, hcounts, hreads, hinside⟩ :=
      geoTypesLoop_spec hbegin 0 d.readListBegin.1.2 d.readListBegin.2
    refine ⟨_, _, rfl, ((reads_readListBegin d).trans hreads).mono (Nat.zero_le _),
      (inside_readListBegin d).trans hinside, ?_⟩
    rw [GeoState.Sound, GeoRun.total, hcounts]
    simpa [GeoState.beginList, GeoRun.total] using hagrees
  · exact gives_skipping type h

theorem gives_parseGeospatialStatistics (d : Decoder) :
    d.Gives GeoState.Sound (parseGeospatialStatistics d) :=
  gives_readStruct (fun id type s d hs => gives_geospatialStatisticsField id type s d hs)
    ⟨rfl, rfl, rfl⟩

/-! ## Fields -/

/-- The runs of a result are in order, and where they stay in their arrays it is sized. -/
structure Traced.Sound {α : Type} (Q : α → Prop) (s : Traced α) : Prop where
  ordered : ∀ run ∈ s.runs, run.Ordered
  sized : (∀ run ∈ s.runs, run.total ≤ geoMaxTypes) → Q s.value

section
variable {α β σ : Type} {Q : α → Prop} {P : β → Prop} {d : Decoder}

/-- No further run. -/
theorem Traced.Sound.keep {s : Traced α} (h : s.Sound Q) {a : α} (ha : Q s.value → Q a) :
    (s.keep a).Sound Q := ⟨h.ordered, fun hfit => ha (h.sized hfit)⟩

/-- More runs, and a part of the result that they belong to. -/
theorem Traced.Sound.append {s : Traced α} (h : s.Sound Q) {a : α} {runs : List GeoRun}
    (hordered : ∀ run ∈ runs, run.Ordered)
    (ha : (∀ run ∈ runs, run.total ≤ geoMaxTypes) → Q s.value → Q a) :
    (⟨a, s.runs ++ runs⟩ : Traced α).Sound Q where
  ordered := fun run hrun => (List.mem_append.1 hrun).elim (h.ordered run) (hordered run)
  sized := fun hfit =>
    ha (fun run hrun => hfit run (List.mem_append_right _ hrun))
      (h.sized fun run hrun => hfit run (List.mem_append_left _ hrun))

/-- The results of a loop over a count. -/
theorem Traced.sound_all {l : List (Traced β)} (h : ∀ r ∈ l, r.Sound P) :
    (∀ run ∈ Traced.allRuns l, run.Ordered) ∧
      ((∀ run ∈ Traced.allRuns l, run.total ≤ geoMaxTypes) → ∀ b ∈ Traced.values l, P b) := by
  constructor
  · intro run hrun
    obtain ⟨r, hr, hrun⟩ := List.mem_flatMap.1 hrun
    exact (h r hr).ordered run hrun
  · intro hfit b hb
    obtain ⟨r, hr, rfl⟩ := List.mem_map.1 hb
    exact (h r hr).sized fun run hrun => hfit run (List.mem_flatMap.2 ⟨r, hr, hrun⟩)

/-- **A counted array** has its count, or the structure stays as it is. -/
theorem gives_readCounted {R : σ → Prop} {limit : Nat} {status : Status}
    {read : Decoder → Option (α × Decoder)} {set : List α → Nat → σ} {s : σ}
    (hread : ∀ d : Decoder, d.Gives Q (read d)) (hstatus : status ≠ .ok) (hs : R s)
    (hset : ∀ l : List α, l.length ≤ limit → (∀ a ∈ l, Q a) → R (set l l.length)) :
    d.Gives R (readCounted limit status read set s d) := by
  have hbegin := reads_readListBegin d
  unfold readCounted
  dsimp only
  split
  · refine ⟨s, _, rfl, ⟨hbegin.le, fun hok => absurd hok hstatus⟩, ?_, hs⟩
    exact (inside_readListBegin d).trans (.of_suffix (List.suffix_refl _) rfl)
  · rename_i hle
    obtain ⟨l, d', hl, hreads, hinside, hlen, hall⟩ :=
      gives_readElems (d := d.readListBegin.2) hread d.readListBegin.1.2
    refine ⟨set l l.length, d', ?_, (hbegin.trans hreads).mono (Nat.zero_le _),
      (inside_readListBegin d).trans hinside, hset l (by omega) hall⟩
    rw [hl, hlen]
    rfl

/-- The scalars, stored. -/
theorem gives_i32 {R : σ → Prop} {set : Int → σ} (hset : ∀ v, R (set v)) :
    d.Gives R (storing set d.readI32) :=
  gives_storing (reads_readVarint d) (inside_readVarint d) (hset _)

theorem gives_i64 {R : σ → Prop} {set : Int → σ} (hset : ∀ v, R (set v)) :
    d.Gives R (storing set d.readI64) :=
  gives_storing (reads_readVarint d) (inside_readVarint d) (hset _)

theorem gives_byte {R : σ → Prop} {set : Int → σ} (hset : ∀ v, R (set v)) :
    d.Gives R (storing set d.readByte) :=
  gives_storing (reads_readByteRaw d) (inside_readByteRaw d) (hset _)

theorem reads_readBool (d : Decoder) : d.Reads d.readBool.2 0 := by
  unfold readBool
  split
  · exact .of_eq rfl rfl
  · exact (reads_readByteRaw d).mono (Nat.zero_le 1)

theorem gives_bool {R : σ → Prop} {set : Bool → σ} (hset : ∀ v, R (set v)) :
    d.Gives R (storing set d.readBool) :=
  gives_storing (reads_readBool d) (inside_readBool d) (hset _)

theorem gives_strdup {R : σ → Prop} {set : CString → σ} (hset : ∀ v, R (set v)) :
    d.Gives R (storing set (arenaStrdup d)) := by
  unfold arenaStrdup
  exact gives_stored (reads_readBinary d) (inside_readBinary d) (hset _)

theorem gives_bindup {R : σ → Prop} {set : Option Bytes → σ} (hset : ∀ v, R (set v)) :
    d.Gives R (storing set (arenaBindup d)) := by
  unfold arenaBindup
  exact gives_stored (reads_readBinary d) (inside_readBinary d) (hset _)

end

/-- Any result will do. -/
def Any {α : Type} (_ : α) : Prop := True

theorem gives_statisticsField (id : Int) (type : ThriftType) (s : Statistics) (d : Decoder) :
    d.Gives Any (statisticsField id type s d) := by
  unfold statisticsField
  split
  · exact gives_bindup fun _ => trivial
  · exact gives_bindup fun _ => trivial
  · exact gives_i64 fun _ => trivial
  · exact gives_i64 fun _ => trivial
  · exact gives_bindup fun _ => trivial
  · exact gives_bindup fun _ => trivial
  · exact gives_bool fun _ => trivial
  · exact gives_bool fun _ => trivial
  · exact gives_skipping type trivial

theorem gives_decimalField (id : Int) (type : ThriftType) (p : DecimalParams) (d : Decoder) :
    d.Gives Any (decimalField id type p d) := by
  unfold decimalField
  split
  · exact gives_i32 fun _ => trivial
  · exact gives_i32 fun _ => trivial
  · exact gives_skipping type trivial

theorem gives_timeUnitField (id : Int) (type : ThriftType) (unit : TimeUnit) (d : Decoder) :
    d.Gives Any (timeUnitField id type unit d) := by
  unfold timeUnitField
  split <;> exact gives_skipping type trivial

/-- A struct of which nothing is asked. -/
theorem gives_struct {σ : Type} {handle : Int → ThriftType → σ → Decoder → Option (σ × Decoder)}
    (h : ∀ id type s (d : Decoder), d.Gives Any (handle id type s d)) (s : σ) (d : Decoder) :
    d.Gives Any (d.readStruct handle s) :=
  gives_readStruct (fun id type s d _ => h id type s d) trivial

theorem gives_timeField (id : Int) (type : ThriftType) (p : TimeParams) (d : Decoder) :
    d.Gives Any (timeField id type p d) := by
  unfold timeField
  split
  · exact gives_bool fun _ => trivial
  · exact (gives_struct gives_timeUnitField _ d).map fun _ _ _ => ⟨rfl, trivial⟩
  · exact gives_skipping type trivial

theorem gives_integerField (id : Int) (type : ThriftType) (p : IntegerParams) (d : Decoder) :
    d.Gives Any (integerField id type p d) := by
  unfold integerField
  split
  · exact gives_byte fun _ => trivial
  · exact gives_bool fun _ => trivial
  · exact gives_skipping type trivial

theorem gives_variantField (id : Int) (type : ThriftType) (version : Int8) (d : Decoder) :
    d.Gives Any (variantField id type version d) := by
  unfold variantField
  split
  · exact gives_byte fun _ => trivial
  · exact gives_skipping type trivial

theorem gives_geometryField (id : Int) (type : ThriftType) (crs : CString) (d : Decoder) :
    d.Gives Any (geometryField id type crs d) := by
  unfold geometryField
  split
  · exact gives_storing (reads_readBinary d) (inside_readBinary d) trivial
  · exact gives_skipping type trivial

theorem gives_geographyField (id : Int) (type : ThriftType) (p : GeographyParams) (d : Decoder) :
    d.Gives Any (geographyField id type p d) := by
  unfold geographyField
  split
  · exact gives_storing (reads_readBinary d) (inside_readBinary d) trivial
  · exact gives_i32 fun _ => trivial
  · exact gives_skipping type trivial

theorem gives_logicalTypeField (id : Int) (type : ThriftType) (lt : LogicalType) (d : Decoder) :
    d.Gives Any (logicalTypeField id type lt d) := by
  unfold logicalTypeField
  split
  case h_5 =>
    exact (gives_struct gives_decimalField _ d).map fun _ _ _ => ⟨rfl, trivial⟩
  case h_7 =>
    exact (gives_struct gives_timeField _ d).map fun _ _ _ => ⟨rfl, trivial⟩
  case h_8 =>
    exact (gives_struct gives_timeField _ d).map fun _ _ _ => ⟨rfl, trivial⟩
  case h_9 =>
    exact (gives_struct gives_integerField _ d).map fun _ _ _ => ⟨rfl, trivial⟩
  case h_15 =>
    exact (gives_struct gives_variantField _ d).map fun _ _ _ => ⟨rfl, trivial⟩
  case h_16 =>
    exact (gives_struct gives_geometryField _ d).map fun _ _ _ => ⟨rfl, trivial⟩
  case h_17 =>
    exact (gives_struct gives_geographyField _ d).map fun _ _ _ => ⟨rfl, trivial⟩
  all_goals exact gives_skipping type trivial

theorem gives_schemaElementField (id : Int) (type : ThriftType) (e : SchemaElement) (d : Decoder) :
    d.Gives Any (schemaElementField id type e d) := by
  unfold schemaElementField
  split
  case h_4 => exact gives_strdup fun _ => trivial
  case h_10 =>
    exact (gives_struct gives_logicalTypeField _ d).map fun _ _ _ => ⟨rfl, trivial⟩
  case h_11 => exact gives_skipping type trivial
  all_goals exact gives_i32 fun _ => trivial

theorem gives_parseSchemaElement (d : Decoder) : d.Gives Any (parseSchemaElement d) :=
  (gives_struct gives_schemaElementField _ d).map fun _ _ _ => ⟨rfl, trivial⟩

theorem gives_keyValueField (id : Int) (type : ThriftType) (kv : KeyValue) (d : Decoder) :
    d.Gives Any (keyValueField id type kv d) := by
  unfold keyValueField
  split
  · exact gives_strdup fun _ => trivial
  · exact gives_strdup fun _ => trivial
  · exact gives_skipping type trivial

theorem gives_parseKeyValue (d : Decoder) : d.Gives Any (parseKeyValue d) :=
  gives_struct gives_keyValueField _ d

theorem gives_encodingStatsField (id : Int) (type : ThriftType) (s : PageEncodingStats)
    (d : Decoder) : d.Gives Any (encodingStatsField id type s d) := by
  unfold encodingStatsField
  split
  · exact gives_i32 fun _ => trivial
  · exact gives_i32 fun _ => trivial
  · exact gives_i32 fun _ => trivial
  · exact gives_skipping type trivial

theorem gives_sortingColumnField (id : Int) (type : ThriftType) (c : SortingColumn) (d : Decoder) :
    d.Gives Any (sortingColumnField id type c d) := by
  unfold sortingColumnField
  split
  · exact gives_i32 fun _ => trivial
  · exact gives_bool fun _ => trivial
  · exact gives_bool fun _ => trivial
  · exact gives_skipping type trivial

/-! ## Columns, row groups, the file -/

theorem gives_columnMetadataField (id : Int) (type : ThriftType) (s : Traced ColumnMetadata)
    (d : Decoder) (h : s.Sound ColumnMetadata.Sized) :
    d.Gives (Traced.Sound ColumnMetadata.Sized) (columnMetadataField id type s d) := by
  -- a field that no count is about
  have hother {m : ColumnMetadata}
      (hm : s.value.Sized → m.Sized) : (s.keep m).Sound ColumnMetadata.Sized := h.keep hm
  have hcell (d : Decoder) : d.Gives Any (readCell d) := gives_i32 fun _ => trivial
  have hstring (d : Decoder) : d.Gives Any (some (arenaStrdup d)) := by
    unfold arenaStrdup
    exact ⟨_, _, rfl, (reads_readBinary d).mono (Nat.zero_le 1), inside_readBinary d, trivial⟩
  unfold columnMetadataField
  split
  case h_1 => exact gives_i32 fun _ => hother fun hm => ⟨hm.1, hm.2, hm.3, hm.4, hm.5⟩
  case h_2 =>
    exact gives_readCounted hcell (by decide) h fun l hlen _ =>
      hother fun hm => ⟨⟨rfl, hlen⟩, hm.2, hm.3, hm.4, hm.5⟩
  case h_3 =>
    exact gives_readCounted hstring (by decide) h fun l hlen _ =>
      hother fun hm => ⟨hm.1, ⟨rfl, hlen⟩, hm.3, hm.4, hm.5⟩
  case h_4 => exact gives_i32 fun _ => hother fun hm => ⟨hm.1, hm.2, hm.3, hm.4, hm.5⟩
  case h_8 =>
    exact gives_readCounted gives_parseKeyValue (by decide) h fun l hlen _ =>
      hother fun hm => ⟨hm.1, hm.2, ⟨rfl, hlen⟩, hm.4, hm.5⟩
  case h_12 =>
    exact (gives_struct gives_statisticsField _ d).map fun _ _ _ =>
      ⟨rfl, hother fun hm => ⟨hm.1, hm.2, hm.3, hm.4, hm.5⟩⟩
  case h_13 =>
    exact gives_readCounted (gives_struct gives_encodingStatsField _) (by decide) h fun l hlen _ =>
      hother fun hm => ⟨hm.1, hm.2, hm.3, ⟨rfl, hlen⟩, hm.5⟩
  case h_15 => exact gives_i32 fun _ => hother fun hm => ⟨hm.1, hm.2, hm.3, hm.4, hm.5⟩
  case h_16 =>
    refine (gives_parseGeospatialStatistics d).map fun g d' hg => ⟨rfl, h.append ?_ ?_⟩
    · intro run hrun
      exact List.mem_singleton.1 hrun ▸ hg.stores
    · intro hfit hm
      refine ⟨hm.1, hm.2, hm.3, hm.4, ?_⟩
      rintro stats ⟨⟩
      have htotal := hfit g.run (List.mem_singleton_self _)
      exact ⟨hg.numTypes.trans hg.types.symm, hg.numTypes ▸ htotal⟩
  case h_17 => exact gives_skipping type h
  all_goals exact gives_i64 fun _ => hother fun hm => ⟨hm.1, hm.2, hm.3, hm.4, hm.5⟩

theorem ColumnMetadata.sized_zero : ColumnMetadata.zero.Sized :=
  ⟨.nil _, .nil _, .nil _, .nil _, fun _ h => by cases h⟩

/-- Nothing read, no run. -/
theorem Traced.sound_start {α : Type} {Q : α → Prop} {a : α} (ha : Q a) :
    (⟨a, []⟩ : Traced α).Sound Q := ⟨fun _ h => absurd h List.not_mem_nil, fun _ => ha⟩

theorem gives_parseColumnMetadata (d : Decoder) :
    d.Gives (Traced.Sound ColumnMetadata.Sized) (parseColumnMetadata d) :=
  gives_readStruct gives_columnMetadataField (Traced.sound_start ColumnMetadata.sized_zero)

theorem gives_columnChunkField (id : Int) (type : ThriftType) (s : Traced ColumnChunk)
    (d : Decoder) (h : s.Sound ColumnChunk.Sized) :
    d.Gives (Traced.Sound ColumnChunk.Sized) (columnChunkField id type s d) := by
  unfold columnChunkField
  split
  · exact gives_strdup fun _ => h.keep fun hc => hc
  · exact gives_i64 fun _ => h.keep fun hc => hc
  · refine (gives_parseColumnMetadata d).map fun m d' hm => ⟨rfl, h.append hm.ordered ?_⟩
    rintro hfit - m' ⟨⟩
    exact hm.sized hfit
  · exact gives_i64 fun _ => h.keep fun hc => hc
  · exact gives_i32 fun _ => h.keep fun hc => hc
  · exact gives_i64 fun _ => h.keep fun hc => hc
  · exact gives_i32 fun _ => h.keep fun hc => hc
  · exact gives_skipping type h

theorem gives_parseColumnChunk (d : Decoder) :
    d.Gives (Traced.Sound ColumnChunk.Sized) (parseColumnChunk d) :=
  gives_readStruct gives_columnChunkField (Traced.sound_start fun _ h => by cases h)

theorem gives_rowGroupField (id : Int) (type : ThriftType) (s : Traced RowGroup) (d : Decoder)
    (h : s.Sound RowGroup.Sized) :
    d.Gives (Traced.Sound RowGroup.Sized) (rowGroupField id type s d) := by
  unfold rowGroupField
  split
  · refine gives_readCounted gives_parseColumnChunk (by decide) h fun l hlen hl => ?_
    obtain ⟨hordered, hsized⟩ := Traced.sound_all hl
    refine h.append hordered fun hfit hrg => ⟨⟨?_, hlen⟩, hrg.sortingColumns, hsized hfit⟩
    simp [Traced.values]
  · exact gives_i64 fun _ => h.keep fun hrg => ⟨hrg.1, hrg.2, hrg.3⟩
  · exact gives_i64 fun _ => h.keep fun hrg => ⟨hrg.1, hrg.2, hrg.3⟩
  · exact gives_readCounted (gives_struct gives_sortingColumnField _) (by decide) h fun l hlen _ =>
      h.keep fun hrg => ⟨hrg.1, ⟨rfl, hlen⟩, hrg.3⟩
  · exact gives_i64 fun _ => h.keep fun hrg => ⟨hrg.1, hrg.2, hrg.3⟩
  · exact gives_i64 fun _ => h.keep fun hrg => ⟨hrg.1, hrg.2, hrg.3⟩
  · exact gives_storing (reads_readI16 d) (inside_readVarint d)
      (h.keep fun hrg => ⟨hrg.1, hrg.2, hrg.3⟩)
  · exact gives_skipping type h

theorem gives_parseRowGroup (d : Decoder) :
    d.Gives (Traced.Sound RowGroup.Sized) (parseRowGroup d) :=
  gives_readStruct gives_rowGroupField
    (Traced.sound_start ⟨.nil _, .nil _, fun _ h => absurd h List.not_mem_nil⟩)

theorem gives_fileMetadataField (id : Int) (type : ThriftType) (s : Traced FileMetadata)
    (d : Decoder) (h : s.Sound FileMetadata.Sized) :
    d.Gives (Traced.Sound FileMetadata.Sized) (fileMetadataField id type s d) := by
  unfold fileMetadataField
  split
  · exact ⟨s, d, rfl, .refl d, .refl d, h⟩
  · split
    · exact gives_i32 fun _ => h.keep fun hm => ⟨hm.1, hm.2, hm.3, hm.4, hm.5⟩
    · exact gives_readCounted gives_parseSchemaElement (by decide) h fun l hlen _ =>
        h.keep fun hm => ⟨⟨rfl, hlen⟩, hm.2, hm.3, hm.4, hm.5⟩
    · exact gives_i64 fun _ => h.keep fun hm => ⟨hm.1, hm.2, hm.3, hm.4, hm.5⟩
    · refine gives_readCounted gives_parseRowGroup (by decide) h fun l hlen hl => ?_
      obtain ⟨hordered, hsized⟩ := Traced.sound_all hl
      refine h.append hordered fun hfit hm => ⟨hm.1, ⟨?_, hlen⟩, hm.3, hm.4, hsized hfit⟩
      simp [Traced.values]
    · exact gives_readCounted gives_parseKeyValue (by decide) h fun l hlen _ =>
        h.keep fun hm => ⟨hm.1, hm.2, ⟨rfl, hlen⟩, hm.4, hm.5⟩
    · exact gives_strdup fun _ => h.keep fun hm => ⟨hm.1, hm.2, hm.3, hm.4, hm.5⟩
    · have hskip (e : Decoder) : e.Gives Any (skipping () d.readListBegin.1.1 e) :=
        gives_skipping _ trivial
      exact gives_readCounted hskip (by decide) h fun l hlen _ =>
        h.keep fun hm => ⟨hm.1, hm.2, hm.3, hlen, hm.5⟩
    · exact gives_skipping type h

theorem FileMetadata.sized_zero : FileMetadata.zero.Sized :=
  ⟨.nil _, .nil _, .nil _, Nat.zero_le _, fun _ h => absurd h List.not_mem_nil⟩

/-- **The footer's parser**, on every byte string. -/
theorem gives_readFileMetadata (data : Bytes) :
    (Decoder.init data).Gives (Traced.Sound FileMetadata.Sized) (readFileMetadata data) :=
  gives_readStruct gives_fileMetadataField (Traced.sound_start FileMetadata.sized_zero)

/-! ## Page headers -/

theorem gives_dataPageHeaderField (id : Int) (type : ThriftType) (h : ParsedDataPageHeader)
    (d : Decoder) : d.Gives Any (dataPageHeaderField id type h d) := by
  unfold dataPageHeaderField
  split
  · exact gives_i32 fun _ => trivial
  · exact gives_i32 fun _ => trivial
  · exact gives_i32 fun _ => trivial
  · exact gives_i32 fun _ => trivial
  · exact gives_skipping type trivial
  · exact gives_skipping type trivial

theorem gives_dictionaryPageHeaderField (id : Int) (type : ThriftType)
    (h : ParsedDictionaryPageHeader) (d : Decoder) :
    d.Gives Any (dictionaryPageHeaderField id type h d) := by
  unfold dictionaryPageHeaderField
  split
  · exact gives_i32 fun _ => trivial
  · exact gives_i32 fun _ => trivial
  · exact gives_bool fun _ => trivial
  · exact gives_skipping type trivial

theorem gives_dataPageHeaderV2Field (id : Int) (type : ThriftType) (h : ParsedDataPageHeaderV2)
    (d : Decoder) : d.Gives Any (dataPageHeaderV2Field id type h d) := by
  unfold dataPageHeaderV2Field
  split
  case h_7 => exact gives_bool fun _ => trivial
  case h_8 => exact gives_skipping type trivial
  case h_9 => exact gives_skipping type trivial
  all_goals exact gives_i32 fun _ => trivial

theorem gives_pageHeaderField (id : Int) (type : ThriftType) (h : ParsedPageHeader) (d : Decoder) :
    d.Gives Any (pageHeaderField id type h d) := by
  unfold pageHeaderField
  split
  · exact ⟨h, d, rfl, .refl d, .refl d, trivial⟩
  · split
    · exact gives_i32 fun _ => trivial
    · exact gives_i32 fun _ => trivial
    · exact gives_i32 fun _ => trivial
    · exact gives_i32 fun _ => trivial
    · exact (gives_struct gives_dataPageHeaderField _ d).map fun _ _ _ => ⟨rfl, trivial⟩
    · exact (gives_struct gives_dictionaryPageHeaderField _ d).map fun _ _ _ => ⟨rfl, trivial⟩
    · exact (gives_struct gives_dataPageHeaderV2Field _ d).map fun _ _ _ => ⟨rfl, trivial⟩
    · exact gives_skipping type trivial

/-! ## Safety -/

/-- The footer's parser returns, reads inside its input, stores inside its arrays, and every count
of a result is right. -/
def FooterSafe (data : Bytes) : Prop :=
  ∃ s d, readFileMetadata data = some (s, d) ∧ d.rest <:+ data ∧
    d.lastFieldId.length ≤ thriftMaxNesting ∧
    (∀ run ∈ s.runs, ∀ i ∈ run.stores, i < geoMaxTypes) ∧
    ∀ m, parseFileMetadata data = .ok m → m.Sized

/-- The parser of page headers returns and reads inside its input. -/
def PageHeaderSafe (data : Bytes) : Prop :=
  ∃ h d, (Decoder.init data).readStruct pageHeaderField .zero = some (h, d) ∧ d.rest <:+ data ∧
    d.lastFieldId.length ≤ thriftMaxNesting ∧
    ∀ h bytesRead, parsePageHeader data = .ok (h, bytesRead) → bytesRead ≤ data.length

/-- The counts that the lists of type codes announce, in each geospatial statistics struct that is
met in the footer. -/
def geoCounts (data : Bytes) : List (List Nat) :=
  ((readFileMetadata data).map fun r => r.1.runs.map GeoRun.counts).getD []

theorem pageHeader_safe (data : Bytes) : PageHeaderSafe data := by
  obtain ⟨h, d, hread, -, hinside, -⟩ :=
    gives_struct gives_pageHeaderField .zero (Decoder.init data)
  refine ⟨h, d, hread, hinside.suffix, hinside.nesting (Nat.zero_le _), ?_⟩
  intro h' bytesRead hparse
  rw [parsePageHeader, hread] at hparse
  dsimp only at hparse
  split at hparse
  · cases hparse
  · cases hparse
    exact Nat.sub_le _ _

/-- The runs of a footer are in order, and sized where they stay in their arrays. -/
theorem footer_runs (data : Bytes) :
    ∃ s d, readFileMetadata data = some (s, d) ∧ d.rest <:+ data ∧
      d.lastFieldId.length ≤ thriftMaxNesting ∧ s.Sound FileMetadata.Sized ∧
      geoCounts data = s.runs.map GeoRun.counts := by
  obtain ⟨s, d, hread, -, hinside, hs⟩ := gives_readFileMetadata data
  refine ⟨s, d, hread, hinside.suffix, hinside.nesting (Nat.zero_le _), hs, ?_⟩
  rw [geoCounts, hread]
  rfl

/-- **Both parsers are safe exactly where the lists of type codes of each geospatial statistics
struct, each counted up to 64, come to at most 64 together.** -/
theorem parse_safe (data : Bytes) :
    (FooterSafe data ∧ PageHeaderSafe data) ↔
      ∀ counts ∈ geoCounts data, (counts.map (min · geoMaxTypes)).sum ≤ geoMaxTypes := by
  obtain ⟨s, d, hread, hsuffix, hnesting, hs, hcounts⟩ := footer_runs data
  have htotal : (∀ counts ∈ geoCounts data,
      (counts.map (min · geoMaxTypes)).sum ≤ geoMaxTypes) ↔
        ∀ run ∈ s.runs, run.total ≤ geoMaxTypes := by
    rw [hcounts, List.forall_mem_map]
    rfl
  rw [htotal]
  constructor
  · rintro ⟨⟨s', d', hread', -, -, hstores, -⟩, -⟩ run hrun
    obtain ⟨rfl, rfl⟩ := Prod.mk.inj (Option.some.inj (hread.symm.trans hread'))
    exact (hs.ordered run hrun).inside_iff.1 (hstores run hrun)
  · intro hfit
    refine ⟨⟨s, d, hread, hsuffix, hnesting, ?_, ?_⟩, pageHeader_safe data⟩
    · intro run hrun
      exact (hs.ordered run hrun).inside_iff.2 (hfit run hrun)
    · intro m hparse
      rw [parseFileMetadata, hread] at hparse
      dsimp only at hparse
      split at hparse
      · cases hparse
      · cases hparse
        exact hs.sized hfit

/-- A footer of one column chunk, whose geospatial statistics hold a list of 64 type codes and then
one of a single code. -/
def twoCodeLists : Bytes :=
  [0x49, 0x1C, 0x19, 0x1C, 0x3C, 0x0C, 0x22, 0x29, 0xF5, 0x40] ++ List.replicate 64 2 ++
    [0x09, 0x04, 0x15, 0x02, 0, 0, 0, 0, 0]

/-- The single code is stored behind the array. -/
theorem twoCodeLists_unsafe : ¬ ∀ data, FooterSafe data ∧ PageHeaderSafe data := by
  intro h
  obtain ⟨⟨s, d, hread, -, -, hstores, -⟩, -⟩ := h twoCodeLists
  have hstored : ((readFileMetadata twoCodeLists).map fun r =>
      r.1.runs.all fun run => run.stores.all (· < geoMaxTypes)) = some false := by
    decide +kernel
  rw [hread, Option.map_some, Option.some.injEq] at hstored
  have hall : (s.runs.all fun run => run.stores.all (· < geoMaxTypes)) = true := by
    simpa [List.all_eq_true] using hstores
  exact absurd (hall.symm.trans hstored) (by decide)

end Parquet

end Carquet
