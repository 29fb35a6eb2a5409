import Carquet.Encoding.DeltaSpec
import Carquet.Metadata.BloomFilterSpec
import Carquet.Metadata.PageIndexRoundTrip
import Carquet.Reader.FileAccess
import Carquet.Thrift.FooterRoundTrip
import Carquet.Writer.FileRuns

/-!
# A written file is read

What a reader (`src/reader/file_reader.c`, `src/reader/buffer_reader.c`) finds in a file that a
writer (`src/writer/file_writer.c`) closed. All ways to open it return the stored metadata; and at
the offsets in there every chunk, filter and index is found again as the column had it, if the
lengths are those of 32-bit fields and the counts within the parser's limits.
-/

open Access

namespace Carquet

open LittleEndian Regions

variable {γ : Type}

/-! ## The end of the file -/

section

variable {body footer : Bytes}

/-- A file that ends with a footer. -/
def withFooter (body footer : Bytes) : Bytes :=
  body ++ (footer ++ (leBytes 4 footer.length ++ parquetMagic))

theorem length_withFooter (body footer : Bytes) :
    (withFooter body footer).length = body.length + footer.length + 8 := by
  simp only [withFooter, List.length_append, length_leBytes, parquetMagic, List.length_cons,
    List.length_nil]
  omega

theorem endsWithMagic_withFooter (body footer : Bytes) : EndsWithMagic (withFooter body footer) := by
  have hlength := length_withFooter body footer
  have hsplit : withFooter body footer =
      (body ++ (footer ++ leBytes 4 footer.length)) ++ parquetMagic := by
    simp only [withFooter, List.append_assoc]
  rw [EndsWithMagic, hlength, hsplit]
  refine List.drop_left' ?_
  simp only [List.length_append, length_leBytes]
  omega

theorem footerSize_withFooter (hfooter : footer.length < 4294967296) :
    footerSize (withFooter body footer) = footer.length := by
  have hsplit : withFooter body footer =
      (body ++ footer) ++ (leBytes 4 footer.length ++ parquetMagic) := by
    simp only [withFooter, List.append_assoc]
  rw [footerSize, length_withFooter, hsplit, List.drop_left' (by rw [List.length_append]; omega),
    List.take_left' (length_leBytes 4 _), leNat_leBytes]
  exact Nat.mod_eq_of_lt hfooter

theorem footerOf_withFooter (hbody : 4 ≤ body.length) (hfooter : footer.length < 4294967296) :
    footerOf (withFooter body footer) = Parquet.parseFileMetadata footer := by
  have hlength := length_withFooter body footer
  rw [footerOf, if_neg (by omega), if_neg (not_not.mpr (endsWithMagic_withFooter body footer)),
    footerSize_withFooter hfooter, if_neg (by omega), hlength, withFooter,
    List.drop_left' (by omega), List.take_left' rfl]

/-- All ways to open it find the footer. -/
theorem open_withFooter (hmagic : body.take 4 = parquetMagic)
    (hfooter : footer.length < 4294967288) {m : Parquet.FileMetadata}
    (hparse : Parquet.parseFileMetadata footer = .ok m) :
    readFooter (withFooter body footer) = .ok m ∧ readFooterMmap (withFooter body footer) = .ok m ∧
      openBuffer (withFooter body footer) = .ok m := by
  have hbody : 4 ≤ body.length := by
    have hlength := congrArg List.length hmagic
    rw [List.length_take] at hlength
    have hfour : parquetMagic.length = 4 := rfl
    omega
  have htail : footerOf (withFooter body footer) = Parquet.parseFileMetadata footer :=
    footerOf_withFooter hbody (by omega)
  rw [hparse] at htail
  have hstart : (withFooter body footer).take 4 = parquetMagic := by
    rw [withFooter, List.take_append_of_le_length hbody, hmagic]
  have hmmap : readFooterMmap (withFooter body footer) = .ok m := by
    rw [readFooterMmap_eq, if_neg fun h => h.2 hstart, htail]
    rfl
  refine ⟨?_, hmmap, ?_⟩
  · rw [(readFooter_eq _).1 fun h => ?_, htail]
    · rfl
    · have hwraps := h.wraps
      rw [footerSize_withFooter (by omega)] at hwraps
      omega
  · rw [openBuffer, if_neg, hmmap]
    refine List.ne_nil_of_length_pos ?_
    rw [length_withFooter]
    omega

end

/-! ## The header of a filter -/

/-- The parser's varint, where it ends within 10 bytes. -/
theorem scanVarint_of_readUleb {bytes shift value v : Nat} {p rest : Bytes}
    (h : Leb128.readUleb 64 bytes shift value p = some (v, rest)) :
    scanVarint bytes shift value p = some (v, rest) := by
  induction bytes generalizing shift value p with
  | zero => cases h
  | succ bytes ih =>
    cases p with
    | nil => cases h
    | cons b p =>
      rw [Leb128.readUleb] at h
      rw [scanVarint]
      split at h
      · rename_i hlast
        rw [if_pos hlast]
        exact h
      · rename_i hlast
        rw [if_neg hlast]
        exact ih h

theorem bloomFilterUnion_written (fs : List Field) (id : Int) :
    bloomFilterUnion id (written [] [] fs) =
      written [] [] (fs ++ [⟨id, .struct, [0x1C, 0, 0]⟩]) := by
  rw [bloomFilterUnion, written_open id (by show 1 < thriftEncoderMaxNesting; decide),
    written_open 1 (by show 2 < thriftEncoderMaxNesting; decide), written_close, written_close,
    List.nil_append, show structBytes [⟨1, .struct, structBytes []⟩] = [0x1C, 0, 0] from by decide]

/-- The three unions, and the header's end. -/
def headerUnions : Bytes := [0x1C, 0x1C, 0, 0, 0x1C, 0x1C, 0, 0, 0x1C, 0x1C, 0, 0, 0]

theorem structBytes_header (numBytes : Int) :
    structBytes [⟨1, .i32, zigzagBytes numBytes⟩, ⟨2, .struct, [0x1C, 0, 0]⟩,
      ⟨3, .struct, [0x1C, 0, 0]⟩, ⟨4, .struct, [0x1C, 0, 0]⟩] =
      0x15 :: (zigzagBytes numBytes ++ headerUnions) := by
  simp only [structBytes, chainBytes, show fieldHeaderBytes 0 .i32 1 = [0x15] from by decide,
    show fieldHeaderBytes 1 .struct 2 = [0x1C] from by decide,
    show fieldHeaderBytes 2 .struct 3 = [0x1C] from by decide,
    show fieldHeaderBytes 3 .struct 4 = [0x1C] from by decide, List.cons_append, List.nil_append,
    List.append_nil, List.append_assoc, headerUnions]

theorem bloomFilterHeader_eq (f : BloomFilter) :
    bloomFilterHeader f = 0x15 :: (zigzagBytes (toI32 f.numBytes) ++ headerUnions) := by
  have hbegin : Encoder.init.writeStructBegin = written [] [] [] :=
    writeStructBegin_written [] (by decide)
  rw [bloomFilterHeader, hbegin, ← structBytes_header]
  generalize toI32 f.numBytes = numBytes
  simp only [Encoder.writeInt, written_field, bloomFilterUnion_written, writeStructEnd_written,
    List.nil_append, List.cons_append]

/-- The parser steps over a union. -/
theorem scanHeader_union (turns : Nat) (numBytes : Int32) (p : Bytes) :
    scanHeader (turns + 1) numBytes (0x1C :: 0x1C :: 0 :: 0 :: p) = scanHeader turns numBytes p := by
  have hstruct : passStruct (0x1C :: 0 :: 0 :: p : Bytes).length 1 (0x1C :: 0 :: 0 :: p) = some p := by
    show passStruct (p.length + 3) 1 (0x1C :: 0 :: 0 :: p) = some p
    show passStruct p.length 0 p = some p
    cases p.length <;> rfl
  show (passStruct (0x1C :: 0 :: 0 :: p : Bytes).length 1 (0x1C :: 0 :: 0 :: p)).bind
    (scanHeader turns numBytes) = _
  rw [hstruct, Option.bind_some]

theorem scanHeader_size {turns v : Nat} {p rest : Bytes}
    (h : scanVarint 10 0 0 p = some (v, rest)) :
    scanHeader (turns + 1) 0 (0x15 :: p) = scanHeader turns (filterSize v) rest := by
  show (scanVarint 10 0 0 p).bind (fun r => scanHeader turns (filterSize r.1) r.2) = _
  rw [h, Option.bind_some]

/-- It comes to the filter behind the header. -/
theorem scanHeader_filterBytes (f : BloomFilter) (hsize : f.numBytes < 2147483648) :
    scanHeader (filterBytes f).length 0 (filterBytes f) = some (.ofInt f.numBytes, f.data) := by
  have hnum : toI32 f.numBytes = f.numBytes := by
    unfold toI32
    omega
  have hlt : zigzagEncode64 f.numBytes < 18446744073709551616 :=
    zigzagEncode64_lt (by omega) (by omega)
  have hvarint : scanVarint 10 0 0 (zigzagBytes f.numBytes ++ (headerUnions ++ f.data)) =
      some (zigzagEncode64 f.numBytes, headerUnions ++ f.data) :=
    scanVarint_of_readUleb (Leb128.readUleb_writeUleb (Nat.lt_of_lt_of_le hlt (by decide)) hlt _)
  have hbytes : filterBytes f = 0x15 :: (zigzagBytes f.numBytes ++ (headerUnions ++ f.data)) := by
    rw [filterBytes, bloomFilterHeader_eq, hnum, List.cons_append, List.append_assoc]
  obtain ⟨turns, hturns⟩ : ∃ turns, (filterBytes f).length = turns + 5 := by
    refine ⟨(filterBytes f).length - 5, ?_⟩
    rw [hbytes]
    simp only [List.length_cons, List.length_append, headerUnions]
    omega
  rw [hturns, hbytes, scanHeader_size hvarint, filterSize, zigzagDecode64_encode]
  simp only [headerUnions, List.cons_append, List.nil_append, scanHeader_union]
  rfl

/-- The filter of a region that holds one is that filter. -/
theorem filterOfRegion_filterBytes (f : BloomFilter) (hsize : f.numBytes < 2147483648) :
    filterOfRegion (filterBytes f) = .ok f := by
  have hpos := f.nonempty
  have hnum : (Int32.ofInt f.numBytes).toInt = f.numBytes :=
    Int32.toInt_ofInt_of_le (by omega) (by omega)
  have hlt : ¬ Int32.ofInt f.numBytes ≤ 0 := by
    rw [Int32.le_iff_toInt_le, hnum]
    show ¬ (f.data.length : Int) ≤ 0
    omega
  rw [filterOfRegion, scanHeader_filterBytes f hsize]
  simp only
  have hfit : ¬ (f.data.length : Int) < (f.numBytes : Int) := Int.not_lt.mpr (Int.le_refl _)
  rw [hnum, if_neg (not_or.mpr ⟨hlt, hfit⟩), Int.toNat_natCast,
    BloomFilter.numBytes, List.take_length, f.write_read.2]
  rfl

/-! ## Regions of a file -/


section

variable {file piece : Bytes} {r : Region}

/-- The bytes of a region are read with the offset and the length of its entry. -/
theorem readBytes_of_holds (h : r.Holds file piece) (hpos : 0 < piece.length)
    (hshort : piece.length < 2147483648) (hfile : file.length < 9223372036854775808) :
    readBytes file (Int64.ofNat r.offset).toInt (Int32.ofNat r.length).toInt = .ok piece := by
  have hstop := h.stop_le
  have hlength := h.length_eq
  rw [Region.stop] at hstop
  rw [Int64.toInt_ofNat_of_lt (by omega), Int32.toInt_ofNat_of_lt (by omega), readBytes,
    if_neg (by omega), if_neg (by omega), Int.toNat_natCast, Int.toNat_natCast]
  exact congrArg Except.ok h.read_eq

theorem length_pos_of_holds (h : r.Holds file piece) (hpos : 0 < piece.length)
    (hshort : piece.length < 2147483648) : ¬ Int32.ofNat r.length ≤ 0 := by
  have hlength := h.length_eq
  rw [Int32.le_iff_toInt_le, Int32.toInt_ofNat_of_lt (by omega)]
  show ¬ (r.length : Int) ≤ 0
  omega

/-- An index that is in its region is parsed of it. -/
theorem getIndex_of_holds {α : Type} {parse : Bytes → Option α} {index : α} (h : r.Holds file piece)
    (hpos : 0 < piece.length) (hshort : piece.length < 2147483648)
    (hfile : file.length < 9223372036854775808) (hparse : parse piece = some index) :
    getIndex parse file (some (.ofNat r.offset)) (some (.ofNat r.length)) = .ok (some index) := by
  rw [getIndex, if_neg (length_pos_of_holds h hpos hshort), readBytes_of_holds h hpos hshort hfile]
  show indexOfRegion parse piece = _
  rw [indexOfRegion, hparse]

end

/-! ## Limits -/

/-- What a writer was created with is within the limits of the parser. -/
structure WriterSettings.Fits (s : WriterSettings) : Prop where
  schemaLimit : s.schemaElements.length ≤ Parquet.maxSchemaElements
  schema : ∀ e ∈ s.schemaElements, e.Fits
  columnsLimit : s.columns.length ≤ Parquet.maxColumnsPerRg
  pathLimit : ∀ c ∈ s.columns, c.path.length ≤ Parquet.maxPathElements
  path : ∀ c ∈ s.columns, ∀ p ∈ c.path, p.1.length < 2147483648
  sortingLimit : s.sortingColumns.length ≤ Parquet.maxColumnsPerRg
  keyValueLimit : s.kvMetadata.length ≤ Parquet.maxKeyValuePairs
  keyValues : ∀ kv ∈ s.kvMetadata, kv.Fits
  createdBy : s.createdBy.1.length < 2147483648

/-- What was written of a column has the lengths of 32-bit fields, and no more pages than an index
may name. -/
structure ColumnSlot.Fits (slot : ColumnSlot γ) : Prop where
  bounds : ∀ b ∈ slot.info.minMax, b.1.length < 2147483648 ∧ b.2.length < 2147483648
  bloomFilter : ∀ f ∈ slot.writer.bloomFilter, (filterBytes f).length < 2147483648
  columnIndexPages : slot.writer.columnIndex.length ≤ maxIndexCount
  columnIndex : (columnIndexBytes slot.writer.columnIndex).length < 2147483648
  offsetIndexPages : slot.writer.offsetIndex.length ≤ maxIndexCount
  offsetIndex : (offsetIndexBytes slot.writer.offsetIndex).length < 2147483648

instance (slot : ColumnSlot γ) : Decidable slot.Fits :=
  decidable_of_iff
    ((∀ b ∈ slot.info.minMax, b.1.length < 2147483648 ∧ b.2.length < 2147483648) ∧
      (∀ f ∈ slot.writer.bloomFilter, (filterBytes f).length < 2147483648) ∧
      (slot.writer.columnIndex.length ≤ maxIndexCount ∧
        (columnIndexBytes slot.writer.columnIndex).length < 2147483648) ∧
      slot.writer.offsetIndex.length ≤ maxIndexCount ∧
      (offsetIndexBytes slot.writer.offsetIndex).length < 2147483648)
    ⟨fun h => ⟨h.1, h.2.1, h.2.2.1.1, h.2.2.1.2, h.2.2.2.1, h.2.2.2.2⟩,
      fun h => ⟨h.bounds, h.bloomFilter, ⟨h.columnIndexPages, h.columnIndex⟩, h.offsetIndexPages,
        h.offsetIndex⟩⟩

theorem length_incrementAt (buf : Bytes) (i : Nat) : (incrementAt buf i).length = buf.length :=
  List.length_set

theorem length_carry (n : Nat) (buf : Bytes) : (carry n buf).2.length = buf.length := by
  induction n generalizing buf with
  | zero => rfl
  | succ n ih =>
    rw [carry]
    split
    · rw [ih]
      split
      · exact length_incrementAt _ _
      · rfl
    · rfl

theorem length_cutMax {maxV q : Bytes} (h : cutMax maxV = some q) : q.length ≤ maxV.length := by
  rw [cutMax, carried] at h
  split at h
  · cases h
  · obtain rfl := Option.some.inj h
    refine Nat.le_trans (List.length_take_le' _ _) ?_
    rw [length_carry, length_incrementAt]

theorem shortBytes_ite {c : Prop} [Decidable c] {v : Option Bytes} (h : Parquet.ShortBytes v) :
    Parquet.ShortBytes (if c then v else none) := by
  split
  · exact h
  · exact nofun

/-- No bound of the footer is longer than the chunk's. -/
theorem shortBytes_footerBounds {variableLen deprecatedOk : Bool} {lo hi : Bytes} {b : FooterBounds}
    (h : footerBounds variableLen deprecatedOk lo hi = some b) (hlo : lo.length < 2147483648)
    (hhi : hi.length < 2147483648) :
    b.minValue.length < 2147483648 ∧ Parquet.ShortBytes b.maxValue ∧
      Parquet.ShortBytes b.minDeprecated ∧ Parquet.ShortBytes b.maxDeprecated := by
  unfold footerBounds at h
  split at h
  swap
  · cases h
  generalize (variableLen && decide (boundLength < lo.length)) = cutsMin at h
  generalize (variableLen && decide (boundLength < hi.length)) = cutsMax at h
  obtain rfl := Option.some.inj h
  have hmin : (if cutsMin then lo.take boundLength else lo).length < 2147483648 := by
    split
    · exact Nat.lt_of_le_of_lt (List.length_take_le' _ _) hlo
    · exact hlo
  have hmax : Parquet.ShortBytes (if cutsMax then cutMax hi else some hi) := by
    intro q hq
    split at hq
    · exact Nat.lt_of_le_of_lt (length_cutMax hq) hhi
    · obtain rfl := Option.some.inj hq
      exact hhi
  refine ⟨hmin, hmax, shortBytes_ite fun q hq => ?_, shortBytes_ite hmax⟩
  obtain rfl := Option.some.inj hq
  exact hmin

theorem fits_chunkStatistics (c : WriterColumn) {st : MinMax × Option Nat}
    (h : ∀ b, st.1 = some b → b.1.length < 2147483648 ∧ b.2.length < 2147483648) :
    (chunkStatistics c st).Fits := by
  obtain ⟨_ | ⟨lo, hi⟩, nullCount⟩ := st
  · exact ⟨nofun, nofun, nofun, nofun⟩
  · obtain ⟨hlo, hhi⟩ := h _ rfl
    simp only [chunkStatistics, Option.bind_some]
    generalize decide (c.settings.column.type = .byteArray) = variableLen
    rcases hbounds : footerBounds variableLen c.deprecatedStatsAreCompatible lo hi with _ | b
    · exact ⟨nofun, nofun, nofun, nofun⟩
    · obtain ⟨hmin, hmax, hminOld, hmaxOld⟩ := shortBytes_footerBounds hbounds hlo hhi
      refine ⟨hmaxOld, hminOld, hmax, fun v hv => ?_⟩
      obtain rfl := Option.some.inj hv
      exact hmin

/-- The entry of a column that was placed has the encodings and the bounds of its chunk. -/
theorem fits_footerColumn {geoStats : γ → Parquet.GeospatialStatistics} {s : WriterSettings}
    {output : Bytes} {c : WriterColumn} {slot : ColumnSlot γ} {e : ColumnEntry γ}
    (hgeo : ∀ g, (geoStats g).Fits) (hs : s.Fits) (hc : c ∈ s.columns) (hslot : slot.Fits)
    (h : ColumnPlaced s output c slot e) : (footerColumn geoStats c e).Fits where
  filePath := nofun
  metadata md hmd := by
    obtain rfl := Option.some.inj hmd
    have hencodings : e.encodings = slot.info.encodings slot.settings :=
      congrArg ColumnEntry.encodings h.entry
    have hstatistics : e.ofChunk.statistics = (columnEntry c slot.emitted).statistics :=
      congrArg ColumnEntry.statistics h.entry
    refine ⟨(List.length_map _).symm, ?_, rfl, hs.pathLimit c hc, hs.path c hc, fun st hst => ?_,
      fun g hg => ?_⟩
    · show (e.encodings.map Encoding.code).length ≤ Parquet.maxEncodings
      rw [List.length_map, hencodings, ChunkInfo.encodings]
      split
      · decide
      · split
        · decide
        · show 2 ≤ Parquet.maxEncodings
          decide
    · change e.ofChunk.statistics.map (chunkStatistics c) = some st at hst
      rw [hstatistics] at hst
      obtain ⟨given, hgiven, rfl⟩ := Option.map_eq_some_iff.mp hst
      refine fits_chunkStatistics c fun b hb => hslot.bounds b ?_
      unfold columnEntry at hgiven
      simp only at hgiven
      split at hgiven
      · obtain rfl := Option.some.inj hgiven
        exact hb
      · cases hgiven
    · change (e.geoStats.map geoStats).filter _ = some g at hg
      obtain ⟨hmap, -⟩ := Option.filter_eq_some_iff.mp hg
      obtain ⟨v, -, rfl⟩ := Option.map_eq_some_iff.mp hmap
      exact hgeo v

/-! ## Row groups and columns by their numbers -/

theorem getElem?_of_forall₂ {α β : Type} {R : α → β → Prop} {as : List α} {bs : List β}
    (h : List.Forall₂ R as bs) {i : Nat} {a : α} (ha : as[i]? = some a) :
    ∃ b, bs[i]? = some b ∧ R a b := by
  induction h generalizing i with
  | nil => cases ha
  | cons hR _ ih =>
    cases i with
    | zero =>
      obtain rfl := Option.some.inj ha
      exact ⟨_, rfl, hR⟩
    | succ i => exact ih ha

section

variable {geoStats : γ → Parquet.GeospatialStatistics} {s : WriterSettings}
  {groups : List (List (ColumnSlot γ))} {file footer : Bytes} {m : Parquet.FileMetadata}
  {entries : List (RowGroupEntry γ)}

/-- The entry of a column of a closed file. -/
theorem ParquetWriter.Closed.column (h : ParquetWriter.Closed geoStats s groups file footer m entries)
    {i j : Nat} {columns : List (ColumnSlot γ)} {slot : ColumnSlot γ} (hi : groups[i]? = some columns)
    (hj : columns[j]? = some slot) :
    ∃ c e, c ∈ s.columns ∧ c.settings = slot.settings ∧ ColumnPlaced s file c slot e ∧
      getColumnChunk m.stored i j = .ok (footerColumn geoStats c e).stored := by
  obtain ⟨rg, hrg, hplaced⟩ := getElem?_of_forall₂ h.placed hi
  have hsettings := congrArg (fun l => l[j]?) hplaced.settings
  simp only [List.getElem?_map, hj, Option.map_some] at hsettings
  obtain ⟨c, hc, hsame⟩ := Option.map_eq_some_iff.mp hsettings.symm
  have hzip : (s.columns.zip columns)[j]? = some (c, slot) :=
    List.getElem?_zip_eq_some.mpr ⟨hc, hj⟩
  obtain ⟨e, he, hcolumn⟩ := getElem?_of_forall₂ hplaced.columns hzip
  refine ⟨c, e, List.mem_of_getElem? hc, hsame, hcolumn, ?_⟩
  have hgroup : m.stored.rowGroups[i]? = some (footerRowGroup geoStats s rg).stored := by
    show (m.rowGroups.map Parquet.RowGroup.stored)[i]? = _
    rw [h.rowGroups, List.getElem?_map, List.getElem?_map, hrg]
    rfl
  have hchunk : (footerRowGroup geoStats s rg).stored.columns[j]? =
      some (footerColumn geoStats c e).stored := by
    show ((List.zipWith (footerColumn geoStats) s.columns rg.columns).map
      Parquet.ColumnChunk.stored)[j]? = _
    rw [List.getElem?_map, List.getElem?_zipWith, hc, he]
    rfl
  have hilt : i < entries.length := (List.getElem?_eq_some_iff.mp hrg).1
  have hjlt : j < rg.columns.length := (List.getElem?_eq_some_iff.mp he).1
  have hcount : m.stored.numRowGroups = entries.length := h.count
  rw [getColumnChunk, hcount, if_neg (by omega), Int.toNat_natCast, readAt, hgroup]
  show (if (j : Int) < 0 ∨ (rg.columns.length : Int) ≤ j then _
    else readAt (footerRowGroup geoStats s rg).stored.columns (j : Int).toNat) = _
  rw [if_neg (by omega), Int.toNat_natCast, readAt, hchunk]

/-! ## What is read of a column -/

/-- A column index as its parser returns it. -/
def readColumnIndex (pages : List ColumnIndexPage) : ParsedColumnIndex where
  numPages := pages.length
  nullPages := some (pages.map ColumnIndexPage.nullPage)
  minValues := some (pages.map fun p => parsedBound p.builderEntry.minValue)
  maxValues := some (pages.map fun p => parsedBound p.builderEntry.maxValue)
  boundaryOrder := 0
  nullCounts := some (pages.map fun p => p.builderEntry.nullCount.toInt)

/-- The locations of an offset index as its parser returns them. -/
def readOffsetIndex (pages : List PageLocation) : List ParsedPageLocation :=
  pages.map fun p => parsedLocation p.builderEntry

theorem columnIndexParse_bytes {pages : List ColumnIndexPage} (h : pages.length ≤ maxIndexCount) :
    columnIndexParse (columnIndexBytes pages) = some (readColumnIndex pages) := by
  rw [columnIndexBytes, columnIndexParse_serialize _ (by rwa [List.length_map]), readColumnIndex]
  simp only [List.length_map, List.map_map]
  rfl

theorem offsetIndexParse_bytes {pages : List PageLocation} (h : pages.length ≤ maxIndexCount) :
    offsetIndexParse (offsetIndexBytes pages) = some (readOffsetIndex pages) := by
  rw [offsetIndexBytes, offsetIndexParse_serialize _ (by rwa [List.length_map]), List.map_map]
  rfl

theorem columnIndexBytes_pos (pages : List ColumnIndexPage) : 0 < (columnIndexBytes pages).length := by
  rw [columnIndexBytes, columnIndexSerialize_eq]
  exact structBytes_pos _

theorem offsetIndexBytes_pos (pages : List PageLocation) : 0 < (offsetIndexBytes pages).length := by
  rw [offsetIndexBytes, offsetIndexSerialize_eq]
  exact structBytes_pos _

theorem filterBytes_pos (f : BloomFilter) : 0 < (filterBytes f).length := by
  have hpos := f.nonempty
  rw [filterBytes, List.length_append]
  omega

/-- The first page of a chunk: that of its dictionary, where it has one (file_reader.c:924,
page_reader.c:1739). -/
def firstPageOffset (md : Parquet.ColumnMetadata) : Int64 :=
  md.dictionaryPageOffset.getD md.dataPageOffset

/-- The column's indexes are in the file. -/
def WriterSettings.writesIndexes (s : WriterSettings) (slot : ColumnSlot γ) : Bool :=
  s.writePageIndex && slot.settings.pageIndexEnabled

/-- What a reader of a file with this metadata finds of a column is what the column had. -/
structure ColumnReadsBack (s : WriterSettings) (file : Bytes) (m : Parquet.FileMetadata) (i j : Nat)
    (slot : ColumnSlot γ) : Prop where
  chunk : ∃ chunk md, getColumnChunk m i j = .ok chunk ∧ chunk.metadata = some md ∧
    md.numValues = .ofNat slot.info.numValues ∧
    Region.Holds ⟨(firstPageOffset md).toInt.toNat, md.totalCompressedSize.toInt.toNat⟩ file
      slot.writer.columnBuffer
  bloomFilter : getBloomFilter file m i j =
    .ok (if s.writeBloomFilters then slot.writer.bloomFilter else none)
  columnIndex : getColumnIndex file m i j =
    .ok (if s.writesIndexes slot then some (readColumnIndex slot.writer.columnIndex) else none)
  offsetIndex : getOffsetIndex file m i j =
    .ok (if s.writesIndexes slot then some (readOffsetIndex slot.writer.offsetIndex) else none)

theorem ColumnPlaced.firstPage {c : WriterColumn} {slot : ColumnSlot γ} {e : ColumnEntry γ}
    (h : ColumnPlaced s file c slot e) (hfile : file.length < 9223372036854775808) :
    ((e.dictionaryPageOffset.map Int64.ofInt).getD (.ofInt e.dataPageOffset)).toInt.toNat =
      e.chunk.offset := by
  have hstop : e.fileOffset.toNat + e.totalCompressedSize ≤ file.length := h.chunk.stop_le
  have hoffset := h.offset
  have hdict : e.ofChunk.dictionaryPageOffset = (columnEntry c slot.emitted).dictionaryPageOffset :=
    congrArg ColumnEntry.dictionaryPageOffset h.entry
  have hdata : e.ofChunk.dataPageOffset = (columnEntry c slot.emitted).dataPageOffset :=
    congrArg ColumnEntry.dataPageOffset h.entry
  have hstart : e.ofChunk.fileOffset = slot.info.fileOffset := congrArg ColumnEntry.fileOffset h.entry
  have hsum : (e.ofChunk.dictionaryPageOffset.map Int64.ofInt).getD (.ofInt e.ofChunk.dataPageOffset) =
      .ofInt e.fileOffset := by
    rw [hdict, hdata]
    show _ = Int64.ofInt e.ofChunk.fileOffset
    rw [hstart]
    simp only [columnEntry, ColumnSlot.emitted]
    rcases Bool.eq_false_or_eq_true slot.info.hasDictionaryPage with hpage | hpage <;> simp [hpage]
  show ((e.ofChunk.dictionaryPageOffset.map Int64.ofInt).getD
    (.ofInt e.ofChunk.dataPageOffset)).toInt.toNat = e.fileOffset.toNat
  rw [hsum, Int64.toInt_ofInt_of_le (by omega) (by omega)]

theorem chunkFilter_of_holds {md : Parquet.ColumnMetadata} {r : Option Region}
    {filter : Option BloomFilter}
    (hshort : ∀ f, filter = some f → (filterBytes f).length < 2147483648)
    (hfile : file.length < 9223372036854775808)
    (hoffset : md.bloomFilterOffset = r.map fun r => .ofNat r.offset)
    (hlength : md.bloomFilterLength = r.map fun r => .ofNat r.length)
    (h : Region.HoldsOption file r (filter.map filterBytes)) :
    chunkFilter file md = .ok filter := by
  cases filter with
  | none =>
    rw [chunkFilter, hoffset, h.eq_none]
    rfl
  | some f =>
    obtain ⟨q, rfl, hq⟩ := h.exists_of_some
    have hsize := hshort f rfl
    have hnum : f.numBytes < 2147483648 := by
      rw [filterBytes, List.length_append] at hsize
      exact Nat.lt_of_le_of_lt (Nat.le_add_left _ _) hsize
    rw [chunkFilter, hoffset, hlength]
    simp only [Option.map_some, Option.getD_some]
    rw [if_neg (length_pos_of_holds hq (filterBytes_pos f) hsize),
      readBytes_of_holds hq (filterBytes_pos f) hsize hfile, settle_ok_bind,
      filterOfRegion_filterBytes f hnum]
    rfl

/-- **A column of a closed file reads back.** -/
theorem ColumnPlaced.readsBack {c : WriterColumn} {slot : ColumnSlot γ} {e : ColumnEntry γ}
    {i j : Nat} (h : ColumnPlaced s file c slot e)
    (hchunk : getColumnChunk m i j = .ok (footerColumn geoStats c e).stored)
    (hfile : file.length < 9223372036854775808) (hslot : slot.Fits) :
    ColumnReadsBack s file m i j slot where
  chunk := by
    have hstop : e.fileOffset.toNat + e.totalCompressedSize ≤ file.length := h.chunk.stop_le
    have hvalues : e.ofChunk.numValues = slot.info.numValues := congrArg ColumnEntry.numValues h.entry
    refine ⟨(footerColumn geoStats c e).stored, (footerMetadata geoStats c e).stored, hchunk, rfl,
      congrArg Int64.ofNat hvalues, ?_⟩
    show Region.Holds ⟨((e.dictionaryPageOffset.map Int64.ofInt).getD
      (.ofInt e.dataPageOffset)).toInt.toNat, (Int64.ofNat e.totalCompressedSize).toInt.toNat⟩ file
      slot.writer.columnBuffer
    rw [h.firstPage hfile, Int64.toInt_ofNat_of_lt (by omega), Int.toNat_natCast]
    exact h.chunk
  bloomFilter := by
    rw [getBloomFilter, hchunk]
    show chunkFilter file (footerMetadata geoStats c e).stored = _
    have hfilter := h.bloomFilter
    cases hwrites : s.writeBloomFilters <;> rw [hwrites] at hfilter
    · have hnone : ∀ f : BloomFilter, none = some f → (filterBytes f).length < 2147483648 := nofun
      exact chunkFilter_of_holds hnone hfile rfl rfl hfilter
    · exact chunkFilter_of_holds hslot.bloomFilter hfile rfl rfl hfilter
  columnIndex := by
    rw [getColumnIndex, hchunk]
    show getIndex columnIndexParse file (e.columnIndex.map fun r => .ofNat r.offset)
      (e.columnIndex.map fun r => .ofNat r.length) = _
    have hindex := h.columnIndex
    rw [WriterSettings.writesIndexes]
    cases hwrites : s.writePageIndex && slot.settings.pageIndexEnabled <;> rw [hwrites] at hindex
    · rw [hindex.eq_none]
      rfl
    · obtain ⟨r, hr, hholds⟩ := hindex.exists_of_some
      rw [hr]
      exact getIndex_of_holds hholds (columnIndexBytes_pos _) hslot.columnIndex hfile
        (columnIndexParse_bytes hslot.columnIndexPages)
  offsetIndex := by
    rw [getOffsetIndex, hchunk]
    show getIndex offsetIndexParse file (e.offsetIndex.map fun r => .ofNat r.offset)
      (e.offsetIndex.map fun r => .ofNat r.length) = _
    have hindex := h.offsetIndex
    rw [WriterSettings.writesIndexes]
    cases hwrites : s.writePageIndex && slot.settings.pageIndexEnabled <;> rw [hwrites] at hindex
    · rw [hindex.eq_none]
      rfl
    · obtain ⟨r, hr, hholds⟩ := hindex.exists_of_some
      rw [hr]
      exact getIndex_of_holds hholds (offsetIndexBytes_pos _) hslot.offsetIndex hfile
        (offsetIndexParse_bytes hslot.offsetIndexPages)

/-! ## The file -/

/-- What was written is within the limits of the parser. -/
structure GroupsFit (groups : List (List (ColumnSlot γ))) : Prop where
  limit : groups.length ≤ Parquet.maxRowGroups
  columns : ∀ columns ∈ groups, ∀ slot ∈ columns, slot.Fits

theorem GroupPlaced.length_columns {rg : RowGroupEntry γ} {columns : List (ColumnSlot γ)}
    (h : GroupPlaced s file columns rg) : rg.columns.length = s.columns.length := by
  have hlength := h.columns.length_eq
  rw [List.length_zip, ← length_of_settings h.settings, Nat.min_self] at hlength
  exact hlength.symm

theorem fits_footerRowGroup (hgeo : ∀ g, (geoStats g).Fits) (hs : s.Fits) {rg : RowGroupEntry γ}
    {columns : List (ColumnSlot γ)} (hslots : ∀ slot ∈ columns, slot.Fits)
    (h : GroupPlaced s file columns rg) : (footerRowGroup geoStats s rg).Fits := by
  have hcolumns : (footerRowGroup geoStats s rg).columns.length = s.columns.length := by
    show (List.zipWith (footerColumn geoStats) s.columns rg.columns).length = _
    rw [List.length_zipWith, h.length_columns, Nat.min_self]
  refine ⟨h.length_columns.trans hcolumns.symm, hcolumns ▸ hs.columnsLimit, fun chunk hchunk => ?_,
    rfl, hs.sortingLimit⟩
  obtain ⟨j, hj⟩ := List.getElem?_of_mem hchunk
  change (List.zipWith (footerColumn geoStats) s.columns rg.columns)[j]? = some chunk at hj
  obtain ⟨c, e, hc, he, rfl⟩ := List.getElem?_zipWith_eq_some.mp hj
  obtain ⟨p, hp, hplaced⟩ := getElem?_of_forall₂ h.columns.flip he
  obtain ⟨hpc, hpslot⟩ := List.getElem?_zip_eq_some.mp hp
  obtain rfl := Option.some.inj (hc.symm.trans hpc)
  exact fits_footerColumn hgeo hs (List.mem_of_getElem? hc)
    (hslots _ (List.mem_of_getElem? hpslot)) hplaced

end

/-- The metadata of a writer is within the limits of the parser. -/
theorem fits_buildFileMetadata {geoStats : γ → Parquet.GeospatialStatistics} {s : WriterSettings}
    {groups : List (List (ColumnSlot γ))} {output : Bytes} (hgeo : ∀ g, (geoStats g).Fits)
    (hs : s.Fits) (hgroups : GroupsFit groups) {w : ParquetWriter γ}
    (hplaced : List.Forall₂ (GroupPlaced s output) groups w.rowGroups) :
    (buildFileMetadata geoStats s w).Fits where
  schemaCount := rfl
  schemaLimit := hs.schemaLimit
  schema := hs.schema
  rowGroupsCount := (List.length_map _).symm
  rowGroupsLimit := by
    show (w.rowGroups.map (footerRowGroup geoStats s)).length ≤ Parquet.maxRowGroups
    rw [List.length_map, ← hplaced.length_eq]
    exact hgroups.limit
  rowGroups rg hrg := by
    obtain ⟨entry, hentry, rfl⟩ := List.mem_map.mp hrg
    obtain ⟨i, hi⟩ := List.getElem?_of_mem hentry
    obtain ⟨columns, hcolumns, hgroup⟩ := getElem?_of_forall₂ hplaced.flip hi
    exact fits_footerRowGroup hgeo hs (hgroups.columns _ (List.mem_of_getElem? hcolumns)) hgroup
  keyValueCount := rfl
  keyValueLimit := hs.keyValueLimit
  keyValueMetadata := hs.keyValues
  createdBy v hv := by
    obtain rfl := Option.some.inj hv
    exact hs.createdBy
  columnOrdersLimit := hs.columnsLimit

theorem take_fileBody (s : WriterSettings) (groups : List (List (ColumnSlot γ))) :
    (ParquetWriter.fileBody s groups).take 4 = parquetMagic := List.take_left' rfl

/-- An element without a name and without a logical type. -/
theorem fits_of_none {e : Parquet.SchemaElement} (hname : e.name = none)
    (htype : e.logicalType = none) : e.Fits where
  name v hv := by
    rw [hname] at hv
    cases hv
  logicalType lt hlt := by
    rw [htype] at hlt
    cases hlt

theorem int32File_fits : int32File.Fits where
  schemaLimit := by decide
  schema := List.forall_mem_cons.mpr
    ⟨fits_of_none rfl rfl, List.forall_mem_singleton.mpr (fits_of_none rfl rfl)⟩
  columnsLimit := by decide
  pathLimit := List.forall_mem_singleton.mpr (by decide)
  path := List.forall_mem_singleton.mpr (List.forall_mem_singleton.mpr (by decide))
  sortingLimit := by decide
  keyValueLimit := by decide
  keyValues := nofun
  createdBy := by decide

/-- The row groups of that file. -/
def int32Groups : List (List (ColumnSlot Unit)) :=
  ((ParquetWriter.create int32File).run RowGroupWriter.noGeometries int32File int32Calls).2

/-- The metadata it is closed with. -/
def int32Metadata : Parquet.FileMetadata :=
  int32Writer.closingMetadata RowGroupWriter.noGeometries (fun _ => .zero) int32File
    RowGroupWriter.ampleEnv

end Carquet
