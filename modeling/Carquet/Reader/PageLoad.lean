import Carquet.Core.Crc32
import Carquet.Reader.BufferSizes
import Carquet.Reader.ColumnReader
import Carquet.Reader.DictionaryPage
import Carquet.Reader.PageHeaderWindow

/-!
# Loading a page of a column chunk

* `validatePagePayloadSize`, `validatePagePayloadSpan` — page_reader.c:307-378.
* `loadDictionaryPage` — `load_dictionary_page_mmap` and `load_dictionary_page_fread`
  (page_reader.c:1728-1844, 1909-2034).
* `preparePayload` — `prepare_data_page_payload` (page_reader.c:1632-1717).
* `loadNextPageMmap`, `loadNextPageFread` — page_reader.c:2041-2247, 2255-2466.

The two pairs of functions differ in how they get at the bytes (`PageAccess`), and in the path that
a mapped page may take without a copy (`viewedPage`). Allocation succeeds. The codecs are a
parameter. What the decode buffers hold from the page before is `Scratch`.
-/

namespace Carquet

open LittleEndian Chunks

/-- `checked_add_i64` (page_reader.c:297-305). -/
def checkedAddI64 (a b : Int) : Option Int :=
  if -9223372036854775808 ≤ a + b ∧ a + b ≤ 9223372036854775807 then some (a + b) else none

/-- `carquet_encoding_t` of the code in a page header. -/
def Encoding.ofCode (code : Int) : Encoding :=
  if code = 0 then .plain
  else if code = 2 then .plainDictionary
  else if code = 3 then .rle
  else if code = 4 then .bitPacked
  else if code = 5 then .deltaBinaryPacked
  else if code = 6 then .deltaLengthByteArray
  else if code = 7 then .deltaByteArray
  else if code = 8 then .rleDictionary
  else if code = 9 then .byteStreamSplit
  else .unknown

/-- What a column reader is opened with (file_reader.c:865-927): its file, its column and what the
footer says of its chunk. `decompressPage` is `carquet_decompress_page` with the capacity of its
buffer. -/
structure ColumnSource where
  reader : FileReader
  verifyChecksums : Bool
  column : Column
  codec : Compression
  decompressPage : Compression → Bytes → Nat → Except Status Bytes
  numValues : Int
  dataPageOffset : Int
  dictionaryPageOffset : Option Int
  preserveDictionary : Bool

/-- What the decode buffers hold of the page before. -/
structure Scratch where
  values : List Value
  indicesBuffer : List Nat
  heap : Nat → Nat

/-! ## Checks -/

/-- `validate_page_payload_size` (page_reader.c:307-352). Two lengths that are not negative do not
overflow a `size_t`. -/
def validatePagePayloadSize (h : ParsedPageHeader) (allowEmpty : Bool) : Except Status Unit :=
  if h.compressedPageSize < 0 ∨ (allowEmpty = false ∧ h.compressedPageSize = 0) ∨
      (maxPagePayloadSize : Int) < h.compressedPageSize ∨ h.uncompressedPageSize < 0 ∨
      (maxPagePayloadSize : Int) < h.uncompressedPageSize then .error .invalidPage
  else if h.type = 3 then
    let v2 := h.dataPageHeaderV2
    if v2.numValues ≤ 0 ∨ v2.repetitionLevelsByteLength < 0 ∨ v2.definitionLevelsByteLength < 0 then
      .error .invalidPage
    else
      let levelsSize := v2.repetitionLevelsByteLength + v2.definitionLevelsByteLength
      if h.compressedPageSize < levelsSize ∨ h.uncompressedPageSize < levelsSize then .error .decode
      else .ok ()
  else if h.type = 0 then
    if h.dataPageHeader.numValues ≤ 0 then .error .invalidPage else .ok ()
  else if h.type = 2 then
    if h.dictionaryPageHeader.numValues < 0 then .error .invalidPage else .ok ()
  else .ok ()

/-- `validate_page_payload_span` (page_reader.c:354-378). -/
def validatePagePayloadSpan (fileSize : Nat) (pageOffset : Int) (headerSize : Nat)
    (compressedSize : Int) : Except Status Unit :=
  if pageOffset < 0 ∨ (fileSize : Int) < pageOffset then .error .invalidPage
  else if fileSize < pageOffset.toNat + headerSize + compressedSize.toNat then .error .invalidPage
  else .ok ()

/-- `value_size` of the page loader (page_reader.c:2117-2124, 2365-2367). -/
def ColumnSource.valueSize (src : ColumnSource) : Nat :=
  if src.preserveDictionary then 4 else getValueSize src.column.type src.column.typeLength

/-! ## Getting at the bytes -/

/-- How a page loader reads a header and the bytes behind it. -/
structure PageAccess where
  readHeader : Int → Except Status (ParsedPageHeader × Nat)
  readData : Int → Nat → Except Status Bytes

/-- From the mapped file (page_reader.c:1737-1753, 2059-2083). -/
def mmapAccess (file : Bytes) : PageAccess where
  readHeader offset :=
    if offset < 0 ∨ (file.length : Int) ≤ offset then .error .invalidPage
    else parsePageHeader (file.drop offset.toNat)
  readData offset size := .ok ((file.drop offset.toNat).take size)

/-- With `fread`, through the prebuffer (page_reader.c:1917-1962, 2296-2347). -/
def freadAccess (reader : FileReader) : PageAccess where
  readHeader offset := (readAndParsePageHeaderFread reader offset).getD (.error .internal)
  readData offset size :=
    let bytes := reader.prebufReadAt offset size
    if bytes.length ≠ size then .error .fileRead else .ok bytes

/-- A page as it is in the file. -/
structure RawPage where
  header : ParsedPageHeader
  headerSize : Nat
  payload : Bytes
  deriving DecidableEq

/-- The header of a page, its payload, and its checksum (page_reader.c:1743-1782, 2064-2105). -/
def fetchPage (src : ColumnSource) (access : PageAccess) (types : List Int) (allowEmpty : Bool)
    (offset : Int) : Except Status RawPage := do
  let (header, headerSize) ← access.readHeader offset
  if header.type ∉ types then .error .invalidPage
  else
    validatePagePayloadSize header allowEmpty
    validatePagePayloadSpan src.reader.file.length offset headerSize header.compressedPageSize
    let payload ← access.readData (offset + headerSize) header.compressedPageSize.toNat
    if header.hasCrc = true ∧ src.verifyChecksums = true ∧
        (crc32 payload).toNat ≠ toU32 header.crc then .error .crcMismatch
    else .ok ⟨header, headerSize, payload⟩

/-! ## Dictionary pages -/

/-- `load_dictionary_page_mmap` and `load_dictionary_page_fread`: the dictionary, and where the data
pages start (page_reader.c:1818-1836, 2013-2024). -/
def loadDictionaryPage (src : ColumnSource) (access : PageAccess) (offset : Int) :
    Except Status (Dictionary × Int) := do
  let raw ← fetchPage src access [2] true offset
  let page ←
    if src.codec = .uncompressed then .ok raw.payload
    else src.decompressPage src.codec raw.payload raw.header.uncompressedPageSize.toNat
  let dict ← readDictionaryPage src.column page raw.header.dictionaryPageHeader.numValues
  match (checkedAddI64 offset raw.headerSize).bind
    (checkedAddI64 · raw.header.compressedPageSize) with
  | none => .error .invalidPage
  | some start => .ok (dict, start)

/-- The dictionary, if the chunk has one, and `data_start_offset`. -/
def ColumnSource.start (src : ColumnSource) (access : PageAccess) :
    Except Status (Option Dictionary × Int) :=
  match src.dictionaryPageOffset with
  | none => .ok (none, src.dataPageOffset)
  | some offset => do
    let (dict, start) ← loadDictionaryPage src access offset
    .ok (some dict, start)

/-! ## Data pages -/

/-- `num_values` of a data page (page_reader.c:2109-2111). -/
def ParsedPageHeader.dataNumValues (h : ParsedPageHeader) : Nat :=
  (if h.type = 3 then h.dataPageHeaderV2.numValues else h.dataPageHeader.numValues).toNat

/-- `page_encoding` (page_reader.c:2112-2113). -/
def ParsedPageHeader.dataEncoding (h : ParsedPageHeader) : Encoding :=
  .ofCode (if h.type = 3 then h.dataPageHeaderV2.encoding else h.dataPageHeader.encoding)

/-- The header as the page decoders take it. -/
def ParsedPageHeader.toPageHeader (h : ParsedPageHeader) : PageHeader :=
  if h.type = 3 then
    .v2 ⟨h.dataNumValues, h.dataEncoding, h.dataPageHeaderV2.definitionLevelsByteLength,
      h.dataPageHeaderV2.repetitionLevelsByteLength⟩
  else
    .v1 ⟨h.dataNumValues, h.dataEncoding, .ofCode h.dataPageHeader.definitionLevelEncoding,
      .ofCode h.dataPageHeader.repetitionLevelEncoding⟩

/-- `carquet_page_is_zero_copy_eligible` (mmap_reader.c:213-257) on a little-endian machine. -/
def pageIsZeroCopyEligible (codec : Compression) (encoding : Encoding) (type : PhysicalType) :
    Bool :=
  codec = .uncompressed && encoding = .plain && type ≠ .boolean && type ≠ .byteArray

/-- `page_values_can_be_viewed_directly` (page_reader.c:458-486). -/
def pageValuesCanBeViewedDirectly (column : Column) (encoding : Encoding) : Bool :=
  encoding = .plain && column.maxDefLevel ≤ 0 && column.maxRepLevel ≤ 0 &&
    column.type ≠ .boolean && column.type ≠ .byteArray &&
    (column.type ≠ .fixedLenByteArray || 0 < column.typeLength)

/-- `prepare_data_page_payload` (page_reader.c:1632-1717): the payload decompressed, of the second
version only its values. -/
def preparePayload (src : ColumnSource) (raw : RawPage) : Except Status Bytes := do
  validatePagePayloadSize raw.header false
  if raw.header.type = 3 then
    let v2 := raw.header.dataPageHeaderV2
    let levelsSize := v2.repetitionLevelsByteLength.toNat + v2.definitionLevelsByteLength.toNat
    if v2.isCompressed = true ∧ src.codec ≠ .uncompressed then do
      let values ← src.decompressPage src.codec (raw.payload.drop levelsSize)
        (raw.header.uncompressedPageSize.toNat - levelsSize)
      .ok (raw.payload.take levelsSize ++ values)
    else .ok raw.payload
  else if src.codec = .uncompressed then .ok raw.payload
  else src.decompressPage src.codec raw.payload raw.header.uncompressedPageSize.toNat

/-- The fields a loader sets behind a page. `validate_page_payload_size` lets no other count
through. -/
def LoadedPage.set (raw : RawPage) (numValues : Nat) (values : List Value)
    (defLevels repLevels : Option (List Int)) : Except Status (LoadedPage Value) :=
  if h : 0 < numValues ∧ numValues < 2147483648 then
    .ok ⟨numValues, values, defLevels, repLevels, raw.headerSize, raw.header.compressedPageSize,
      h.1, h.2⟩
  else .error .internal

/-- The cells of a buffer that is viewed and not decoded. -/
def viewedPage (src : ColumnSource) (raw : RawPage) (data : Bytes) :
    Except Status (LoadedPage Value) :=
  LoadedPage.set raw raw.header.dataNumValues
    (splitChunks src.valueSize raw.header.dataNumValues data)
    none none

/-- `ensure_decoded_page_buffers` (page_reader.c:523-601). -/
def ensureDecodedPageBuffers (src : ColumnSource) (numValues : Nat) : Except Status Unit :=
  if 18446744073709551615 < src.valueSize * numValues then .error .outOfMemory
  else if 0 ≤ src.numValues ∧ src.numValues < numValues then .error .invalidPage
  else .ok ()

/-- A page that is decoded into the buffers (page_reader.c:2209-2240, 2407-2460). -/
def decodedPage (src : ColumnSource) (scratch : Scratch) (dict : Option Dictionary) (raw : RawPage)
    (data : Bytes) : Except Status (LoadedPage Value) := do
  let numValues := raw.header.dataNumValues
  ensureDecodedPageBuffers src numValues
  let reader : PageReader :=
    ⟨src.column, dict, src.preserveDictionary, scratch.indicesBuffer, scratch.heap⟩
  let wanted : Wanted := ⟨decide (0 < src.column.maxDefLevel), decide (0 < src.column.maxRepLevel)⟩
  let res ← readDataPage reader data raw.header.toPageHeader scratch.values numValues wanted
  LoadedPage.set raw res.valuesRead (res.values.take res.nonNulls)
    (if wanted.defLevels then some res.defLevels else none)
    (if wanted.repLevels then some res.repLevels else none)

/-- The path with decompression and decoding (page_reader.c:2171-2247, 2369-2466). -/
def standardPage (src : ColumnSource) (scratch : Scratch) (dict : Option Dictionary)
    (raw : RawPage) : Except Status (LoadedPage Value) := do
  let data ← preparePayload src raw
  if raw.header.type ≠ 3 ∧
      pageValuesCanBeViewedDirectly src.column raw.header.dataEncoding = true then
    let required := src.valueSize * raw.header.dataNumValues
    if 18446744073709551615 < required ∨ data.length < required then .error .decode
    else viewedPage src raw data
  else decodedPage src scratch dict raw data

/-- The offset of a data page (page_reader.c:2059-2063, 2289-2294). -/
def nextPageOffset (start currentPage : Int) : Except Status Int :=
  match checkedAddI64 start currentPage with
  | none => .error .invalidPage
  | some offset => .ok offset

/-- `load_next_page_fread` (page_reader.c:2255-2466) at `current_page`. -/
def loadNextPageFread (src : ColumnSource) (scratch : Scratch) (currentPage : Int) :
    Except Status (LoadedPage Value) := do
  let (dict, start) ← src.start (freadAccess src.reader)
  let offset ← nextPageOffset start currentPage
  let raw ← fetchPage src (freadAccess src.reader) [0, 3] false offset
  standardPage src scratch dict raw

/-- Whether a mapped page is viewed where it is (page_reader.c:2126-2134). -/
def takesZeroCopyPath (src : ColumnSource) (h : ParsedPageHeader) : Bool :=
  h.type ≠ 3 && pageIsZeroCopyEligible src.codec h.dataEncoding src.column.type &&
    src.column.maxDefLevel ≤ 0 && src.column.maxRepLevel ≤ 0

/-- `load_next_page_mmap` (page_reader.c:2041-2247) at `current_page`. A view of the file
(page_reader.c:2134-2166) reaches from the page to the end of the mapping; a cell behind that is cut
short. -/
def loadNextPageMmap (src : ColumnSource) (scratch : Scratch) (currentPage : Int) :
    Except Status (LoadedPage Value) := do
  let (dict, start) ← src.start (mmapAccess src.reader.file)
  let offset ← nextPageOffset start currentPage
  let raw ← fetchPage src (mmapAccess src.reader.file) [0, 3] false offset
  if takesZeroCopyPath src raw.header = true then
    viewedPage src raw (src.reader.file.drop (offset.toNat + raw.headerSize))
  else standardPage src scratch dict raw

/-! ## The two loaders -/

section Agreement

variable {src : ColumnSource} {scratch : Scratch}

/-- Both ways of reading the header at `offset` say the same: what
`readAndParsePageHeaderFread_iff` is about, where the offset is inside the file. -/
def HeadersAgree (src : ColumnSource) (offset : Int) : Prop :=
  (freadAccess src.reader).readHeader offset = (mmapAccess src.reader.file).readHeader offset

/-- What was validated of a page that was fetched. -/
theorem fetchPage_ok {access : PageAccess} {types : List Int} {allowEmpty : Bool} {offset : Int}
    {raw : RawPage} (h : fetchPage src access types allowEmpty offset = .ok raw) :
    raw.header.type ∈ types ∧ validatePagePayloadSize raw.header allowEmpty = .ok () ∧
      validatePagePayloadSpan src.reader.file.length offset raw.headerSize
        raw.header.compressedPageSize = .ok () ∧
      access.readData (offset + raw.headerSize) raw.header.compressedPageSize.toNat =
        .ok raw.payload := by
  obtain ⟨⟨header, headerSize⟩, -, h⟩ := bind_eq_ok.mp h
  dsimp only at h
  split at h
  · cases h
  · rename_i htype
    obtain ⟨⟨⟩, hsize, h⟩ := bind_eq_ok.mp h
    obtain ⟨⟨⟩, hspan, h⟩ := bind_eq_ok.mp h
    obtain ⟨payload, hdata, h⟩ := bind_eq_ok.mp h
    split at h
    · cases h
    · obtain rfl := Except.ok.inj h
      exact ⟨not_not.mp htype, hsize, hspan, hdata⟩

theorem validatePagePayloadSpan_ok {fileSize headerSize : Nat} {offset compressedSize : Int}
    (h : validatePagePayloadSpan fileSize offset headerSize compressedSize = .ok ()) :
    0 ≤ offset ∧ offset.toNat + headerSize + compressedSize.toNat ≤ fileSize := by
  unfold validatePagePayloadSpan at h
  split at h
  · cases h
  · split at h
    · cases h
    · omega

/-- **The payload** of a page whose span is in the file is the same both ways. -/
theorem readData_agree {offset : Int} {headerSize size : Nat} (hoffset : 0 ≤ offset)
    (h : offset.toNat + headerSize + size ≤ src.reader.file.length) :
    (freadAccess src.reader).readData (offset + headerSize) size =
      (mmapAccess src.reader.file).readData (offset + headerSize) size := by
  have hlen : ((src.reader.file.drop (offset + headerSize).toNat).take size).length = size := by
    rw [List.length_take, List.length_drop]
    omega
  simp only [freadAccess, mmapAccess, prebufReadAt_eq, remainingSpan]
  rw [if_neg (by omega : ¬offset + (headerSize : Int) < 0), if_neg (not_not.mpr hlen)]

/-- **A page is fetched alike** where its header is. -/
theorem fetchPage_agree {types : List Int} {allowEmpty : Bool} {offset : Int}
    (h : HeadersAgree src offset) :
    fetchPage src (freadAccess src.reader) types allowEmpty offset =
      fetchPage src (mmapAccess src.reader.file) types allowEmpty offset := by
  rw [fetchPage, fetchPage, h]
  refine congrArg _ (funext fun ⟨header, headerSize⟩ => ?_)
  dsimp only
  split
  · rfl
  · refine congrArg _ (funext fun _ => ?_)
    cases hspan : validatePagePayloadSpan src.reader.file.length offset headerSize
        header.compressedPageSize with
    | error e => rfl
    | ok _ =>
      obtain ⟨hoffset, hle⟩ := validatePagePayloadSpan_ok hspan
      rw [readData_agree hoffset hle]

theorem start_agree
    (h : ∀ offset, src.dictionaryPageOffset = some offset → HeadersAgree src offset) :
    src.start (freadAccess src.reader) = src.start (mmapAccess src.reader.file) := by
  unfold ColumnSource.start
  cases hdict : src.dictionaryPageOffset with
  | none => rfl
  | some offset =>
    simp only [loadDictionaryPage, fetchPage_agree (h offset hdict)]

/-- Where the data page at `current_page` is. -/
def ColumnSource.pageOffset (src : ColumnSource) (currentPage : Int) : Except Status Int := do
  let (_, start) ← src.start (mmapAccess src.reader.file)
  nextPageOffset start currentPage

/-- The page that is viewed in place holds the cells that it counts. -/
def ViewHolds (src : ColumnSource) (raw : RawPage) : Prop :=
  takesZeroCopyPath src raw.header = true →
    src.valueSize * raw.header.dataNumValues ≤ raw.payload.length

theorem type_of_zeroCopy {h : ParsedPageHeader} (hzero : takesZeroCopyPath src h = true) :
    h.type ≠ 3 ∧ src.codec = .uncompressed ∧ h.dataEncoding = .plain ∧
      src.column.type ≠ .boolean ∧ src.column.type ≠ .byteArray ∧ src.column.maxDefLevel ≤ 0 ∧
      src.column.maxRepLevel ≤ 0 := by
  simpa [takesZeroCopyPath, pageIsZeroCopyEligible, and_assoc] using hzero

/-- What the standard path makes of a page that could have been viewed in place. -/
theorem standardPage_of_zeroCopy {dict : Option Dictionary} {raw : RawPage}
    (hlength : src.column.type = .fixedLenByteArray → 0 < src.column.typeLength)
    (hvalid : validatePagePayloadSize raw.header false = .ok ())
    (hzero : takesZeroCopyPath src raw.header = true) :
    standardPage src scratch dict raw =
      if 18446744073709551615 < src.valueSize * raw.header.dataNumValues ∨
          raw.payload.length < src.valueSize * raw.header.dataNumValues then .error .decode
      else viewedPage src raw raw.payload := by
  obtain ⟨htype, hcodec, hencoding, hbool, hbytes, hdef, hrep⟩ := type_of_zeroCopy hzero
  have hviewed : pageValuesCanBeViewedDirectly src.column .plain = true := by
    simp only [pageValuesCanBeViewedDirectly, Bool.and_eq_true, Bool.or_eq_true, decide_eq_true_eq]
    refine ⟨⟨⟨⟨⟨trivial, hdef⟩, hrep⟩, hbool⟩, hbytes⟩, ?_⟩
    by_cases hfixed : src.column.type = .fixedLenByteArray
    · exact .inr (hlength hfixed)
    · exact .inl hfixed
  have hprepare : preparePayload src raw = .ok raw.payload := by
    simp only [preparePayload, hvalid, bind, Except.bind]
    rw [if_neg htype, if_pos hcodec]
  rw [standardPage, hprepare, hencoding]
  simp only [bind, Except.bind]
  rw [if_pos ⟨htype, hviewed⟩]

theorem viewedPage_ne_decode (raw : RawPage) (data : Bytes) :
    viewedPage src raw data ≠ .error .decode := by
  unfold viewedPage LoadedPage.set
  split
  · intro h
    cases h
  · intro h
    cases h

/-- The cells of a view do not depend on what is behind them. -/
theorem viewedPage_append {raw : RawPage} {data : Bytes}
    (h : src.valueSize * raw.header.dataNumValues ≤ data.length) (rest : Bytes) :
    viewedPage src raw (data ++ rest) = viewedPage src raw data := by
  rw [viewedPage, viewedPage, splitChunks_append (by rwa [Nat.mul_comm])]

theorem payload_le_of_fetch {types : List Int} {allowEmpty : Bool} {offset : Int} {raw : RawPage}
    (h : fetchPage src (mmapAccess src.reader.file) types allowEmpty offset = .ok raw) :
    raw.payload.length ≤ maxPagePayloadSize := by
  obtain ⟨-, hsize, -, hdata⟩ := fetchPage_ok h
  rw [← Except.ok.inj hdata, List.length_take]
  unfold validatePagePayloadSize at hsize
  split at hsize
  · cases hsize
  · omega

/-- **One page, both ways.** -/
theorem zeroCopy_eq_standard_iff {dict : Option Dictionary} {offset : Int} {raw : RawPage}
    (hlength : src.column.type = .fixedLenByteArray → 0 < src.column.typeLength)
    (hfetch : fetchPage src (mmapAccess src.reader.file) [0, 3] false offset = .ok raw) :
    (if takesZeroCopyPath src raw.header = true then
        viewedPage src raw (src.reader.file.drop (offset.toNat + raw.headerSize))
      else standardPage src scratch dict raw) = standardPage src scratch dict raw ↔
      ViewHolds src raw := by
  obtain ⟨-, hsize, hspan, hdata⟩ := fetchPage_ok hfetch
  obtain ⟨hoffset, hle⟩ := validatePagePayloadSpan_ok hspan
  have hmax := payload_le_of_fetch hfetch
  unfold maxPagePayloadSize at hmax
  by_cases hzero : takesZeroCopyPath src raw.header = true
  · rw [if_pos hzero, standardPage_of_zeroCopy hlength hsize hzero]
    have hdrop : src.reader.file.drop (offset.toNat + raw.headerSize) =
        raw.payload ++ src.reader.file.drop
          (offset.toNat + raw.headerSize + raw.header.compressedPageSize.toNat) := by
      have hsplit := List.take_append_drop raw.header.compressedPageSize.toNat
        (src.reader.file.drop (offset.toNat + raw.headerSize))
      have hstart : (offset + raw.headerSize).toNat = offset.toNat + raw.headerSize := by omega
      rw [List.drop_drop] at hsplit
      rw [← hsplit, ← Except.ok.inj hdata, hstart]
    constructor
    · intro heq _
      by_contra hshort
      rw [if_pos (.inr (Nat.not_le.mp hshort))] at heq
      exact viewedPage_ne_decode _ _ heq
    · intro hholds
      have hfull := hholds hzero
      rw [if_neg (by omega), hdrop, viewedPage_append hfull]
  · rw [if_neg hzero]
    exact ⟨fun _ hpos => absurd hpos hzero, fun _ => rfl⟩

end Agreement

/-- A page that counts two `INT32` and has one. -/
def shortPage : RawPage where
  header :=
    { ParsedPageHeader.zero with
      uncompressedPageSize := 4, compressedPageSize := 4, dataPageHeader := ⟨2, 0, 3, 3, false⟩ }
  headerSize := 17
  payload := [7, 0, 0, 0]

/-- The file that is this page. -/
def shortSource : ColumnSource where
  reader :=
    ⟨[0x15, 0, 0x15, 8, 0x15, 8, 0x2C, 0x15, 4, 0x15, 0, 0x15, 6, 0x15, 6, 0, 0] ++ [7, 0, 0, 0],
      none⟩
  verifyChecksums := true
  column := ⟨.int32, 0, 0, 0⟩
  codec := .uncompressed
  decompressPage _ _ _ := .error .unsupportedCodec
  numValues := 2
  dataPageOffset := 0
  dictionaryPageOffset := none
  preserveDictionary := false

/-- Buffers that hold nothing yet. -/
def emptyScratch : Scratch := ⟨[], [], fun _ => 0⟩

end Carquet
