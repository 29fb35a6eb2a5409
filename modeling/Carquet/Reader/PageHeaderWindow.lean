import Carquet.Thrift.ParquetSafety
import Carquet.Thrift.Window

/-!
# Reading a page header through a growing window

`read_and_parse_page_header_fread` (page_reader.c:1851-1902) parses the first 256 bytes at an offset
and asks for four times as many while the parser says that it was given too few.
-/

namespace Carquet

open Decoder

/-! ## Cuts in a page header -/

variable {more : Bytes}

/-- A field of `DataPageHeader` that the window cuts. -/
def dataPageHeaderFieldCut (more : Nat) (id : Int) (type : ThriftType) (_ : ParsedDataPageHeader)
    (d : Decoder) : Bool :=
  if 1 ≤ id ∧ id ≤ 4 then false else d.thriftSkipCut more type

/-- A field of `DictionaryPageHeader` that the window cuts. -/
def dictionaryPageHeaderFieldCut (more : Nat) (id : Int) (type : ThriftType)
    (_ : ParsedDictionaryPageHeader) (d : Decoder) : Bool :=
  if 1 ≤ id ∧ id ≤ 3 then false else d.thriftSkipCut more type

/-- A field of `DataPageHeaderV2` that the window cuts. -/
def dataPageHeaderV2FieldCut (more : Nat) (id : Int) (type : ThriftType)
    (_ : ParsedDataPageHeaderV2) (d : Decoder) : Bool :=
  if 1 ≤ id ∧ id ≤ 7 then false else d.thriftSkipCut more type

/-- A field of `PageHeader` that the window cuts. -/
def pageHeaderFieldCut (more : Nat) (id : Int) (type : ThriftType) (h : ParsedPageHeader)
    (d : Decoder) : Bool :=
  match id with
  | 1 | 2 | 3 | 4 => false
  | 5 => d.structCut dataPageHeaderField (dataPageHeaderFieldCut more) h.dataPageHeader
  | 7 => d.structCut dictionaryPageHeaderField (dictionaryPageHeaderFieldCut more)
      h.dictionaryPageHeader
  | 8 => d.structCut dataPageHeaderV2Field (dataPageHeaderV2FieldCut more)
      { h.dataPageHeaderV2 with isCompressed := true }
  | _ => d.thriftSkipCut more type

/-- **A page header that the window `data`, `more` bytes short, cuts silently.** -/
def pageHeaderCut (more : Nat) (data : Bytes) : Bool :=
  (Decoder.init data).structCut pageHeaderField (pageHeaderFieldCut more) .zero

theorem windowed_dataPageHeaderField (id : Int) (type : ThriftType) (h : ParsedDataPageHeader) :
    Windowed more (dataPageHeaderField id type h) (dataPageHeaderFieldCut more.length id type h) := by
  obtain rfl | rfl | rfl | rfl | rfl | hid : id = 1 ∨ id = 2 ∨ id = 3 ∨ id = 4 ∨ id = 5 ∨
      id ≠ 1 ∧ id ≠ 2 ∧ id ≠ 3 ∧ id ≠ 4 ∧ id ≠ 5 := by omega
  · exact windowed_i32 _
  · exact windowed_i32 _
  · exact windowed_i32 _
  · exact windowed_i32 _
  · exact windowed_skipping _ type
  · have hbody : dataPageHeaderField id type h = skipping h type := by
      funext d
      unfold dataPageHeaderField
      split <;> simp_all
    have hcut : dataPageHeaderFieldCut more.length id type h =
        Decoder.thriftSkipCut more.length type := by
      funext d
      rw [dataPageHeaderFieldCut, if_neg (by omega)]
    rw [hbody, hcut]
    exact windowed_skipping h type

theorem windowed_dictionaryPageHeaderField (id : Int) (type : ThriftType)
    (h : ParsedDictionaryPageHeader) :
    Windowed more (dictionaryPageHeaderField id type h)
      (dictionaryPageHeaderFieldCut more.length id type h) := by
  obtain rfl | rfl | rfl | hid : id = 1 ∨ id = 2 ∨ id = 3 ∨ id ≠ 1 ∧ id ≠ 2 ∧ id ≠ 3 := by omega
  · exact windowed_i32 _
  · exact windowed_i32 _
  · exact windowed_bool _
  · have hbody : dictionaryPageHeaderField id type h = skipping h type := by
      funext d
      unfold dictionaryPageHeaderField
      split <;> simp_all
    have hcut : dictionaryPageHeaderFieldCut more.length id type h =
        Decoder.thriftSkipCut more.length type := by
      funext d
      rw [dictionaryPageHeaderFieldCut, if_neg (by omega)]
    rw [hbody, hcut]
    exact windowed_skipping h type

theorem windowed_dataPageHeaderV2Field (id : Int) (type : ThriftType)
    (h : ParsedDataPageHeaderV2) :
    Windowed more (dataPageHeaderV2Field id type h)
      (dataPageHeaderV2FieldCut more.length id type h) := by
  obtain rfl | rfl | rfl | rfl | rfl | rfl | rfl | rfl | hid : id = 1 ∨ id = 2 ∨ id = 3 ∨ id = 4 ∨
      id = 5 ∨ id = 6 ∨ id = 7 ∨ id = 8 ∨ id ≠ 1 ∧ id ≠ 2 ∧ id ≠ 3 ∧ id ≠ 4 ∧ id ≠ 5 ∧ id ≠ 6 ∧
      id ≠ 7 ∧ id ≠ 8 := by omega
  · exact windowed_i32 _
  · exact windowed_i32 _
  · exact windowed_i32 _
  · exact windowed_i32 _
  · exact windowed_i32 _
  · exact windowed_i32 _
  · exact windowed_bool _
  · exact windowed_skipping _ type
  · have hbody : dataPageHeaderV2Field id type h = skipping h type := by
      funext d
      unfold dataPageHeaderV2Field
      split <;> simp_all
    have hcut : dataPageHeaderV2FieldCut more.length id type h =
        Decoder.thriftSkipCut more.length type := by
      funext d
      rw [dataPageHeaderV2FieldCut, if_neg (by omega)]
    rw [hbody, hcut]
    exact windowed_skipping h type

/-- Where the header was no error, a field of the page header. -/
def pageHeaderFieldRead (id : Int) (type : ThriftType) (h : ParsedPageHeader) (d : Decoder) :
    Option (ParsedPageHeader × Decoder) :=
  match id with
  | 1 => storing (fun v => { h with type := v }) d.readI32
  | 2 => storing (fun v => { h with uncompressedPageSize := v }) d.readI32
  | 3 => storing (fun v => { h with compressedPageSize := v }) d.readI32
  | 4 => storing (fun v => { h with hasCrc := true, crc := v }) d.readI32
  | 5 => (d.readStruct dataPageHeaderField h.dataPageHeader).map
      fun r => ({ h with dataPageHeader := r.1 }, r.2)
  | 7 => (d.readStruct dictionaryPageHeaderField h.dictionaryPageHeader).map
      fun r => ({ h with dictionaryPageHeader := r.1 }, r.2)
  | 8 => (d.readStruct dataPageHeaderV2Field { h.dataPageHeaderV2 with isCompressed := true }).map
      fun r => ({ h with dataPageHeaderV2 := r.1 }, r.2)
  | _ => skipping h type d

theorem pageHeaderField_eq (id : Int) (type : ThriftType) (h : ParsedPageHeader) (d : Decoder) :
    pageHeaderField id type h d =
      if d.status ≠ .ok then some (h, d) else pageHeaderFieldRead id type h d := rfl

theorem windowed_pageHeaderFieldRead (id : Int) (type : ThriftType) (h : ParsedPageHeader) :
    Windowed more (pageHeaderFieldRead id type h) (pageHeaderFieldCut more.length id type h) := by
  obtain rfl | rfl | rfl | rfl | rfl | rfl | rfl | hid : id = 1 ∨ id = 2 ∨ id = 3 ∨ id = 4 ∨
      id = 5 ∨ id = 7 ∨ id = 8 ∨
      id ≠ 1 ∧ id ≠ 2 ∧ id ≠ 3 ∧ id ≠ 4 ∧ id ≠ 5 ∧ id ≠ 7 ∧ id ≠ 8 := by omega
  · exact windowed_i32 _
  · exact windowed_i32 _
  · exact windowed_i32 _
  · exact windowed_i32 _
  · exact (windowed_readStruct windowed_dataPageHeaderField h.dataPageHeader).map
      fun r => { h with dataPageHeader := r }
  · exact (windowed_readStruct windowed_dictionaryPageHeaderField h.dictionaryPageHeader).map
      fun r => { h with dictionaryPageHeader := r }
  · exact (windowed_readStruct windowed_dataPageHeaderV2Field
      { h.dataPageHeaderV2 with isCompressed := true }).map fun r => { h with dataPageHeaderV2 := r }
  · have hbody : pageHeaderFieldRead id type h = skipping h type := by
      funext d
      unfold pageHeaderFieldRead
      split <;> simp_all
    have hcut : pageHeaderFieldCut more.length id type h =
        Decoder.thriftSkipCut more.length type := by
      funext d
      unfold pageHeaderFieldCut
      split <;> simp_all
    rw [hbody, hcut]
    exact windowed_skipping h type

theorem windowed_pageHeaderField (id : Int) (type : ThriftType) (h : ParsedPageHeader) :
    Windowed more (pageHeaderField id type h) (pageHeaderFieldCut more.length id type h) := by
  have hread := @windowed_pageHeaderFieldRead more id type h
  constructor
  · intro d r hr
    rw [pageHeaderField_eq] at hr
    split at hr
    · cases hr
      exact .refl d
    · exact hread.advances d r hr
  · intro w r r' hok hr hr'
    have hgo : ¬w.status ≠ .ok := fun hne => hne hok
    have hgo' : ¬(w.extend more).status ≠ .ok := hgo
    rw [pageHeaderField_eq, if_neg hgo] at hr
    rw [pageHeaderField_eq, if_neg hgo'] at hr'
    exact hread.tracks w r r' hok hr hr'

/-! ## Parsing a window -/

theorem windowed_pageHeader :
    Windowed more (Decoder.readStruct pageHeaderField .zero)
      (Decoder.structCut pageHeaderField (pageHeaderFieldCut more.length) .zero) :=
  windowed_readStruct windowed_pageHeaderField _

/-- The parser is a run of the decoder. -/
theorem parsePageHeader_run (data : Bytes) :
    ∃ h d, (Decoder.init data).readStruct pageHeaderField .zero = some (h, d) ∧
      (Decoder.init data).Advances d ∧
      parsePageHeader data =
        if d.status ≠ .ok then .error d.status else .ok (h, data.length - d.rest.length) := by
  obtain ⟨h, d, hread, -⟩ := Parquet.pageHeader_safe data
  refine ⟨h, d, hread, (@windowed_pageHeader []).advances _ _ hread, ?_⟩
  rw [parsePageHeader, hread]

/-- The parser fails only with the decoder's errors. -/
theorem parsePageHeader_error {data : Bytes} {status : Status}
    (h : parsePageHeader data = .error status) : status.isThrift = true := by
  obtain ⟨header, d, -, hadv, heq⟩ := parsePageHeader_run data
  rw [heq] at h
  split at h
  · rename_i hne
    cases h
    rcases hadv.status with hstatus | ⟨-, hnew⟩
    · exact absurd hstatus hne
    · exact hnew
  · cases h

/-- **A window that is not cut silently** asks for more or says what the whole input says. -/
theorem parsePageHeader_append {data : Bytes} (more : Bytes)
    (hcut : pageHeaderCut more.length data = false) :
    parsePageHeader data = .error .thriftTruncated ∨
      parsePageHeader (data ++ more) = parsePageHeader data := by
  obtain ⟨h, d, hread, hadv, heq⟩ := parsePageHeader_run data
  obtain ⟨h', d', hread', -, heq'⟩ := parsePageHeader_run (data ++ more)
  have hmeets := windowed_pageHeader.tracks (Decoder.init data) _ _ rfl hread hread'
  rw [show Decoder.structCut pageHeaderField (pageHeaderFieldCut more.length) .zero
    (Decoder.init data) = false from hcut] at hmeets
  rw [heq, heq']
  cases meets_false.1 hmeets with
  | same a hok =>
    right
    have hle : d.rest.length ≤ data.length := hadv.reads.le
    simp only [extend_status, extend_rest, List.length_append, if_neg (fun hne => hne hok :
      ¬d.status ≠ .ok)]
    rw [show data.length + more.length - (d.rest.length + more.length) =
      data.length - d.rest.length by omega]
  | truncated htrunc =>
    left
    simp only at htrunc
    rw [htrunc]
    rfl
  | failed herr hsame =>
    right
    simp only at herr hsame
    rw [hsame, if_pos herr, if_pos herr]

/-- **A window that is** says something else, unless both are errors. -/
theorem parsePageHeader_append_cut {data more : Bytes}
    (hcut : pageHeaderCut more.length data = true)
    (h : parsePageHeader (data ++ more) = parsePageHeader data) :
    ∃ status, parsePageHeader data = .error status := by
  obtain ⟨header, d, hread, hadv, heq⟩ := parsePageHeader_run data
  obtain ⟨header', d', hread', hadv', heq'⟩ := parsePageHeader_run (data ++ more)
  have hmeets := windowed_pageHeader.tracks (Decoder.init data) _ _ rfl hread hread'
  rw [show Decoder.structCut pageHeaderField (pageHeaderFieldCut more.length) .zero
    (Decoder.init data) = true from hcut] at hmeets
  rw [heq, heq'] at h
  rw [heq]
  rcases meets_true.1 hmeets with herr | herr | hpassed
  · exact ⟨d.status, if_pos herr⟩
  · by_cases hok : d.status ≠ .ok
    · exact ⟨d.status, if_pos hok⟩
    · rw [if_neg hok, if_pos herr] at h
      cases h
  · by_cases hok : d.status ≠ .ok
    · exact ⟨d.status, if_pos hok⟩
    · rw [if_neg hok] at h
      split at h
      · cases h
      · have hsize := congrArg Prod.snd (Except.ok.inj h)
        simp only [List.length_append] at hsize
        simp only at hpassed
        omega

/-! ## The file -/

/-- `carquet_prebuffer_t` (reader_internal.h:80-85) over the file: what `carquet_reader_prebuffer`
(file_reader.c:742-848) read of it at once. -/
structure Prebuffer (file : Bytes) where
  fileOffset : Nat
  data : Bytes
  held : data = (file.drop fileOffset).take data.length

/-- The part of `struct carquet_reader` that is read here: the file and its prebuffer. -/
structure FileReader where
  file : Bytes
  prebuffer : Option (Prebuffer file)

/-- `prebuf_read_at` (page_reader.c:172-209): from the prebuffer if it has all of the range, else
`fseek` and `fread`. -/
def FileReader.prebufReadAt (r : FileReader) (offset : Int) (size : Nat) : Bytes :=
  if offset < 0 then []
  else
    let start := offset.toNat
    match r.prebuffer with
    | some p =>
      if p.fileOffset ≤ start ∧ start + size ≤ p.fileOffset + p.data.length then
        (p.data.drop (start - p.fileOffset)).take size
      else (r.file.drop start).take size
    | none => (r.file.drop start).take size

/-- The file from `offset` on. -/
def remainingSpan (file : Bytes) (offset : Int) : Bytes :=
  if offset < 0 then [] else file.drop offset.toNat

/-- The prebuffer makes no difference. -/
theorem prebufReadAt_eq (r : FileReader) (offset : Int) (size : Nat) :
    r.prebufReadAt offset size = (remainingSpan r.file offset).take size := by
  unfold FileReader.prebufReadAt remainingSpan
  by_cases hneg : offset < 0
  · rw [if_pos hneg, if_pos hneg, List.take_nil]
  rw [if_neg hneg, if_neg hneg]
  simp only
  split
  · rename_i p _
    split
    · rename_i hin
      rw [p.held, List.drop_take, List.drop_drop, List.take_take,
        show p.fileOffset + (offset.toNat - p.fileOffset) = offset.toNat by omega,
        Nat.min_eq_left (by omega)]
    · rfl
  · rfl

/-! ## The loop -/

/-- `CARQUET_MAX_PAGE_PAYLOAD_SIZE` (page_reader.c:280). -/
def maxPagePayloadSize : Nat := 256 * 1024 * 1024

/-- The loop of `read_and_parse_page_header_fread` (page_reader.c:1861-1901) from the capacity
`cap`. Allocation succeeds; `none` is a loop that has not ended. -/
def readPageHeaderLoop (r : FileReader) (offset : Int) :
    Nat → Nat → Option (Except Status (ParsedPageHeader × Nat))
  | 0, _ => none
  | fuel + 1, cap =>
    let buf := r.prebufReadAt offset cap
    if buf.length < 8 then some (.error .fileRead)
    else
      match parsePageHeader buf with
      | .ok header => some (.ok header)
      | .error status =>
        if status ≠ .thriftTruncated ∨ buf.length < cap ∨ maxPagePayloadSize ≤ cap then
          some (.error status)
        else readPageHeaderLoop r offset fuel (min (cap * 4) maxPagePayloadSize)

/-- `read_and_parse_page_header_fread` (page_reader.c:1851-1902): the capacities are 256, 1024, ...,
`maxPagePayloadSize`. -/
def readAndParsePageHeaderFread (r : FileReader) (offset : Int) :
    Option (Except Status (ParsedPageHeader × Nat)) :=
  readPageHeaderLoop r offset 11 256

/-- The window of `cap` bytes decides: the parser does not ask for more, or there is no more, or no
more is read. -/
def Decides (span : Bytes) (cap : Nat) : Prop :=
  parsePageHeader (span.take cap) ≠ .error .thriftTruncated ∨ span.length < cap ∨
    maxPagePayloadSize ≤ cap

instance decidableDecides (span : Bytes) (cap : Nat) : Decidable (Decides span cap) :=
  inferInstanceAs (Decidable (_ ∨ _))

/-- The first capacity from `cap` on that decides. -/
def decidingCap (span : Bytes) : Nat → Nat → Nat
  | 0, cap => cap
  | fuel + 1, cap =>
    if Decides span cap then cap else decidingCap span fuel (min (cap * 4) maxPagePayloadSize)

/-- The window on which `read_and_parse_page_header_fread` decides. -/
def decidingWindow (span : Bytes) : Bytes := span.take (decidingCap span 10 256)

/-- One turn of the loop. -/
theorem readPageHeaderLoop_step (r : FileReader) (offset : Int) (fuel : Nat) {cap : Nat}
    (hcap : 8 ≤ cap) :
    readPageHeaderLoop r offset (fuel + 1) cap =
      if (remainingSpan r.file offset).length < 8 then some (.error .fileRead)
      else if Decides (remainingSpan r.file offset) cap then
        some (parsePageHeader ((remainingSpan r.file offset).take cap))
      else readPageHeaderLoop r offset fuel (min (cap * 4) maxPagePayloadSize) := by
  rw [readPageHeaderLoop, prebufReadAt_eq]
  generalize remainingSpan r.file offset = span
  have hlen : (span.take cap).length = min cap span.length := List.length_take
  by_cases hshort : span.length < 8
  · rw [if_pos (by omega), if_pos hshort]
  rw [if_neg (by omega), if_neg hshort]
  have hfull : (span.take cap).length < cap ↔ span.length < cap := by omega
  cases hparse : parsePageHeader (span.take cap) with
  | ok header =>
    have hdecides : Decides span cap := .inl (by simp [hparse])
    rw [if_pos hdecides]
  | error status =>
    have hiff : (status ≠ .thriftTruncated ∨ (span.take cap).length < cap ∨
        maxPagePayloadSize ≤ cap) ↔ Decides span cap := by
      rw [Decides, hparse, hfull]
      simp
    simp only [hiff]

/-- **The loop ends with what the deciding window says.** -/
theorem readPageHeaderLoop_eq (r : FileReader) (offset : Int) {fuel cap : Nat} (hcap : 8 ≤ cap)
    (hfuel : maxPagePayloadSize ≤ cap * 4 ^ fuel) :
    readPageHeaderLoop r offset (fuel + 1) cap =
      some (if (remainingSpan r.file offset).length < 8 then .error .fileRead
        else parsePageHeader ((remainingSpan r.file offset).take
          (decidingCap (remainingSpan r.file offset) fuel cap))) := by
  induction fuel generalizing cap with
  | zero =>
    have hmax : Decides (remainingSpan r.file offset) cap := .inr (.inr (by simpa using hfuel))
    rw [readPageHeaderLoop_step r offset 0 hcap, if_pos hmax, decidingCap]
    split <;> rfl
  | succ fuel ih =>
    rw [readPageHeaderLoop_step r offset (fuel + 1) hcap, decidingCap]
    split
    · rfl
    · rename_i hlong
      split
      · rfl
      · have hmax : 8 ≤ maxPagePayloadSize := by decide
        have hpow : maxPagePayloadSize ≤ min (cap * 4) maxPagePayloadSize * 4 ^ fuel := by
          rw [Nat.pow_succ, ← Nat.mul_assoc, Nat.mul_right_comm] at hfuel
          rcases Nat.le_total (cap * 4) maxPagePayloadSize with hle | hle
          · rwa [Nat.min_eq_left hle]
          · rw [Nat.min_eq_right hle]
            exact Nat.le_mul_of_pos_right _ (Nat.pow_pos (by omega))
        rw [ih (by omega) hpow, if_neg hlong]

/-- `read_and_parse_page_header_fread` returns what the deciding window says. -/
theorem readAndParsePageHeaderFread_eq (r : FileReader) (offset : Int) :
    readAndParsePageHeaderFread r offset =
      some (if (remainingSpan r.file offset).length < 8 then .error .fileRead
        else parsePageHeader (decidingWindow (remainingSpan r.file offset))) :=
  readPageHeaderLoop_eq r offset (by decide) (by decide)

/-- **The windowed read and the parser on the whole span**: they are the same where eight bytes are
left and the deciding window is all of the span, or is neither cut silently nor short of the end of
a header at the ceiling, or where the window and the span are refused with one status. -/
theorem readAndParsePageHeaderFread_iff (r : FileReader) (offset : Int) :
    let span := remainingSpan r.file offset
    let window := decidingWindow span
    readAndParsePageHeaderFread r offset = some (parsePageHeader span) ↔
      8 ≤ span.length ∧
        (span.length ≤ window.length ∨
          parsePageHeader window ≠ .error .thriftTruncated ∧
            pageHeaderCut (span.length - window.length) window = false ∨
          ∃ status, parsePageHeader window = .error status ∧
            parsePageHeader span = .error status) := by
  intro span window
  rw [readAndParsePageHeaderFread_eq]
  have hsplit : window ++ span.drop (decidingCap span 10 256) = span := List.take_append_drop _ _
  have hmore : (span.drop (decidingCap span 10 256)).length = span.length - window.length := by
    have hlen := congrArg List.length hsplit
    rw [List.length_append] at hlen
    omega
  by_cases hshort : span.length < 8
  · rw [if_pos hshort]
    constructor
    · intro h
      have herr := parsePageHeader_error (Option.some.inj h).symm
      cases herr
    · rintro ⟨hlong, -⟩
      omega
  rw [if_neg hshort]
  constructor
  · intro h
    have hsame := Option.some.inj h
    refine ⟨by omega, ?_⟩
    by_cases hneed : parsePageHeader window = .error .thriftTruncated
    · exact .inr (.inr ⟨_, hneed, hsame ▸ hneed⟩)
    cases hcut : pageHeaderCut (span.length - window.length) window with
    | false => exact .inr (.inl ⟨hneed, rfl⟩)
    | true =>
      rw [← hmore] at hcut
      obtain ⟨status, hstatus⟩ := parsePageHeader_append_cut hcut (by rw [hsplit, ← hsame])
      exact .inr (.inr ⟨status, hstatus, hsame ▸ hstatus⟩)
  · rintro ⟨-, hall | ⟨hneed, hcut⟩ | ⟨status, hwindow, hspan⟩⟩
    · have hwhole : window = span := by
        have hnil : span.drop (decidingCap span 10 256) = [] :=
          List.length_eq_zero_iff.mp (by omega)
        rw [← hsplit, hnil, List.append_nil]
      rw [show decidingWindow span = span from hwhole]
    · rw [← hmore] at hcut
      rcases parsePageHeader_append _ hcut with htrunc | hsame
      · exact absurd htrunc hneed
      · rw [hsplit] at hsame
        rw [hsame]
    · rw [hwindow, hspan]

/-- A page header with a string of 243 bytes in a field that the parser skips, up to the byte 252;
`tail` are its last fields. -/
def longPageHeader (tail : Bytes) : Bytes :=
  [0x15, 2, 0x15, 4, 0x15, 4, 0x68, 0xF3, 1] ++ List.replicate 243 0 ++ tail

/-- Its last field is a double, of which the first window has three bytes. -/
def cutDouble : Bytes := longPageHeader ([0x17, 0, 0, 0, 0, 0, 0, 0, 0] ++ [0])

/-- Its last field is a list of 200 bytes, of which the first window has none. -/
def cutList : Bytes := longPageHeader ([0x19, 0xF3, 0xC8, 1] ++ List.replicate 200 7 ++ [0])

/-- The header of both. -/
def longHeader : ParsedPageHeader :=
  { ParsedPageHeader.zero with type := 1, uncompressedPageSize := 2, compressedPageSize := 2 }

/-- Of the first the window makes a header of another size, of the second an error. -/
theorem cutWindows_differ :
    readAndParsePageHeaderFread ⟨cutDouble, none⟩ 0 = some (.ok (longHeader, 254)) ∧
      parsePageHeader (remainingSpan cutDouble 0) = .ok (longHeader, 262) ∧
      readAndParsePageHeaderFread ⟨cutList, none⟩ 0 = some (.error .thriftDecode) ∧
      parsePageHeader (remainingSpan cutList 0) = .ok (longHeader, 457) := by
  decide +kernel

end Carquet
