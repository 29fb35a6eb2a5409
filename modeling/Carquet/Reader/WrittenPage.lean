import Carquet.Reader.PageLoad
import Carquet.Thrift.Truncation
import Carquet.Writer.PageFinalizeSpec

/-!
# A written page, fetched

What the page writer finalizes (page_writer.c:1496-1934) against the two ways of getting at a page
(page_reader.c:1728-2466). The windows of `read_and_parse_page_header_fread`
(page_reader.c:1851-1902) grow while the parser says `CARQUET_ERROR_THRIFT_TRUNCATED`; a header of
the page writer says so wherever it is cut (`parsePageHeader_cut`), so the windows grow to its end.

Main result: `writtenPage_fetched`.
-/

namespace Carquet

open Decoder

/-! ## The fields of a header -/

theorem advances_dataPageHeaderField (id : Int) (type : ThriftType) (h : ParsedDataPageHeader)
    (d : Decoder) (r : ParsedDataPageHeader × Decoder)
    (hr : dataPageHeaderField id type h d = some r) : d.Advances r.2 :=
  (@windowed_dataPageHeaderField [] id type h).advances d r hr

theorem advances_dataPageHeaderV2Field (id : Int) (type : ThriftType) (h : ParsedDataPageHeaderV2)
    (d : Decoder) (r : ParsedDataPageHeaderV2 × Decoder)
    (hr : dataPageHeaderV2Field id type h d = some r) : d.Advances r.2 :=
  (@windowed_dataPageHeaderV2Field [] id type h).advances d r hr

theorem advances_dictionaryPageHeaderField (id : Int) (type : ThriftType)
    (h : ParsedDictionaryPageHeader) (d : Decoder) (r : ParsedDictionaryPageHeader × Decoder)
    (hr : dictionaryPageHeaderField id type h d = some r) : d.Advances r.2 :=
  (@windowed_dictionaryPageHeaderField [] id type h).advances d r hr

theorem advances_pageHeaderField (id : Int) (type : ThriftType) (h : ParsedPageHeader)
    (d : Decoder) (r : ParsedPageHeader × Decoder) (hr : pageHeaderField id type h d = some r) :
    d.Advances r.2 :=
  (@windowed_pageHeaderField [] id type h).advances d r hr

/-- The statistics, which both bodies skip. -/
theorem robust_statistics {σ : Type}
    {handle : Int → ThriftType → σ → Decoder → Option (σ × Decoder)} (w : PageBuffers) (id : Int)
    (hid : -32768 ≤ id ∧ id < 32768) (set : σ → σ)
    (hhandle : ∀ (s : σ) (type : ThriftType) (d : Decoder), d.status = .ok →
      handle id type s d = skipping (set s) type d) :
    ∀ f ∈ statisticsFields w id, Robust handle 1 f := by
  intro f hf
  unfold statisticsFields at hf
  cases hstat : w.statistics with
  | none =>
    rw [hstat] at hf
    cases hf
  | some minMax =>
    rw [hstat] at hf
    obtain rfl := List.mem_singleton.mp hf
    refine ⟨rfl, hid, fun s => ⟨set s, ?_⟩, fun s => ?_⟩
    · have hskip : ReadsField handle 1 s (set s) ⟨id, .struct, encode statisticsShape
          (w.numNulls, minMax.2, minMax.1, ())⟩ :=
        readsField_skip ⟨trivial, trivial, trivial, trivial⟩ (Nat.le_refl 1) fun d hd =>
          hhandle s _ d hd
      rwa [encode_statistics] at hskip
    · refine truncates_skip (fun g hg => ?_) (fun g hg => ?_) (Nat.le_refl 1) (hhandle s .struct)
      · simp only [List.mem_cons, List.not_mem_nil, or_false] at hg
        rcases hg with rfl | rfl | rfl
        · exact .i64 (Int64.le_toInt _) (Int64.toInt_lt _)
        · exact .binary minMax.2.2
        · exact .binary minMax.1.2
      · simp only [List.mem_cons, List.not_mem_nil, or_false] at hg
        rcases hg with rfl | rfl | rfl <;> exact ⟨by dsimp only; decide, by dsimp only; decide⟩

theorem robust_dataPage (w : PageBuffers) :
    ∀ f ∈ dataPageFields w, Robust dataPageHeaderField 1 f := by
  intro f hf
  have hvalues := toI32_range w.numValues.toInt
  have hencoding := toInt_range w.encoding
  rcases List.mem_append.mp hf with hf | hf
  · simp only [List.mem_cons, List.not_mem_nil, or_false] at hf
    rcases hf with rfl | rfl | rfl | rfl
    · exact .i32 (by decide) hvalues (fun h v => { h with numValues := v }) fun _ _ _ => rfl
    · exact .i32 (by decide) hencoding (fun h v => { h with encoding := v }) fun _ _ _ => rfl
    · exact .i32 (by decide) (by decide) (fun h v => { h with definitionLevelEncoding := v })
        fun _ _ _ => rfl
    · exact .i32 (by decide) (by decide) (fun h v => { h with repetitionLevelEncoding := v })
        fun _ _ _ => rfl
  · exact robust_statistics w 5 (by decide) (fun h => { h with hasStatistics := true })
      (fun _ _ _ _ => rfl) f hf

theorem robust_dataPageV2 (w : PageBuffers) {defLevelsLen repLevelsLen : Int}
    (isCompressed : Bool) (hdef : -2147483648 ≤ defLevelsLen ∧ defLevelsLen < 2147483648)
    (hrep : -2147483648 ≤ repLevelsLen ∧ repLevelsLen < 2147483648) :
    ∀ f ∈ dataPageV2Fields w defLevelsLen repLevelsLen isCompressed,
      Robust dataPageHeaderV2Field 1 f := by
  intro f hf
  rcases List.mem_append.mp hf with hf | hf
  · simp only [List.mem_cons, List.not_mem_nil, or_false] at hf
    rcases hf with rfl | rfl | rfl | rfl | rfl | rfl | rfl
    · exact .i32 (by decide) (toI32_range _) (fun h v => { h with numValues := v })
        fun _ _ _ => rfl
    · exact .i32 (by decide) (toI32_range _) (fun h v => { h with numNulls := v }) fun _ _ _ => rfl
    · exact .i32 (by decide) (toI32_range _) (fun h v => { h with numRows := v }) fun _ _ _ => rfl
    · exact .i32 (by decide) (toInt_range _) (fun h v => { h with encoding := v }) fun _ _ _ => rfl
    · exact .i32 (by decide) hdef (fun h v => { h with definitionLevelsByteLength := v })
        fun _ _ _ => rfl
    · exact .i32 (by decide) hrep (fun h v => { h with repetitionLevelsByteLength := v })
        fun _ _ _ => rfl
    · exact .flag isCompressed (by decide) (fun h v => { h with isCompressed := v })
        fun _ _ _ _ => rfl
  · exact robust_statistics w 8 (by decide) (fun h => { h with hasStatistics := true })
      (fun _ _ _ _ => rfl) f hf

theorem robust_dictionaryPage (numEntries : Int32) :
    ∀ f ∈ dictionaryPageFields numEntries, Robust dictionaryPageHeaderField 1 f := by
  intro f hf
  unfold dictionaryPageFields at hf
  simp only [List.mem_cons, List.not_mem_nil, or_false] at hf
  rcases hf with rfl | rfl | rfl
  · exact .i32 (by decide) (toInt_range _) (fun h v => { h with numValues := v }) fun _ _ _ => rfl
  · exact .i32 (by decide) (by decide) (fun h v => { h with encoding := v }) fun _ _ _ => rfl
  · exact .flag false (by decide) (fun h v => { h with isSorted := v }) fun _ _ _ _ => rfl

theorem robust_prologue {pageType uncompressedSize compressedSize : Int} (crc : Option UInt32)
    (htype : -2147483648 ≤ pageType ∧ pageType < 2147483648)
    (huncompressed : -2147483648 ≤ uncompressedSize ∧ uncompressedSize < 2147483648)
    (hcompressed : -2147483648 ≤ compressedSize ∧ compressedSize < 2147483648) :
    ∀ f ∈ prologueFields pageType uncompressedSize compressedSize crc,
      Robust pageHeaderField 2 f := by
  intro f hf
  have hthree : f = ⟨1, .i32, zigzagBytes pageType⟩ ∨ f = ⟨2, .i32, zigzagBytes uncompressedSize⟩ ∨
      f = ⟨3, .i32, zigzagBytes compressedSize⟩ ∨
      ∃ crc : UInt32, f = ⟨4, .i32, zigzagBytes (toI32 crc.toNat)⟩ := by
    rcases List.mem_append.mp hf with hf | hf
    · simp only [List.mem_cons, List.not_mem_nil, or_false] at hf
      rcases hf with h | h | h
      · exact .inl h
      · exact .inr (.inl h)
      · exact .inr (.inr (.inl h))
    · cases crc with
      | none => cases hf
      | some crc => exact .inr (.inr (.inr ⟨crc, List.mem_singleton.mp hf⟩))
  rcases hthree with rfl | rfl | rfl | ⟨crc, rfl⟩
  · exact .i32 (by decide) htype (fun h v => { h with type := v }) fun _ _ hd =>
      if_neg (not_not.mpr hd)
  · exact .i32 (by decide) huncompressed (fun h v => { h with uncompressedPageSize := v })
      fun _ _ hd => if_neg (not_not.mpr hd)
  · exact .i32 (by decide) hcompressed (fun h v => { h with compressedPageSize := v })
      fun _ _ hd => if_neg (not_not.mpr hd)
  · exact .i32 (by decide) (toI32_range _) (fun h v => { h with hasCrc := true, crc := v })
      fun _ _ hd => if_neg (not_not.mpr hd)

/-- **Every field that the page writer writes is robust.** -/
theorem robust_header (job : PageJob) (payload : Bytes) :
    ∀ f ∈ job.headerFields payload, Robust pageHeaderField 2 f := by
  intro f hf
  cases job with
  | dictionary w plainPayload numEntries =>
    rcases List.mem_append.mp hf with hf | hf
    · exact robust_prologue _ (by decide) (toI32_range _) (toI32_range _) f hf
    · obtain rfl := List.mem_singleton.mp hf
      exact .struct (by decide) (·.dictionaryPageHeader)
        (fun h t => { h with dictionaryPageHeader := t }) (robust_dictionaryPage numEntries)
        (Nat.le_refl 2) advances_dictionaryPageHeaderField fun _ _ hd => if_neg (not_not.mpr hd)
  | data w =>
    unfold PageJob.headerFields at hf
    cases hv2 : w.dataPageV2 with
    | true =>
      simp only [hv2, if_true] at hf
      rcases List.mem_append.mp hf with hf | hf
      · exact robust_prologue _ (by decide) (toI32_range _) (toI32_range _) f hf
      · obtain rfl := List.mem_singleton.mp hf
        exact .struct (by decide)
          (fun h : ParsedPageHeader => ({ h.dataPageHeaderV2 with isCompressed := true } :
            ParsedDataPageHeaderV2))
          (fun h t => { h with dataPageHeaderV2 := t })
          (robust_dataPageV2 w w.isCompressed (toI32_range _) (toI32_range _)) (Nat.le_refl 2)
          advances_dataPageHeaderV2Field fun _ _ hd => if_neg (not_not.mpr hd)
    | false =>
      simp only [hv2, Bool.false_eq_true, if_false] at hf
      rcases List.mem_append.mp hf with hf | hf
      · exact robust_prologue _ (by decide) (toI32_range _) (toI32_range _) f hf
      · obtain rfl := List.mem_singleton.mp hf
        exact .struct (by decide) (·.dataPageHeader) (fun h t => { h with dataPageHeader := t })
          (robust_dataPage w) (Nat.le_refl 2) advances_dataPageHeaderField
          fun _ _ hd => if_neg (not_not.mpr hd)

/-- A header that is cut short. -/
theorem parsePageHeader_cut (job : PageJob) (payload : Bytes) {pre : Bytes}
    (hcut : Cut pre (structBytes (job.headerFields payload))) :
    parsePageHeader pre = .error .thriftTruncated := by
  obtain ⟨h, d, hread, -, heq⟩ := parsePageHeader_run pre
  have hstatus : d.status = .thriftTruncated :=
    readStruct_robust (robust_header job payload) advances_pageHeaderField (by decide) hcut hread
  rw [heq, if_pos (by rw [hstatus]; decide), hstatus]

/-! ## The loop over windows -/

/-- The last window decides. -/
theorem decides_decidingCap (span : Bytes) {fuel cap : Nat}
    (hfuel : maxPagePayloadSize ≤ cap * 4 ^ fuel) : Decides span (decidingCap span fuel cap) := by
  induction fuel generalizing cap with
  | zero => exact .inr (.inr (by simpa [decidingCap] using hfuel))
  | succ fuel ih =>
    rw [decidingCap]
    split
    · assumption
    · apply ih
      have hpos : 0 < 4 ^ fuel := Nat.pow_pos (by omega)
      rw [Nat.pow_succ, ← Nat.mul_assoc, Nat.mul_right_comm] at hfuel
      rcases Nat.le_total (cap * 4) maxPagePayloadSize with hle | hle
      · rwa [Nat.min_eq_left hle]
      · rw [Nat.min_eq_right hle]
        exact Nat.le_mul_of_pos_right _ hpos

/-- **A header that says where it is cut** is read whole, whatever the windows. -/
theorem parsePageHeader_decidingWindow {bytes rest : Bytes} {h : ParsedPageHeader}
    (hok : ∀ rest, parsePageHeader (bytes ++ rest) = .ok (h, bytes.length))
    (hcut : ∀ pre, Cut pre bytes → parsePageHeader pre = .error .thriftTruncated)
    (hlen : bytes.length ≤ maxPagePayloadSize) :
    parsePageHeader (decidingWindow (bytes ++ rest)) = .ok (h, bytes.length) := by
  have hdecides : Decides (bytes ++ rest) (decidingCap (bytes ++ rest) 10 256) :=
    decides_decidingCap _ (by decide)
  unfold decidingWindow
  generalize decidingCap (bytes ++ rest) 10 256 = cap at hdecides
  rcases Nat.lt_or_ge cap bytes.length with hlt | hge
  · -- a window inside the header does not decide
    have hpre : (bytes ++ rest).take cap = bytes.take cap :=
      List.take_append_of_le_length (Nat.le_of_lt hlt)
    have hwindow : Cut (bytes.take cap) bytes := by
      refine ⟨List.take_prefix cap bytes, fun heq => ?_⟩
      have hlength := congrArg List.length heq
      rw [List.length_take] at hlength
      omega
    rcases hdecides with hmore | hend | hmax
    · rw [hpre] at hmore
      exact absurd (hcut _ hwindow) hmore
    · rw [List.length_append] at hend
      omega
    · omega
  · rw [List.take_append, List.take_of_length_le hge]
    exact hok _

/-! ## The page in a file -/

theorem length_zigzagBytes_pos (v : Int) : 0 < (zigzagBytes v).length :=
  List.length_pos_of_ne_nil (varintBytes_ne_nil _)

theorem length_fieldHeaderBytes_pos (last : Int) (type : ThriftType) (id : Int) :
    0 < (fieldHeaderBytes last type id).length := by
  unfold fieldHeaderBytes
  dsimp only
  split <;> exact Nat.succ_pos _

/-- Eight bytes are in every header of the page writer. -/
theorem length_headerBytes (job : PageJob) (payload : Bytes) :
    8 ≤ (structBytes (job.headerFields payload)).length := by
  have hprologue : ∀ (pageType size compressed : Int) (crc : Option UInt32) (last : Int),
      6 ≤ (chainBytes last (prologueFields pageType size compressed crc)).length := by
    intro pageType size compressed crc last
    have h₁ := length_zigzagBytes_pos pageType
    have h₂ := length_zigzagBytes_pos size
    have h₃ := length_zigzagBytes_pos compressed
    have h₄ := length_fieldHeaderBytes_pos last .i32 1
    have h₅ := length_fieldHeaderBytes_pos 1 .i32 2
    have h₆ := length_fieldHeaderBytes_pos 2 .i32 3
    simp only [prologueFields, List.cons_append, List.nil_append, chainBytes, List.length_append]
    omega
  have hlast : ∀ (fs : List Field) (f : Field) (last : Int),
      1 + (chainBytes last fs).length ≤ (chainBytes last (fs ++ [f])).length := by
    intro fs f last
    have hpos := length_fieldHeaderBytes_pos (lastId last fs) f.type f.id
    rw [chainBytes_append, List.length_append, chainBytes, List.length_append, List.length_append]
    omega
  have hall : ∃ pageType size compressed crc f, job.headerFields payload =
      prologueFields pageType size compressed crc ++ [f] := by
    cases job with
    | dictionary w plainPayload numEntries => exact ⟨_, _, _, _, _, rfl⟩
    | data w =>
      by_cases hv2 : w.dataPageV2 = true
      · exact ⟨_, _, _, _, _, if_pos hv2⟩
      · exact ⟨_, _, _, _, _, if_neg hv2⟩
  obtain ⟨pageType, size, compressed, crc, f, hfields⟩ := hall
  rw [hfields, structBytes, List.length_append, List.length_singleton]
  have h₁ := hprologue pageType size compressed crc 0
  have h₂ := hlast (prologueFields pageType size compressed crc) f 0
  omega

/-- What a reader checks of the payload is in the header. -/
theorem header_payload (job : PageJob) (payload : Bytes) :
    (job.header toI32 payload).compressedPageSize = toI32 payload.length ∧
      ((job.header toI32 payload).hasCrc = true →
        (job.header toI32 payload).crc = toI32 (crc32 payload).toNat) := by
  have hcrc : (job.crc payload).isSome = true → job.crc payload = some (crc32 payload) := by
    unfold PageJob.crc
    cases job.writeCrc with
    | true => exact fun _ => rfl
    | false => exact fun h => by cases h
  have hprologue : ∀ pageType size : Int,
      (headerPrologue pageType size (toI32 payload.length) (job.crc payload)).hasCrc = true →
        (headerPrologue pageType size (toI32 payload.length) (job.crc payload)).crc =
          toI32 (crc32 payload).toNat := by
    intro pageType size h
    simp only [headerPrologue] at h ⊢
    rw [hcrc h]
  cases job with
  | dictionary w plainPayload numEntries => exact ⟨rfl, hprologue 2 (toI32 plainPayload.length)⟩
  | data w =>
    unfold PageJob.header
    by_cases hv2 : w.dataPageV2 = true
    · simp only [if_pos hv2]
      exact ⟨rfl, hprologue 3 _⟩
    · simp only [if_neg hv2]
      exact ⟨rfl, hprologue 0 _⟩

theorem toU32_toI32_of_uint32 (x : UInt32) : toU32 (toI32 x.toNat) = x.toNat := by
  have hlt := UInt32.toNat_lt x
  unfold toU32 toI32
  omega

/-- **A page that was written is fetched**, from the mapped file and with `fread`, through every
window and with every prebuffer, wherever it is in a file: the header that the writer described, and
the payload, whose checksum is right. -/
theorem writtenPage_fetched {env : PageEnv} {job : PageJob} {output payload : Bytes}
    {out : FinalizedPage} (h : finalizePage env job output = .ok out)
    (hpayload : job.payload env = .ok payload) {src : ColumnSource} {types : List Int}
    {allowEmpty : Bool} {before after : Bytes}
    (hfile : src.reader.file = before ++ out.outputBuffer.drop output.length ++ after)
    (hheader : (structBytes (job.headerFields payload)).length ≤ maxPagePayloadSize)
    (hsize : payload.length ≤ maxPagePayloadSize)
    (htype : (job.header toI32 payload).type ∈ types)
    (hvalid : validatePagePayloadSize (job.header toI32 payload) allowEmpty = .ok ()) :
    fetchPage src (freadAccess src.reader) types allowEmpty before.length =
        .ok ⟨job.header toI32 payload, (structBytes (job.headerFields payload)).length, payload⟩ ∧
      fetchPage src (mmapAccess src.reader.file) types allowEmpty before.length =
        .ok ⟨job.header toI32 payload, (structBytes (job.headerFields payload)).length,
          payload⟩ := by
  obtain ⟨payload', hpayload', hout⟩ := finalizePage_eq h
  obtain rfl := Except.ok.inj (hpayload.symm.trans hpayload')
  have hspan : src.reader.file =
      before ++ (structBytes (job.headerFields payload) ++ (payload ++ after)) := by
    rw [hfile, hout]
    simp only [List.append_assoc, List.drop_left]
  have hok := fun rest => parsePageHeader_bytes (readsFields_header job payload) rest
  have height := length_headerBytes job payload
  have hremaining : remainingSpan src.reader.file before.length =
      structBytes (job.headerFields payload) ++ (payload ++ after) := by
    rw [remainingSpan, if_neg (by omega), hspan, Int.toNat_natCast, List.drop_left]
  have hfread : (freadAccess src.reader).readHeader before.length =
      .ok (job.header toI32 payload, (structBytes (job.headerFields payload)).length) := by
    simp only [freadAccess]
    rw [readAndParsePageHeaderFread_eq, hremaining, List.length_append, if_neg (by omega),
      parsePageHeader_decidingWindow hok (fun _ => parsePageHeader_cut job payload) hheader]
    rfl
  have hmmap : (mmapAccess src.reader.file).readHeader before.length =
      .ok (job.header toI32 payload, (structBytes (job.headerFields payload)).length) := by
    have hlength : before.length < src.reader.file.length := by
      rw [hspan, List.length_append, List.length_append]
      omega
    simp only [mmapAccess]
    rw [if_neg (by omega), Int.toNat_natCast, hspan, List.drop_left, hok]
  have hagree : HeadersAgree src before.length := hfread.trans hmmap.symm
  rw [fetchPage_agree hagree, and_self]
  obtain ⟨hcompressed, hcrc⟩ := header_payload job payload
  have hmax : payload.length < 2147483648 := Nat.lt_of_le_of_lt hsize (by decide)
  rw [toI32_of_range (by omega) (by omega)] at hcompressed
  have hin : validatePagePayloadSpan src.reader.file.length before.length
      (structBytes (job.headerFields payload)).length
      (job.header toI32 payload).compressedPageSize = .ok () := by
    rw [hcompressed, validatePagePayloadSpan, hspan]
    simp only [List.length_append, Int.toNat_natCast]
    rw [if_neg (by omega), if_neg (by omega)]
  have hdata : (mmapAccess src.reader.file).readData
      (before.length + (structBytes (job.headerFields payload)).length) payload.length =
        .ok payload := by
    have hstart : ((before.length : Int) + (structBytes (job.headerFields payload)).length).toNat =
        (before ++ structBytes (job.headerFields payload)).length := by
      rw [List.length_append]
      omega
    simp only [mmapAccess]
    rw [hstart, hspan, ← List.append_assoc, List.drop_left, List.take_left]
  rw [fetchPage, hmmap]
  simp only [bind, Except.bind]
  rw [if_neg (not_not.mpr htype), hvalid, hin]
  simp only
  rw [hcompressed, Int.toNat_natCast, hdata]
  simp only
  rw [if_neg]
  rintro ⟨hhas, -, hne⟩
  rw [hcrc hhas, toU32_toI32_of_uint32] at hne
  exact hne rfl

end Carquet
