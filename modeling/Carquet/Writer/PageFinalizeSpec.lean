import Carquet.Thrift.PageHeader
import Carquet.Thrift.SkipSpec
import Carquet.Writer.PageFinalize

/-!
# Reading a page header back
-/

namespace Carquet

open Decoder

/-! ## What is written -/

/-- The fields that every page header begins with. -/
def prologueFields (pageType uncompressedSize compressedSize : Int) (crc : Option UInt32) :
    List Field :=
  [⟨1, .i32, zigzagBytes pageType⟩, ⟨2, .i32, zigzagBytes uncompressedSize⟩,
    ⟨3, .i32, zigzagBytes compressedSize⟩] ++
  match crc with
  | some crc => [⟨4, .i32, zigzagBytes (toI32 crc.toNat)⟩]
  | none => []

/-- The statistics of a data page, in the field `id`. -/
def statisticsFields (w : PageBuffers) (id : Int) : List Field :=
  match w.statistics with
  | some minMax => [⟨id, .struct, structBytes [⟨3, .i64, zigzagBytes w.numNulls.toInt⟩,
      ⟨5, .binary, binaryBytes minMax.2.1⟩, ⟨6, .binary, binaryBytes minMax.1.1⟩]⟩]
  | none => []

def dataPageFields (w : PageBuffers) : List Field :=
  [⟨1, .i32, zigzagBytes (toI32 w.numValues.toInt)⟩, ⟨2, .i32, zigzagBytes w.encoding.toInt⟩,
    ⟨3, .i32, zigzagBytes 3⟩, ⟨4, .i32, zigzagBytes 3⟩] ++ statisticsFields w 5

def dataPageV2Fields (w : PageBuffers) (defLevelsLen repLevelsLen : Int) (isCompressed : Bool) :
    List Field :=
  [⟨1, .i32, zigzagBytes (toI32 w.numValues.toInt)⟩,
    ⟨2, .i32, zigzagBytes (toI32 w.numNulls.toInt)⟩,
    ⟨3, .i32, zigzagBytes (toI32 w.numRows.toInt)⟩, ⟨4, .i32, zigzagBytes w.encoding.toInt⟩,
    ⟨5, .i32, zigzagBytes defLevelsLen⟩, ⟨6, .i32, zigzagBytes repLevelsLen⟩,
    ⟨7, if isCompressed then .boolTrue else .boolFalse, []⟩] ++ statisticsFields w 8

def dictionaryPageFields (numEntries : Int32) : List Field :=
  [⟨1, .i32, zigzagBytes numEntries.toInt⟩, ⟨2, .i32, zigzagBytes 0⟩, ⟨3, .boolFalse, []⟩]

variable {buffer : Bytes} {ids : List Int} {fs : List Field}

theorem writePagePrologue_written (pageType uncompressedSize compressedSize : Int)
    (crc : Option UInt32) :
    writePagePrologue pageType uncompressedSize compressedSize crc (written buffer ids fs) =
      written buffer ids (fs ++ prologueFields pageType uncompressedSize compressedSize crc) := by
  cases crc with
  | none =>
    simp only [writePagePrologue, Encoder.writeInt, written_field, prologueFields,
      List.append_assoc, List.cons_append, List.nil_append, List.append_nil]
  | some crc =>
    simp only [writePagePrologue, Encoder.writeInt, written_field, prologueFields,
      List.append_assoc, List.cons_append, List.nil_append]

theorem writeStatisticsField_written (w : PageBuffers) (id : Int)
    (h : (id :: ids).length < thriftEncoderMaxNesting) :
    writeStatisticsField w id (written buffer ids fs) =
      written buffer ids (fs ++ statisticsFields w id) := by
  unfold writeStatisticsField statisticsFields
  cases w.statistics with
  | none => simp only [List.append_nil]
  | some minMax =>
    simp only
    rw [written_open id h]
    simp only [Encoder.writeInt, Encoder.writeBinary, written_field, List.nil_append,
      List.cons_append]
    rw [written_close]

/-- **The header of a data page.** -/
theorem appendDataPageHeader_eq {env : PageEnv} {output : Bytes} {w : PageBuffers}
    {uncompressedSize compressedSize : Int} {pageCrc : UInt32} {out : Bytes}
    (h : appendDataPageHeader env output w uncompressedSize compressedSize pageCrc = .ok out) :
    out = output ++ structBytes (prologueFields 0 uncompressedSize compressedSize
      (if w.writeCrc then some pageCrc else none) ++ [⟨5, .struct, structBytes (dataPageFields w)⟩]) := by
  obtain ⟨-, -, h⟩ := bind_eq_ok.mp h
  rw [writeStructBegin_written output (by decide)] at h
  simp only [writePagePrologue_written] at h
  rw [written_open 5 (by decide)] at h
  simp only [Encoder.writeInt, written_field, List.nil_append, List.cons_append] at h
  rw [writeStatisticsField_written w 5 (by decide)] at h
  rw [written_close] at h
  rw [writeStructEnd_written] at h
  exact (Except.ok.inj h).symm

/-- **The header of a data page of the second version.** -/
theorem appendDataPageHeaderV2_eq {env : PageEnv} {output : Bytes} {w : PageBuffers}
    {uncompressedSize compressedSize : Int} {pageCrc : UInt32} {defLevelsLen repLevelsLen : Int}
    {isCompressed : Bool} {out : Bytes}
    (h : appendDataPageHeaderV2 env output w uncompressedSize compressedSize pageCrc defLevelsLen
      repLevelsLen isCompressed = .ok out) :
    out = output ++ structBytes (prologueFields 3 uncompressedSize compressedSize
      (if w.writeCrc then some pageCrc else none) ++
        [⟨8, .struct, structBytes (dataPageV2Fields w defLevelsLen repLevelsLen isCompressed)⟩]) := by
  obtain ⟨-, -, h⟩ := bind_eq_ok.mp h
  rw [writeStructBegin_written output (by decide)] at h
  simp only [writePagePrologue_written] at h
  rw [written_open 8 (by decide)] at h
  simp only [Encoder.writeInt, written_field, List.nil_append, List.cons_append] at h
  rw [written_flag, writeStatisticsField_written w 8 (by decide), written_close,
    writeStructEnd_written] at h
  exact (Except.ok.inj h).symm

/-- The header of a dictionary page. -/
def dictionaryHeaderFields (uncompressedSize compressedSize : Int) (crc : Option UInt32)
    (numEntries : Int32) : List Field :=
  prologueFields 2 uncompressedSize compressedSize crc ++
    [⟨7, .struct, structBytes (dictionaryPageFields numEntries)⟩]

theorem emitDictionaryPage_eq {env : PageEnv} {w : PageBuffers} {output plainPayload : Bytes}
    {numEntries : Int32} {out : FinalizedPage}
    (h : emitDictionaryPage env w output plainPayload numEntries = .ok out) :
    ∃ compressed, compressData env w.compression plainPayload = .ok compressed ∧
      out.outputBuffer = output ++ structBytes (dictionaryHeaderFields
        (toI32 plainPayload.length) (toI32 compressed.length)
        (if w.writeCrc then some (crc32 compressed) else none) numEntries) ++
        compressed := by
  obtain ⟨compressed, hcompressed, h⟩ := bind_eq_ok.mp h
  obtain ⟨-, -, h⟩ := bind_eq_ok.mp h
  rw [writeStructBegin_written output (by decide)] at h
  simp only [writePagePrologue_written] at h
  rw [written_open 7 (by decide)] at h
  simp only [Encoder.writeInt, written_field, List.nil_append, List.cons_append] at h
  rw [written_flag, written_close, writeStructEnd_written] at h
  exact ⟨compressed, hcompressed, congrArg FinalizedPage.outputBuffer (Except.ok.inj h).symm⟩

/-! ## What is read -/

theorem toInt_range (v : Int32) : -2147483648 ≤ v.toInt ∧ v.toInt < 2147483648 :=
  ⟨by simpa using v.le_toInt, by simpa using v.toInt_lt⟩

/-- What a header begins with. -/
def headerPrologue (pageType uncompressedSize compressedSize : Int) (crc : Option UInt32) :
    ParsedPageHeader :=
  { ParsedPageHeader.zero with
    type := pageType
    uncompressedPageSize := uncompressedSize
    compressedPageSize := compressedSize
    hasCrc := crc.isSome
    crc := match crc with
      | some crc => toI32 crc.toNat
      | none => 0 }

/-- The fields that every page header begins with. -/
theorem readsFields_prologue {pageType uncompressedSize compressedSize : Int}
    (crc : Option UInt32) (htype : -2147483648 ≤ pageType ∧ pageType < 2147483648)
    (huncompressed : -2147483648 ≤ uncompressedSize ∧ uncompressedSize < 2147483648)
    (hcompressed : -2147483648 ≤ compressedSize ∧ compressedSize < 2147483648) :
    ReadsFields pageHeaderField 2 .zero
      (prologueFields pageType uncompressedSize compressedSize crc)
      (headerPrologue pageType uncompressedSize compressedSize crc) := by
  have hthree : ReadsFields pageHeaderField 2 .zero
      [⟨1, .i32, zigzagBytes pageType⟩, ⟨2, .i32, zigzagBytes uncompressedSize⟩,
        ⟨3, .i32, zigzagBytes compressedSize⟩]
      (headerPrologue pageType uncompressedSize compressedSize none) := by
    refine .field (readsField_i32 htype.1 htype.2 fun d hd => if_neg (not_not.mpr hd)) ?_ rfl
      (by decide)
    refine .field (readsField_i32 huncompressed.1 huncompressed.2 fun d hd =>
      if_neg (not_not.mpr hd)) ?_ rfl (by decide)
    refine .field (readsField_i32 hcompressed.1 hcompressed.2 fun d hd =>
      if_neg (not_not.mpr hd)) ?_ rfl (by decide)
    exact .nil _
  refine hthree.append ?_
  cases crc with
  | none => exact .nil _
  | some crc =>
    have hrange := toI32_range crc.toNat
    refine .field (readsField_i32 hrange.1 hrange.2 fun d hd => if_neg (not_not.mpr hd)) ?_ rfl
      (by decide)
    exact .nil _

theorem readsField_dataPageHeader {h : ParsedPageHeader} {fs : List Field}
    {t : ParsedDataPageHeader}
    (hfields : ReadsFields dataPageHeaderField 1 h.dataPageHeader fs t) :
    ReadsField pageHeaderField 2 h { h with dataPageHeader := t } ⟨5, .struct, structBytes fs⟩ :=
  readsField_struct (fun t => { h with dataPageHeader := t }) hfields (Nat.le_refl 2) fun _ hd =>
    if_neg (not_not.mpr hd)

theorem readsField_dictionaryPageHeader {h : ParsedPageHeader} {fs : List Field}
    {t : ParsedDictionaryPageHeader}
    (hfields : ReadsFields dictionaryPageHeaderField 1 h.dictionaryPageHeader fs t) :
    ReadsField pageHeaderField 2 h { h with dictionaryPageHeader := t }
      ⟨7, .struct, structBytes fs⟩ :=
  readsField_struct (fun t => { h with dictionaryPageHeader := t }) hfields (Nat.le_refl 2) fun _ hd =>
    if_neg (not_not.mpr hd)

theorem readsField_dataPageHeaderV2 {h : ParsedPageHeader} {fs : List Field}
    {t : ParsedDataPageHeaderV2}
    (hfields : ReadsFields dataPageHeaderV2Field 1
      { h.dataPageHeaderV2 with isCompressed := true } fs t) :
    ReadsField pageHeaderField 2 h { h with dataPageHeaderV2 := t } ⟨8, .struct, structBytes fs⟩ :=
  readsField_struct (fun t => { h with dataPageHeaderV2 := t }) hfields (Nat.le_refl 2) fun _ hd =>
    if_neg (not_not.mpr hd)

/-- The type of the statistics in a page header: `null_count`, `max_value`, `min_value`. -/
def statisticsShape : Shape := .struct (.cons 3 .i64 (.cons 5 .binary (.cons 6 .binary .nil)))

theorem encode_statistics (numNulls : Int64) (minMax : StatBytes × StatBytes) :
    encode statisticsShape (numNulls, minMax.2, minMax.1, ()) =
      structBytes [⟨3, .i64, zigzagBytes numNulls.toInt⟩, ⟨5, .binary, binaryBytes minMax.2.1⟩,
        ⟨6, .binary, binaryBytes minMax.1.1⟩] := by
  have h3 : (3 : Int16).toInt = 3 := rfl
  have h5 : (5 : Int16).toInt = 5 := rfl
  have h6 : (6 : Int16).toInt = 6 := rfl
  simp [statisticsShape, encode, encodeFields, structBytes, chainBytes, Shape.fieldType,
    Shape.wireType, h3, h5, h6]

/-- The statistics of a page are skipped, and that they are there is kept. -/
theorem readsFields_statistics {σ : Type}
    {handle : Int → ThriftType → σ → Decoder → Option (σ × Decoder)} {s s' : σ}
    (w : PageBuffers) (id : Int) (hid : -32768 ≤ id ∧ id < 32768)
    (hhandle : ∀ (type : ThriftType) (d : Decoder), d.status = .ok →
      handle id type s d = skipping s' type d) :
    ReadsFields handle 1 s (statisticsFields w id) (if w.statistics.isSome then s' else s) := by
  unfold statisticsFields
  cases w.statistics with
  | none => exact .nil s
  | some minMax =>
    have hskip : ReadsField handle 1 s s' ⟨id, .struct, encode statisticsShape
        (w.numNulls, minMax.2, minMax.1, ())⟩ :=
      readsField_skip ⟨trivial, trivial, trivial, trivial⟩ (Nat.le_refl 1) fun d hd =>
        hhandle _ d hd
    rw [encode_statistics] at hskip
    exact .field hskip (.nil s') rfl hid

theorem readsFields_dataPage (w : PageBuffers) :
    ReadsFields dataPageHeaderField 1 ⟨0, 0, 0, 0, false⟩ (dataPageFields w)
      ⟨toI32 w.numValues.toInt, w.encoding.toInt, 3, 3, w.statistics.isSome⟩ := by
  have hvalues := toI32_range w.numValues.toInt
  have hencoding := toInt_range w.encoding
  have hfour : ReadsFields dataPageHeaderField 1 ⟨0, 0, 0, 0, false⟩
      [⟨1, .i32, zigzagBytes (toI32 w.numValues.toInt)⟩, ⟨2, .i32, zigzagBytes w.encoding.toInt⟩,
        ⟨3, .i32, zigzagBytes 3⟩, ⟨4, .i32, zigzagBytes 3⟩]
      ⟨toI32 w.numValues.toInt, w.encoding.toInt, 3, 3, false⟩ := by
    refine .field (readsField_i32 hvalues.1 hvalues.2 fun _ _ => rfl) ?_ rfl (by decide)
    refine .field (readsField_i32 hencoding.1 hencoding.2 fun _ _ => rfl) ?_ rfl (by decide)
    refine .field (readsField_i32 (by decide) (by decide) fun _ _ => rfl) ?_ rfl (by decide)
    refine .field (readsField_i32 (by decide) (by decide) fun _ _ => rfl) ?_ rfl (by decide)
    exact .nil _
  have h := hfour.append (readsFields_statistics w 5 (by decide) fun _ _ _ => rfl)
  cases hstat : w.statistics.isSome with
  | true => rwa [hstat, if_pos rfl] at h
  | false => rwa [hstat, if_neg Bool.false_ne_true] at h

theorem readsFields_dataPageV2 (w : PageBuffers) {defLevelsLen repLevelsLen : Int}
    (isCompressed : Bool) (hdef : -2147483648 ≤ defLevelsLen ∧ defLevelsLen < 2147483648)
    (hrep : -2147483648 ≤ repLevelsLen ∧ repLevelsLen < 2147483648) :
    ReadsFields dataPageHeaderV2Field 1
      ⟨0, 0, 0, 0, 0, 0, true, false⟩
      (dataPageV2Fields w defLevelsLen repLevelsLen isCompressed)
      ⟨toI32 w.numValues.toInt, toI32 w.numNulls.toInt, toI32 w.numRows.toInt, w.encoding.toInt,
        defLevelsLen, repLevelsLen, isCompressed, w.statistics.isSome⟩ := by
  have hvalues := toI32_range w.numValues.toInt
  have hnulls := toI32_range w.numNulls.toInt
  have hrows := toI32_range w.numRows.toInt
  have hencoding := toInt_range w.encoding
  have hseven : ReadsFields dataPageHeaderV2Field 1
      ⟨0, 0, 0, 0, 0, 0, true, false⟩
      [⟨1, .i32, zigzagBytes (toI32 w.numValues.toInt)⟩,
        ⟨2, .i32, zigzagBytes (toI32 w.numNulls.toInt)⟩,
        ⟨3, .i32, zigzagBytes (toI32 w.numRows.toInt)⟩, ⟨4, .i32, zigzagBytes w.encoding.toInt⟩,
        ⟨5, .i32, zigzagBytes defLevelsLen⟩, ⟨6, .i32, zigzagBytes repLevelsLen⟩,
        ⟨7, if isCompressed then .boolTrue else .boolFalse, []⟩]
      ⟨toI32 w.numValues.toInt, toI32 w.numNulls.toInt, toI32 w.numRows.toInt, w.encoding.toInt,
        defLevelsLen, repLevelsLen, isCompressed, false⟩ := by
    refine .field (readsField_i32 hvalues.1 hvalues.2 fun _ _ => rfl) ?_ rfl (by decide)
    refine .field (readsField_i32 hnulls.1 hnulls.2 fun _ _ => rfl) ?_ rfl (by decide)
    refine .field (readsField_i32 hrows.1 hrows.2 fun _ _ => rfl) ?_ rfl (by decide)
    refine .field (readsField_i32 hencoding.1 hencoding.2 fun _ _ => rfl) ?_ rfl (by decide)
    refine .field (readsField_i32 hdef.1 hdef.2 fun _ _ => rfl) ?_ rfl (by decide)
    refine .field (readsField_i32 hrep.1 hrep.2 fun _ _ => rfl) ?_ rfl (by decide)
    refine .field (readsField_bool fun _ _ _ => rfl) ?_ (by cases isCompressed <;> rfl) (by decide)
    exact .nil _
  have h := hseven.append (readsFields_statistics w 8 (by decide) fun _ _ _ => rfl)
  cases hstat : w.statistics.isSome with
  | true => rwa [hstat, if_pos rfl] at h
  | false => rwa [hstat, if_neg Bool.false_ne_true] at h

theorem readsFields_dictionaryPage (numEntries : Int32) :
    ReadsFields dictionaryPageHeaderField 1 ⟨0, 0, false⟩
      (dictionaryPageFields numEntries) ⟨numEntries.toInt, 0, false⟩ := by
  have hentries := toInt_range numEntries
  refine .field (readsField_i32 hentries.1 hentries.2 fun _ _ => rfl) ?_ rfl (by decide)
  refine .field (readsField_i32 (by decide) (by decide) fun _ _ => rfl) ?_ rfl (by decide)
  refine .field (readsField_bool (v := false) fun _ _ _ => rfl) ?_ rfl (by decide)
  exact .nil _

/-! ## The page -/

/-- A page to finalize: a data page, or the dictionary page of a column chunk. -/
inductive PageJob where
  | data (w : PageBuffers)
  | dictionary (w : PageBuffers) (plainPayload : Bytes) (numEntries : Int32)

/-- The call that finalizes it. -/
def finalizePage (env : PageEnv) : PageJob → Bytes → Except Status FinalizedPage
  | .data w, output => finalizeToBuffer env w output
  | .dictionary w plainPayload numEntries, output =>
    emitDictionaryPage env w output plainPayload numEntries

/-- The bytes behind the header. -/
def PageJob.payload (env : PageEnv) : PageJob → Except Status Bytes
  | .data w =>
    if w.dataPageV2 then do
      let values ← v2Values env w
      return w.repLevelsBuffer ++ w.defLevelsBuffer ++ values
    else compressData env w.compression (w.repLevelsBuffer ++ w.defLevelsBuffer ++ w.valuesBuffer)
  | .dictionary w plainPayload _ => compressData env w.compression plainPayload

def PageJob.writeCrc : PageJob → Bool
  | .data w => w.writeCrc
  | .dictionary w _ _ => w.writeCrc

/-- The CRC in the header. -/
def PageJob.crc (job : PageJob) (payload : Bytes) : Option UInt32 :=
  if job.writeCrc then some (crc32 payload) else none

/-- The header of the page, its counts and sizes as `i32` gives them: what they are (`id`), or
what is left of them in 32 bits (`toI32`). -/
def PageJob.header (i32 : Int → Int) (job : PageJob) (payload : Bytes) : ParsedPageHeader :=
  match job with
  | .data w =>
    let size := i32 (w.repLevelsBuffer.length + w.defLevelsBuffer.length +
      w.valuesBuffer.length : Nat)
    if w.dataPageV2 then
      { headerPrologue 3 size (i32 payload.length) (job.crc payload) with
        dataPageHeaderV2 :=
          ⟨i32 w.numValues.toInt, i32 w.numNulls.toInt, i32 w.numRows.toInt, w.encoding.toInt,
            i32 w.defLevelsBuffer.length, i32 w.repLevelsBuffer.length, w.isCompressed,
            w.statistics.isSome⟩ }
    else
      { headerPrologue 0 size (i32 payload.length) (job.crc payload) with
        dataPageHeader := ⟨i32 w.numValues.toInt, w.encoding.toInt, 3, 3, w.statistics.isSome⟩ }
  | .dictionary _ plainPayload numEntries =>
    { headerPrologue 2 (i32 plainPayload.length) (i32 payload.length) (job.crc payload) with
      dictionaryPageHeader := ⟨numEntries.toInt, 0, false⟩ }

/-- Its fields. -/
def PageJob.headerFields (job : PageJob) (payload : Bytes) : List Field :=
  match job with
  | .data w =>
    let size := toI32 (w.repLevelsBuffer.length + w.defLevelsBuffer.length +
      w.valuesBuffer.length : Nat)
    if w.dataPageV2 then
      prologueFields 3 size (toI32 payload.length) (job.crc payload) ++ [⟨8, .struct, structBytes
        (dataPageV2Fields w (toI32 w.defLevelsBuffer.length) (toI32 w.repLevelsBuffer.length)
          w.isCompressed)⟩]
    else
      prologueFields 0 size (toI32 payload.length) (job.crc payload) ++
        [⟨5, .struct, structBytes (dataPageFields w)⟩]
  | .dictionary _ plainPayload numEntries =>
    dictionaryHeaderFields (toI32 plainPayload.length) (toI32 payload.length) (job.crc payload)
      numEntries

theorem computePageCrc_eq (w : PageBuffers) : computePageCrc w = if w.writeCrc then
    crc32 (w.repLevelsBuffer ++ w.defLevelsBuffer ++ w.valuesBuffer) else 0 := by
  have hskip : ∀ (crc : UInt32) (data : Bytes),
      (if data = [] then crc else crc32Update crc data) = crc32Update crc data := by
    intro crc data
    split
    · rename_i h
      rw [h, crc32Update_nil]
    · rfl
  simp only [computePageCrc, hskip, crc32, crc32Update_append]

theorem some_ite (c : Bool) (crc : UInt32) :
    (if c then some (if c then crc else 0) else none) = if c then some crc else none := by
  cases c <;> rfl

/-- **A finalized page** is its header, then its payload. -/
theorem finalizePage_eq {env : PageEnv} {job : PageJob} {output : Bytes} {out : FinalizedPage}
    (h : finalizePage env job output = .ok out) :
    ∃ payload, job.payload env = .ok payload ∧
      out.outputBuffer = output ++ structBytes (job.headerFields payload) ++ payload := by
  cases job with
  | dictionary w plainPayload numEntries =>
    obtain ⟨compressed, hcompressed, hout⟩ := emitDictionaryPage_eq h
    exact ⟨compressed, hcompressed, hout⟩
  | data w =>
    simp only [finalizePage, finalizeToBuffer] at h
    split at h
    · rename_i hv2
      rw [finalizeV2ToBuffer] at h
      obtain ⟨values, hvalues, h⟩ := bind_eq_ok.mp h
      obtain ⟨-, -, h⟩ := bind_eq_ok.mp h
      obtain ⟨header, hheader, h⟩ := bind_eq_ok.mp h
      refine ⟨w.repLevelsBuffer ++ w.defLevelsBuffer ++ values, ?_, ?_⟩
      · simp only [PageJob.payload, if_pos hv2]
        exact bind_eq_ok.mpr ⟨values, hvalues, rfl⟩
      · have hbuffer := congrArg FinalizedPage.outputBuffer (Except.ok.inj h).symm
        rw [appendDataPageHeaderV2_eq hheader] at hbuffer
        rw [hbuffer]
        have hlen : (w.repLevelsBuffer ++ w.defLevelsBuffer ++ values).length =
            w.repLevelsBuffer.length + w.defLevelsBuffer.length + values.length := by
          rw [List.length_append, List.length_append]
        simp only [PageJob.headerFields, if_pos hv2, PageJob.crc, PageJob.writeCrc, some_ite, crc32,
          crc32Update_append, hlen]
        simp only [List.append_assoc]
    · rename_i hv2
      split at h
      · rename_i hplain
        obtain ⟨-, -, h⟩ := bind_eq_ok.mp h
        obtain ⟨header, hheader, h⟩ := bind_eq_ok.mp h
        refine ⟨w.repLevelsBuffer ++ w.defLevelsBuffer ++ w.valuesBuffer, ?_, ?_⟩
        · simp only [PageJob.payload, if_neg hv2, compressData, if_pos hplain]
        · have hbuffer := congrArg FinalizedPage.outputBuffer (Except.ok.inj h).symm
          rw [appendDataPageHeader_eq hheader, computePageCrc_eq] at hbuffer
          rw [hbuffer]
          simp only [PageJob.headerFields, if_neg hv2, PageJob.crc, PageJob.writeCrc, some_ite,
            List.length_append]
          simp only [List.append_assoc]
      · obtain ⟨compressed, hcompressed, h⟩ := bind_eq_ok.mp h
        obtain ⟨-, -, h⟩ := bind_eq_ok.mp h
        obtain ⟨header, hheader, h⟩ := bind_eq_ok.mp h
        refine ⟨compressed, by simp only [PageJob.payload, if_neg hv2, hcompressed], ?_⟩
        have hbuffer := congrArg FinalizedPage.outputBuffer (Except.ok.inj h).symm
        rw [appendDataPageHeader_eq hheader] at hbuffer
        rw [hbuffer]
        simp only [PageJob.headerFields, if_neg hv2, PageJob.crc, PageJob.writeCrc, some_ite,
          List.length_append]
        rfl

/-- A struct reads back from where it begins to its last byte. -/
theorem parsePageHeader_bytes {fs : List Field} {h : ParsedPageHeader}
    (hfields : ReadsFields pageHeaderField 2 .zero fs h) (rest : Bytes) :
    parsePageHeader (structBytes fs ++ rest) = .ok (h, (structBytes fs).length) := by
  obtain ⟨p', b', hread⟩ := readStruct_bytes hfields [] (by decide) false false rest
  have hlen : (structBytes fs ++ rest).length - rest.length = (structBytes fs).length := by
    rw [List.length_append]
    omega
  rw [parsePageHeader, Decoder.init, hread]
  simp only [ne_eq, not_true_eq_false, if_false, hlen]

theorem readsFields_header (job : PageJob) (payload : Bytes) :
    ReadsFields pageHeaderField 2 .zero (job.headerFields payload) (job.header toI32 payload) := by
  have hcompressed := toI32_range payload.length
  cases job with
  | dictionary w plainPayload numEntries =>
    have hsize := toI32_range plainPayload.length
    refine (readsFields_prologue _ (by decide) hsize hcompressed).append ?_
    exact .field (readsField_dictionaryPageHeader (readsFields_dictionaryPage numEntries)) (.nil _)
      rfl (by decide)
  | data w =>
    have hsize := toI32_range (w.repLevelsBuffer.length + w.defLevelsBuffer.length +
      w.valuesBuffer.length : Nat)
    unfold PageJob.header PageJob.headerFields
    cases hv2 : w.dataPageV2 with
    | true =>
      simp only [hv2, if_true]
      refine (readsFields_prologue _ (by decide) hsize hcompressed).append ?_
      exact .field (readsField_dataPageHeaderV2 (readsFields_dataPageV2 w w.isCompressed
        (toI32_range _) (toI32_range _))) (.nil _) rfl (by decide)
    | false =>
      simp only [hv2, Bool.false_eq_true, if_false]
      refine (readsFields_prologue _ (by decide) hsize hcompressed).append ?_
      exact .field (readsField_dataPageHeader (readsFields_dataPage w)) (.nil _) rfl (by decide)

/-! ## What reads back -/

/-- A number that 32 bits hold. -/
def FitsI32 (x : Int) : Prop := -2147483648 ≤ x ∧ x < 2147483648

theorem toI32_eq_self_iff {x : Int} : toI32 x = x ↔ FitsI32 x := by
  refine ⟨fun h => ?_, fun h => toI32_of_range h.1 h.2⟩
  have := toI32_range x
  rwa [h] at this

/-- The header describes the page, and the payload follows it where parsing stopped. -/
def ReadsBack (env : PageEnv) (job : PageJob) (output : Bytes) (out : FinalizedPage) : Prop :=
  ∃ header payload, out.outputBuffer = output ++ header ++ payload ∧
    job.payload env = .ok payload ∧
    ∀ rest, parsePageHeader (header ++ payload ++ rest) = .ok (job.header id payload, header.length)

/-- 32 bits hold the page's counts and sizes. -/
def PageJob.Fits (env : PageEnv) (job : PageJob) : Prop :=
  (∀ payload, job.payload env = .ok payload → FitsI32 payload.length) ∧
  match job with
  | .data w =>
    FitsI32 (w.repLevelsBuffer.length + w.defLevelsBuffer.length + w.valuesBuffer.length : Nat) ∧
    FitsI32 w.numValues.toInt ∧
    (w.dataPageV2 = true → FitsI32 w.numNulls.toInt ∧ FitsI32 w.numRows.toInt)
  | .dictionary _ plainPayload _ => FitsI32 plainPayload.length

theorem header_eq_iff {env : PageEnv} {job : PageJob} {payload : Bytes}
    (h : job.payload env = .ok payload) :
    job.header toI32 payload = job.header id payload ↔ job.Fits env := by
  have hpayload : (∀ p, job.payload env = .ok p → FitsI32 p.length) ↔ FitsI32 payload.length :=
    ⟨fun hall => hall payload h, fun hfits p hp => Except.ok.inj (h.symm.trans hp) ▸ hfits⟩
  unfold PageJob.Fits
  rw [hpayload]
  cases job with
  | dictionary w plainPayload numEntries =>
    simp [PageJob.header, headerPrologue, toI32_eq_self_iff, and_comm]
  | data w =>
    cases hv2 : w.dataPageV2 with
    | true =>
      simp only [PageJob.header, hv2, if_true, headerPrologue, ParsedPageHeader.mk.injEq, id_eq,
        ParsedDataPageHeaderV2.mk.injEq, toI32_eq_self_iff, true_and, and_true, true_implies]
      have hparts : FitsI32 (w.repLevelsBuffer.length + w.defLevelsBuffer.length +
          w.valuesBuffer.length : Nat) →
          FitsI32 w.defLevelsBuffer.length ∧ FitsI32 w.repLevelsBuffer.length := by
        unfold FitsI32
        omega
      tauto
    | false =>
      simp only [PageJob.header, hv2, Bool.false_eq_true, if_false, headerPrologue,
        ParsedPageHeader.mk.injEq, id_eq, ParsedDataPageHeader.mk.injEq, toI32_eq_self_iff, true_and,
        and_true, false_implies]
      tauto

theorem readsBack_iff_fits {env : PageEnv} {job : PageJob} {output : Bytes} {out : FinalizedPage}
    (h : finalizePage env job output = .ok out) :
    ReadsBack env job output out ↔ job.Fits env := by
  obtain ⟨payload, hpayload, hout⟩ := finalizePage_eq h
  have hparse := fun rest =>
    parsePageHeader_bytes (readsFields_header job payload) (payload ++ rest)
  rw [← header_eq_iff hpayload]
  constructor
  · rintro ⟨header, payload', hout', hpayload', hreads⟩
    obtain rfl : payload = payload' := Except.ok.inj (hpayload.symm.trans hpayload')
    have hheader : structBytes (job.headerFields payload) = header := by
      have heq := hout.symm.trans hout'
      rw [List.append_assoc, List.append_assoc] at heq
      exact List.append_cancel_right (List.append_cancel_left heq)
    subst hheader
    have heq := (hparse []).symm.trans (by simpa using hreads [])
    exact (Prod.mk.inj (Except.ok.inj heq)).1
  · intro heq
    refine ⟨_, payload, hout, hpayload, fun rest => ?_⟩
    rw [List.append_assoc, hparse rest, heq]

/-- **A finalized page reads back if and only if 32 bits hold its counts and sizes.** -/
theorem finalized_readsBack_iff {env : PageEnv} {job : PageJob} {output : Bytes}
    {out : FinalizedPage} (h : finalizePage env job output = .ok out) :
    ReadsBack env job output out ↔ job.Fits env := readsBack_iff_fits h

/-- Memory without end, and no codec. -/
def plainEnv : PageEnv := ⟨fun _ => .ok (), fun _ _ => .error .unsupportedCodec⟩

/-- A page of one `INT32`, with its statistics. -/
def onePage : PageJob := .data
  { repLevelsBuffer := [], defLevelsBuffer := [], valuesBuffer := [7, 0, 0, 0]
    encoding := 0, compression := .uncompressed, numValues := 1, numNulls := 0, numRows := 1
    dataPageV2 := false, writeCrc := true, writeStatistics := true
    minMax := some (⟨[7, 0, 0, 0], by decide⟩, ⟨[7, 0, 0, 0], by decide⟩) }

theorem onePage_readsBack_iff : ∃ out, finalizePage plainEnv onePage [] = .ok out ∧
    (ReadsBack plainEnv onePage [] out ↔ onePage.Fits plainEnv) :=
  ⟨_, rfl, finalized_readsBack_iff rfl⟩

/-- A page of an optional column after 2048 calls with 1048576 null rows each. -/
def nullPage : PageJob := .data
  { repLevelsBuffer := []
    defLevelsBuffer := (List.replicate 2048 [5, 0, 0, 0, 0x80, 0x80, 0x80, 1, 0]).flatten
    valuesBuffer := [], encoding := 0, compression := .uncompressed
    numValues := 2147483648, numNulls := 2147483648, numRows := 0
    dataPageV2 := false, writeCrc := true, writeStatistics := true, minMax := none }

/-- The header of that page says that it has a negative number of values. -/
theorem nullPage_not_readsBack : ∃ out, finalizePage plainEnv nullPage [] = .ok out ∧
    ¬ ReadsBack plainEnv nullPage [] out := by
  refine ⟨_, rfl, fun h => ?_⟩
  have hfits := (readsBack_iff_fits rfl).mp h
  exact absurd hfits.2.2.1.2 (by decide)

end Carquet
