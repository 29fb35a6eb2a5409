import Carquet.Metadata.PageIndexFormat

/-!
# A page index reads back

Both serializers write a struct of list fields, and the parsers read it field by field. The one
field that depends on the decoder's flags is `null_pages`: its booleans are bytes of their own as
long as no boolean of a field header is pending, and nothing before them leaves one.

A bound that is empty is stored as no bound, by the builder as by the parser.
-/

namespace Carquet

open Decoder

/-! ## What is written -/

/-- The first field of a `ColumnIndex`. -/
def nullPagesField (b : ColumnIndexBuilder) : Field :=
  ⟨1, .list, listBeginBytes .boolTrue b.pages.length ++
    b.pages.flatMap fun p => boolBytes p.nullPage⟩

/-- The fields behind it. -/
def boundsFields (b : ColumnIndexBuilder) : List Field :=
  [⟨2, .list, listBeginBytes .binary b.pages.length ++
      b.pages.flatMap fun p => binaryBytes (boundBytes p.minValue)⟩,
    ⟨3, .list, listBeginBytes .binary b.pages.length ++
      b.pages.flatMap fun p => binaryBytes (boundBytes p.maxValue)⟩,
    ⟨4, .i32, zigzagBytes b.boundaryOrder.toInt⟩,
    ⟨5, .list, listBeginBytes .i64 b.pages.length ++
      b.pages.flatMap fun p => zigzagBytes p.nullCount.toInt⟩]

/-- A list field, written by its header and a loop. -/
theorem written_list {β : Type} {buffer : Bytes} {ids : List Int} {fs : List Field} (id : Int)
    (elemType : ThriftType) (enc : β → Bytes) (vs : List β) (count : Nat) :
    vs.foldl (fun e v => e.append (enc v))
        (((written buffer ids fs).writeFieldHeader .list id).writeListBegin elemType count) =
      written buffer ids (fs ++ [⟨id, .list, listBeginBytes elemType count ++ vs.flatMap enc⟩]) := by
  rw [Encoder.foldl_append, Encoder.writeListBegin, Encoder.append_append, written_field]

theorem columnIndexSerialize_eq (b : ColumnIndexBuilder) :
    columnIndexSerialize b = ⟨structBytes (nullPagesField b :: boundsFields b), [], .ok⟩ := by
  have hbegin : Encoder.init.writeStructBegin = written [] [] [] :=
    writeStructBegin_written [] (by decide)
  simp only [columnIndexSerialize, hbegin, Encoder.writeBool, Encoder.writeBinary, Encoder.writeInt,
    written_list, written_field, writeStructEnd_written]
  rfl

/-- The fields of a `PageLocation`. -/
def pageLocationFields (p : OffsetIndexEntry) : List Field :=
  [⟨1, .i64, zigzagBytes p.offset.toInt⟩, ⟨2, .i32, zigzagBytes p.compressedSize.toInt⟩,
    ⟨3, .i64, zigzagBytes p.firstRowIndex.toInt⟩]

/-- The fields of an `OffsetIndex`. -/
def offsetIndexFields (b : OffsetIndexBuilder) : List Field :=
  [⟨1, .list, listBeginBytes .struct b.pages.length ++
      b.pages.flatMap fun p => structBytes (pageLocationFields p)⟩] ++
    if b.trackUncompressed then
      [⟨2, .list, listBeginBytes .i32 b.pages.length ++
        b.pages.flatMap fun p => zigzagBytes p.uncompressedSize.toInt⟩]
    else []

/-- One location is a struct behind what is written. -/
theorem writePageLocation_eq (buffer : Bytes) {ids : List Int}
    (h : ids.length < thriftEncoderMaxNesting) (p : OffsetIndexEntry) :
    writePageLocation ⟨buffer, ids, .ok⟩ p =
      (⟨buffer, ids, .ok⟩ : Encoder).append (structBytes (pageLocationFields p)) := by
  simp only [writePageLocation, writeStructBegin_written buffer h, Encoder.writeInt, written_field,
    writeStructEnd_written]
  rfl

theorem foldl_writePageLocation (ps : List OffsetIndexEntry) (buffer : Bytes) {ids : List Int}
    (h : ids.length < thriftEncoderMaxNesting) :
    ps.foldl writePageLocation ⟨buffer, ids, .ok⟩ = (⟨buffer, ids, .ok⟩ : Encoder).append
      (ps.flatMap fun p => structBytes (pageLocationFields p)) := by
  induction ps generalizing buffer with
  | nil => simp [Encoder.append]
  | cons p ps ih =>
    rw [List.foldl_cons, writePageLocation_eq buffer h, List.flatMap_cons, ← Encoder.append_append]
    exact ih _

theorem offsetIndexSerialize_eq (b : OffsetIndexBuilder) :
    offsetIndexSerialize b = ⟨structBytes (offsetIndexFields b), [], .ok⟩ := by
  have hbegin : Encoder.init.writeStructBegin = written [] [] [] :=
    writeStructBegin_written [] (by decide)
  have hlocations : b.pages.foldl writePageLocation
      (((written [] [] []).writeFieldHeader .list 1).writeListBegin .struct b.pages.length) =
      written [] [] [⟨1, .list, listBeginBytes .struct b.pages.length ++
        b.pages.flatMap fun p => structBytes (pageLocationFields p)⟩] := by
    have hloop := @foldl_writePageLocation b.pages
      (((written [] [] []).writeFieldHeader .list 1).writeListBegin .struct b.pages.length).buffer
      [1] (by decide)
    refine hloop.trans ?_
    show (((written [] [] []).writeFieldHeader .list 1).append _).append _ = _
    rw [Encoder.append_append, written_field]
    rfl
  simp only [offsetIndexSerialize, hbegin, hlocations]
  cases htrack : b.trackUncompressed with
  | true =>
    simp only [if_true, Encoder.writeInt, written_list, writeStructEnd_written, offsetIndexFields,
      htrack]
    rfl
  | false =>
    simp only [Bool.false_eq_true, if_false, writeStructEnd_written, offsetIndexFields, htrack]
    rfl

/-! ## What is read -/

/-- A struct whose first field is read from the flags at hand, and the others from any. -/
theorem readStruct_first {σ : Type} {handle : Int → ThriftType → σ → Decoder → Option (σ × Decoder)}
    {n : Nat} {s s₁ s₂ : σ} {f : Field} {fs : List Field} {ids : List Int} {p b : Bool}
    (htype : ∀ code, f.type ≠ .unknown code) (hstop : f.type ≠ .stop)
    (hid : -32768 ≤ f.id ∧ f.id < 32768)
    (hfirst : ∀ rest, ∃ p' b',
      handle f.id f.type s ⟨f.bytes ++ rest, f.id :: ids, pendingAfter f.type p, valueAfter f.type b, .ok⟩ =
        some (s₁, ⟨rest, f.id :: ids, p', b', .ok⟩))
    (hfields : ReadsFields handle n s₁ fs s₂) (hnest : ids.length + 1 + n ≤ thriftMaxNesting)
    (rest : Bytes) :
    ∃ p' b', (⟨structBytes (f :: fs) ++ rest, ids, p, b, .ok⟩ : Decoder).readStruct handle s =
      some (s₂, ⟨rest, ids, p', b', .ok⟩) := by
  have hbegin : (⟨structBytes (f :: fs) ++ rest, ids, p, b, .ok⟩ : Decoder).readStructBegin =
      ⟨fieldHeaderBytes 0 f.type f.id ++ (f.bytes ++ (chainBytes f.id fs ++ 0 :: rest)),
        0 :: ids, p, b, .ok⟩ := by
    rw [readStructBegin, if_neg (by simp only; omega)]
    simp [structBytes, chainBytes]
  have hlen := length_le_chainBytes f.id fs
  obtain ⟨p₁, b₁, h₁⟩ := hfirst (chainBytes f.id fs ++ 0 :: rest)
  obtain ⟨last', p', b', h₂⟩ := readFields_chainBytes hfields ids hnest rest
    ((fieldHeaderBytes 0 f.type f.id ++ (f.bytes ++ (chainBytes f.id fs ++ 0 :: rest))).length)
    (by simp only [List.length_append, List.length_cons]; omega) p₁ b₁
  refine ⟨p', b', ?_⟩
  rw [Decoder.readStruct, hbegin, readFields_bytes htype hstop hid.1 hid.2, h₁, Option.bind_some, h₂]
  rfl

theorem length_boundBytes (bound : Option StatBytes) : (boundBytes bound).length < 2147483648 := by
  cases bound with
  | none => decide
  | some v => exact v.2

theorem binaryBytes_pos (data : Bytes) : 0 < (binaryBytes data).length := by
  have := varintBytes_pos data.length
  rw [binaryBytes, List.length_append]
  omega

theorem structBytes_pos (fs : List Field) : 0 < (structBytes fs).length := by
  rw [structBytes, List.length_append]
  exact Nat.lt_of_lt_of_le Nat.zero_lt_one (Nat.le_add_left _ _)

/-- What the parser makes of a bound. -/
def parsedBound (bound : Option StatBytes) : Option Bytes :=
  (some (boundBytes bound)).filter fun v => 0 < v.length

/-- A stored bound is parsed as it is. -/
theorem parsedBound_copyBound (bound : Option StatBytes) :
    parsedBound (copyBound bound) = (copyBound bound).map Subtype.val := by
  cases bound with
  | none => rfl
  | some v =>
    by_cases hv : 0 < v.1.length
    · have hcopy : copyBound (some v) = some v := if_pos (decide_eq_true hv)
      rw [hcopy]
      exact if_pos (decide_eq_true hv)
    · have hcopy : copyBound (some v) = none := if_neg (by simpa using hv)
      rw [hcopy]
      rfl

/-- What the fields behind `null_pages` make of a `ColumnIndex`. -/
theorem readsFields_columnIndex (b : ColumnIndexBuilder) (hcount : b.pages.length ≤ maxIndexCount)
    (ci : ParsedColumnIndex) :
    ReadsFields columnIndexField 0 ci (boundsFields b)
      { ci with
        minValues := some (b.pages.map fun p => parsedBound p.minValue)
        maxValues := some (b.pages.map fun p => parsedBound p.maxValue)
        boundaryOrder := b.boundaryOrder.toInt
        nullCounts := some (b.pages.map fun p => p.nullCount.toInt) } := by
  have hlt : b.pages.length < 2147483648 := Nat.lt_of_le_of_lt hcount (by decide)
  have hbinary : ∀ (bound : ColumnIndexEntry → Option StatBytes) (id : Int) (s : ParsedColumnIndex)
      (set : List (Option Bytes) → ParsedColumnIndex),
      (∀ d : Decoder, columnIndexField id .list s d =
        (d.readList maxIndexCount readBound).map fun r => (set r.1, r.2)) →
      ReadsField columnIndexField 0 s (set (b.pages.map fun p => parsedBound (bound p)))
        ⟨id, .list, listBeginBytes .binary b.pages.length ++
          b.pages.flatMap fun p => binaryBytes (boundBytes (bound p))⟩ := by
    intro bound id s set hhandle
    exact readsField_list set b.pages (by intro code; simp) hcount hlt (fun p => binaryBytes_pos _)
      (fun p _ ids _ => readsElem_binary ids (length_boundBytes (bound p)) _)
      fun d _ => hhandle d
  refine .field (hbinary ColumnIndexEntry.minValue 2 ci (fun l => { ci with minValues := some l })
    fun d => rfl) ?_ rfl (by decide)
  refine .field (hbinary ColumnIndexEntry.maxValue 3 _
    (fun l => { ci with
      minValues := some (b.pages.map fun p => parsedBound p.minValue)
      maxValues := some l })
    fun d => rfl) ?_ rfl (by decide)
  refine .field (readsField_i32 b.boundaryOrder.le_toInt b.boundaryOrder.toInt_lt fun d _ => rfl) ?_
    rfl (by decide)
  exact .field (readsField_list
    (fun l => { ci with
      minValues := some (b.pages.map fun p => parsedBound p.minValue)
      maxValues := some (b.pages.map fun p => parsedBound p.maxValue)
      boundaryOrder := b.boundaryOrder.toInt
      nullCounts := some l })
    b.pages (by intro code; simp) hcount hlt (fun p => varintBytes_pos _)
    (fun p _ ids _ => readsElem_i64 ids p.nullCount) fun d _ => rfl) (.nil _) rfl (by decide)

/-- Arrays with an entry for every page leave the number of pages. -/
theorem clampTo_map {α β : Type} (l : List α) (f : α → β) :
    clampTo (some (l.map f)) l.length = l.length := by
  rw [clampTo, List.length_map, if_neg (Nat.lt_irrefl _)]

/-- A column index as its parser returns it. -/
theorem columnIndexParse_serialize (b : ColumnIndexBuilder) (hcount : b.pages.length ≤ maxIndexCount) :
    columnIndexParse (columnIndexSerialize b).buffer = some
      { numPages := b.pages.length
        nullPages := some (b.pages.map ColumnIndexEntry.nullPage)
        minValues := some (b.pages.map fun p => parsedBound p.minValue)
        maxValues := some (b.pages.map fun p => parsedBound p.maxValue)
        boundaryOrder := b.boundaryOrder.toInt
        nullCounts := some (b.pages.map fun p => p.nullCount.toInt) } := by
  have hlt : b.pages.length < 2147483648 := Nat.lt_of_le_of_lt hcount (by decide)
  -- no boolean is pending at the first field
  have hfirst : ∀ rest : Bytes, ∃ p' b', columnIndexField 1 .list .zero
      ⟨(nullPagesField b).bytes ++ rest, [1], false, false, .ok⟩ =
      some ({ ParsedColumnIndex.zero with
        numPages := b.pages.length
        nullPages := some (b.pages.map ColumnIndexEntry.nullPage) }, ⟨rest, [1], p', b', .ok⟩) := by
    intro rest
    have hpos : ∀ p : ColumnIndexEntry, 0 < (boolBytes p.nullPage).length := fun p => Nat.zero_lt_one
    have hlist : ∃ p' b', p' = false ∧ Decoder.readList maxIndexCount (fun d => some d.readBool)
        ⟨(nullPagesField b).bytes ++ rest, [1], false, false, .ok⟩ =
        some (b.pages.map ColumnIndexEntry.nullPage, ⟨rest, [1], p', b', .ok⟩) :=
      readList_bytes b.pages (by intro code h; cases h) hcount hlt hpos
        (fun p _ => readsElem_bool [1] p.nullPage) rfl rest
    obtain ⟨p', b', -, hlist⟩ := hlist
    refine ⟨p', b', ?_⟩
    have hfield : ∀ d : Decoder, columnIndexField 1 .list .zero d =
        (d.readList maxIndexCount fun d => some d.readBool).map fun r =>
          ({ ParsedColumnIndex.zero with numPages := r.1.length, nullPages := some r.1 }, r.2) :=
      fun d => rfl
    rw [hfield, hlist, Option.map_some, List.length_map]
  obtain ⟨p', b', hread⟩ := readStruct_first (f := nullPagesField b)
    (by intro code h; cases h) (by intro h; cases h)
    (show -32768 ≤ (1 : Int) ∧ (1 : Int) < 32768 by decide) hfirst
    (readsFields_columnIndex b hcount _) (by decide) []
  rw [List.append_nil] at hread
  have hne : structBytes (nullPagesField b :: boundsFields b) ≠ [] :=
    List.ne_nil_of_length_pos (structBytes_pos _)
  rw [columnIndexSerialize_eq, columnIndexParse, if_neg hne, Decoder.init, hread]
  show some (ParsedColumnIndex.clamp _) = _
  simp only [ParsedColumnIndex.clamp, clampTo_map]

/-! ## Offset indexes -/

theorem readsFields_pageLocation (p : OffsetIndexEntry) :
    ReadsFields pageLocationField 0 ⟨0, 0, 0⟩ (pageLocationFields p)
      ⟨p.offset.toInt, p.compressedSize.toInt, p.firstRowIndex.toInt⟩ := by
  have hi64 : ∀ (id : Int) (v : Int64) (l : ParsedPageLocation) (set : Int → ParsedPageLocation),
      (∀ d : Decoder, pageLocationField id .i64 l d = storing set d.readI64) →
      ReadsField pageLocationField 0 l (set v.toInt) ⟨id, .i64, zigzagBytes v.toInt⟩ := by
    intro id v l set hhandle ids p b rest _
    refine ⟨p, b, ?_⟩
    simp only [pendingAfter, valueAfter]
    rw [hhandle, readI64, readZigzag_bytes v.le_toInt v.toInt_lt, storing]
  refine .field (hi64 1 p.offset _ (fun v => ⟨v, 0, 0⟩) fun d => rfl) ?_ rfl (by decide)
  refine .field (readsField_i32 p.compressedSize.le_toInt p.compressedSize.toInt_lt fun d _ => rfl) ?_
    rfl (by decide)
  exact .field (hi64 3 p.firstRowIndex _
    (fun v => ⟨p.offset.toInt, p.compressedSize.toInt, v⟩) fun d => rfl) (.nil _) rfl (by decide)

/-- What the parser makes of a location. -/
def parsedLocation (p : OffsetIndexEntry) : ParsedPageLocation :=
  ⟨p.offset.toInt, p.compressedSize.toInt, p.firstRowIndex.toInt⟩

/-- `list<i32>`. -/
def sizesShape : Shape := .list .i32

/-- The sizes that the parser skips, as a value of the protocol. -/
def uncompressedSizes (b : OffsetIndexBuilder) (h : b.pages.length < 2147483648) :
    Val sizesShape :=
  ⟨b.pages.map OffsetIndexEntry.uncompressedSize,
    (List.length_map OffsetIndexEntry.uncompressedSize).trans_lt h⟩

theorem encode_uncompressedSizes (b : OffsetIndexBuilder) (h : b.pages.length < 2147483648) :
    encode sizesShape (uncompressedSizes b h) = listBeginBytes .i32 b.pages.length ++
      b.pages.flatMap fun p => zigzagBytes p.uncompressedSize.toInt := by
  show listBeginBytes .i32 (b.pages.map OffsetIndexEntry.uncompressedSize : List Int32).length ++
    (b.pages.map OffsetIndexEntry.uncompressedSize : List Int32).flatMap
      (fun v => zigzagBytes v.toInt) = _
  rw [List.length_map, List.flatMap_map]

theorem readsFields_offsetIndex (b : OffsetIndexBuilder) (hcount : b.pages.length ≤ maxIndexCount) :
    ReadsFields offsetIndexField 1 [] (offsetIndexFields b) (b.pages.map parsedLocation) := by
  have hlt : b.pages.length < 2147483648 := Nat.lt_of_le_of_lt hcount (by decide)
  have hlocations : ReadsField offsetIndexField 1 [] (b.pages.map parsedLocation)
      ⟨1, .list, listBeginBytes .struct b.pages.length ++
        b.pages.flatMap fun p => structBytes (pageLocationFields p)⟩ :=
    readsField_list (fun l => l) b.pages (by intro code h; cases h) hcount hlt
      (fun p => structBytes_pos _)
      (fun p _ ids hids => readsElem_struct (readsFields_pageLocation p) (by omega))
      fun d _ => Option.map_id'.symm
  refine .field hlocations ?_ rfl (by decide)
  split
  · have hskip : ReadsField offsetIndexField 1 (b.pages.map parsedLocation)
        (b.pages.map parsedLocation) ⟨2, .list, encode sizesShape (uncompressedSizes b hlt)⟩ :=
      readsField_skip ⟨fun h => absurd h (by decide), fun _ _ => trivial⟩ (Nat.zero_le 1)
        fun d _ => rfl
    rw [encode_uncompressedSizes] at hskip
    exact .field hskip (.nil _) rfl (by decide)
  · exact .nil _

/-- An offset index as its parser returns it. -/
theorem offsetIndexParse_serialize (b : OffsetIndexBuilder) (hcount : b.pages.length ≤ maxIndexCount) :
    offsetIndexParse (offsetIndexSerialize b).buffer = some (b.pages.map parsedLocation) := by
  obtain ⟨p', b', hread⟩ := readStruct_bytes (readsFields_offsetIndex b hcount) [] (by decide) false
    false []
  rw [List.append_nil] at hread
  have hne : structBytes (offsetIndexFields b) ≠ [] := List.ne_nil_of_length_pos (structBytes_pos _)
  rw [offsetIndexSerialize_eq, offsetIndexParse, if_neg hne, Decoder.init, hread]
  rfl

/-! ## Round trip -/

/-- The pages given to a column index, and its boundary order. -/
structure ColumnIndexPages where
  pages : List ColumnPageArgs
  boundaryOrder : Int32
  count : 1 ≤ pages.length ∧ pages.length ≤ maxIndexCount

def ColumnIndexPages.builder (x : ColumnIndexPages) : ColumnIndexBuilder :=
  (x.pages.foldl ColumnIndexBuilder.addPage .create).setBoundaryOrder x.boundaryOrder

/-- The bytes of a bound, where there are any. -/
def givenBound (bound : Option StatBytes) : Option Bytes :=
  (bound.map Subtype.val).filter fun v => 0 < v.length

/-- The index that a reader of the file expects. -/
def ColumnIndexPages.index (x : ColumnIndexPages) : ParsedColumnIndex where
  numPages := x.pages.length
  nullCounts := some (x.pages.map fun a => a.nullCount.toInt)
  minValues := some (x.pages.map fun a => givenBound a.minValue)
  maxValues := some (x.pages.map fun a => givenBound a.maxValue)
  nullPages := some (x.pages.map ColumnPageArgs.isNullPage)
  boundaryOrder := x.boundaryOrder.toInt

/-- The pages given to an offset index. -/
structure OffsetIndexPages where
  pages : List OffsetIndexEntry
  trackUncompressed : Bool
  count : 1 ≤ pages.length ∧ pages.length ≤ maxIndexCount

def OffsetIndexPages.builder (x : OffsetIndexPages) : OffsetIndexBuilder :=
  x.pages.foldl OffsetIndexBuilder.addPage (.create x.trackUncompressed)

theorem pages_foldl_addPage (as : List ColumnPageArgs) (b : ColumnIndexBuilder) :
    (as.foldl ColumnIndexBuilder.addPage b).pages = b.pages ++ as.map fun a =>
      ⟨a.nullCount, copyBound a.minValue, copyBound a.maxValue, a.isNullPage⟩ := by
  induction as generalizing b with
  | nil => simp
  | cons a as ih => simp [ih, ColumnIndexBuilder.addPage]

theorem OffsetIndexPages.builder_eq (x : OffsetIndexPages) :
    x.builder = ⟨x.pages, x.trackUncompressed⟩ := by
  have hfold : ∀ (as : List OffsetIndexEntry) (b : OffsetIndexBuilder),
      as.foldl OffsetIndexBuilder.addPage b = ⟨b.pages ++ as, b.trackUncompressed⟩ := by
    intro as
    induction as with
    | nil => simp
    | cons a as ih => simp [ih, OffsetIndexBuilder.addPage]
  exact hfold x.pages _

/-- A bound that was copied and parsed is the one that was given. -/
theorem parsedBound_given (bound : Option StatBytes) :
    parsedBound (copyBound bound) = givenBound bound := by
  rw [parsedBound_copyBound]
  cases bound with
  | none => rfl
  | some v =>
    by_cases hv : 0 < v.1.length
    · have hcopy : copyBound (some v) = some v := if_pos (decide_eq_true hv)
      have hgiven : givenBound (some v) = some v.1 := if_pos (decide_eq_true hv)
      rw [hcopy, hgiven]
      rfl
    · have hcopy : copyBound (some v) = none := if_neg (by simpa using hv)
      have hgiven : givenBound (some v) = none := if_neg (by simpa using hv)
      rw [hcopy, hgiven]
      rfl

/-- **Page indexes read back.** For 1 to 1,000,000 pages the parsers return what was added, tracked
uncompressed sizes or not. -/
theorem pageIndex_roundTrips :
    (∀ x : ColumnIndexPages, columnIndexParse (columnIndexSerialize x.builder).buffer = some x.index) ∧
      ∀ x : OffsetIndexPages, offsetIndexParse (offsetIndexSerialize x.builder).buffer =
        some (x.pages.map parsedLocation) := by
  refine ⟨fun x => ?_, fun x => ?_⟩
  · have hpages : x.builder.pages = x.pages.map fun a =>
        ⟨a.nullCount, copyBound a.minValue, copyBound a.maxValue, a.isNullPage⟩ :=
      pages_foldl_addPage x.pages .create
    have hcount : x.builder.pages.length ≤ maxIndexCount := by
      rw [hpages, List.length_map]
      exact x.count.2
    rw [columnIndexParse_serialize _ hcount, hpages]
    simp only [List.length_map, List.map_map, Function.comp_def, parsedBound_given]
    rfl
  · rw [x.builder_eq, offsetIndexParse_serialize _ x.count.2]

end Carquet
