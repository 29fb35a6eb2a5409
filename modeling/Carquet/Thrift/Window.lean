import Carquet.Thrift.Lists

/-!
# Reading a window of the input

A reader may hold only the first bytes of a structure, a window, and ask for more when it is told
that they are not enough: `CARQUET_ERROR_THRIFT_TRUNCATED`. This is sound if every read that comes
to the end of the window says so. Two reads of thrift_decode.c do not: `thrift_skip` drops the
status of `carquet_buffer_reader_skip` (390-391, 400-401, 443-444), and a count beyond the window is
`CARQUET_ERROR_THRIFT_DECODE` (311-318, 350-359). `Decoder.skipCut` and the functions built on it
find such a read in what is at hand; where there is none the window says what the whole input says
(`Agree`), and where there is one it does not (`Passed`).
-/

namespace Carquet

open Leb128 Decoder

/-! ## Errors stay -/

/-- The errors of the decoder's reads. -/
def Status.isThrift : Status → Bool
  | .thriftTruncated | .thriftDecode | .thriftInvalidType => true
  | _ => false

/-- From one decoder to the next: what is taken, an error that stays, and a new one of the
decoder's. -/
structure Decoder.Advances (d d' : Decoder) : Prop where
  reads : d.Reads d' 0
  status : d'.status = d.status ∨ d.status = .ok ∧ d'.status.isThrift = true

namespace Decoder.Advances

variable {d d' d'' : Decoder}

theorem refl (d : Decoder) : d.Advances d := ⟨.refl d, .inl rfl⟩

theorem trans (h : d.Advances d') (h' : d'.Advances d'') : d.Advances d'' := by
  refine ⟨h.reads.trans h'.reads, ?_⟩
  rcases h'.status with heq' | ⟨hok', hnew'⟩
  · rw [heq']
    exact h.status
  · rcases h.status with heq | ⟨hok, hnew⟩
    · exact .inr ⟨heq ▸ hok', hnew'⟩
    · rw [hok'] at hnew
      cases hnew

/-- An error stays. -/
theorem sticky (h : d.Advances d') (herr : d.status ≠ .ok) : d'.status = d.status :=
  h.status.resolve_right fun hnew => herr hnew.1

theorem setError (d : Decoder) {status : Status} (h : status.isThrift = true) :
    d.Advances (d.setError status) := by
  have hne : status ≠ .ok := by
    rintro rfl
    cases h
  refine ⟨.setError d status hne 0, ?_⟩
  rw [setError_status]
  split
  · rename_i hok
    exact .inr ⟨hok, h⟩
  · exact .inl rfl

/-- Flags and ids do not matter, and bytes may be taken. -/
theorem of_le (hrest : d'.rest.length ≤ d.rest.length) (hstatus : d'.status = d.status) :
    d.Advances d' :=
  ⟨⟨hrest, fun h => ⟨hstatus ▸ h, hrest⟩⟩, .inl hstatus⟩

end Decoder.Advances

theorem advances_readByteRaw (d : Decoder) : d.Advances d.readByteRaw.2 := by
  unfold readByteRaw
  split
  · exact .setError d rfl
  · rename_i b rest h
    exact .of_le (by simp [h]) rfl

theorem advances_readVarint (d : Decoder) : d.Advances d.readVarint.2 := by
  have hreads := (reads_readVarint d).mono (Nat.zero_le 1)
  refine ⟨hreads, ?_⟩
  unfold Decoder.readVarint
  split
  · exact .inl rfl
  · split
    · exact (@Advances.setError { d with rest := [] } .thriftTruncated rfl).status
    · exact (@Advances.setError { d with rest := d.rest.drop 10 } .thriftDecode rfl).status

/-- `(int32_t)thrift_read_varint(dec)`. -/
def Decoder.readCount (d : Decoder) : Int × Decoder :=
  let v := d.readVarint
  (toI32 v.1, v.2)

theorem readCount_eq (d : Decoder) : d.readCount = (toI32 d.readVarint.1, d.readVarint.2) := rfl

theorem advances_readCount (d : Decoder) : d.Advances d.readCount.2 := advances_readVarint d

/-- The data of a binary, behind its length (thrift_decode.c:146-161). -/
def binaryData (len : Int × Decoder) : Option Bytes × Decoder :=
  if len.1 < 0 then (none, len.2.setError .thriftDecode)
  else if len.2.rest.length < len.1.toNat then (none, len.2.setError .thriftTruncated)
  else (some (len.2.rest.take len.1.toNat), { len.2 with rest := len.2.rest.drop len.1.toNat })

theorem readBinary_eq (d : Decoder) : d.readBinary = binaryData d.readCount := rfl

theorem advances_drop (d : Decoder) (n : Nat) :
    d.Advances { d with rest := d.rest.drop n } := .of_le (by simp) rfl

theorem advances_binaryData (len : Int × Decoder) : len.2.Advances (binaryData len).2 := by
  unfold binaryData
  split
  · exact .setError _ rfl
  · split
    · exact .setError _ rfl
    · exact advances_drop _ _

theorem advances_readBinary (d : Decoder) : d.Advances d.readBinary.2 :=
  (advances_readCount d).trans (advances_binaryData _)

theorem advances_readBool (d : Decoder) : d.Advances d.readBool.2 := by
  unfold readBool
  split
  · exact .of_le (Nat.le_refl _) rfl
  · exact advances_readByteRaw d

theorem advances_readerSkip (d : Decoder) (n : Nat) : d.Advances (d.readerSkip n) := by
  unfold readerSkip
  split
  · exact .of_le (by simp) rfl
  · exact .refl d

theorem advances_readStructBegin (d : Decoder) : d.Advances d.readStructBegin := by
  unfold readStructBegin
  split
  · exact .setError d rfl
  · exact .of_le (Nat.le_refl _) rfl

theorem advances_readStructEnd (d : Decoder) : d.Advances d.readStructEnd :=
  .of_le (Nat.le_refl _) rfl

/-- The count of a list as it is written, behind its header (thrift_decode.c:295-302). -/
def listSize (r : UInt8 × Decoder) : Int × Decoder :=
  if r.1.toNat / 16 = 15 then r.2.readCount else ((r.1.toNat / 16 : Nat), r.2)

/-- The count checked (thrift_decode.c:304-317). -/
def listSized (elemType : ThriftType) (sized : Int × Decoder) : (ThriftType × Nat) × Decoder :=
  if sized.1 < 0 then ((elemType, 0), sized.2.setError .thriftDecode)
  else if sized.2.rest.length < sized.1.toNat then
    ((elemType, 0), sized.2.setError .thriftDecode)
  else ((elemType, sized.1.toNat), sized.2)

/-- A list's begin behind its header. -/
def listBegun (r : UInt8 × Decoder) : (ThriftType × Nat) × Decoder :=
  listSized (.ofCode (r.1.toNat % 16)) (listSize r)

theorem readListBegin_eq (d : Decoder) : d.readListBegin = listBegun d.readByteRaw := rfl

theorem advances_listSize (r : UInt8 × Decoder) : r.2.Advances (listSize r).2 := by
  unfold listSize
  split
  · exact advances_readCount _
  · exact .refl _

theorem advances_listSized (elemType : ThriftType) (sized : Int × Decoder) :
    sized.2.Advances (listSized elemType sized).2 := by
  unfold listSized
  split
  · exact .setError _ rfl
  · split
    · exact .setError _ rfl
    · exact .refl _

theorem advances_listBegun (r : UInt8 × Decoder) : r.2.Advances (listBegun r).2 :=
  (advances_listSize r).trans (advances_listSized _ _)

theorem advances_readListBegin (d : Decoder) : d.Advances d.readListBegin.2 :=
  (advances_readByteRaw d).trans (advances_listBegun _)

/-- The types of a map's keys and values (thrift_decode.c:361-364). -/
def mapTypes (count : Nat) (r : UInt8 × Decoder) : (ThriftType × ThriftType × Nat) × Decoder :=
  ((.ofCode (r.1.toNat / 16), .ofCode (r.1.toNat % 16), count), r.2)

theorem advances_mapTypes (count : Nat) (r : UInt8 × Decoder) :
    r.2.Advances (mapTypes count r).2 := by
  unfold mapTypes
  exact .refl r.2

/-- The count checked and the types (thrift_decode.c:333-364). -/
def mapSized (sized : Int × Decoder) : (ThriftType × ThriftType × Nat) × Decoder :=
  if sized.1 < 0 then ((.stop, .stop, 0), sized.2.setError .thriftDecode)
  else if sized.1 = 0 then ((.stop, .stop, 0), sized.2)
  else if sized.2.rest.length < sized.1.toNat then
    ((.stop, .stop, 0), sized.2.setError .thriftDecode)
  else mapTypes sized.1.toNat sized.2.readByteRaw

theorem readMapBegin_eq (d : Decoder) : d.readMapBegin = mapSized d.readCount := rfl

theorem advances_mapSized (sized : Int × Decoder) : sized.2.Advances (mapSized sized).2 := by
  unfold mapSized
  split
  · exact .setError _ rfl
  · split
    · exact .refl _
    · split
      · exact .setError _ rfl
      · exact (advances_readByteRaw _).trans (advances_mapTypes _ _)

theorem advances_readMapBegin (d : Decoder) : d.Advances d.readMapBegin.2 :=
  (advances_readCount d).trans (advances_mapSized _)

/-- The id of the field whose header begins with `header` (thrift_decode.c:242-257). -/
def Decoder.readFieldId (header : Nat) (d : Decoder) : Int × Decoder :=
  if header / 16 = 0 then d.readI16
  else (toI16 (d.lastFieldId.headD 0 + (header / 16 : Nat)), d)

/-- The id kept, and the flags of a boolean (thrift_decode.c:259-272). -/
def Decoder.fieldBegun (type : ThriftType) (f : Int × Decoder) : Decoder :=
  let next := f.2.setLastFieldId f.1
  match type with
  | .boolTrue => { next with boolPending := true, boolValue := true }
  | .boolFalse => { next with boolPending := true, boolValue := false }
  | _ => next

@[simp] theorem fieldBegun_rest (type : ThriftType) (f : Int × Decoder) :
    (fieldBegun type f).rest = f.2.rest := by
  unfold fieldBegun
  split <;> exact setLastFieldId_rest _ _

@[simp] theorem fieldBegun_status (type : ThriftType) (f : Int × Decoder) :
    (fieldBegun type f).status = f.2.status := by
  unfold fieldBegun
  split <;> exact setLastFieldId_status _ _

/-- What is left of a field's header behind its first byte. -/
def headerRest (r : UInt8 × Decoder) : Option (ThriftType × Int) × Decoder :=
  if r.1.toNat = 0 then (none, r.2)
  else
    (some (.ofCode (r.1.toNat % 16), (r.2.readFieldId r.1.toNat).1),
      fieldBegun (.ofCode (r.1.toNat % 16)) (r.2.readFieldId r.1.toNat))

theorem readByteRaw_lastFieldId (d : Decoder) :
    d.readByteRaw.2.lastFieldId = d.lastFieldId := by
  unfold readByteRaw
  split
  · unfold Decoder.setError
    split <;> rfl
  · rfl

theorem readFieldBegin_eq (d : Decoder) :
    d.readFieldBegin = if d.status ≠ .ok then (none, d) else headerRest d.readByteRaw := by
  unfold readFieldBegin
  split
  · rfl
  · simp only [headerRest]
    split
    · rfl
    · simp only [readFieldId, readByteRaw_lastFieldId]
      generalize ThriftType.ofCode (d.readByteRaw.1.toNat % 16) = type
      cases type <;> rfl

theorem readFieldBegin_of_ok {d : Decoder} (hok : d.status = .ok) :
    d.readFieldBegin = headerRest d.readByteRaw := by
  rw [readFieldBegin_eq, if_neg (fun hne => hne hok)]

theorem advances_readFieldId (header : Nat) (d : Decoder) :
    d.Advances (d.readFieldId header).2 := by
  unfold readFieldId
  split
  · exact advances_readVarint d
  · exact .refl d

theorem advances_fieldBegun (type : ThriftType) (f : Int × Decoder) :
    f.2.Advances (fieldBegun type f) :=
  .of_le (Nat.le_of_eq (congrArg List.length (fieldBegun_rest type f))) (fieldBegun_status type f)

theorem advances_headerRest (r : UInt8 × Decoder) : r.2.Advances (headerRest r).2 := by
  unfold headerRest
  split
  · exact .refl _
  · exact (advances_readFieldId r.1.toNat r.2).trans (advances_fieldBegun _ _)

theorem advances_readFieldBegin (d : Decoder) : d.Advances d.readFieldBegin.2 := by
  rw [readFieldBegin_eq]
  split
  · exact .refl d
  · exact (advances_readByteRaw d).trans (advances_headerRest _)

theorem advances_repeatWhileOk {body : Decoder → Option Decoder}
    (hbody : ∀ d d', body d = some d' → d.Advances d') {count : Nat} {d d' : Decoder}
    (h : d.repeatWhileOk body count = some d') : d.Advances d' := by
  induction count generalizing d with
  | zero => exact Option.some.inj h ▸ .refl d
  | succ count ih =>
    rw [repeatWhileOk] at h
    split at h
    · split at h
      · cases h
      · rename_i d₁ hd₁
        exact (hbody d d₁ hd₁).trans (ih h)
    · exact Option.some.inj h ▸ .refl d

theorem advances_readFields {σ : Type}
    {handle : Int → ThriftType → σ → Decoder → Option (σ × Decoder)}
    (hhandle : ∀ id type s d r, handle id type s d = some r → d.Advances r.2) {fuel : Nat} {s : σ}
    {d : Decoder} {r : σ × Decoder} (h : d.readFields handle fuel s = some r) :
    d.Advances r.2 := by
  induction fuel generalizing s d with
  | zero => cases h
  | succ fuel ih =>
    have hfield := advances_readFieldBegin d
    rw [readFields] at h
    split at h
    · rename_i d₁ hd₁
      obtain rfl := Option.some.inj h
      rwa [hd₁] at hfield
    · rename_i type id d₁ hd₁
      rw [hd₁] at hfield
      split at h
      · cases h
      · rename_i s₂ d₂ hd₂
        exact (hfield.trans (hhandle _ _ _ _ _ hd₂)).trans (ih h)

theorem advances_readStruct {σ : Type}
    {handle : Int → ThriftType → σ → Decoder → Option (σ × Decoder)}
    (hhandle : ∀ id type s d r, handle id type s d = some r → d.Advances r.2) {s : σ}
    {d : Decoder} {r : σ × Decoder} (h : d.readStruct handle s = some r) : d.Advances r.2 := by
  obtain ⟨q, hq, rfl⟩ := Option.map_eq_some_iff.mp h
  exact ((advances_readStructBegin d).trans (advances_readFields hhandle hq)).trans
    (advances_readStructEnd q.2)

theorem advances_skip {fuel : Nat} {type : ThriftType} {d d' : Decoder}
    (h : d.skip fuel type = some d') : d.Advances d' := by
  induction fuel generalizing type d d' with
  | zero => cases h
  | succ fuel ih =>
    rw [Decoder.skip.eq_def] at h
    simp only at h
    split at h
    · exact Option.some.inj h ▸ .refl d
    · cases type with
      | stop => exact Option.some.inj h ▸ .setError d rfl
      | unknown code => exact Option.some.inj h ▸ .setError d rfl
      | boolTrue => exact Option.some.inj h ▸ .of_le (Nat.le_refl _) rfl
      | boolFalse => exact Option.some.inj h ▸ .of_le (Nat.le_refl _) rfl
      | byte => exact Option.some.inj h ▸ advances_readerSkip d 1
      | i16 => exact Option.some.inj h ▸ advances_readVarint d
      | i32 => exact Option.some.inj h ▸ advances_readVarint d
      | i64 => exact Option.some.inj h ▸ advances_readVarint d
      | double => exact Option.some.inj h ▸ advances_readerSkip d 8
      | uuid => exact Option.some.inj h ▸ advances_readerSkip d 16
      | binary => exact Option.some.inj h ▸ advances_readBinary d
      | list =>
        exact (advances_readListBegin d).trans (advances_repeatWhileOk (fun _ _ => ih) h)
      | set =>
        exact (advances_readListBegin d).trans (advances_repeatWhileOk (fun _ _ => ih) h)
      | map =>
        refine (advances_readMapBegin d).trans (advances_repeatWhileOk (fun d d' hd => ?_) h)
        obtain ⟨d₁, hd₁, hd₂⟩ := Option.bind_eq_some_iff.mp hd
        exact (ih hd₁).trans (ih hd₂)
      | struct =>
        obtain ⟨r, hr, rfl⟩ := Option.map_eq_some_iff.mp h
        refine ((advances_readStructBegin d).trans (advances_readFields (fun _ type s d r hr => ?_)
          hr)).trans (advances_readStructEnd r.2)
        obtain ⟨d', hd', rfl⟩ := Option.map_eq_some_iff.mp hr
        exact ih hd'

theorem advances_skipping {σ : Type} {s : σ} {type : ThriftType} {d : Decoder}
    {r : σ × Decoder} (h : skipping s type d = some r) : d.Advances r.2 := by
  obtain ⟨d', hd', rfl⟩ := Option.map_eq_some_iff.mp h
  exact advances_skip hd'

/-! ## The window and the whole input -/

/-- The decoder over the whole input, `more` behind the window. -/
def Decoder.extend (more : Bytes) (d : Decoder) : Decoder := { d with rest := d.rest ++ more }

@[simp] theorem extend_rest (more : Bytes) (d : Decoder) :
    (d.extend more).rest = d.rest ++ more := rfl

@[simp] theorem extend_status (more : Bytes) (d : Decoder) :
    (d.extend more).status = d.status := rfl

@[simp] theorem extend_lastFieldId (more : Bytes) (d : Decoder) :
    (d.extend more).lastFieldId = d.lastFieldId := rfl

variable {α β σ : Type} {more : Bytes}

/-- The window's result and the whole input's: they are the same, or the window's says that it is
truncated, or both are the same error. -/
inductive Agree (more : Bytes) : α × Decoder → α × Decoder → Prop where
  | same (a : α) {w : Decoder} (hok : w.status = .ok) : Agree more (a, w) (a, w.extend more)
  | truncated {r r' : α × Decoder} (h : r.2.status = .thriftTruncated) : Agree more r r'
  | failed {r r' : α × Decoder} (herr : r.2.status ≠ .ok) (h : r'.2.status = r.2.status) :
      Agree more r r'

/-- One of the two failed, or the whole input was read beyond the window. -/
def Passed (more : Bytes) (w d : Decoder) : Prop :=
  w.status ≠ .ok ∨ d.status ≠ .ok ∨ d.rest.length < more.length

/-- The two results, `cut` if a read came to the end of the window and did not say so. -/
def Meets (more : Bytes) (cut : Bool) (r r' : α × Decoder) : Prop :=
  (cut = true → Passed more r.2 r'.2) ∧ (cut = false → Agree more r r')

theorem meets_true {r r' : α × Decoder} : Meets more true r r' ↔ Passed more r.2 r'.2 := by
  simp [Meets]

theorem meets_false {r r' : α × Decoder} : Meets more false r r' ↔ Agree more r r' := by
  simp [Meets]

theorem Passed.advances {w w' d d' : Decoder} (h : Passed more w d) (hw : w.Advances w')
    (hd : d.Advances d') : Passed more w' d' := by
  rcases h with h | h | h
  · exact .inl (hw.sticky h ▸ h)
  · exact .inr (.inl (hd.sticky h ▸ h))
  · exact .inr (.inr (Nat.lt_of_le_of_lt hd.reads.le h))

theorem Agree.advances {r r' : α × Decoder} {q q' : β × Decoder} (h : Agree more r r')
    (herr : r.2.status ≠ .ok) (hq : r.2.Advances q.2) (hq' : r'.2.Advances q'.2) :
    Agree more q q' := by
  have hstay := hq.sticky herr
  cases h with
  | same a hok => exact absurd hok herr
  | truncated h => exact .truncated (hstay.trans h)
  | failed _ h =>
    refine .failed (hstay ▸ herr) ?_
    rw [hstay, hq'.sticky (h ▸ herr), h]

/-- An error of the window's is one whatever is cut. -/
theorem Agree.meets {r r' : α × Decoder} (h : Agree more r r') (herr : r.2.status ≠ .ok)
    (cut : Bool) : Meets more cut r r' := by
  cases cut with
  | true => exact meets_true.2 (.inl herr)
  | false => exact meets_false.2 h

/-- **One read after another.** -/
theorem Meets.andThen {cut cut' : Bool} {r r' : α × Decoder} {q q' : β × Decoder}
    (h : Meets more cut r r') (hq : r.2.Advances q.2) (hq' : r'.2.Advances q'.2)
    (hnext : r.2.status = .ok → r' = (r.1, r.2.extend more) → Meets more cut' q q') :
    Meets more (cut || cut') q q' := by
  cases cut with
  | true =>
    rw [Bool.true_or, meets_true]
    exact (meets_true.1 h).advances hq hq'
  | false =>
    rw [Bool.false_or]
    have hagree := meets_false.1 h
    by_cases hok : r.2.status = .ok
    · cases hagree with
      | same a hok => exact hnext hok rfl
      | truncated h => exact absurd (h.symm.trans hok) (by decide)
      | failed herr _ => exact absurd hok herr
    · refine (hagree.advances hok hq hq').meets ?_ cut'
      exact hq.sticky hok ▸ hok

/-- A read that always says so, and then another. -/
theorem Agree.andThen {cut : Bool} {r r' : α × Decoder} {q q' : β × Decoder}
    (h : Agree more r r') (hq : r.2.Advances q.2) (hq' : r'.2.Advances q'.2)
    (hnext : r.2.status = .ok → r' = (r.1, r.2.extend more) → Meets more cut q q') :
    Meets more cut q q' := by
  have hmeets := (meets_false.2 h).andThen hq hq' hnext
  rwa [Bool.false_or] at hmeets

/-- What is made of the value does not matter. -/
theorem Agree.map {r r' : α × Decoder} (f : α → β) (h : Agree more r r') :
    Agree more (f r.1, r.2) (f r'.1, r'.2) := by
  cases h with
  | same a hok => exact .same (f a) hok
  | truncated h => exact .truncated h
  | failed herr h => exact .failed herr h

theorem Meets.map {cut : Bool} {r r' : α × Decoder} (f : α → β) (h : Meets more cut r r') :
    Meets more cut (f r.1, r.2) (f r'.1, r'.2) := by
  refine ⟨fun hcut => ?_, fun hcut => (h.2 hcut).map f⟩
  exact h.1 hcut

/-! ## Reads that say so -/

variable {w : Decoder}

theorem extend_setError (more : Bytes) (d : Decoder) (status : Status) :
    (d.extend more).setError status = (d.setError status).extend more := by
  unfold Decoder.setError
  rw [extend_status]
  split <;> rfl

/-- The same error in the window and in the whole input. -/
theorem agree_setError {status : Status} (a a' : α) (hw : w.status = .ok) (hne : status ≠ .ok)
    {d : Decoder} (hd : d.status = .ok) :
    Agree more (a, w.setError status) (a', d.setError status) :=
  .failed (by simpa [hw] using hne) (by simp [hw, hd])

/-- A count that is refused in the window and in the whole input. -/
theorem meets_refused (a a' : α) (hw : w.status = .ok) {d : Decoder} (hd : d.status = .ok)
    (cut : Bool) :
    Meets more cut (a, w.setError .thriftDecode) (a', d.setError .thriftDecode) :=
  (agree_setError a a' hw (by decide) hd).meets (by simp [hw]) cut

theorem agree_readByteRaw (hok : w.status = .ok) :
    Agree more w.readByteRaw (w.extend more).readByteRaw := by
  cases hrest : w.rest with
  | nil =>
    refine .truncated ?_
    simp [readByteRaw, hrest, hok]
  | cons b rest =>
    have hwindow : w.readByteRaw = (b, { w with rest := rest }) := by simp [readByteRaw, hrest]
    have hwhole : (w.extend more).readByteRaw = (b, Decoder.extend more { w with rest := rest }) := by
      simp [readByteRaw, Decoder.extend, hrest]
    rw [hwindow, hwhole]
    exact .same b hok

theorem agree_readVarint (hok : w.status = .ok) :
    Agree more w.readVarint (w.extend more).readVarint := by
  cases hread : readUleb 64 10 0 0 w.rest with
  | some r =>
    obtain ⟨v, rest⟩ := r
    have hwindow : w.readVarint = (v, { w with rest := rest }) := by
      simp [Decoder.readVarint, hread]
    have hwhole : (w.extend more).readVarint = (v, Decoder.extend more { w with rest := rest }) := by
      simp [Decoder.readVarint, Decoder.extend, readUleb_append more hread]
    rw [hwindow, hwhole]
    exact .same v hok
  | none =>
    by_cases hshort : w.rest.length < 10
    · refine .truncated ?_
      simp [Decoder.readVarint, hread, hshort, hok]
    · have hlong : ¬(w.extend more).rest.length < 10 := by
        rw [extend_rest, List.length_append]
        omega
      have hwhole := readUleb_append_none more hread (by omega)
      rw [Decoder.readVarint, hread]
      rw [Decoder.readVarint, extend_rest, hwhole, ← extend_rest]
      simp only [if_neg hshort, if_neg hlong]
      exact meets_false.1 (@meets_refused _ more { w with rest := w.rest.drop 10 } 0 0 hok
        { w.extend more with rest := (w.extend more).rest.drop 10 } hok false)

theorem agree_readZigzag (hok : w.status = .ok) :
    Agree more w.readZigzag (w.extend more).readZigzag :=
  (agree_readVarint hok).map zigzagDecode64

theorem agree_readI16 (hok : w.status = .ok) :
    Agree more w.readI16 (w.extend more).readI16 := (agree_readZigzag hok).map toI16

theorem agree_readI32 (hok : w.status = .ok) :
    Agree more w.readI32 (w.extend more).readI32 := (agree_readZigzag hok).map toI32

theorem agree_readCount (hok : w.status = .ok) :
    Agree more w.readCount (w.extend more).readCount := by
  rw [readCount_eq, readCount_eq]
  exact (agree_readVarint hok).map fun v : Nat => toI32 v

theorem agree_readBool (hok : w.status = .ok) :
    Agree more w.readBool (w.extend more).readBool := by
  by_cases hpending : w.boolPending = true
  · have hwindow : w.readBool = (w.boolValue, { w with boolPending := false }) := by
      simp [readBool, hpending]
    have hwhole : (w.extend more).readBool =
        (w.boolValue, Decoder.extend more { w with boolPending := false }) := by
      simp [readBool, Decoder.extend, hpending]
    rw [hwindow, hwhole]
    exact .same _ hok
  · have hwindow : w.readBool = (w.readByteRaw.1 == 1, w.readByteRaw.2) := by
      simp [readBool, hpending]
    have hwhole : (w.extend more).readBool =
        ((w.extend more).readByteRaw.1 == 1, (w.extend more).readByteRaw.2) := by
      simp [readBool, Decoder.extend, hpending]
    rw [hwindow, hwhole]
    exact (agree_readByteRaw hok).map (· == 1)

/-- What follows a read that says so. -/
theorem Agree.bind {cut : Bool} {r r' : α × Decoder} (f : α × Decoder → β × Decoder)
    (hf : ∀ r : α × Decoder, r.2.Advances (f r).2) (h : Agree more r r')
    (hnext : ∀ a w, w.status = .ok → r = (a, w) →
      Meets more cut (f (a, w)) (f (a, w.extend more))) :
    Meets more cut (f r) (f r') :=
  h.andThen (hf r) (hf r') fun hok hr' => hr' ▸ hnext r.1 r.2 hok rfl

theorem agree_drop (a : α) {n : Nat} (hok : w.status = .ok) (hn : n ≤ w.rest.length) :
    Agree more (a, { w with rest := w.rest.drop n })
      (a, { w.extend more with rest := (w.extend more).rest.drop n }) := by
  rw [extend_rest, List.drop_append_of_le_length hn]
  exact @Agree.same _ more a { w with rest := w.rest.drop n } hok

theorem agree_binaryData (len : Int) (hok : w.status = .ok) :
    Agree more (binaryData (len, w)) (binaryData (len, w.extend more)) := by
  unfold binaryData
  simp only
  by_cases hneg : len < 0
  · rw [if_pos hneg, if_pos hneg]
    exact agree_setError none none hok (by decide) hok
  · rw [if_neg hneg, if_neg hneg]
    by_cases hshort : w.rest.length < len.toNat
    · rw [if_pos hshort]
      exact .truncated (by simp [hok])
    · have hlong : ¬(w.extend more).rest.length < len.toNat := by
        rw [extend_rest, List.length_append]
        omega
      rw [if_neg hshort, if_neg hlong]
      have htake : (w.extend more).rest.take len.toNat = w.rest.take len.toNat := by
        rw [extend_rest, List.take_append_of_le_length (by omega)]
      rw [htake]
      exact agree_drop _ hok (by omega)

theorem agree_readBinary (hok : w.status = .ok) :
    Agree more w.readBinary (w.extend more).readBinary := by
  rw [readBinary_eq, readBinary_eq]
  exact meets_false.1 ((agree_readCount hok).bind binaryData advances_binaryData
    fun v _ hd _ => meets_false.2 (agree_binaryData v hd))

theorem agree_readStructBegin (a : α) (hok : w.status = .ok) :
    Agree more (a, w.readStructBegin) (a, (w.extend more).readStructBegin) := by
  unfold readStructBegin
  rw [extend_lastFieldId]
  split
  · exact agree_setError a a hok (by decide) hok
  · exact @Agree.same _ more a { w with lastFieldId := 0 :: w.lastFieldId } hok

theorem readStructEnd_extend (d : Decoder) :
    (d.extend more).readStructEnd = d.readStructEnd.extend more := rfl

theorem fieldBegun_extend (type : ThriftType) (id : Int) (d : Decoder) :
    fieldBegun type (id, d.extend more) = (fieldBegun type (id, d)).extend more := by
  have hset : (d.extend more).setLastFieldId id = (d.setLastFieldId id).extend more := by
    cases hids : d.lastFieldId with
    | nil => simp [setLastFieldId, hids]
    | cons id' ids => simp [setLastFieldId, Decoder.extend, hids]
  unfold fieldBegun
  simp only
  rw [hset]
  split <;> rfl

theorem agree_readFieldId (header : Nat) (hok : w.status = .ok) :
    Agree more (w.readFieldId header) ((w.extend more).readFieldId header) := by
  unfold readFieldId
  split
  · exact agree_readI16 hok
  · exact .same _ hok

theorem agree_headerRest (b : UInt8) (hok : w.status = .ok) :
    Agree more (headerRest (b, w)) (headerRest (b, w.extend more)) := by
  unfold headerRest
  simp only
  split
  · exact .same none hok
  · generalize ThriftType.ofCode (b.toNat % 16) = type
    refine meets_false.1 ((agree_readFieldId b.toNat hok).bind
      (fun f => (some (type, f.1), fieldBegun type f)) (advances_fieldBegun type)
      fun id d hd _ => meets_false.2 ?_)
    simp only
    rw [fieldBegun_extend]
    exact .same _ ((fieldBegun_status _ _).trans hd)

theorem agree_readFieldBegin (hok : w.status = .ok) :
    Agree more w.readFieldBegin (w.extend more).readFieldBegin := by
  rw [readFieldBegin_of_ok hok, @readFieldBegin_of_ok (w.extend more) hok]
  exact meets_false.1 ((agree_readByteRaw hok).bind headerRest advances_headerRest
    fun b _ hok _ => meets_false.2 (agree_headerRest b hok))

/-! ## Reads that do not -/

/-- `n` bytes are more than the window has and no more than the whole input, `more` bytes longer,
has. -/
def Decoder.crosses (more n : Nat) (d : Decoder) : Bool :=
  decide (d.rest.length < n) && decide (n ≤ d.rest.length + more)

theorem crosses_iff {n k : Nat} {d : Decoder} :
    d.crosses k n = true ↔ d.rest.length < n ∧ n ≤ d.rest.length + k := by
  simp [crosses]

/-- **A fixed width skipped**: `thrift_skip` does not look whether it was there. -/
theorem meets_readerSkip (a : α) {n : Nat} (hok : w.status = .ok) :
    Meets more (w.crosses more.length n) (a, w.readerSkip n) (a, (w.extend more).readerSkip n) := by
  have hlen : (w.extend more).rest.length = w.rest.length + more.length := by
    rw [extend_rest, List.length_append]
  cases hcross : w.crosses more.length n with
  | true =>
    obtain ⟨hshort, hlong⟩ := crosses_iff.1 hcross
    refine meets_true.2 (.inr (.inr ?_))
    rw [readerSkip, if_pos (by omega)]
    simp only [extend_rest, List.length_drop, List.length_append]
    omega
  | false =>
    refine meets_false.2 ?_
    have hnot : ¬(w.rest.length < n ∧ n ≤ w.rest.length + more.length) := by
      rw [← crosses_iff, hcross]
      exact Bool.false_ne_true
    by_cases hn : n ≤ w.rest.length
    · have hwhole : (w.extend more).readerSkip n = (w.readerSkip n).extend more := by
        rw [readerSkip, if_pos (by omega), readerSkip, if_pos hn, Decoder.extend, Decoder.extend]
        simp only [List.drop_append_of_le_length hn]
      rw [hwhole]
      refine .same a ?_
      rw [readerSkip, if_pos hn]
      exact hok
    · rw [readerSkip, if_neg hn, readerSkip, if_neg (by omega)]
      exact .same a hok

/-- **The count of a list**: beyond the window it is an error, but not the one that asks for
more. -/
theorem meets_listSized (elemType : ThriftType) (n : Int) (hok : w.status = .ok) :
    Meets more (w.crosses more.length n.toNat) (listSized elemType (n, w))
      (listSized elemType (n, w.extend more)) := by
  have hok' : (w.extend more).status = .ok := hok
  have hlen : (w.extend more).rest.length = w.rest.length + more.length := by
    rw [extend_rest, List.length_append]
  unfold listSized
  simp only
  by_cases hneg : n < 0
  · rw [if_pos hneg, if_pos hneg]
    exact meets_refused _ _ hok hok' _
  · rw [if_neg hneg, if_neg hneg]
    by_cases hshort : w.rest.length < n.toNat
    · rw [if_pos hshort]
      cases hcross : w.crosses more.length n.toNat with
      | true => exact meets_true.2 (.inl (by simp [hok]))
      | false =>
        have hbeyond : (w.extend more).rest.length < n.toNat := by
          have hnot : ¬(w.rest.length < n.toNat ∧ n.toNat ≤ w.rest.length + more.length) := by
            rw [← crosses_iff, hcross]
            exact Bool.false_ne_true
          omega
        rw [if_pos hbeyond]
        exact meets_refused _ _ hok hok' false
    · have hcross : w.crosses more.length n.toNat = false :=
        Bool.eq_false_iff.2 fun h => hshort (crosses_iff.1 h).1
      rw [if_neg hshort, if_neg (by omega), hcross]
      exact meets_false.2 (.same _ hok)

theorem agree_listSize (b : UInt8) (hok : w.status = .ok) :
    Agree more (listSize (b, w)) (listSize (b, w.extend more)) := by
  unfold listSize
  simp only
  split
  · exact agree_readCount hok
  · exact .same _ hok

/-- A list's count that the window cuts. -/
def Decoder.listCut (more : Nat) (d : Decoder) : Bool :=
  (listSize d.readByteRaw).2.crosses more (listSize d.readByteRaw).1.toNat

theorem meets_readListBegin (hok : w.status = .ok) :
    Meets more (w.listCut more.length) w.readListBegin (w.extend more).readListBegin := by
  rw [readListBegin_eq, readListBegin_eq]
  refine (agree_readByteRaw hok).bind listBegun advances_listBegun fun b d hd hbyte => ?_
  rw [listCut, hbyte]
  refine (agree_listSize b hd).bind (listSized (.ofCode (b.toNat % 16))) (advances_listSized _)
    fun n d' hd' hsize => ?_
  rw [hsize]
  exact meets_listSized _ n hd'

/-- A map's count that the window cuts. -/
def Decoder.mapCut (more : Nat) (d : Decoder) : Bool :=
  d.readCount.2.crosses more d.readCount.1.toNat

theorem agree_mapTypes (count : Nat) (b : UInt8) (hok : w.status = .ok) :
    Agree more (mapTypes count (b, w)) (mapTypes count (b, w.extend more)) := by
  unfold mapTypes
  exact .same _ hok

theorem meets_mapSized (n : Int) (hok : w.status = .ok) :
    Meets more (w.crosses more.length n.toNat) (mapSized (n, w))
      (mapSized (n, w.extend more)) := by
  have hok' : (w.extend more).status = .ok := hok
  have hlen : (w.extend more).rest.length = w.rest.length + more.length := by
    rw [extend_rest, List.length_append]
  unfold mapSized
  simp only
  by_cases hneg : n < 0
  · rw [if_pos hneg, if_pos hneg]
    exact meets_refused _ _ hok hok' _
  rw [if_neg hneg, if_neg hneg]
  by_cases hzero : n = 0
  · rw [if_pos hzero, if_pos hzero, hzero]
    have hcross : w.crosses more.length (0 : Int).toNat = false :=
      Bool.eq_false_iff.2 fun h => Nat.not_lt_zero _ (crosses_iff.1 h).1
    rw [hcross]
    exact meets_false.2 (.same _ hok)
  rw [if_neg hzero, if_neg hzero]
  by_cases hshort : w.rest.length < n.toNat
  · rw [if_pos hshort]
    cases hcross : w.crosses more.length n.toNat with
    | true => exact meets_true.2 (.inl (by simp [hok]))
    | false =>
      have hbeyond : (w.extend more).rest.length < n.toNat := by
        have hnot : ¬(w.rest.length < n.toNat ∧ n.toNat ≤ w.rest.length + more.length) := by
          rw [← crosses_iff, hcross]
          exact Bool.false_ne_true
        omega
      rw [if_pos hbeyond]
      exact meets_refused _ _ hok hok' false
  · have hcross : w.crosses more.length n.toNat = false :=
      Bool.eq_false_iff.2 fun h => hshort (crosses_iff.1 h).1
    rw [if_neg hshort, if_neg (by omega), hcross]
    exact (agree_readByteRaw hok).bind (mapTypes n.toNat) (advances_mapTypes n.toNat)
      fun b d hd _ => meets_false.2 (agree_mapTypes n.toNat b hd)

theorem meets_readMapBegin (hok : w.status = .ok) :
    Meets more (w.mapCut more.length) w.readMapBegin (w.extend more).readMapBegin := by
  have hcount := @agree_readCount more w hok
  rw [readMapBegin_eq, readMapBegin_eq, mapCut]
  generalize w.readCount = r at hcount ⊢
  generalize (w.extend more).readCount = r' at hcount ⊢
  refine hcount.bind mapSized advances_mapSized fun n d hd hread => ?_
  rw [hread]
  exact meets_mapSized n hd

/-! ## Loops -/

/-- A turn of `repeatWhileOk` that the window cuts, `cut` saying it of the body. -/
def Decoder.repeatCut (body : Decoder → Option Decoder) (cut : Decoder → Bool) :
    Nat → Decoder → Bool
  | 0, _ => false
  | n + 1, d =>
    if d.status = .ok then
      cut d || match body d with
        | none => false
        | some d => d.repeatCut body cut n
    else false

/-- A field that the window cuts, `cut` saying it of the body. -/
def Decoder.fieldsCut {σ : Type} (handle : Int → ThriftType → σ → Decoder → Option (σ × Decoder))
    (cut : Int → ThriftType → σ → Decoder → Bool) : Nat → σ → Decoder → Bool
  | 0, _, _ => false
  | fuel + 1, s, d =>
    match d.readFieldBegin with
    | (none, _) => false
    | (some (type, id), d) =>
      cut id type s d || match handle id type s d with
        | none => false
        | some (s, d) => d.fieldsCut handle cut fuel s

/-- `body` in the window and `body'` in the whole input, `cut` where a read came to the end of the
window and did not say so. -/
def Tracks (more : Bytes) (body body' : Decoder → Option (α × Decoder)) (cut : Decoder → Bool) :
    Prop :=
  ∀ w r r', w.status = .ok → body w = some r → body' (w.extend more) = some r' →
    Meets more (cut w) r r'

/-- Without a result but the decoder. -/
def unvalued (body : Decoder → Option Decoder) (d : Decoder) : Option (Unit × Decoder) :=
  (body d).map fun d => ((), d)

theorem unvalued_eq {body : Decoder → Option Decoder} {d d' : Decoder} (h : body d = some d') :
    unvalued body d = some ((), d') := by
  rw [unvalued, h]
  rfl

theorem repeatWhileOk_succ (body : Decoder → Option Decoder) (n : Nat) {d : Decoder}
    (hok : d.status = .ok) :
    d.repeatWhileOk body (n + 1) = (body d).bind fun d => d.repeatWhileOk body n := by
  rw [repeatWhileOk, if_pos hok]
  cases body d <;> rfl

/-- **A loop over a count.** -/
theorem meets_repeatWhileOk {body body' : Decoder → Option Decoder} {cut : Decoder → Bool}
    (hadv : ∀ d d', body d = some d' → d.Advances d')
    (hadv' : ∀ d d', body' d = some d' → d.Advances d')
    (hbody : Tracks more (unvalued body) (unvalued body') cut) {n : Nat} {w d d' : Decoder}
    (hok : w.status = .ok) (h : w.repeatWhileOk body n = some d)
    (h' : (w.extend more).repeatWhileOk body' n = some d') :
    Meets more (w.repeatCut body cut n) ((), d) ((), d') := by
  induction n generalizing w with
  | zero =>
    cases h
    cases h'
    exact meets_false.2 (.same () hok)
  | succ n ih =>
    have hok' : (w.extend more).status = .ok := hok
    rw [repeatWhileOk_succ body n hok] at h
    rw [repeatWhileOk_succ body' n hok'] at h'
    obtain ⟨e, hone, h⟩ := Option.bind_eq_some_iff.mp h
    obtain ⟨e', hone', h'⟩ := Option.bind_eq_some_iff.mp h'
    simp only [repeatCut, if_pos hok, hone]
    have hturn := hbody w _ _ hok (unvalued_eq hone) (unvalued_eq hone')
    refine hturn.andThen (advances_repeatWhileOk hadv h) (advances_repeatWhileOk hadv' h')
      fun hgo hsame => ?_
    obtain rfl : e' = e.extend more := congrArg Prod.snd hsame
    exact ih hgo h h'

/-- The rest of a loop over fields behind a header. -/
def fieldsFrom (handle : Int → ThriftType → σ → Decoder → Option (σ × Decoder)) (fuel : Nat)
    (s : σ) (p : Option (ThriftType × Int) × Decoder) : Option (σ × Decoder) :=
  match p with
  | (none, d) => some (s, d)
  | (some (type, id), d) => (handle id type s d).bind fun r => r.2.readFields handle fuel r.1

theorem readFields_succ (handle : Int → ThriftType → σ → Decoder → Option (σ × Decoder))
    (fuel : Nat) (s : σ) (d : Decoder) :
    d.readFields handle (fuel + 1) s = fieldsFrom handle fuel s d.readFieldBegin := by
  rw [readFields]
  split
  · rename_i d' heq
    rw [heq, fieldsFrom]
  · rename_i type id d' heq
    rw [heq, fieldsFrom]
    split
    · rename_i hnone
      rw [hnone]
      rfl
    · rename_i s' e hsome
      rw [hsome]
      rfl

theorem advances_fieldsFrom {handle : Int → ThriftType → σ → Decoder → Option (σ × Decoder)}
    (hadv : ∀ id type s d r, handle id type s d = some r → d.Advances r.2) {fuel : Nat} {s : σ}
    {p : Option (ThriftType × Int) × Decoder} {r : σ × Decoder}
    (h : fieldsFrom handle fuel s p = some r) : p.2.Advances r.2 := by
  obtain ⟨_ | ⟨type, id⟩, d⟩ := p
  · exact Option.some.inj h ▸ .refl d
  · obtain ⟨q, hq, hr⟩ := Option.bind_eq_some_iff.mp h
    exact (hadv id type s d q hq).trans (advances_readFields hadv hr)

/-- **A loop over fields.** -/
theorem meets_readFields {handle handle' : Int → ThriftType → σ → Decoder → Option (σ × Decoder)}
    {cut : Int → ThriftType → σ → Decoder → Bool}
    (hadv : ∀ id type s d r, handle id type s d = some r → d.Advances r.2)
    (hadv' : ∀ id type s d r, handle' id type s d = some r → d.Advances r.2)
    (hfield : ∀ id type s, Tracks more (handle id type s) (handle' id type s) (cut id type s))
    {fuel fuel' : Nat} {s : σ} {w : Decoder} {r r' : σ × Decoder} (hok : w.status = .ok)
    (h : w.readFields handle fuel s = some r)
    (h' : (w.extend more).readFields handle' fuel' s = some r') :
    Meets more (w.fieldsCut handle cut fuel s) r r' := by
  induction fuel generalizing fuel' s w with
  | zero => cases h
  | succ fuel ih =>
    cases fuel' with
    | zero => cases h'
    | succ fuel' =>
      rw [readFields_succ] at h h'
      refine (agree_readFieldBegin hok).andThen (advances_fieldsFrom hadv h)
        (advances_fieldsFrom hadv' h') fun hheader hsame => ?_
      rw [hsame] at h'
      rw [fieldsCut]
      generalize w.readFieldBegin = p at h h' hheader ⊢
      obtain ⟨_ | ⟨type, id⟩, d⟩ := p
      · cases h
        cases h'
        exact meets_false.2 (.same s hheader)
      · obtain ⟨q, hq, hr⟩ := Option.bind_eq_some_iff.mp h
        obtain ⟨q', hq', hr'⟩ := Option.bind_eq_some_iff.mp h'
        simp only [hq]
        refine (hfield id type s d q q' hheader hq hq').andThen (advances_readFields hadv hr)
          (advances_readFields hadv' hr') fun hok' he => ?_
        rw [he] at hr'
        exact ih hok' hr hr'

/-- A struct that the window cuts. -/
def Decoder.structCut {σ : Type} (handle : Int → ThriftType → σ → Decoder → Option (σ × Decoder))
    (cut : Int → ThriftType → σ → Decoder → Bool) (s : σ) (d : Decoder) : Bool :=
  d.readStructBegin.fieldsCut handle cut (d.readStructBegin.rest.length + 1) s

/-- **A struct.** -/
theorem meets_readStruct {handle handle' : Int → ThriftType → σ → Decoder → Option (σ × Decoder)}
    {cut : Int → ThriftType → σ → Decoder → Bool}
    (hadv : ∀ id type s d r, handle id type s d = some r → d.Advances r.2)
    (hadv' : ∀ id type s d r, handle' id type s d = some r → d.Advances r.2)
    (hfield : ∀ id type s, Tracks more (handle id type s) (handle' id type s) (cut id type s))
    (s : σ) :
    Tracks more (Decoder.readStruct handle s) (Decoder.readStruct handle' s)
      (Decoder.structCut handle cut s) := by
  intro w r r' hok h h'
  obtain ⟨q, hq, rfl⟩ := Option.map_eq_some_iff.mp h
  obtain ⟨q', hq', rfl⟩ := Option.map_eq_some_iff.mp h'
  refine (agree_readStructBegin s hok).andThen
    ((advances_readFields hadv hq).trans (advances_readStructEnd q.2))
    ((advances_readFields hadv' hq').trans (advances_readStructEnd q'.2)) fun hbegin hsame => ?_
  rw [show (w.extend more).readStructBegin = w.readStructBegin.extend more from
    congrArg Prod.snd hsame] at hq'
  have hloop := meets_readFields hadv hadv' hfield hbegin hq hq'
  have hend : Meets more (w.readStructBegin.fieldsCut handle cut
      (w.readStructBegin.rest.length + 1) s || false) (q.1, q.2.readStructEnd)
      (q'.1, q'.2.readStructEnd) :=
    hloop.andThen (advances_readStructEnd q.2) (advances_readStructEnd q'.2) fun hok' he => by
      rw [he]
      exact meets_false.2 (.same q.1 hok')
  rwa [Bool.or_false] at hend

/-! ## Skipping -/

/-- Two skips, one after another, that the window cuts. -/
def Decoder.pairCut (first : Decoder → Option Decoder) (cut cut' : Decoder → Bool) (d : Decoder) :
    Bool :=
  cut d || match first d with
    | none => false
    | some d => cut' d

section
variable {first first' second second' : Decoder → Option Decoder} {cut cut' : Decoder → Bool}

theorem advances_pair (hfirst : ∀ d d', first d = some d' → d.Advances d')
    (hsecond : ∀ d d', second d = some d' → d.Advances d') (d d' : Decoder)
    (h : (first d).bind second = some d') : d.Advances d' := by
  obtain ⟨e, he, hd'⟩ := Option.bind_eq_some_iff.mp h
  exact (hfirst d e he).trans (hsecond e d' hd')

theorem tracks_pair (hadv : ∀ d d', second d = some d' → d.Advances d')
    (hadv' : ∀ d d', second' d = some d' → d.Advances d')
    (hfirst : Tracks more (unvalued first) (unvalued first') cut)
    (hsecond : Tracks more (unvalued second) (unvalued second') cut') :
    Tracks more (unvalued fun d => (first d).bind second)
      (unvalued fun d => (first' d).bind second') (Decoder.pairCut first cut cut') := by
  intro w r r' hok h h'
  obtain ⟨d, hd, rfl⟩ := Option.map_eq_some_iff.mp h
  obtain ⟨d', hd', rfl⟩ := Option.map_eq_some_iff.mp h'
  obtain ⟨e, he, hd⟩ := Option.bind_eq_some_iff.mp hd
  obtain ⟨e', he', hd'⟩ := Option.bind_eq_some_iff.mp hd'
  rw [Decoder.pairCut, he]
  refine (hfirst w _ _ hok (unvalued_eq he) (unvalued_eq he')).andThen (hadv e d hd)
    (hadv' e' d' hd') fun hok' hsame => ?_
  obtain rfl : e' = e.extend more := congrArg Prod.snd hsame
  exact hsecond e _ _ hok' (unvalued_eq hd) (unvalued_eq hd')

/-- A loop over keys and values. -/
theorem meets_pairs (hfirst : ∀ d d', first d = some d' → d.Advances d')
    (hfirst' : ∀ d d', first' d = some d' → d.Advances d')
    (hsecond : ∀ d d', second d = some d' → d.Advances d')
    (hsecond' : ∀ d d', second' d = some d' → d.Advances d')
    (hkey : Tracks more (unvalued first) (unvalued first') cut)
    (hvalue : Tracks more (unvalued second) (unvalued second') cut') {n : Nat} {w d d' : Decoder}
    (hok : w.status = .ok)
    (h : w.repeatWhileOk (fun d => (first d).bind second) n = some d)
    (h' : (w.extend more).repeatWhileOk (fun d => (first' d).bind second') n = some d') :
    Meets more (w.repeatCut (fun d => (first d).bind second) (Decoder.pairCut first cut cut') n)
      ((), d) ((), d') :=
  meets_repeatWhileOk (advances_pair hfirst hsecond) (advances_pair hfirst' hsecond')
    (tracks_pair hsecond hsecond' hkey hvalue) hok h h'

end

/-- **A skip that the window cuts.** -/
def Decoder.skipCut (more : Nat) : Nat → ThriftType → Decoder → Bool
  | 0, _, _ => false
  | fuel + 1, type, d =>
    if d.status ≠ .ok then false
    else
      match type with
      | .byte => d.crosses more 1
      | .double => d.crosses more 8
      | .uuid => d.crosses more 16
      | .list | .set =>
        let l := d.readListBegin
        d.listCut more ||
          l.2.repeatCut (Decoder.skip fuel l.1.1) (Decoder.skipCut more fuel l.1.1) l.1.2
      | .map =>
        let m := d.readMapBegin
        d.mapCut more ||
          m.2.repeatCut
            (fun d => (Decoder.skip fuel m.1.1 d).bind (Decoder.skip fuel m.1.2.1))
            (Decoder.pairCut (Decoder.skip fuel m.1.1) (Decoder.skipCut more fuel m.1.1)
              (Decoder.skipCut more fuel m.1.2.1)) m.1.2.2
      | .struct => d.structCut (skipField fuel) (fun _ type _ => Decoder.skipCut more fuel type) ()
      | _ => false

theorem advances_skipField {fuel : Nat} {id : Int} {type : ThriftType} {s : Unit} {d : Decoder}
    {r : Unit × Decoder} (h : skipField fuel id type s d = some r) : d.Advances r.2 := by
  obtain ⟨d', hd', rfl⟩ := Option.map_eq_some_iff.mp h
  exact advances_skip hd'

theorem skip_struct {fuel : Nat} {d : Decoder} (hok : d.status = .ok) :
    d.skip (fuel + 1) .struct = (d.readStruct (skipField fuel) ()).map fun r => r.2 := by
  rw [Decoder.skip.eq_def]
  simp only [if_neg (fun hne => hne hok : ¬d.status ≠ .ok), Decoder.readStruct, Option.map_map]
  rfl

/-- A list or a set. -/
theorem meets_list {fuel fuel' : Nat}
    (ih : ∀ type, Tracks more (unvalued (Decoder.skip fuel type)) (unvalued (Decoder.skip fuel' type))
      (Decoder.skipCut more.length fuel type)) {w d d' : Decoder} (hok : w.status = .ok)
    (h : w.readListBegin.2.repeatWhileOk (Decoder.skip fuel w.readListBegin.1.1)
      w.readListBegin.1.2 = some d)
    (h' : (w.extend more).readListBegin.2.repeatWhileOk
      (Decoder.skip fuel' (w.extend more).readListBegin.1.1)
      (w.extend more).readListBegin.1.2 = some d') :
    Meets more (w.listCut more.length ||
      w.readListBegin.2.repeatCut (Decoder.skip fuel w.readListBegin.1.1)
        (Decoder.skipCut more.length fuel w.readListBegin.1.1) w.readListBegin.1.2)
      ((), d) ((), d') := by
  have hlist := @meets_readListBegin more w hok
  generalize w.readListBegin = l at hlist h ⊢
  generalize (w.extend more).readListBegin = l' at hlist h'
  refine hlist.andThen (advances_repeatWhileOk (fun _ _ => advances_skip) h)
    (advances_repeatWhileOk (fun _ _ => advances_skip) h') fun hbegin hsame => ?_
  rw [hsame] at h'
  exact meets_repeatWhileOk (fun _ _ => advances_skip) (fun _ _ => advances_skip) (ih l.1.1)
    hbegin h h'

/-- A map. -/
theorem meets_map {fuel fuel' : Nat}
    (ih : ∀ type, Tracks more (unvalued (Decoder.skip fuel type)) (unvalued (Decoder.skip fuel' type))
      (Decoder.skipCut more.length fuel type)) {w d d' : Decoder} (hok : w.status = .ok)
    (h : w.readMapBegin.2.repeatWhileOk
      (fun d => (Decoder.skip fuel w.readMapBegin.1.1 d).bind
        (Decoder.skip fuel w.readMapBegin.1.2.1)) w.readMapBegin.1.2.2 = some d)
    (h' : (w.extend more).readMapBegin.2.repeatWhileOk
      (fun d => (Decoder.skip fuel' (w.extend more).readMapBegin.1.1 d).bind
        (Decoder.skip fuel' (w.extend more).readMapBegin.1.2.1))
      (w.extend more).readMapBegin.1.2.2 = some d') :
    Meets more (w.mapCut more.length ||
      w.readMapBegin.2.repeatCut
        (fun d => (Decoder.skip fuel w.readMapBegin.1.1 d).bind
          (Decoder.skip fuel w.readMapBegin.1.2.1))
        (Decoder.pairCut (Decoder.skip fuel w.readMapBegin.1.1)
          (Decoder.skipCut more.length fuel w.readMapBegin.1.1)
          (Decoder.skipCut more.length fuel w.readMapBegin.1.2.1)) w.readMapBegin.1.2.2)
      ((), d) ((), d') := by
  have hmap := @meets_readMapBegin more w hok
  have hskip (fuel : Nat) (type : ThriftType) (d d' : Decoder)
      (h : Decoder.skip fuel type d = some d') : d.Advances d' := advances_skip h
  generalize w.readMapBegin = m at hmap h ⊢
  generalize (w.extend more).readMapBegin = m' at hmap h'
  have hloop := advances_repeatWhileOk (advances_pair (hskip fuel m.1.1) (hskip fuel m.1.2.1)) h
  have hloop' :=
    advances_repeatWhileOk (advances_pair (hskip fuel' m'.1.1) (hskip fuel' m'.1.2.1)) h'
  refine hmap.andThen hloop hloop' fun hbegin hsame => ?_
  obtain ⟨⟨key, value, n⟩, e⟩ := m
  subst hsame
  exact meets_pairs (hskip fuel key) (hskip fuel' key) (hskip fuel value) (hskip fuel' value)
    (ih key) (ih value) hbegin h h'

/-- **`thrift_skip` says what is missing unless it is cut silently.** -/
theorem tracks_skip {fuel fuel' : Nat} (type : ThriftType) :
    Tracks more (unvalued (Decoder.skip fuel type)) (unvalued (Decoder.skip fuel' type))
      (Decoder.skipCut more.length fuel type) := by
  induction fuel generalizing fuel' type with
  | zero =>
    intro w r r' hok h
    cases h
  | succ fuel ih =>
    cases fuel' with
    | zero =>
      intro w r r' hok h h'
      cases h'
    | succ fuel' =>
      intro w r r' hok h h'
      obtain ⟨d, hd, rfl⟩ := Option.map_eq_some_iff.mp h
      obtain ⟨d', hd', rfl⟩ := Option.map_eq_some_iff.mp h'
      have hok' : (w.extend more).status = .ok := hok
      have hgo : ¬w.status ≠ .ok := fun hne => hne hok
      have hgo' : ¬(w.extend more).status ≠ .ok := hgo
      by_cases hstruct : type = .struct
      · subst hstruct
        rw [skip_struct hok] at hd
        rw [@skip_struct fuel' (w.extend more) hok] at hd'
        obtain ⟨q, hq, rfl⟩ := Option.map_eq_some_iff.mp hd
        obtain ⟨q', hq', rfl⟩ := Option.map_eq_some_iff.mp hd'
        rw [Decoder.skipCut.eq_def]
        simp only [if_neg hgo]
        exact meets_readStruct (fun _ _ _ _ _ => advances_skipField)
          (fun _ _ _ _ _ => advances_skipField) (fun _ type _ => ih type) () w q q' hok hq hq'
      rw [Decoder.skip.eq_def] at hd hd'
      simp only [if_neg hgo] at hd
      simp only [if_neg hgo'] at hd'
      rw [Decoder.skipCut.eq_def]
      simp only [if_neg hgo]
      cases type with
      | struct => exact absurd rfl hstruct
      | stop =>
        cases hd
        cases hd'
        exact meets_refused () () hok hok' false
      | unknown code =>
        cases hd
        cases hd'
        exact meets_false.2 (agree_setError () () hok (by decide) hok')
      | boolTrue =>
        cases hd
        cases hd'
        exact meets_false.2 (@Agree.same _ more () { w with boolPending := false } hok)
      | boolFalse =>
        cases hd
        cases hd'
        exact meets_false.2 (@Agree.same _ more () { w with boolPending := false } hok)
      | byte =>
        cases hd
        cases hd'
        exact meets_readerSkip () hok
      | double =>
        cases hd
        cases hd'
        exact meets_readerSkip () hok
      | uuid =>
        cases hd
        cases hd'
        exact meets_readerSkip () hok
      | i16 =>
        cases hd
        cases hd'
        exact meets_false.2 ((agree_readVarint hok).map fun _ : Nat => ())
      | i32 =>
        cases hd
        cases hd'
        exact meets_false.2 ((agree_readVarint hok).map fun _ : Nat => ())
      | i64 =>
        cases hd
        cases hd'
        exact meets_false.2 ((agree_readVarint hok).map fun _ : Nat => ())
      | binary =>
        have hbinary := @agree_readBinary more w hok
        generalize w.readBinary = r at hbinary hd
        generalize (w.extend more).readBinary = r' at hbinary hd'
        cases hd
        cases hd'
        exact meets_false.2 (hbinary.map fun _ : Option Bytes => ())
      | list => exact meets_list (fun type => ih type) hok hd hd'
      | set => exact meets_list (fun type => ih type) hok hd hd'
      | map => exact meets_map (fun type => ih type) hok hd hd'

/-- A field skipped that the window cuts. -/
def Decoder.thriftSkipCut (more : Nat) (type : ThriftType) (d : Decoder) : Bool :=
  d.skipCut more (d.rest.length + 1) type

/-! ## Fields -/

/-- A field's body read through the window, `cut` where a read came to its end and did not say
so. -/
structure Windowed (more : Bytes) (body : Decoder → Option (σ × Decoder)) (cut : Decoder → Bool) :
    Prop where
  advances : ∀ d r, body d = some r → d.Advances r.2
  tracks : Tracks more body body cut

/-- **A field that is skipped.** -/
theorem windowed_skipping (s : σ) (type : ThriftType) :
    Windowed more (skipping s type) (Decoder.thriftSkipCut more.length type) := by
  refine ⟨fun d r => advances_skipping, fun w r r' hok h h' => ?_⟩
  obtain ⟨d, hd, rfl⟩ := Option.map_eq_some_iff.mp h
  obtain ⟨d', hd', rfl⟩ := Option.map_eq_some_iff.mp h'
  exact (tracks_skip type w _ _ hok (unvalued_eq hd) (unvalued_eq hd')).map fun _ => s

/-- **A field that is read and stored.** -/
theorem windowed_storing (set : α → σ) {read : Decoder → α × Decoder}
    (hadv : ∀ d : Decoder, d.Advances (read d).2)
    (hread : ∀ w : Decoder, w.status = .ok → Agree more (read w) (read (w.extend more))) :
    Windowed more (fun d => storing set (read d)) fun _ => false := by
  constructor
  · intro d r h
    simp only [storing] at h
    cases h
    exact hadv d
  · intro w r r' hok h h'
    simp only [storing] at h h'
    cases h
    cases h'
    exact meets_false.2 ((hread w hok).map set)

theorem windowed_i32 (set : Int → σ) :
    Windowed more (fun d => storing set d.readI32) fun _ => false :=
  windowed_storing set advances_readVarint fun _ => agree_readI32

theorem windowed_bool (set : Bool → σ) :
    Windowed more (fun d => storing set d.readBool) fun _ => false :=
  windowed_storing set advances_readBool fun _ => agree_readBool

/-- **A struct, its fields read by `handle`.** -/
theorem windowed_readStruct {handle : Int → ThriftType → σ → Decoder → Option (σ × Decoder)}
    {cut : Int → ThriftType → σ → Decoder → Bool}
    (h : ∀ id type s, Windowed more (handle id type s) (cut id type s)) (s : σ) :
    Windowed more (Decoder.readStruct handle s) (Decoder.structCut handle cut s) := by
  have hadv (id : Int) (type : ThriftType) (s : σ) (d : Decoder) (r : σ × Decoder)
      (hr : handle id type s d = some r) : d.Advances r.2 := (h id type s).advances d r hr
  exact ⟨fun d r => advances_readStruct hadv,
    meets_readStruct hadv hadv (fun id type s => (h id type s).tracks) s⟩

/-- A struct in a struct. -/
theorem Windowed.map {τ : Type} {body : Decoder → Option (σ × Decoder)} {cut : Decoder → Bool}
    (h : Windowed more body cut) (set : σ → τ) :
    Windowed more (fun d => (body d).map fun r => (set r.1, r.2)) cut := by
  constructor
  · intro d r hr
    obtain ⟨q, hq, rfl⟩ := Option.map_eq_some_iff.mp hr
    exact h.advances d q hq
  · intro w r r' hok hr hr'
    obtain ⟨q, hq, rfl⟩ := Option.map_eq_some_iff.mp hr
    obtain ⟨q', hq', rfl⟩ := Option.map_eq_some_iff.mp hr'
    exact (h.tracks w q q' hok hq hq').map set

end Carquet
