import Carquet.Thrift.SkipSpec

/-!
# What is written reads back

`src/thrift/thrift_encode.c:39-202` against `src/thrift/thrift_decode.c:68-364`. `writeVal s v` is
the sequence of `thrift_write_*` calls that describes the value `v` of the type `s`, and `readVal s`
the matching sequence of `thrift_read_*` calls. A read gives no value when the id or the type of a
field, or the type of an element, is not the one of `s`; so a value that is read has them too.

Both sides keep the id of the last field of every struct they are in, and both refuse to open more
than 32 structs.
-/

namespace Carquet

open LittleEndian

/-! ## The writer -/

/-- `thrift_write_bool` for an element, the element's own write for any other type. -/
def writeElem : (s : Shape) → (Val s → Encoder → Encoder) → Val s → Encoder → Encoder
  | .bool, _ => fun (v : Bool) e => e.append (boolBytes v)
  | _, write => write

mutual

/-- The writes of a value; those of a boolean are in the header of its field. -/
def writeVal : (s : Shape) → Val s → Encoder → Encoder
  | .bool => fun _ e => e
  | .byte => fun (b : UInt8) e => e.append [b]
  | .i16 => fun (n : Int16) e => e.writeInt n.toInt
  | .i32 => fun (n : Int32) e => e.writeInt n.toInt
  | .i64 => fun (n : Int64) e => e.writeInt n.toInt
  | .double => fun (v : Vector UInt8 8) e => e.append v.toList
  | .binary => fun (v : { data : Bytes // data.length < 2147483648 }) e => e.writeBinary v.1
  | .uuid => fun (v : Vector UInt8 16) e => e.append v.toList
  | .list elem => fun (vs : { vs : List (Val elem) // vs.length < 2147483648 }) e =>
    vs.1.foldl (fun e v => writeElem elem (writeVal elem) v e)
      (e.append (listBeginBytes elem.wireType vs.1.length))
  | .set elem => fun (vs : { vs : List (Val elem) // vs.length < 2147483648 }) e =>
    vs.1.foldl (fun e v => writeElem elem (writeVal elem) v e)
      (e.append (listBeginBytes elem.wireType vs.1.length))
  | .map key value =>
    fun (es : { es : List (Val key × Val value) // es.length < 2147483648 }) e =>
    es.1.foldl (fun e kv =>
        writeElem value (writeVal value) kv.2 (writeElem key (writeVal key) kv.1 e))
      (e.append (mapBeginBytes key.wireType value.wireType es.1.length))
  | .struct fields => fun (vs : FieldVals fields) e =>
    (writeFieldVals fields vs e.writeStructBegin).writeStructEnd

/-- The headers and the values of the fields of a struct. -/
def writeFieldVals : (fields : Fields) → FieldVals fields → Encoder → Encoder
  | .nil => fun _ e => e
  | .cons id type rest => fun (vs : Val type × FieldVals rest) e =>
    writeFieldVals rest vs.2
      (writeVal type vs.1 (e.writeFieldHeader (type.fieldType vs.1) id.toInt))

end

/-! ## The reader -/

/-- `thrift_read_uuid` (thrift_decode.c:190-198). -/
def Decoder.readUuid (d : Decoder) : Bytes × Decoder :=
  if d.rest.length < 16 then (List.replicate 16 0, d.setError .thriftTruncated)
  else (d.rest.take 16, { d with rest := d.rest.drop 16 })

/-- A read of `n` bytes as a vector. -/
def sizedBytes (n : Nat) (r : Bytes × Decoder) : Option (Vector UInt8 n × Decoder) :=
  if h : r.1.length = n then some (⟨r.1.toArray, by simpa using h⟩, r.2) else none

/-- `count` reads one after the other. -/
def readTimes {α : Type} (read : Decoder → Option (α × Decoder)) :
    Nat → Decoder → Option (List α × Decoder)
  | 0, d => some ([], d)
  | count + 1, d =>
    match read d with
    | none => none
    | some (v, d) => (readTimes read count d).map fun r => (v :: r.1, r.2)

/-- A list that a count of an `int32_t` can have. -/
def countedList {α : Type} (r : List α × Decoder) :
    Option ({ vs : List α // vs.length < 2147483648 } × Decoder) :=
  if h : r.1.length < 2147483648 then some (⟨r.1, h⟩, r.2) else none

/-- A binary that a length of an `int32_t` can have. -/
def countedBinary :
    Option Bytes × Decoder → Option ({ data : Bytes // data.length < 2147483648 } × Decoder)
  | (some data, d) => countedList (data, d)
  | (none, _) => none

/-- The reads of a struct around those of its fields. -/
def readStruct {α : Type} (read : Decoder → Option (α × Decoder)) (d : Decoder) :
    Option (α × Decoder) :=
  (read d.readStructBegin).map fun r => (r.1, r.2.readStructEnd)

/-- `thrift_read_bool` for an element, the element's own read for any other type. -/
def readElem : (s : Shape) → (Decoder → Option (Val s × Decoder)) →
    Decoder → Option (Val s × Decoder)
  | .bool, _ => fun d => (some d.readBool : Option (Bool × Decoder))
  | _, read => read

/-- The reads of a list or a set behind its header. -/
def readCounted {α : Type} (elemType : ThriftType) (read : Decoder → Option (α × Decoder)) :
    (ThriftType × Nat) × Decoder → Option ({ vs : List α // vs.length < 2147483648 } × Decoder)
  | ((type, count), d) =>
    if type = elemType then (readTimes read count d).bind countedList else none

/-- The reads of a key and its value. -/
def readEntry {α β : Type} (readKey : Decoder → Option (α × Decoder))
    (readValue : Decoder → Option (β × Decoder)) (d : Decoder) : Option ((α × β) × Decoder) :=
  match readKey d with
  | none => none
  | some (k, d) => (readValue d).map fun v => ((k, v.1), v.2)

/-- The reads of a map behind its header; the header of an empty map names no types. -/
def readEntries {α β : Type} (keyType valueType : ThriftType)
    (readKey : Decoder → Option (α × Decoder)) (readValue : Decoder → Option (β × Decoder)) :
    (ThriftType × ThriftType × Nat) × Decoder →
      Option ({ es : List (α × β) // es.length < 2147483648 } × Decoder)
  | ((key, value, count), d) =>
    if count = 0 ∨ (key = keyType ∧ value = valueType) then
      (readTimes (readEntry readKey readValue) count d).bind countedList
    else none

/-- Whether a field with this type in its header is a field of the shape. -/
def Shape.accepts : Shape → ThriftType → Bool
  | .bool, type => type = .boolTrue || type = .boolFalse
  | s, type => type = s.wireType

mutual

/-- The reads of a value. -/
def readVal : (s : Shape) → Decoder → Option (Val s × Decoder)
  | .bool => fun d => (some d.readBool : Option (Bool × Decoder))
  | .byte => fun d =>
    (some (UInt8.ofNat (d.readByte.1 % 256).toNat, d.readByte.2) : Option (UInt8 × Decoder))
  | .i16 => fun d => (some (Int16.ofInt d.readI16.1, d.readI16.2) : Option (Int16 × Decoder))
  | .i32 => fun d => (some (Int32.ofInt d.readI32.1, d.readI32.2) : Option (Int32 × Decoder))
  | .i64 => fun d => (some (Int64.ofInt d.readI64.1, d.readI64.2) : Option (Int64 × Decoder))
  | .double => fun d => sizedBytes 8 d.readDouble
  | .binary => fun d =>
    (countedBinary d.readBinary :
      Option ({ data : Bytes // data.length < 2147483648 } × Decoder))
  | .uuid => fun d => sizedBytes 16 d.readUuid
  | .list elem => fun d =>
    readCounted elem.wireType (readElem elem (readVal elem)) d.readListBegin
  | .set elem => fun d =>
    readCounted elem.wireType (readElem elem (readVal elem)) d.readListBegin
  | .map key value => fun d =>
    readEntries key.wireType value.wireType (readElem key (readVal key))
      (readElem value (readVal value)) d.readMapBegin
  | .struct fields => fun d =>
    (readStruct (readFieldVals fields) d : Option (FieldVals fields × Decoder))

/-- The reads of the fields of a struct, up to the stop. -/
def readFieldVals : (fields : Fields) → Decoder → Option (FieldVals fields × Decoder)
  | .nil => fun d =>
    match d.readFieldBegin with
    | (none, d) => (some ((), d) : Option (Unit × Decoder))
    | (some _, _) => none
  | .cons id type rest => fun d =>
    match d.readFieldBegin with
    | (none, _) => none
    | (some (fieldType, fieldId), d) =>
      if fieldId = id.toInt ∧ type.accepts fieldType then
        match readVal type d with
        | none => none
        | some (v, d) =>
          ((readFieldVals rest d).map fun r => ((v, r.1), r.2) :
            Option ((Val type × FieldVals rest) × Decoder))
      else none

end

/-! ## Nesting -/

/-- The largest `f v` of a list. -/
def deepest {α : Type} (f : α → Nat) : List α → Nat
  | [] => 0
  | v :: vs => max (f v) (deepest f vs)

theorem deepest_le_iff {α : Type} {f : α → Nat} {vs : List α} {n : Nat} :
    deepest f vs ≤ n ↔ ∀ v ∈ vs, f v ≤ n := by
  induction vs with
  | nil => exact ⟨fun _ v hv => absurd hv List.not_mem_nil, fun _ => Nat.zero_le n⟩
  | cons v vs ih => rw [deepest, Nat.max_le, ih, List.forall_mem_cons]

mutual

/-- How deep the structs of a value are nested. -/
def nesting : (s : Shape) → Val s → Nat
  | .list elem => fun (vs : { vs : List (Val elem) // vs.length < 2147483648 }) =>
    deepest (nesting elem) vs.1
  | .set elem => fun (vs : { vs : List (Val elem) // vs.length < 2147483648 }) =>
    deepest (nesting elem) vs.1
  | .map key value =>
    fun (es : { es : List (Val key × Val value) // es.length < 2147483648 }) =>
    deepest (fun e => max (nesting key e.1) (nesting value e.2)) es.1
  | .struct fields => fun (vs : FieldVals fields) => fieldsNesting fields vs + 1
  | .bool | .byte | .i16 | .i32 | .i64 | .double | .binary | .uuid => fun _ => 0

def fieldsNesting : (fields : Fields) → FieldVals fields → Nat
  | .nil => fun _ => 0
  | .cons _ type rest => fun (vs : Val type × FieldVals rest) =>
    max (nesting type vs.1) (fieldsNesting rest vs.2)

end

/-- Where the entries of a map fit, their keys and their values do. -/
theorem nesting_entry {key value : Shape} {n : Nat} {es : List (Val key × Val value)}
    (h : deepest (fun e => max (nesting key e.1) (nesting value e.2)) es ≤ n)
    {e : Val key × Val value} (he : e ∈ es) : nesting key e.1 ≤ n ∧ nesting value e.2 ≤ n :=
  Nat.max_le.mp (deepest_le_iff.mp h e he)

/-! ## The writer writes the encoding -/

/-- `write` appends `bytes` to an encoder in the structs of `ids` and changes nothing else. -/
def Appends (write : Encoder → Encoder) (ids : List Int) (bytes : Bytes) : Prop :=
  ∀ buffer status, write ⟨buffer, ids, status⟩ = ⟨buffer ++ bytes, ids, status⟩

theorem appends_foldl {α : Type} {write : α → Encoder → Encoder} {ids : List Int} {enc : α → Bytes}
    {vs : List α} (h : ∀ v ∈ vs, Appends (write v) ids (enc v)) :
    Appends (fun e => vs.foldl (fun e v => write v e) e) ids (vs.flatMap enc) := by
  induction vs with
  | nil =>
    intro buffer status
    simp
  | cons v vs ih =>
    intro buffer status
    have hrest := ih (fun v hv => h v (List.mem_cons_of_mem _ hv)) (buffer ++ enc v) status
    simp only at hrest ⊢
    rw [List.foldl_cons, h v List.mem_cons_self, hrest, List.flatMap_cons, List.append_assoc]

theorem Appends.trans {write write' : Encoder → Encoder} {ids : List Int} {bytes bytes' : Bytes}
    (h : Appends write ids bytes) (h' : Appends write' ids bytes') :
    Appends (fun e => write' (write e)) ids (bytes ++ bytes') := by
  intro buffer status
  simp only [h buffer status, h' (buffer ++ bytes) status, List.append_assoc]

theorem appends_append (ids : List Int) (bytes : Bytes) :
    Appends (fun e => e.append bytes) ids bytes := fun _ _ => rfl

theorem appends_elem {s : Shape} {v : Val s} {ids : List Int}
    (h : Appends (writeVal s v) ids (encode s v)) :
    Appends (writeElem s (writeVal s) v) ids (elemBytes s (encode s) v) := by
  cases s with
  | bool => exact appends_append ids _
  | _ => exact h

mutual

/-- **Writing a value appends its encoding**, where its structs fit in the encoder's levels. -/
theorem writeVal_appends : (s : Shape) → (v : Val s) → ∀ ids : List Int,
    ids.length ≤ thriftEncoderMaxNesting → nesting s v ≤ thriftEncoderMaxNesting - ids.length →
    Appends (writeVal s v) ids (encode s v)
  | .bool, _, ids, _, _ => fun buffer status => by
    rw [writeVal, encode, List.append_nil]
  | .byte, _, ids, _, _ => appends_append ids _
  | .i16, _, ids, _, _ => appends_append ids _
  | .i32, _, ids, _, _ => appends_append ids _
  | .i64, _, ids, _, _ => appends_append ids _
  | .double, _, ids, _, _ => appends_append ids _
  | .binary, _, ids, _, _ => appends_append ids _
  | .uuid, _, ids, _, _ => appends_append ids _
  | .list elem, _, ids, hids, hnest =>
    (appends_append ids _).trans (appends_foldl fun v hv =>
      appends_elem (writeVal_appends elem v ids hids (deepest_le_iff.mp hnest v hv)))
  | .set elem, _, ids, hids, hnest =>
    (appends_append ids _).trans (appends_foldl fun v hv =>
      appends_elem (writeVal_appends elem v ids hids (deepest_le_iff.mp hnest v hv)))
  | .map key value, _, ids, hids, hnest => by
    refine (appends_append ids _).trans (appends_foldl fun e he => ?_)
    obtain ⟨hkey, hvalue⟩ := nesting_entry hnest he
    have hkey := writeVal_appends key e.1 ids hids hkey
    have hvalue := writeVal_appends value e.2 ids hids hvalue
    exact (appends_elem hkey).trans (appends_elem hvalue)
  | .struct fields, vs, ids, hids, hnest => by
    intro buffer status
    have hnest : fieldsNesting fields vs + 1 ≤ thriftEncoderMaxNesting - ids.length := hnest
    have hbegin : (⟨buffer, ids, status⟩ : Encoder).writeStructBegin =
        ⟨buffer, 0 :: ids, status⟩ := by
      rw [Encoder.writeStructBegin, if_neg (by simp only; omega)]
    show (writeFieldVals fields vs
      (⟨buffer, ids, status⟩ : Encoder).writeStructBegin).writeStructEnd = _
    rw [hbegin]
    exact writeFieldVals_appends fields vs 0 ids (by omega) (by omega) buffer status

/-- So does writing the fields of a struct, with its end. -/
theorem writeFieldVals_appends : (fields : Fields) → (vs : FieldVals fields) → ∀ (last : Int)
    (ids : List Int), ids.length + 1 ≤ thriftEncoderMaxNesting →
    fieldsNesting fields vs ≤ thriftEncoderMaxNesting - (ids.length + 1) →
    ∀ buffer status, (writeFieldVals fields vs ⟨buffer, last :: ids, status⟩).writeStructEnd =
      ⟨buffer ++ encodeFields fields last vs, ids, status⟩
  | .nil, _, last, ids, _, _ => fun buffer status => rfl
  | .cons id type more, vs, last, ids, hids, hnest => by
    intro buffer status
    obtain ⟨hvalue, hmore⟩ : nesting type vs.1 ≤ thriftEncoderMaxNesting - (ids.length + 1) ∧
      fieldsNesting more vs.2 ≤ thriftEncoderMaxNesting - (ids.length + 1) := Nat.max_le.mp hnest
    have hheader : (⟨buffer, last :: ids, status⟩ : Encoder).writeFieldHeader
        (type.fieldType vs.1) id.toInt =
        ⟨buffer ++ fieldHeaderBytes last (type.fieldType vs.1) id.toInt, id.toInt :: ids, status⟩ :=
      rfl
    have hvalue := writeVal_appends type vs.1 (id.toInt :: ids) hids hvalue
    show (writeFieldVals more vs.2 (writeVal type vs.1
      ((⟨buffer, last :: ids, status⟩ : Encoder).writeFieldHeader (type.fieldType vs.1)
        id.toInt))).writeStructEnd = _
    have hbytes : encodeFields (.cons id type more) last vs =
        fieldHeaderBytes last (type.fieldType vs.1) id.toInt ++ encode type vs.1 ++
          encodeFields more id.toInt vs.2 := by
      rw [encodeFields]
    rw [hheader, hvalue, writeFieldVals_appends more vs.2 id.toInt ids hids hmore, hbytes,
      List.append_assoc, List.append_assoc, List.append_assoc]

end

/-! ## What the writer refuses -/

/-- An error before `write` is there after it. -/
def KeepsError (write : Encoder → Encoder) : Prop :=
  ∀ e : Encoder, e.status ≠ .ok → (write e).status ≠ .ok

theorem keepsError_append (bytes : Bytes) : KeepsError fun e => e.append bytes := fun _ h => h

theorem keepsError_foldl {α : Type} {write : α → Encoder → Encoder} (vs : List α)
    (h : ∀ v, KeepsError (write v)) : KeepsError fun e => vs.foldl (fun e v => write v e) e := by
  induction vs with
  | nil => exact fun _ he => he
  | cons v vs ih => exact fun e he => ih (write v e) (h v e he)

theorem keepsError_elem {s : Shape} (h : ∀ v, KeepsError (writeVal s v)) (v : Val s) :
    KeepsError (writeElem s (writeVal s) v) := by
  cases s with
  | bool => exact keepsError_append _
  | _ => exact h v

theorem keepsError_structBegin : KeepsError Encoder.writeStructBegin := by
  intro e he
  rw [Encoder.writeStructBegin, Encoder.setError, if_neg he]
  split
  · exact he
  · exact he

theorem keepsError_fieldHeader (type : ThriftType) (id : Int) :
    KeepsError fun e => e.writeFieldHeader type id := by
  intro e he
  simp only [Encoder.writeFieldHeader]
  split
  · exact he
  · exact he

mutual

theorem keepsError_writeVal : (s : Shape) → (v : Val s) → KeepsError (writeVal s v)
  | .bool, _ => fun _ he => he
  | .byte, _ => keepsError_append _
  | .i16, _ => keepsError_append _
  | .i32, _ => keepsError_append _
  | .i64, _ => keepsError_append _
  | .double, _ => keepsError_append _
  | .binary, _ => keepsError_append _
  | .uuid, _ => keepsError_append _
  | .list elem, vs => fun e he =>
    keepsError_foldl vs.1 (keepsError_elem (keepsError_writeVal elem)) _ (keepsError_append _ e he)
  | .set elem, vs => fun e he =>
    keepsError_foldl vs.1 (keepsError_elem (keepsError_writeVal elem)) _ (keepsError_append _ e he)
  | .map key value, es => fun e he =>
    keepsError_foldl es.1 (fun kv e he => keepsError_elem (keepsError_writeVal value) kv.2 _
      (keepsError_elem (keepsError_writeVal key) kv.1 e he)) _ (keepsError_append _ e he)
  | .struct fields, vs => fun e he =>
    keepsError_writeFieldVals fields vs _ (keepsError_structBegin e he)

theorem keepsError_writeFieldVals : (fields : Fields) → (vs : FieldVals fields) →
    KeepsError (writeFieldVals fields vs)
  | .nil, _ => fun _ he => he
  | .cons id type more, vs => fun e he =>
    keepsError_writeFieldVals more vs.2 _
      (keepsError_writeVal type vs.1 _ (keepsError_fieldHeader _ id.toInt e he))

end

/-- `write` ends in an error in the structs of `ids`. -/
def Fails (write : Encoder → Encoder) (ids : List Int) : Prop :=
  ∀ buffer, (write ⟨buffer, ids, .ok⟩).status ≠ .ok

/-- The first element that is too deep fails, and the elements behind it keep the error. -/
theorem fails_foldl {α : Type} {write : α → Encoder → Encoder} {enc : α → Bytes} {f : α → Nat}
    {ids : List Int} {n : Nat} (hkeeps : ∀ v, KeepsError (write v))
    (happends : ∀ v, f v ≤ n → Appends (write v) ids (enc v))
    (hfails : ∀ v, n < f v → Fails (write v) ids) {vs : List α} (h : n < deepest f vs) :
    Fails (fun e => vs.foldl (fun e v => write v e) e) ids := by
  induction vs with
  | nil => exact absurd h (Nat.not_lt_zero n)
  | cons v vs ih =>
    intro buffer
    by_cases hv : f v ≤ n
    · have hvs : n < deepest f vs := by
        rw [deepest] at h
        omega
      have hrest := ih hvs (buffer ++ enc v)
      rw [← happends v hv buffer .ok] at hrest
      exact hrest
    · exact keepsError_foldl vs hkeeps _ (hfails v (Nat.lt_of_not_le hv) buffer)

theorem fails_elem {s : Shape} {v : Val s} {ids : List Int} {n : Nat} (hdeep : n < nesting s v)
    (h : Fails (writeVal s v) ids) : Fails (writeElem s (writeVal s) v) ids := by
  cases s with
  | bool => exact absurd hdeep (Nat.not_lt_zero n)
  | _ => exact h

theorem fails_counted {elem : Shape} {ids : List Int} {header : Bytes} {vs : List (Val elem)}
    (hids : ids.length ≤ thriftEncoderMaxNesting)
    (hfails : ∀ v, thriftEncoderMaxNesting - ids.length < nesting elem v →
      Fails (writeVal elem v) ids)
    (h : thriftEncoderMaxNesting - ids.length < deepest (nesting elem) vs) :
    Fails (fun e => vs.foldl (fun e v => writeElem elem (writeVal elem) v e) (e.append header))
      ids :=
  fun buffer => fails_foldl (keepsError_elem (keepsError_writeVal elem))
    (fun v hv => appends_elem (writeVal_appends elem v ids hids hv))
    (fun v hv => fails_elem hv (hfails v hv)) h (buffer ++ header)

theorem fails_entry {key value : Shape} {ids : List Int}
    (hids : ids.length ≤ thriftEncoderMaxNesting)
    (hkey : ∀ v, thriftEncoderMaxNesting - ids.length < nesting key v →
      Fails (writeVal key v) ids)
    (hvalue : ∀ v, thriftEncoderMaxNesting - ids.length < nesting value v →
      Fails (writeVal value v) ids) (kv : Val key × Val value)
    (h : thriftEncoderMaxNesting - ids.length < max (nesting key kv.1) (nesting value kv.2)) :
    Fails (fun e => writeElem value (writeVal value) kv.2 (writeElem key (writeVal key) kv.1 e))
      ids := by
  intro buffer
  by_cases hk : nesting key kv.1 ≤ thriftEncoderMaxNesting - ids.length
  · have hv : thriftEncoderMaxNesting - ids.length < nesting value kv.2 := by omega
    simp only [appends_elem (writeVal_appends key kv.1 ids hids hk) buffer .ok]
    exact fails_elem hv (hvalue kv.2 hv) _
  · have hk := Nat.lt_of_not_le hk
    exact keepsError_elem (keepsError_writeVal value) kv.2 _ (fails_elem hk (hkey kv.1 hk) buffer)

theorem fails_entries {key value : Shape} {ids : List Int} {header : Bytes}
    {es : List (Val key × Val value)} (hids : ids.length ≤ thriftEncoderMaxNesting)
    (hkey : ∀ v, thriftEncoderMaxNesting - ids.length < nesting key v →
      Fails (writeVal key v) ids)
    (hvalue : ∀ v, thriftEncoderMaxNesting - ids.length < nesting value v →
      Fails (writeVal value v) ids)
    (h : thriftEncoderMaxNesting - ids.length <
      deepest (fun e => max (nesting key e.1) (nesting value e.2)) es) :
    Fails (fun e => es.foldl (fun e kv =>
      writeElem value (writeVal value) kv.2 (writeElem key (writeVal key) kv.1 e))
      (e.append header)) ids := by
  intro buffer
  have hkeeps : ∀ kv : Val key × Val value, KeepsError fun e =>
      writeElem value (writeVal value) kv.2 (writeElem key (writeVal key) kv.1 e) :=
    fun kv e he => keepsError_elem (keepsError_writeVal value) kv.2 _
      (keepsError_elem (keepsError_writeVal key) kv.1 e he)
  have happends : ∀ kv : Val key × Val value,
      max (nesting key kv.1) (nesting value kv.2) ≤ thriftEncoderMaxNesting - ids.length →
      Appends (fun e => writeElem value (writeVal value) kv.2 (writeElem key (writeVal key) kv.1 e))
        ids (entryBytes key value kv) := by
    intro kv hkv
    obtain ⟨hk, hv⟩ := Nat.max_le.mp hkv
    exact (appends_elem (writeVal_appends key kv.1 ids hids hk)).trans
      (appends_elem (writeVal_appends value kv.2 ids hids hv))
  exact fails_foldl hkeeps happends (fun kv hkv => fails_entry hids hkey hvalue kv hkv) h
    (buffer ++ header)

mutual

/-- **Writing a value whose structs do not fit is an error.** -/
theorem writeVal_fails : (s : Shape) → (v : Val s) → ∀ ids : List Int,
    ids.length ≤ thriftEncoderMaxNesting → thriftEncoderMaxNesting - ids.length < nesting s v →
    Fails (writeVal s v) ids
  | .bool, _, _, _, hdeep => absurd hdeep (Nat.not_lt_zero _)
  | .byte, _, _, _, hdeep => absurd hdeep (Nat.not_lt_zero _)
  | .i16, _, _, _, hdeep => absurd hdeep (Nat.not_lt_zero _)
  | .i32, _, _, _, hdeep => absurd hdeep (Nat.not_lt_zero _)
  | .i64, _, _, _, hdeep => absurd hdeep (Nat.not_lt_zero _)
  | .double, _, _, _, hdeep => absurd hdeep (Nat.not_lt_zero _)
  | .binary, _, _, _, hdeep => absurd hdeep (Nat.not_lt_zero _)
  | .uuid, _, _, _, hdeep => absurd hdeep (Nat.not_lt_zero _)
  | .list elem, _, ids, hids, hdeep =>
    fails_counted hids (fun v hv => writeVal_fails elem v ids hids hv) hdeep
  | .set elem, _, ids, hids, hdeep =>
    fails_counted hids (fun v hv => writeVal_fails elem v ids hids hv) hdeep
  | .map key value, _, ids, hids, hdeep =>
    fails_entries hids (fun v hv => writeVal_fails key v ids hids hv)
      (fun v hv => writeVal_fails value v ids hids hv) hdeep
  | .struct fields, vs, ids, hids, hdeep => by
    intro buffer
    have hdeep : thriftEncoderMaxNesting - ids.length < fieldsNesting fields vs + 1 := hdeep
    show (writeFieldVals fields vs
      (⟨buffer, ids, .ok⟩ : Encoder).writeStructBegin).status ≠ .ok
    by_cases hfull : thriftEncoderMaxNesting ≤ ids.length
    · have hbegin : (⟨buffer, ids, .ok⟩ : Encoder).writeStructBegin =
          ⟨buffer, ids, .thriftEncode⟩ := by
        rw [Encoder.writeStructBegin, if_pos hfull]
        rfl
      rw [hbegin]
      exact keepsError_writeFieldVals fields vs _ (by simp)
    · have hbegin : (⟨buffer, ids, .ok⟩ : Encoder).writeStructBegin = ⟨buffer, 0 :: ids, .ok⟩ := by
        rw [Encoder.writeStructBegin, if_neg hfull]
      rw [hbegin]
      exact writeFieldVals_fails fields vs 0 ids (by omega) (by omega) buffer

theorem writeFieldVals_fails : (fields : Fields) → (vs : FieldVals fields) → ∀ (last : Int)
    (ids : List Int), ids.length + 1 ≤ thriftEncoderMaxNesting →
    thriftEncoderMaxNesting - (ids.length + 1) < fieldsNesting fields vs →
    Fails (writeFieldVals fields vs) (last :: ids)
  | .nil, _, _, _, _, hdeep => absurd hdeep (Nat.not_lt_zero _)
  | .cons id type more, vs, last, ids, hids, hdeep => by
    intro buffer
    have hdeep : thriftEncoderMaxNesting - (ids.length + 1) <
      max (nesting type vs.1) (fieldsNesting more vs.2) := hdeep
    have hheader : (⟨buffer, last :: ids, .ok⟩ : Encoder).writeFieldHeader
        (type.fieldType vs.1) id.toInt =
        ⟨buffer ++ fieldHeaderBytes last (type.fieldType vs.1) id.toInt, id.toInt :: ids, .ok⟩ :=
      rfl
    show (writeFieldVals more vs.2 (writeVal type vs.1
      ((⟨buffer, last :: ids, .ok⟩ : Encoder).writeFieldHeader (type.fieldType vs.1)
        id.toInt))).status ≠ .ok
    rw [hheader]
    by_cases hv : nesting type vs.1 ≤ thriftEncoderMaxNesting - (ids.length + 1)
    · rw [writeVal_appends type vs.1 (id.toInt :: ids) hids hv]
      exact writeFieldVals_fails more vs.2 id.toInt ids hids (by omega) _
    · have hvalue := writeVal_fails type vs.1 (id.toInt :: ids) hids (Nat.lt_of_not_le hv)
      exact keepsError_writeFieldVals more vs.2 _ (hvalue _)

end

/-! ## The reader reads the encoding -/

/-- `read` takes exactly `bytes`, in the structs of `ids` with no boolean pending, and gives
`v`. -/
def ReadsAs {α : Type} (read : Decoder → Option (α × Decoder)) (ids : List Int) (bytes : Bytes)
    (v : α) : Prop :=
  ∀ b rest, ∃ b', read ⟨bytes ++ rest, ids, false, b, .ok⟩ = some (v, ⟨rest, ids, false, b', .ok⟩)

theorem readsAs_readTimes {α : Type} {read : Decoder → Option (α × Decoder)} {ids : List Int}
    {enc : α → Bytes} {vs : List α} (h : ∀ v ∈ vs, ReadsAs read ids (enc v) v) :
    ReadsAs (readTimes read vs.length) ids (vs.flatMap enc) vs := by
  induction vs with
  | nil => exact fun b rest => ⟨b, rfl⟩
  | cons v vs ih =>
    intro b rest
    obtain ⟨b₁, h₁⟩ := h v List.mem_cons_self b (vs.flatMap enc ++ rest)
    obtain ⟨b₂, h₂⟩ := ih (fun v hv => h v (List.mem_cons_of_mem _ hv)) b₁ rest
    refine ⟨b₂, ?_⟩
    rw [List.flatMap_cons, List.append_assoc, List.length_cons, readTimes, h₁]
    simp only [h₂, Option.map_some]

theorem countedList_of_lt {α : Type} (vs : { vs : List α // vs.length < 2147483648 })
    (d : Decoder) : countedList (vs.1, d) = some (vs, d) := dif_pos vs.2

theorem readElem_of_not_bool {s : Shape} (hs : s.isBool = false)
    (read : Decoder → Option (Val s × Decoder)) : readElem s read = read := by
  cases s with
  | bool => exact absurd hs Bool.noConfusion
  | _ => rfl

theorem readBool_bytes (v : Bool) (rest : Bytes) (ids : List Int) (b : Bool) :
    (⟨boolBytes v ++ rest, ids, false, b, .ok⟩ : Decoder).readBool =
      (v, ⟨rest, ids, false, b, .ok⟩) := by
  cases v <;> rfl

theorem readsAs_elem {s : Shape} {v : Val s} {ids : List Int}
    (h : s.isBool = false → ReadsAs (readVal s) ids (encode s v) v) :
    ReadsAs (readElem s (readVal s)) ids (elemBytes s (encode s) v) v := by
  cases hs : s.isBool with
  | true =>
    cases s with
    | bool => exact fun b rest => ⟨b, congrArg some (readBool_bytes v rest ids b)⟩
    | _ => exact absurd hs Bool.noConfusion
  | false =>
    rw [readElem_of_not_bool hs, elemBytes_of_not_bool hs]
    exact h hs

theorem readCounted_of {α : Type} {elemType : ThriftType} {read : Decoder → Option (α × Decoder)}
    {d₁ d₂ : Decoder} {vs : { vs : List α // vs.length < 2147483648 }}
    (helems : readTimes read vs.1.length d₁ = some (vs.1, d₂)) :
    readCounted elemType read ((elemType, vs.1.length), d₁) = some (vs, d₂) := by
  rw [readCounted, if_pos rfl, helems]
  exact countedList_of_lt vs d₂

theorem readsAs_counted {elem : Shape} {ids : List Int}
    {vs : { vs : List (Val elem) // vs.length < 2147483648 }}
    (h : ∀ v ∈ vs.1,
      ReadsAs (readElem elem (readVal elem)) ids (elemBytes elem (encode elem) v) v) :
    ReadsAs (fun d => readCounted elem.wireType (readElem elem (readVal elem)) d.readListBegin) ids
      (listBeginBytes elem.wireType vs.1.length ++ vs.1.flatMap (elemBytes elem (encode elem)))
      vs := by
  intro b rest
  have hcount := count_le_flatMap vs.1 (elemBytes_pos elem)
  have hbegin : (⟨listBeginBytes elem.wireType vs.1.length ++
      (vs.1.flatMap (elemBytes elem (encode elem)) ++ rest), ids, false, b, .ok⟩ :
        Decoder).readListBegin =
      ((elem.wireType, vs.1.length),
        ⟨vs.1.flatMap (elemBytes elem (encode elem)) ++ rest, ids, false, b, .ok⟩) :=
    readListBegin_bytes (wireType_ne_unknown elem) vs.2 (by rw [List.length_append]; omega)
  obtain ⟨b', h'⟩ := readsAs_readTimes h b rest
  refine ⟨b', ?_⟩
  show readCounted elem.wireType (readElem elem (readVal elem)) (Decoder.readListBegin _) = _
  rw [List.append_assoc, hbegin]
  exact readCounted_of h'

theorem readEntries_of {α β : Type} {keyType valueType k v : ThriftType}
    {readKey : Decoder → Option (α × Decoder)} {readValue : Decoder → Option (β × Decoder)}
    {d₁ d₂ : Decoder} {es : { es : List (α × β) // es.length < 2147483648 }}
    (htypes : es.1.length = 0 ∨ (k = keyType ∧ v = valueType))
    (hentries : readTimes (readEntry readKey readValue) es.1.length d₁ = some (es.1, d₂)) :
    readEntries keyType valueType readKey readValue ((k, v, es.1.length), d₁) = some (es, d₂) := by
  rw [readEntries, if_pos htypes, hentries]
  exact countedList_of_lt es d₂

theorem readsAs_entry {α β : Type} {readKey : Decoder → Option (α × Decoder)}
    {readValue : Decoder → Option (β × Decoder)} {ids : List Int} {bytes bytes' : Bytes} {k : α}
    {v : β} (hkey : ReadsAs readKey ids bytes k) (hvalue : ReadsAs readValue ids bytes' v) :
    ReadsAs (readEntry readKey readValue) ids (bytes ++ bytes') (k, v) := by
  intro b rest
  obtain ⟨b₁, h₁⟩ := hkey b (bytes' ++ rest)
  obtain ⟨b₂, h₂⟩ := hvalue b₁ rest
  refine ⟨b₂, ?_⟩
  rw [readEntry, List.append_assoc, h₁]
  simp only [h₂, Option.map_some]

theorem readsAs_entries {key value : Shape} {ids : List Int}
    {es : { es : List (Val key × Val value) // es.length < 2147483648 }}
    (hkey : ∀ e ∈ es.1,
      ReadsAs (readElem key (readVal key)) ids (elemBytes key (encode key) e.1) e.1)
    (hvalue : ∀ e ∈ es.1,
      ReadsAs (readElem value (readVal value)) ids (elemBytes value (encode value) e.2) e.2) :
    ReadsAs (fun d => readEntries key.wireType value.wireType (readElem key (readVal key))
        (readElem value (readVal value)) d.readMapBegin) ids
      (mapBeginBytes key.wireType value.wireType es.1.length ++
        es.1.flatMap (entryBytes key value)) es := by
  intro b rest
  have hcount := count_le_flatMap es.1 (entryBytes_pos key value)
  have hlen : es.1.length ≤ (es.1.flatMap (entryBytes key value) ++ rest).length + 1 := by
    rw [List.length_append]
    omega
  obtain ⟨k, v, hbegin, htypes⟩ := @readMapBegin_bytes ids false b _ _ _
    (wireType_ne_unknown key) (wireType_ne_unknown value) es.2 _ hlen
  have hentry : ∀ e ∈ es.1, ReadsAs (readEntry (readElem key (readVal key))
      (readElem value (readVal value))) ids (entryBytes key value e) e :=
    fun e he => readsAs_entry (hkey e he) (hvalue e he)
  obtain ⟨b', h'⟩ := readsAs_readTimes hentry b rest
  refine ⟨b', ?_⟩
  show readEntries key.wireType value.wireType (readElem key (readVal key))
    (readElem value (readVal value)) (Decoder.readMapBegin _) = _
  rw [List.append_assoc, hbegin]
  refine readEntries_of ?_ h'
  by_cases h0 : es.1.length = 0
  · exact .inl h0
  · exact .inr (htypes h0)

theorem readsAs_sized {n : Nat} {read : Decoder → Bytes × Decoder} {ids : List Int}
    (v : Vector UInt8 n)
    (h : ∀ b rest, read ⟨v.toList ++ rest, ids, false, b, .ok⟩ =
      (v.toList, ⟨rest, ids, false, b, .ok⟩)) :
    ReadsAs (fun d => sizedBytes n (read d)) ids v.toList v := by
  intro b rest
  refine ⟨b, ?_⟩
  show sizedBytes n (read _) = _
  rw [h b rest, sizedBytes, dif_pos v.length_toList]
  rfl

theorem readDouble_bytes (v : Vector UInt8 8) (rest : Bytes) (ids : List Int) (b : Bool) :
    (⟨v.toList ++ rest, ids, false, b, .ok⟩ : Decoder).readDouble =
      (v.toList, ⟨rest, ids, false, b, .ok⟩) := by
  have hlen : v.toList.length = 8 := v.length_toList
  rw [Decoder.readDouble, if_neg (by simp only [List.length_append]; omega),
    List.take_left' hlen, List.drop_left' hlen]

theorem readUuid_bytes (v : Vector UInt8 16) (rest : Bytes) (ids : List Int) (b : Bool) :
    (⟨v.toList ++ rest, ids, false, b, .ok⟩ : Decoder).readUuid =
      (v.toList, ⟨rest, ids, false, b, .ok⟩) := by
  have hlen : v.toList.length = 16 := v.length_toList
  rw [Decoder.readUuid, if_neg (by simp only [List.length_append]; omega),
    List.take_left' hlen, List.drop_left' hlen]

theorem readsAs_byte (v : UInt8) (ids : List Int) :
    ReadsAs (fun d => some (UInt8.ofNat (d.readByte.1 % 256).toNat, d.readByte.2)) ids [v] v := by
  intro b rest
  refine ⟨b, ?_⟩
  have hread : (⟨[v] ++ rest, ids, false, b, .ok⟩ : Decoder).readByte =
      (if v.toNat < 128 then (v.toNat : Int) else v.toNat - 256,
        ⟨rest, ids, false, b, .ok⟩) := rfl
  have hv := v.toNat_lt
  have hmod : ((if v.toNat < 128 then (v.toNat : Int) else v.toNat - 256) % 256).toNat =
      v.toNat := by
    split <;> omega
  simp only [hread, hmod, UInt8.ofNat_toNat]

theorem readsAs_int {α : Type} {read : Decoder → Int × Decoder} {n : Int} {v : α}
    {ofInt : Int → α} {ids : List Int} (hof : ofInt n = v)
    (h : ∀ b rest, read ⟨zigzagBytes n ++ rest, ids, false, b, .ok⟩ =
      (n, ⟨rest, ids, false, b, .ok⟩)) :
    ReadsAs (fun d => some (ofInt (read d).1, (read d).2)) ids (zigzagBytes n) v := by
  intro b rest
  refine ⟨b, ?_⟩
  simp only [h b rest, hof]

theorem readsAs_binary (v : { data : Bytes // data.length < 2147483648 }) (ids : List Int) :
    ReadsAs (fun d => countedBinary d.readBinary) ids (binaryBytes v.1) v := by
  intro b rest
  refine ⟨b, ?_⟩
  simp only [readBinary_bytes v.2]
  exact countedList_of_lt v _

/-- The reads between the begin and the end of a struct are one level deeper. -/
theorem readsAs_struct {α : Type} {read : Decoder → Option (α × Decoder)} {ids : List Int}
    {bytes : Bytes} {v : α} (hdepth : ids.length < thriftMaxNesting)
    (h : ∀ b rest, ∃ b' last', read ⟨bytes ++ rest, 0 :: ids, false, b, .ok⟩ =
      some (v, ⟨rest, last' :: ids, false, b', .ok⟩)) :
    ReadsAs (readStruct read) ids bytes v := by
  intro b rest
  obtain ⟨b', last', hread⟩ := h b rest
  have hbegin : (⟨bytes ++ rest, ids, false, b, .ok⟩ : Decoder).readStructBegin =
      ⟨bytes ++ rest, 0 :: ids, false, b, .ok⟩ := by
    rw [Decoder.readStructBegin, if_neg (Nat.not_le.mpr hdepth)]
  refine ⟨b', ?_⟩
  rw [readStruct, hbegin, hread]
  rfl

/-- A field's own reads behind its header. -/
theorem readFieldVals_cons {id : Int16} {type : Shape} {more : Fields} {d d₁ d₂ d₃ : Decoder}
    {fieldType : ThriftType} {v : Val type} {vs : FieldVals more}
    (hheader : d.readFieldBegin = (some (fieldType, id.toInt), d₁))
    (htype : type.accepts fieldType = true) (hvalue : readVal type d₁ = some (v, d₂))
    (hmore : readFieldVals more d₂ = some (vs, d₃)) :
    readFieldVals (.cons id type more) d = some ((v, vs), d₃) := by
  have hread : readFieldVals (.cons id type more) d =
      match d.readFieldBegin with
      | (none, _) => none
      | (some (fieldType, fieldId), d) =>
        if fieldId = id.toInt ∧ type.accepts fieldType then
          match readVal type d with
          | none => none
          | some (v, d) =>
            ((readFieldVals more d).map fun r => ((v, r.1), r.2) :
              Option ((Val type × FieldVals more) × Decoder))
        else none := rfl
  rw [hread, hheader]
  simp only [htype, and_self, hvalue, hmore]
  rfl

theorem accepts_fieldType (s : Shape) (v : Val s) : s.accepts (s.fieldType v) = true := by
  cases s with
  | bool =>
    have hv : ∀ v : Bool, Shape.accepts .bool (if v then .boolTrue else .boolFalse) = true := by
      decide
    exact hv v
  | _ => simp [Shape.accepts, Shape.fieldType]

/-- The value of a boolean is in its header, and is pending from there to the read of it. -/
theorem readBool_header {type : ThriftType} {v : Bool}
    (htype : type = if v then .boolTrue else .boolFalse) (rest : Bytes) (ids : List Int)
    (b : Bool) :
    (⟨rest, ids, pendingAfter type false, valueAfter type b, .ok⟩ : Decoder).readBool =
      (v, ⟨rest, ids, false, v, .ok⟩) := by
  subst htype
  cases v <;> rfl

theorem readVal_header {type : Shape} {v : Val type} {ids : List Int}
    (h : type.isBool = false → ReadsAs (readVal type) ids (encode type v) v) (b : Bool)
    (rest : Bytes) :
    ∃ b', readVal type ⟨encode type v ++ rest, ids, pendingAfter (type.fieldType v) false,
      valueAfter (type.fieldType v) b, .ok⟩ = some (v, ⟨rest, ids, false, b', .ok⟩) := by
  cases hs : type.isBool with
  | true =>
    cases type with
    | bool => exact ⟨v, congrArg some (readBool_header rfl rest ids b)⟩
    | _ => exact absurd hs Bool.noConfusion
  | false =>
    have hpending : pendingAfter type.wireType false = false := by
      cases type with
      | bool => exact absurd hs Bool.noConfusion
      | _ => rfl
    have hvalue : valueAfter type.wireType b = b := by
      cases type with
      | bool => exact absurd hs Bool.noConfusion
      | _ => rfl
    rw [fieldType_of_not_bool hs, hpending, hvalue]
    exact h hs b rest

theorem readVal_map {key value : Shape} {ids : List Int}
    (es : { es : List (Val key × Val value) // es.length < 2147483648 })
    (h : ReadsAs (fun d => readEntries key.wireType value.wireType (readElem key (readVal key))
        (readElem value (readVal value)) d.readMapBegin) ids
      (mapBeginBytes key.wireType value.wireType es.1.length ++
        es.1.flatMap (entryBytes key value)) es) :
    ReadsAs (readVal (.map key value)) ids (encode (.map key value) es) es := h

mutual

/-- **The reads of a value take its encoding and give the value.** -/
theorem readVal_readsAs : (s : Shape) → (v : Val s) → s.isBool = false → ∀ ids : List Int,
    ids.length ≤ thriftMaxNesting → nesting s v ≤ thriftMaxNesting - ids.length →
    ReadsAs (readVal s) ids (encode s v) v
  | .bool, _, hs, _, _, _ => absurd hs Bool.noConfusion
  | .byte, v, _, ids, _, _ => readsAs_byte v ids
  | .i16, (v : Int16), _, ids, _, _ => readsAs_int (Int16.ofInt_toInt v) fun _ rest =>
    readI16_bytes (Int16.le_toInt v) (Int16.toInt_lt v) rest .ok
  | .i32, (v : Int32), _, ids, _, _ => readsAs_int (Int32.ofInt_toInt v) fun _ rest =>
    readI32_bytes (Int32.le_toInt v) (Int32.toInt_lt v) rest .ok
  | .i64, (v : Int64), _, ids, _, _ => readsAs_int (Int64.ofInt_toInt v) fun _ rest =>
    readZigzag_bytes (Int64.le_toInt v) (Int64.toInt_lt v) rest .ok
  | .double, v, _, ids, _, _ =>
    @readsAs_sized 8 Decoder.readDouble ids v fun b rest => readDouble_bytes v rest ids b
  | .binary, v, _, ids, _, _ => readsAs_binary v ids
  | .uuid, v, _, ids, _, _ =>
    @readsAs_sized 16 Decoder.readUuid ids v fun b rest => readUuid_bytes v rest ids b
  | .list elem, _, _, ids, hids, hnest =>
    readsAs_counted fun v hv => readsAs_elem fun hs =>
      readVal_readsAs elem v hs ids hids (deepest_le_iff.mp hnest v hv)
  | .set elem, _, _, ids, hids, hnest =>
    readsAs_counted fun v hv => readsAs_elem fun hs =>
      readVal_readsAs elem v hs ids hids (deepest_le_iff.mp hnest v hv)
  | .map key value, es, _, ids, hids, hnest => by
    have hkey := fun e he hs => readVal_readsAs key (Prod.fst e) hs ids hids
      (nesting_entry hnest he).1
    have hvalue := fun e he hs => readVal_readsAs value (Prod.snd e) hs ids hids
      (nesting_entry hnest he).2
    exact readVal_map es (readsAs_entries (fun e he => readsAs_elem (hkey e he))
      (fun e he => readsAs_elem (hvalue e he)))
  | .struct fields, vs, _, ids, hids, hnest => by
    have hnest : fieldsNesting fields vs + 1 ≤ thriftMaxNesting - ids.length := hnest
    have hfields := readFieldVals_readsAs fields vs 0 ids (by omega) (by omega)
    have hlt : ids.length < thriftMaxNesting := by omega
    exact readsAs_struct hlt hfields

/-- So do the reads of the fields of a struct, up to the stop. -/
theorem readFieldVals_readsAs : (fields : Fields) → (vs : FieldVals fields) → ∀ (last : Int)
    (ids : List Int), ids.length + 1 ≤ thriftMaxNesting →
    fieldsNesting fields vs ≤ thriftMaxNesting - (ids.length + 1) →
    ∀ b rest, ∃ b' last',
      readFieldVals fields ⟨encodeFields fields last vs ++ rest, last :: ids, false, b, .ok⟩ =
        some (vs, ⟨rest, last' :: ids, false, b', .ok⟩)
  | .nil, _, last, ids, _, _ => fun b rest => ⟨b, last, rfl⟩
  | .cons id type more, vs, last, ids, hids, hnest => by
    intro b rest
    obtain ⟨hvalue, hmore⟩ : nesting type vs.1 ≤ thriftMaxNesting - (ids.length + 1) ∧
      fieldsNesting more vs.2 ≤ thriftMaxNesting - (ids.length + 1) := Nat.max_le.mp hnest
    have hbytes : encodeFields (.cons id type more) last vs ++ rest =
        fieldHeaderBytes last (type.fieldType vs.1) id.toInt ++
          (encode type vs.1 ++ (encodeFields more id.toInt vs.2 ++ rest)) := by
      rw [encodeFields, List.append_assoc, List.append_assoc]
    have hheader := @readFieldBegin_bytes ids false b _ last id.toInt
      (fieldType_ne_unknown type vs.1) (fieldType_ne_stop type vs.1) (Int16.le_toInt id)
      (Int16.toInt_lt id) (encode type vs.1 ++ (encodeFields more id.toInt vs.2 ++ rest))
    have hback := fun hs => readVal_readsAs type vs.1 hs (id.toInt :: ids) hids hvalue
    obtain ⟨b₁, hread⟩ := readVal_header hback b (encodeFields more id.toInt vs.2 ++ rest)
    obtain ⟨b₂, last', hrest⟩ := readFieldVals_readsAs more vs.2 id.toInt ids hids hmore b₁ rest
    refine ⟨b₂, last', ?_⟩
    rw [hbytes]
    exact readFieldVals_cons hheader (accepts_fieldType type vs.1) hread hrest

end

/-! ## The round trip -/

/-- **What is written reads back**: writing a struct ends without an error exactly if its structs
are nested at most 32 deep, and then the reads give the ids, types and values that were written,
end where the bytes end and have no error and no struct left open. -/
theorem writeVal_readVal (fields : Fields) (vs : FieldVals fields) :
    let e := writeVal (.struct fields) vs .init
    (e.status = .ok ↔ nesting (.struct fields) vs ≤ 32) ∧
      (e.status = .ok → e.lastFieldId = [] ∧ ∀ rest, ∃ b,
        readVal (.struct fields) (.init (e.buffer ++ rest)) =
          some (vs, ⟨rest, [], false, b, .ok⟩)) := by
  intro e
  have hok : e.status = .ok ↔ nesting (.struct fields) vs ≤ 32 := by
    constructor
    · intro hok
      by_contra hdeep
      exact writeVal_fails (.struct fields) vs [] (Nat.zero_le _) (Nat.lt_of_not_le hdeep) [] hok
    · intro hnest
      have he : e = ⟨[] ++ encode (.struct fields) vs, [], .ok⟩ :=
        writeVal_appends (.struct fields) vs [] (Nat.zero_le _) hnest [] .ok
      rw [he]
  refine ⟨hok, fun hstatus => ?_⟩
  have hnest := hok.mp hstatus
  have he : e = ⟨encode (.struct fields) vs, [], .ok⟩ :=
    writeVal_appends (.struct fields) vs [] (Nat.zero_le _) hnest [] .ok
  rw [he]
  exact ⟨rfl, fun rest =>
    readVal_readsAs (.struct fields) vs rfl [] (Nat.zero_le _) hnest false rest⟩

/-- Structs in structs, each the only field of the one around it. -/
def nestedFields : Nat → Fields
  | 0 => .nil
  | n + 1 => .cons 1 (.struct (nestedFields n)) .nil

def nestedVals : (n : Nat) → FieldVals (nestedFields n)
  | 0 => ()
  | n + 1 => (nestedVals n, ())

/-- The 33rd struct is refused by both sides, and the reader stops at it. -/
theorem deepStruct_refused :
    let e := writeVal (.struct (nestedFields 32)) (nestedVals 32) .init
    e.status = .thriftEncode ∧
      (readVal (.struct (nestedFields 32)) (.init e.buffer)).map
        (fun r => (r.2.rest.length, r.2.status)) = some (33, .thriftDecode) := by
  decide +kernel

end Carquet
