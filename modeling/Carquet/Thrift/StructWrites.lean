import Carquet.Thrift.Lists
import Carquet.Thrift.ReadBack

/-!
# Writers of structs and their parsers, side by side

The writer of a struct is a sequence of writes between `thrift_write_struct_begin` and
`thrift_write_struct_end`, each of a field that may be left out; its parser is a loop over the
fields. `Carries` says of a write that the parser's body makes of the fields it adds what is wanted,
`Conveys` says it of the write of a whole value; both are put together in the order of the writes.
-/

namespace Carquet

open Decoder

/-! ## Writes -/

/-- The fields of a struct, one after another. -/
def writeFields (writes : List (Encoder → Encoder)) (e : Encoder) : Encoder :=
  writes.foldl (fun e write => write e) e

/-- `thrift_write_struct_begin`, the fields, `thrift_write_struct_end`. -/
def writeStruct (writes : List (Encoder → Encoder)) (e : Encoder) : Encoder :=
  (writeFields writes e.writeStructBegin).writeStructEnd

/-- A field's header, and the bytes of its value. -/
def writeBytesField (type : ThriftType) (id : Int) (bytes : Bytes) (e : Encoder) : Encoder :=
  (e.writeFieldHeader type id).append bytes

def writeByteField (id : Int) (v : Int8) (e : Encoder) : Encoder :=
  (e.writeFieldHeader .byte id).append [v.toUInt8]

def writeI16Field (id : Int) (v : Int16) (e : Encoder) : Encoder :=
  (e.writeFieldHeader .i16 id).writeInt v.toInt

def writeI32Field (id : Int) (v : Int32) (e : Encoder) : Encoder :=
  (e.writeFieldHeader .i32 id).writeInt v.toInt

def writeI64Field (id : Int) (v : Int64) (e : Encoder) : Encoder :=
  (e.writeFieldHeader .i64 id).writeInt v.toInt

def writeBinaryField (id : Int) (data : Bytes) (e : Encoder) : Encoder :=
  (e.writeFieldHeader .binary id).writeBinary data

/-- A boolean is its field's header. -/
def writeBoolField (id : Int) (v : Bool) (e : Encoder) : Encoder :=
  e.writeFieldHeader (if v then .boolTrue else .boolFalse) id

def writeStructField (id : Int) (write : Encoder → Encoder) (e : Encoder) : Encoder :=
  write (e.writeFieldHeader .struct id)

/-- A list of the first `count` cells of an array. -/
def writeListField {α : Type} (id : Int) (elemType : ThriftType) (count : Nat)
    (write : α → Encoder → Encoder) (cells : List α) (e : Encoder) : Encoder :=
  (cells.take count).foldl (fun e v => write v e)
    ((e.writeFieldHeader .list id).writeListBegin elemType count)

/-- `if (c) { .. }`. -/
def writeIf (c : Prop) [Decidable c] (write : Encoder → Encoder) (e : Encoder) : Encoder :=
  if c then write e else e

/-- `if (has_x) { .. x .. }`. -/
def writeSome {α : Type} (o : Option α) (write : α → Encoder → Encoder) (e : Encoder) : Encoder :=
  match o with
  | none => e
  | some a => write a e

/-! ## What a parser makes of them -/

section

variable {σ α β : Type} {handle : Int → ThriftType → σ → Decoder → Option (σ × Decoder)} {n : Nat}
  {s s' s'' : σ} {id : Int}

/-- `write` adds fields to a struct that take the parser's body from `s` to `s'`; `n` more structs
are opened in it. -/
def Carries (write : Encoder → Encoder)
    (handle : Int → ThriftType → σ → Decoder → Option (σ × Decoder)) (n : Nat) (s s' : σ) : Prop :=
  ∃ fs, (∀ buffer ids gs, ids.length + 1 + n ≤ thriftEncoderMaxNesting →
      write (written buffer ids gs) = written buffer ids (gs ++ fs)) ∧
    ReadsFields handle n s fs s'

/-- `write` writes a value that `read` takes as `a`; `n` structs are opened for it. -/
def Conveys (write : Encoder → Encoder) (read : Decoder → Option (α × Decoder)) (n : Nat) (a : α) :
    Prop :=
  ∃ bytes, 0 < bytes.length ∧
    (∀ buffer ids, ids.length + n ≤ thriftEncoderMaxNesting →
      write ⟨buffer, ids, .ok⟩ = ⟨buffer ++ bytes, ids, .ok⟩) ∧
    ∀ ids : List Int, ids.length + n ≤ thriftMaxNesting →
      ReadsElem read ids (fun _ _ => True) bytes a

theorem ReadsField.mono {m : Nat} {f : Field} (h : ReadsField handle n s s' f) (hle : n ≤ m) :
    ReadsField handle m s s' f :=
  fun ids p b rest hids => h ids p b rest (by omega)

/-- `thrift_read_byte` on what `thrift_write_byte` writes. -/
theorem readByte_byte (v : Int8) (rest : Bytes) (ids : List Int) (p b : Bool) :
    Decoder.readByte ⟨v.toUInt8 :: rest, ids, p, b, .ok⟩ = (v.toInt, ⟨rest, ids, p, b, .ok⟩) := by
  have hv : v.toInt = if v.toUInt8.toNat < 128 then (v.toUInt8.toNat : Int)
      else (v.toUInt8.toNat : Int) - 256 := by
    show v.toBitVec.toInt = _
    rw [BitVec.toInt_eq_toNat_cond]
    have : v.toUInt8.toNat = v.toBitVec.toNat := rfl
    rw [this]
    split <;> split <;> omega
  rw [hv]
  rfl

namespace Carries

/-! ### Sequences -/

theorem nil : Carries (writeFields []) handle n s s :=
  ⟨[], fun _ _ _ _ => by rw [List.append_nil]; rfl, .nil s⟩

theorem cons {write : Encoder → Encoder} {writes : List (Encoder → Encoder)}
    (h : Carries write handle n s s') (h' : Carries (writeFields writes) handle n s' s'') :
    Carries (writeFields (write :: writes)) handle n s s'' := by
  obtain ⟨fs, hwrite, hread⟩ := h
  obtain ⟨gs, hwrites, hreads⟩ := h'
  refine ⟨fs ++ gs, fun buffer ids before hids => ?_, hread.append hreads⟩
  show writeFields writes (write (written buffer ids before)) = _
  rw [hwrite buffer ids before hids, hwrites buffer ids _ hids, List.append_assoc]

/-- The state in the form that is wanted. -/
theorem of_eq {write : Encoder → Encoder} (h : Carries write handle n s s') (heq : s' = s'') :
    Carries write handle n s s'' := heq ▸ h

theorem append {writes more : List (Encoder → Encoder)}
    (h : Carries (writeFields writes) handle n s s') (h' : Carries (writeFields more) handle n s' s'') :
    Carries (writeFields (writes ++ more)) handle n s s'' := by
  have hboth : writeFields (writes ++ more) =
      writeFields [writeFields writes, writeFields more] :=
    funext fun e => List.foldl_append
  rw [hboth]
  exact cons h (cons h' nil)

/-- A field that is left out leaves the parser where it was. -/
theorem ite {c : Prop} [Decidable c] {write : Encoder → Encoder}
    (h : c → Carries write handle n s s') (hnot : ¬c → s' = s) :
    Carries (writeIf c write) handle n s s' := by
  by_cases hc : c
  · have hwrite : writeIf c write = write := funext fun e => if_pos hc
    rw [hwrite]
    exact h hc
  · rw [hnot hc]
    refine ⟨[], fun buffer ids gs _ => ?_, .nil s⟩
    rw [List.append_nil]
    exact if_neg hc

/-- A field that the parser keeps as it is given. -/
theorem whenSome {o : Option α} {write : α → Encoder → Encoder} (set : σ → Option α → σ)
    (hnone : set s none = s)
    (h : ∀ a, o = some a → Carries (write a) handle n s (set s (some a))) :
    Carries (writeSome o write) handle n s (set s o) := by
  cases o with
  | none =>
    rw [hnone]
    exact ⟨[], fun buffer ids gs _ => by rw [List.append_nil]; rfl, .nil s⟩
  | some a => exact h a rfl

/-- A field of which the parser keeps what `f` makes of it. -/
theorem whenMap {o : Option α} {write : α → Encoder → Encoder} (set : σ → Option β → σ)
    (f : α → β) (hnone : set s none = s)
    (h : ∀ a, o = some a → Carries (write a) handle n s (set s (some (f a)))) :
    Carries (writeSome o write) handle n s (set s (o.map f)) := by
  cases o with
  | none =>
    rw [Option.map_none, hnone]
    exact ⟨[], fun buffer ids gs _ => by rw [List.append_nil]; rfl, .nil s⟩
  | some a => exact h a rfl

/-! ### Fields -/

/-- A field that is written as its bytes. -/
theorem field {write : Encoder → Encoder} {type : ThriftType} {bytes : Bytes}
    (hwrite : ∀ e, write e = writeBytesField type id bytes e)
    (hread : ReadsField handle n s s' ⟨id, type, bytes⟩) (htype : type.isField = true)
    (hid : -32768 ≤ id ∧ id < 32768) : Carries write handle n s s' := by
  refine ⟨[⟨id, type, bytes⟩], fun buffer ids gs _ => ?_, .field hread (.nil s') htype hid⟩
  rw [hwrite, writeBytesField, written_field]

/-- An integer field that the reader takes as it is. -/
theorem int {write : Encoder → Encoder} {type : ThriftType} {v : Int} {set : Int → σ}
    {read : Decoder → Int × Decoder}
    (hwrite : ∀ e, write e = writeBytesField type id (zigzagBytes v) e)
    (hread : ∀ rest ids p b, read ⟨zigzagBytes v ++ rest, ids, p, b, .ok⟩ =
      (v, ⟨rest, ids, p, b, .ok⟩))
    (hhandle : ∀ d : Decoder, d.status = .ok → handle id type s d = storing set (read d))
    (htype : type.isField = true) (hid : -32768 ≤ id ∧ id < 32768) :
    Carries write handle n s (set v) := by
  refine field hwrite (fun ids p b rest _ => ?_) htype hid
  refine ⟨pendingAfter type p, valueAfter type b, ?_⟩
  rw [hhandle _ rfl, hread, storing]

theorem i16 {v : Int16} (set : σ → Int16 → σ)
    (hhandle : ∀ d : Decoder, d.status = .ok →
      handle id .i16 s d = storing (fun x => set s (.ofInt x)) d.readI16)
    (hid : -32768 ≤ id ∧ id < 32768) : Carries (writeI16Field id v) handle n s (set s v) := by
  have h := @int σ handle n s id (writeI16Field id v) .i16 v.toInt (fun x => set s (.ofInt x)) _
    (fun _ => rfl)
    (fun rest ids p b => readI16_bytes v.le_toInt v.toInt_lt rest .ok) hhandle rfl hid
  rwa [Int16.ofInt_toInt] at h

theorem i32 {v : Int32} (set : σ → Int32 → σ)
    (hhandle : ∀ d : Decoder, d.status = .ok →
      handle id .i32 s d = storing (fun x => set s (.ofInt x)) d.readI32)
    (hid : -32768 ≤ id ∧ id < 32768) : Carries (writeI32Field id v) handle n s (set s v) := by
  have h := @int σ handle n s id (writeI32Field id v) .i32 v.toInt (fun x => set s (.ofInt x)) _
    (fun _ => rfl)
    (fun rest ids p b => readI32_bytes v.le_toInt v.toInt_lt rest .ok) hhandle rfl hid
  rwa [Int32.ofInt_toInt] at h

theorem i64 {v : Int64} (set : σ → Int64 → σ)
    (hhandle : ∀ d : Decoder, d.status = .ok →
      handle id .i64 s d = storing (fun x => set s (.ofInt x)) d.readI64)
    (hid : -32768 ≤ id ∧ id < 32768) : Carries (writeI64Field id v) handle n s (set s v) := by
  have h := @int σ handle n s id (writeI64Field id v) .i64 v.toInt (fun x => set s (.ofInt x)) _
    (fun _ => rfl)
    (fun rest ids p b => readZigzag_bytes v.le_toInt v.toInt_lt rest .ok) hhandle rfl hid
  rwa [Int64.ofInt_toInt] at h

theorem bool {v : Bool} (set : σ → Bool → σ)
    (hhandle : ∀ (type : ThriftType) (d : Decoder), d.status = .ok →
      handle id type s d = storing (set s) d.readBool)
    (hid : -32768 ≤ id ∧ id < 32768) : Carries (writeBoolField id v) handle n s (set s v) := by
  have htype : (if v then ThriftType.boolTrue else .boolFalse).isField = true := by
    cases v <;> rfl
  refine ⟨[⟨id, if v then .boolTrue else .boolFalse, []⟩], fun buffer ids gs _ => ?_,
    .field (readsField_bool hhandle) (.nil _) htype hid⟩
  exact written_flag _ _

theorem byte {v : Int8} (set : σ → Int8 → σ)
    (hhandle : ∀ d : Decoder, d.status = .ok →
      handle id .byte s d = storing (fun x => set s (.ofInt x)) d.readByte)
    (hid : -32768 ≤ id ∧ id < 32768) : Carries (writeByteField id v) handle n s (set s v) := by
  refine field (fun _ => rfl) (fun ids p b rest _ => ⟨p, b, ?_⟩) rfl hid
  rw [hhandle _ rfl]
  show storing (fun x => set s (.ofInt x)) (readByte ⟨v.toUInt8 :: rest, ids, p, b, .ok⟩) = _
  rw [readByte_byte, storing, Int8.ofInt_toInt]

theorem optI16 {v : Option Int16} (set : σ → Option Int16 → σ) (hnone : set s none = s)
    (hhandle : ∀ d : Decoder, d.status = .ok →
      handle id .i16 s d = storing (fun x => set s (some (.ofInt x))) d.readI16)
    (hid : -32768 ≤ id ∧ id < 32768) :
    Carries (writeSome v (writeI16Field id)) handle n s (set s v) :=
  whenSome set hnone fun _ _ => i16 (fun s x => set s (some x)) hhandle hid

theorem optI32 {v : Option Int32} (set : σ → Option Int32 → σ) (hnone : set s none = s)
    (hhandle : ∀ d : Decoder, d.status = .ok →
      handle id .i32 s d = storing (fun x => set s (some (.ofInt x))) d.readI32)
    (hid : -32768 ≤ id ∧ id < 32768) :
    Carries (writeSome v (writeI32Field id)) handle n s (set s v) :=
  whenSome set hnone fun _ _ => i32 (fun s x => set s (some x)) hhandle hid

theorem optI64 {v : Option Int64} (set : σ → Option Int64 → σ) (hnone : set s none = s)
    (hhandle : ∀ d : Decoder, d.status = .ok →
      handle id .i64 s d = storing (fun x => set s (some (.ofInt x))) d.readI64)
    (hid : -32768 ≤ id ∧ id < 32768) :
    Carries (writeSome v (writeI64Field id)) handle n s (set s v) :=
  whenSome set hnone fun _ _ => i64 (fun s x => set s (some x)) hhandle hid

theorem optBool {v : Option Bool} (set : σ → Option Bool → σ) (hnone : set s none = s)
    (hhandle : ∀ (type : ThriftType) (d : Decoder), d.status = .ok →
      handle id type s d = storing (fun x => set s (some x)) d.readBool)
    (hid : -32768 ≤ id ∧ id < 32768) :
    Carries (writeSome v (writeBoolField id)) handle n s (set s v) :=
  whenSome set hnone fun _ _ => bool (fun s x => set s (some x)) hhandle hid

/-- A number that is left out where it is what the parser begins with. -/
theorem i32If {c : Prop} [Decidable c] {v : Int32} (z : Int32) (set : σ → Int32 → σ)
    (hz : set s z = s)
    (hhandle : ∀ d : Decoder, d.status = .ok →
      handle id .i32 s d = storing (fun x => set s (.ofInt x)) d.readI32)
    (hid : -32768 ≤ id ∧ id < 32768) :
    Carries (writeIf c (writeI32Field id v)) handle n s (set s (if c then v else z)) := by
  refine ite (fun hc => ?_) fun hc => ?_
  · rw [if_pos hc]
    exact i32 set hhandle hid
  · rw [if_neg hc, hz]

theorem binary {data : Bytes} {set : Option Bytes → σ} (hlen : data.length < 2147483648)
    (hhandle : ∀ d : Decoder, d.status = .ok →
      handle id .binary s d = storing set d.readBinary)
    (hid : -32768 ≤ id ∧ id < 32768) :
    Carries (writeBinaryField id data) handle n s (set (some data)) := by
  refine field (fun _ => rfl) (fun ids p b rest _ => ⟨p, b, ?_⟩) rfl hid
  rw [hhandle _ rfl]
  show storing set (readBinary _) = _
  rw [readBinary_bytes hlen, storing]
  rfl

/-- A field that is a value of its own. -/
theorem value {write : Encoder → Encoder} {read : Decoder → Option (α × Decoder)} {a : α}
    (set : σ → α → σ) (h : Conveys write read n a)
    (hhandle : ∀ d : Decoder, d.status = .ok →
      handle id .struct s d = (read d).map fun r => (set s r.1, r.2))
    (hid : -32768 ≤ id ∧ id < 32768) :
    Carries (writeStructField id write) handle n s (set s a) := by
  obtain ⟨bytes, -, hwrite, hread⟩ := h
  refine ⟨[⟨id, .struct, bytes⟩], fun buffer ids gs hids => ?_, .field ?_ (.nil _) rfl hid⟩
  · rw [← written_field]
    exact hwrite _ (id :: ids) (by simpa using hids)
  · intro ids p b rest hids
    obtain ⟨p', b', -, h⟩ := hread ids hids p b rest trivial
    refine ⟨p', b', ?_⟩
    rw [hhandle _ rfl]
    simp only [pendingAfter, valueAfter, h, Option.map_some]

/-- A field that is an empty struct, which the parser skips. -/
theorem mark (hn : 1 ≤ n)
    (hhandle : ∀ d : Decoder, d.status = .ok → handle id .struct s d = skipping s' .struct d)
    (hid : -32768 ≤ id ∧ id < 32768) :
    Carries (writeStructField id (writeStruct [])) handle n s s' := by
  have hskip : ReadsField handle n s s' ⟨id, .struct, structBytes []⟩ :=
    @readsField_skip σ handle n s s' id (.struct .nil) () trivial hn hhandle
  refine ⟨_, fun buffer ids gs hids => ?_, .field hskip (.nil s') rfl hid⟩
  have hopen := @written_open buffer ids gs id (by rw [List.length_cons]; omega)
  show ((written buffer ids gs).writeFieldHeader .struct id).writeStructBegin.writeStructEnd = _
  rw [hopen, written_close]

/-- A list whose elements are values of their own. -/
theorem list {write : β → Encoder → Encoder} {read : Decoder → Option (α × Decoder)}
    {elemType : ThriftType} {limit : Nat} (set : σ → List α → Nat → σ) {vs : List β} {count : Nat}
    {val : β → α}
    (h : ∀ v ∈ vs, Conveys (write v) read n (val v)) (hcount : count = vs.length)
    (hlimit : vs.length ≤ limit) (hmax : limit < 2147483648)
    (htype : ∀ code, elemType ≠ .unknown code)
    (hhandle : ∀ d : Decoder, d.status = .ok → d.readListBegin.1.1 = elemType →
      d.readListBegin.1.2 ≤ limit → handle id .list s d =
        (d.readListBegin.2.readElems read d.readListBegin.1.2).map
          fun r => (set s r.1 d.readListBegin.1.2, r.2))
    (hid : -32768 ≤ id ∧ id < 32768) :
    Carries (writeListField id elemType count write vs) handle n s
      (set s (vs.map val) count) := by
  subst hcount
  choose! enc hpos hwrite hread using h
  have hloop : ∀ (us : List β), (∀ u ∈ us, u ∈ vs) → ∀ (buffer : Bytes) (ids : List Int),
      ids.length + n ≤ thriftEncoderMaxNesting →
      us.foldl (fun e v => write v e) ⟨buffer, ids, .ok⟩ =
        (⟨buffer, ids, .ok⟩ : Encoder).append (us.flatMap enc) := by
    intro us
    induction us with
    | nil => intro _ buffer ids _; simp [Encoder.append]
    | cons u us ih =>
      intro hmem buffer ids hids
      rw [List.foldl_cons, hwrite u (hmem u List.mem_cons_self) buffer ids hids,
        ih (fun v hv => hmem v (List.mem_cons_of_mem u hv)) _ ids hids, List.flatMap_cons]
      simp [Encoder.append]
  have hroom : ∀ rest : Bytes, vs.length ≤ (vs.flatMap enc ++ rest).length := by
    intro rest
    have hle : ∀ us : List β, (∀ u ∈ us, u ∈ vs) → us.length ≤ (us.flatMap enc).length := by
      intro us
      induction us with
      | nil => intro _; exact Nat.zero_le _
      | cons u us ih =>
        intro hmem
        have := ih fun v hv => hmem v (List.mem_cons_of_mem u hv)
        have := hpos u (hmem u List.mem_cons_self)
        rw [List.length_cons, List.flatMap_cons, List.length_append]
        omega
    rw [List.length_append]
    exact Nat.le_trans (hle vs fun u hu => hu) (Nat.le_add_right _ _)
  refine ⟨[⟨id, .list, listBeginBytes elemType vs.length ++ vs.flatMap enc⟩],
    fun buffer ids gs hids => ?_, .field ?_ (.nil _) rfl hid⟩
  · rw [writeListField, List.take_length, ← written_field, Encoder.writeListBegin]
    have := hloop vs (fun u hu => hu)
      (((written buffer ids gs).writeFieldHeader .list id).append
        (listBeginBytes elemType vs.length)).buffer (id :: ids) (by simpa using hids)
    rw [← Encoder.append_append]
    exact this
  · intro ids p b rest hids
    obtain ⟨p', b', -, hreads⟩ := readElems_bytes vs (fun v hv => hread v hv ids hids)
      (p := p) (b := b) trivial rest
    refine ⟨p', b', ?_⟩
    have hbegin : Decoder.readListBegin
        ⟨listBeginBytes elemType vs.length ++ (vs.flatMap enc ++ rest), ids, p, b, .ok⟩ =
        ((elemType, vs.length), ⟨vs.flatMap enc ++ rest, ids, p, b, .ok⟩) :=
      readListBegin_bytes htype (Nat.lt_of_le_of_lt hlimit hmax) (hroom rest)
    simp only [pendingAfter, valueAfter, List.append_assoc]
    rw [hhandle _ rfl (by rw [hbegin]) (by rw [hbegin]; exact hlimit), hbegin]
    simp only
    rw [hreads, Option.map_some]

end Carries

namespace Conveys

/-- A struct whose fields are carried. -/
theorem struct {writes : List (Encoder → Encoder)} (h : Carries (writeFields writes) handle n s s') :
    Conveys (writeStruct writes) (fun d => d.readStruct handle s) (n + 1) s' := by
  obtain ⟨fs, hwrite, hread⟩ := h
  refine ⟨structBytes fs, ?_, fun buffer ids hids => ?_, fun ids hids => ?_⟩
  · rw [structBytes, List.length_append]
    exact Nat.lt_of_lt_of_le Nat.zero_lt_one (Nat.le_add_left _ _)
  · rw [writeStruct, writeStructBegin_written buffer (by omega), hwrite _ _ _ (by omega),
      List.nil_append, writeStructEnd_written]
  · exact readsElem_struct hread (by omega)

/-- What is made of a value once it is read. -/
theorem map {write : Encoder → Encoder} {read : Decoder → Option (α × Decoder)} {a : α}
    (h : Conveys write read n a) (f : α → β) :
    Conveys write (fun d => (read d).map fun r => (f r.1, r.2)) n (f a) := by
  obtain ⟨bytes, hpos, hwrite, hread⟩ := h
  refine ⟨bytes, hpos, hwrite, fun ids hids p b rest _ => ?_⟩
  obtain ⟨p', b', -, h⟩ := hread ids hids p b rest trivial
  exact ⟨p', b', trivial, (congrArg _ h).trans rfl⟩

theorem mono {m : Nat} {write : Encoder → Encoder} {read : Decoder → Option (α × Decoder)} {a : α}
    (h : Conveys write read m a) (hle : m ≤ n) : Conveys write read n a := by
  obtain ⟨bytes, hpos, hwrite, hread⟩ := h
  exact ⟨bytes, hpos, fun buffer ids hids => hwrite buffer ids (by omega),
    fun ids hids => hread ids (by omega)⟩

theorem i32 (v : Int32) :
    Conveys (fun e => e.writeInt v.toInt) (fun d => storing Int32.ofInt d.readI32) n v := by
  refine ⟨zigzagBytes v.toInt, varintBytes_pos _, fun _ _ _ => rfl, fun ids _ p b rest _ =>
    ⟨p, b, trivial, ?_⟩⟩
  show storing Int32.ofInt (readI32 _) = _
  rw [readI32_bytes v.le_toInt v.toInt_lt, storing, Int32.ofInt_toInt]

/-- A binary, of which the reader keeps what `keep` makes of it. -/
theorem binary {data : Bytes} (hlen : data.length < 2147483648) (keep : Option Bytes → α) :
    Conveys (fun e => e.writeBinary data) (fun d => some (keep d.readBinary.1, d.readBinary.2)) n
      (keep (some data)) := by
  refine ⟨binaryBytes data, ?_, fun _ _ _ => rfl, fun ids _ => readsElem_binary ids hlen keep⟩
  have := varintBytes_pos data.length
  rw [binaryBytes, List.length_append]
  omega

/-- A value that the parser skips. -/
theorem skipped {shape : Shape} (v : Val shape) (h : NoBoolElements shape v)
    (hbool : shape.isBool = false) (hdepth : shape.depth ≤ n) {write : Encoder → Encoder}
    (hwrite : ∀ buffer ids, ids.length + n ≤ thriftEncoderMaxNesting →
      write ⟨buffer, ids, .ok⟩ = ⟨buffer ++ encode shape v, ids, .ok⟩) :
    Conveys write (fun d => skipping () shape.wireType d) n () := by
  refine ⟨encode shape v, encode_pos hbool v, hwrite, fun ids hids p b rest _ => ?_⟩
  obtain ⟨p', b', hskip⟩ := skip_encode shape v h ((encode shape v ++ rest).length + 1)
    (by rw [List.length_append]; omega) ids (by omega) p b rest
  rw [fieldType_of_not_bool hbool] at hskip
  exact ⟨p', b', trivial, congrArg (Option.map fun d => ((), d)) hskip⟩

/-- **A value that is conveyed reads back** by itself. -/
theorem reads_init {write : Encoder → Encoder} {read : Decoder → Option (α × Decoder)} {a : α}
    (h : Conveys write read n a) (hn : n ≤ thriftMaxNesting) :
    (write .init).status = .ok ∧ ∃ p b, read (.init (write .init).buffer) =
      some (a, ⟨[], [], p, b, .ok⟩) := by
  obtain ⟨bytes, -, hwrite, hread⟩ := h
  have hbytes : write .init = ⟨bytes, [], .ok⟩ := by
    have := hwrite [] [] (by simpa [thriftEncoderMaxNesting, thriftMaxNesting] using hn)
    rwa [List.nil_append] at this
  obtain ⟨p, b, -, hread⟩ := hread [] (by simpa using hn) false false [] trivial
  rw [List.append_nil] at hread
  rw [hbytes]
  exact ⟨rfl, p, b, hread⟩

end Conveys

end

end Carquet
