import Carquet.Thrift.Fields
import Carquet.Thrift.Value

/-!
# Skipping a value

`thrift_skip` takes no byte for a boolean, as is right for a field, whose header has it; in a
container that is one byte too few. `skip_encode`: a value without boolean elements is skipped
exactly.
-/

namespace Carquet

open LittleEndian Leb128 Decoder

/-! ## Encodings -/

theorem wireType_ne_unknown (s : Shape) (code : Nat) : s.wireType ≠ .unknown code := by
  cases s <;> simp [Shape.wireType]

theorem fieldType_cases (s : Shape) (v : Val s) :
    s.isBool = false ∧ s.fieldType v = s.wireType ∨
      s.isBool = true ∧ (s.fieldType v = .boolTrue ∨ s.fieldType v = .boolFalse) := by
  cases s with
  | bool =>
    refine .inr ⟨rfl, ?_⟩
    cases (v : Bool) with
    | true => exact .inl rfl
    | false => exact .inr rfl
  | _ => exact .inl ⟨rfl, rfl⟩

theorem fieldType_ne_unknown (s : Shape) (v : Val s) (code : Nat) :
    s.fieldType v ≠ .unknown code := by
  rcases fieldType_cases s v with ⟨-, h⟩ | ⟨-, h | h⟩ <;> rw [h]
  · exact wireType_ne_unknown s code
  · simp
  · simp

theorem fieldType_ne_stop (s : Shape) (v : Val s) : s.fieldType v ≠ .stop := by
  rcases fieldType_cases s v with ⟨-, h⟩ | ⟨-, h | h⟩ <;> rw [h]
  · cases s <;> simp [Shape.wireType]
  · simp
  · simp

theorem fieldType_of_not_bool {s : Shape} (h : s.isBool = false) (v : Val s) :
    s.fieldType v = s.wireType := by
  cases s with
  | bool => cases h
  | _ => rfl

theorem elemBytes_of_not_bool {s : Shape} (h : s.isBool = false) (enc : Val s → Bytes) :
    elemBytes s enc = enc := by
  cases s with
  | bool => cases h
  | _ => rfl

theorem listBeginBytes_pos (type : ThriftType) (count : Nat) :
    0 < (listBeginBytes type count).length := by
  unfold listBeginBytes
  split <;> simp

theorem mapBeginBytes_pos (k v : ThriftType) (count : Nat) :
    0 < (mapBeginBytes k v count).length := by
  unfold mapBeginBytes
  split <;> simp

theorem fieldHeaderBytes_pos (last : Int) (type : ThriftType) (id : Int) :
    0 < (fieldHeaderBytes last type id).length := by
  unfold fieldHeaderBytes
  simp only
  split <;> simp

theorem varintBytes_pos (v : Nat) : 0 < (varintBytes v).length :=
  List.length_pos_of_ne_nil (varintBytes_ne_nil v)

theorem encodeFields_pos : (fields : Fields) → (last : Int) → (vs : FieldVals fields) →
    0 < (encodeFields fields last vs).length
  | .nil, _, _ => Nat.one_pos
  | .cons id _ rest, last, vs => by
    simp only [encodeFields, List.length_append]
    have := encodeFields_pos rest id.toInt vs.2
    omega

/-- Only a boolean has no bytes of its own. -/
theorem encode_pos {s : Shape} (h : s.isBool = false) (v : Val s) : 0 < (encode s v).length := by
  cases s with
  | bool => cases h
  | byte => exact Nat.one_pos
  | i16 => exact varintBytes_pos _
  | i32 => exact varintBytes_pos _
  | i64 => exact varintBytes_pos _
  | double =>
    have h8 : (encode .double v).length = 8 := Vector.length_toList
    omega
  | uuid =>
    have h16 : (encode .uuid v).length = 16 := Vector.length_toList
    omega
  | binary =>
    have := varintBytes_pos v.1.length
    simp only [encode, binaryBytes, List.length_append]
    omega
  | list elem =>
    have := listBeginBytes_pos elem.wireType v.1.length
    simp only [encode, List.length_append]
    omega
  | set elem =>
    have := listBeginBytes_pos elem.wireType v.1.length
    simp only [encode, List.length_append]
    omega
  | map key value =>
    have := mapBeginBytes_pos key.wireType value.wireType v.1.length
    simp only [encode, List.length_append]
    omega
  | struct fields => exact encodeFields_pos fields 0 v

theorem elemBytes_pos (s : Shape) (v : Val s) : 0 < (elemBytes s (encode s) v).length := by
  by_cases h : s.isBool = false
  · rw [elemBytes_of_not_bool h]
    exact encode_pos h v
  · have hs : s = .bool := by
      cases s with
      | bool => rfl
      | _ => exact absurd rfl h
    subst hs
    exact Nat.one_pos

/-- A key and its value. -/
def entryBytes (key value : Shape) (e : Val key × Val value) : Bytes :=
  elemBytes key (encode key) e.1 ++ elemBytes value (encode value) e.2

theorem entryBytes_pos (key value : Shape) (e : Val key × Val value) :
    0 < (entryBytes key value e).length := by
  have := elemBytes_pos key e.1
  rw [entryBytes, List.length_append]
  omega

theorem length_le_flatMap {β : Type} (enc : β → Bytes) {vs : List β} {v : β} (hv : v ∈ vs) :
    (enc v).length ≤ (vs.flatMap enc).length := by
  induction vs with
  | nil => cases hv
  | cons w vs ih =>
    rw [List.flatMap_cons, List.length_append]
    rcases List.mem_cons.mp hv with rfl | hv
    · omega
    · have := ih hv
      omega

theorem count_le_flatMap {β : Type} {enc : β → Bytes} (vs : List β)
    (hpos : ∀ v, 0 < (enc v).length) : vs.length ≤ (vs.flatMap enc).length := by
  induction vs with
  | nil => simp
  | cons w vs ih =>
    have := hpos w
    simp only [List.flatMap_cons, List.length_append, List.length_cons]
    omega

/-! ## Values without boolean elements -/

mutual

/-- No container in the value holds a boolean. -/
def NoBoolElements : (s : Shape) → Val s → Prop
  | .list elem => fun (vs : { vs : List (Val elem) // vs.length < 2147483648 }) =>
    (elem.isBool = true → vs.1 = []) ∧ ∀ v ∈ vs.1, NoBoolElements elem v
  | .set elem => fun (vs : { vs : List (Val elem) // vs.length < 2147483648 }) =>
    (elem.isBool = true → vs.1 = []) ∧ ∀ v ∈ vs.1, NoBoolElements elem v
  | .map key value =>
    fun (es : { es : List (Val key × Val value) // es.length < 2147483648 }) =>
    (key.isBool = true ∨ value.isBool = true → es.1 = []) ∧
      ∀ e ∈ es.1, NoBoolElements key e.1 ∧ NoBoolElements value e.2
  | .struct fields => fun (vs : FieldVals fields) => NoBoolFields fields vs
  | _ => fun _ => True

def NoBoolFields : (fields : Fields) → FieldVals fields → Prop
  | .nil => fun _ => True
  | .cons _ type rest => fun (vs : Val type × FieldVals rest) =>
    NoBoolElements type vs.1 ∧ NoBoolFields rest vs.2

end

/-- `body` takes exactly the bytes `enc`, whatever follows. -/
def Takes (body : Decoder → Option Decoder) (ids : List Int) (enc : Bytes) : Prop :=
  ∀ p b rest, ∃ p' b', body ⟨enc ++ rest, ids, p, b, .ok⟩ = some ⟨rest, ids, p', b', .ok⟩

/-- **A loop over the elements takes them all.** -/
theorem takes_repeatWhileOk {β : Type} {body : Decoder → Option Decoder} {ids : List Int}
    {enc : β → Bytes} {vs : List β} (h : ∀ v ∈ vs, Takes body ids (enc v)) :
    Takes (fun d => d.repeatWhileOk body vs.length) ids (vs.flatMap enc) := by
  induction vs with
  | nil => exact fun p b rest => ⟨p, b, rfl⟩
  | cons v vs ih =>
    intro p b rest
    obtain ⟨p₁, b₁, h₁⟩ := h v List.mem_cons_self p b (vs.flatMap enc ++ rest)
    obtain ⟨p₂, b₂, h₂⟩ := ih (fun v hv => h v (List.mem_cons_of_mem _ hv)) p₁ b₁ rest
    refine ⟨p₂, b₂, ?_⟩
    simp only [List.flatMap_cons, List.length_cons, List.append_assoc, repeatWhileOk, if_true, h₁]
    exact h₂

/-- A list or a set, given its elements. -/
theorem takes_list {elem : Shape} {fuel : Nat} {ids : List Int} {vs : List (Val elem)}
    {type : ThriftType} (htype : type = .list ∨ type = .set) (hlen : vs.length < 2147483648)
    (hbool : elem.isBool = true → vs = [])
    (h : ∀ v ∈ vs, Takes (fun d => d.skip fuel (elem.fieldType v)) ids (encode elem v)) :
    Takes (fun d => d.skip (fuel + 1) type) ids
      (listBeginBytes elem.wireType vs.length ++ vs.flatMap (elemBytes elem (encode elem))) := by
  have hloop : Takes (fun d => d.repeatWhileOk (Decoder.skip fuel elem.wireType) vs.length) ids
      (vs.flatMap (elemBytes elem (encode elem))) := by
    refine takes_repeatWhileOk fun v hv => ?_
    have hb : elem.isBool = false := by
      cases hb : elem.isBool with
      | true => rw [hbool hb] at hv; cases hv
      | false => rfl
    have := h v hv
    rw [fieldType_of_not_bool hb] at this
    rw [elemBytes_of_not_bool hb]
    exact this
  intro p b rest
  have hcount := count_le_flatMap vs (elemBytes_pos elem)
  have hbegin : (⟨listBeginBytes elem.wireType vs.length ++
      (vs.flatMap (elemBytes elem (encode elem)) ++ rest), ids, p, b, .ok⟩ : Decoder).readListBegin =
        ((elem.wireType, vs.length),
          ⟨vs.flatMap (elemBytes elem (encode elem)) ++ rest, ids, p, b, .ok⟩) :=
    readListBegin_bytes (wireType_ne_unknown elem) hlen (by rw [List.length_append]; omega)
  obtain ⟨p', b', h'⟩ := hloop p b rest
  refine ⟨p', b', ?_⟩
  rcases htype with rfl | rfl
  · simp only [Decoder.skip, ne_eq, not_true_eq_false, if_false, List.append_assoc, hbegin]
    exact h'
  · simp only [Decoder.skip, ne_eq, not_true_eq_false, if_false, List.append_assoc, hbegin]
    exact h'

/-- A map, given its keys and values. -/
theorem takes_map {key value : Shape} {fuel : Nat} {ids : List Int}
    {es : List (Val key × Val value)} (hlen : es.length < 2147483648)
    (hbool : key.isBool = true ∨ value.isBool = true → es = [])
    (hkey : ∀ e ∈ es, Takes (fun d => d.skip fuel (key.fieldType e.1)) ids (encode key e.1))
    (hvalue : ∀ e ∈ es, Takes (fun d => d.skip fuel (value.fieldType e.2)) ids (encode value e.2)) :
    Takes (fun d => d.skip (fuel + 1) .map) ids
      (mapBeginBytes key.wireType value.wireType es.length ++
        es.flatMap (entryBytes key value)) := by
  have hloop : Takes (fun d => d.repeatWhileOk (fun d =>
      (d.skip fuel key.wireType).bind (Decoder.skip fuel value.wireType)) es.length) ids
      (es.flatMap (entryBytes key value)) := by
    refine takes_repeatWhileOk fun e he => ?_
    have hk : key.isBool = false := by
      cases hb : key.isBool with
      | true => rw [hbool (.inl hb)] at he; cases he
      | false => rfl
    have hv : value.isBool = false := by
      cases hb : value.isBool with
      | true => rw [hbool (.inr hb)] at he; cases he
      | false => rfl
    have h₁ := hkey e he
    have h₂ := hvalue e he
    rw [fieldType_of_not_bool hk] at h₁
    rw [fieldType_of_not_bool hv] at h₂
    rw [entryBytes, elemBytes_of_not_bool hk, elemBytes_of_not_bool hv]
    intro p b rest
    obtain ⟨p₁, b₁, h₁⟩ := h₁ p b (encode value e.2 ++ rest)
    obtain ⟨p₂, b₂, h₂⟩ := h₂ p₁ b₁ rest
    exact ⟨p₂, b₂, by simp only [List.append_assoc, h₁, Option.bind_some, h₂]⟩
  intro p b rest
  have hcount := count_le_flatMap es fun e => entryBytes_pos key value e
  obtain ⟨k, v, hbegin, hkv⟩ : ∃ k v, (⟨mapBeginBytes key.wireType value.wireType es.length ++
      (es.flatMap (entryBytes key value) ++ rest), ids, p, b, .ok⟩ : Decoder).readMapBegin =
        ((k, v, es.length), ⟨es.flatMap (entryBytes key value) ++ rest, ids, p, b, .ok⟩) ∧
      (es.length ≠ 0 → k = key.wireType ∧ v = value.wireType) :=
    readMapBegin_bytes (wireType_ne_unknown key) (wireType_ne_unknown value) hlen
      (by rw [List.length_append]; omega)
  obtain ⟨p', b', h'⟩ := hloop p b rest
  refine ⟨p', b', ?_⟩
  simp only [Decoder.skip, ne_eq, not_true_eq_false, if_false, List.append_assoc, hbegin]
  by_cases hzero : es.length = 0
  · have hnil : es = [] := List.length_eq_zero_iff.mp hzero
    subst hnil
    exact h'
  · obtain ⟨rfl, rfl⟩ := hkv hzero
    exact h'

/-- The loop's body in `thrift_skip`. -/
def skipField (fuel : Nat) (_ : Int) (type : ThriftType) (_ : Unit) (d : Decoder) :
    Option (Unit × Decoder) :=
  (Decoder.skip fuel type d).map fun d => ((), d)

/-- A field's header, then its value: one turn of the loop. -/
theorem readFields_header {type : Shape} (v : Val type) (id : Int16) {last : Int} {ids : List Int}
    {fuel : Nat} (turns : Nat) {p b : Bool} (rest : Bytes) :
    (⟨fieldHeaderBytes last (type.fieldType v) id.toInt ++ rest, last :: ids, p, b, .ok⟩ :
        Decoder).readFields (skipField fuel) (turns + 1) () =
      (Decoder.skip fuel (type.fieldType v) ⟨rest, id.toInt :: ids,
        pendingAfter (type.fieldType v) p, valueAfter (type.fieldType v) b, .ok⟩).bind
        fun d => d.readFields (skipField fuel) turns () := by
  have hlo := id.le_toInt
  have hhi := id.toInt_lt
  rw [readFields_bytes (fieldType_ne_unknown type v) (fieldType_ne_stop type v)
    (by simpa using hlo) (by simpa using hhi), skipField]
  cases Decoder.skip fuel (type.fieldType v) ⟨rest, id.toInt :: ids,
    pendingAfter (type.fieldType v) p, valueAfter (type.fieldType v) b, .ok⟩ <;> rfl

theorem readVarint_zigzag {n : Int} {ids : List Int} {p b : Bool} (h1 : -9223372036854775808 ≤ n)
    (h2 : n < 9223372036854775808) (rest : Bytes) :
    (⟨zigzagBytes n ++ rest, ids, p, b, .ok⟩ : Decoder).readVarint.2 = ⟨rest, ids, p, b, .ok⟩ := by
  rw [zigzagBytes, readVarint_bytes (zigzagEncode64_lt h1 h2)]

theorem readerSkip_bytes {bytes : Bytes} {n : Nat} {ids : List Int} {p b : Bool}
    (h : bytes.length = n) (rest : Bytes) :
    (⟨bytes ++ rest, ids, p, b, .ok⟩ : Decoder).readerSkip n = ⟨rest, ids, p, b, .ok⟩ := by
  subst h
  simp [readerSkip]

/-- An element is shorter than its list. -/
theorem length_lt_of_mem {elem : Shape} {vs : List (Val elem)} {v : Val elem} {fuel : Nat}
    (hbool : elem.isBool = true → False) (hv : v ∈ vs)
    (h : (listBeginBytes elem.wireType vs.length ++
      vs.flatMap (elemBytes elem (encode elem))).length < fuel + 1) :
    (encode elem v).length < fuel := by
  have hb : elem.isBool = false := by simpa using hbool
  have hhead := listBeginBytes_pos elem.wireType vs.length
  have hmem := length_le_flatMap (elemBytes elem (encode elem)) hv
  rw [elemBytes_of_not_bool hb] at hmem h
  rw [List.length_append] at h
  omega

/-- Keys and values are shorter than their map. -/
theorem length_lt_of_entry {key value : Shape} {es : List (Val key × Val value)}
    {e : Val key × Val value} {fuel : Nat} (hkey : key.isBool = false)
    (hvalue : value.isBool = false) (he : e ∈ es)
    (h : (mapBeginBytes key.wireType value.wireType es.length ++
      es.flatMap (entryBytes key value)).length < fuel + 1) :
    (encode key e.1).length + (encode value e.2).length < fuel := by
  have hhead := mapBeginBytes_pos key.wireType value.wireType es.length
  have hmem := length_le_flatMap (entryBytes key value) he
  rw [List.length_append] at h
  rw [entryBytes, List.length_append, elemBytes_of_not_bool hkey,
    elemBytes_of_not_bool hvalue] at hmem
  omega

theorem not_bool_of_entry {key value : Shape} {es : List (Val key × Val value)}
    {e : Val key × Val value} (h : key.isBool = true ∨ value.isBool = true → es = [])
    (he : e ∈ es) : key.isBool = false ∧ value.isBool = false := by
  have hne := List.ne_nil_of_mem he
  exact ⟨Bool.eq_false_iff.mpr fun hb => hne (h (.inl hb)),
    Bool.eq_false_iff.mpr fun hb => hne (h (.inr hb))⟩

mutual

/-- **A value without boolean elements is skipped exactly.** -/
theorem skip_encode : (s : Shape) → (v : Val s) → NoBoolElements s v → ∀ fuel,
    (encode s v).length < fuel → ∀ ids : List Int, ids.length + s.depth ≤ thriftMaxNesting →
    Takes (fun d => d.skip fuel (s.fieldType v)) ids (encode s v)
  | _, _, _, 0, hfuel, _, _ => absurd hfuel (Nat.not_lt_zero _)
  | .bool, (v : Bool), _, fuel + 1, _, ids, _ => by
    intro p b rest
    cases v with
    | true => exact ⟨false, b, rfl⟩
    | false => exact ⟨false, b, rfl⟩
  | .byte, _, _, _ + 1, _, _, _ => fun p b _ => ⟨p, b, rfl⟩
  | .i16, (n : Int16), _, fuel + 1, _, ids, _ => by
    intro p b rest
    have hlo := n.le_toInt
    have hhi := n.toInt_lt
    refine ⟨p, b, ?_⟩
    exact congrArg some (readVarint_zigzag (by omega) (by omega) rest)
  | .i32, (n : Int32), _, fuel + 1, _, ids, _ => by
    intro p b rest
    have hlo := n.le_toInt
    have hhi := n.toInt_lt
    refine ⟨p, b, ?_⟩
    exact congrArg some (readVarint_zigzag (by omega) (by omega) rest)
  | .i64, (n : Int64), _, fuel + 1, _, ids, _ => by
    intro p b rest
    have hlo := n.le_toInt
    have hhi := n.toInt_lt
    refine ⟨p, b, ?_⟩
    exact congrArg some (readVarint_zigzag (by omega) (by omega) rest)
  | .double, (v : Vector UInt8 8), _, fuel + 1, _, ids, _ =>
    fun p b rest => ⟨p, b, congrArg some (readerSkip_bytes Vector.length_toList rest)⟩
  | .uuid, (v : Vector UInt8 16), _, fuel + 1, _, ids, _ =>
    fun p b rest => ⟨p, b, congrArg some (readerSkip_bytes Vector.length_toList rest)⟩
  | .binary, (v : { data : Bytes // data.length < 2147483648 }), _, fuel + 1, _, ids, _ =>
    fun p b rest => ⟨p, b, congrArg (fun r : Option Bytes × Decoder => some r.2)
      (readBinary_bytes v.2 rest .ok)⟩
  | .list elem, vs, h, fuel + 1, hfuel, ids, hdepth => by
    refine takes_list (.inl rfl) vs.2 h.1 fun v hv => ?_
    refine skip_encode elem v (h.2 v hv) fuel ?_ ids hdepth
    exact length_lt_of_mem (fun hb => List.ne_nil_of_mem hv (h.1 hb)) hv hfuel
  | .set elem, vs, h, fuel + 1, hfuel, ids, hdepth => by
    refine takes_list (.inr rfl) vs.2 h.1 fun v hv => ?_
    refine skip_encode elem v (h.2 v hv) fuel ?_ ids hdepth
    exact length_lt_of_mem (fun hb => List.ne_nil_of_mem hv (h.1 hb)) hv hfuel
  | .map key value, es, h, fuel + 1, hfuel, ids, hdepth => by
    have hfuel : (mapBeginBytes key.wireType value.wireType es.1.length ++
        es.1.flatMap (entryBytes key value)).length < fuel + 1 := hfuel
    refine takes_map es.2 h.1 (fun e he => ?_) fun e he => ?_
    · obtain ⟨hk, hv⟩ := not_bool_of_entry h.1 he
      have hlt := length_lt_of_entry hk hv he hfuel
      refine skip_encode key e.1 (h.2 e he).1 fuel (by omega) ids ?_
      exact Nat.le_trans (Nat.add_le_add_left (Nat.le_max_left _ _) _) hdepth
    · obtain ⟨hk, hv⟩ := not_bool_of_entry h.1 he
      have hlt := length_lt_of_entry hk hv he hfuel
      refine skip_encode value e.2 (h.2 e he).2 fuel (by omega) ids ?_
      exact Nat.le_trans (Nat.add_le_add_left (Nat.le_max_right _ _) _) hdepth
  | .struct fields, vs, h, fuel + 1, hfuel, ids, hdepth => by
    intro p b rest
    have hdepth : ids.length + (fields.depth + 1) ≤ thriftMaxNesting := hdepth
    obtain ⟨last', p', b', h'⟩ := readFields_encode fields vs h fuel 0 (Nat.le_of_lt_succ hfuel) ids
      (by omega) ((encodeFields fields 0 vs ++ rest).length + 1)
      (by rw [List.length_append]; omega) p b rest
    refine ⟨p', b', ?_⟩
    simp only [Shape.fieldType, Shape.wireType, encode, Decoder.skip, ne_eq, not_true_eq_false,
      if_false, readStructBegin]
    rw [if_neg (by omega)]
    exact congrArg (Option.map fun r : Unit × Decoder => r.2.readStructEnd) h'

/-- So are the fields of a struct, up to the stop. -/
theorem readFields_encode : (fields : Fields) → (vs : FieldVals fields) → NoBoolFields fields vs →
    ∀ fuel (last : Int), (encodeFields fields last vs).length ≤ fuel → ∀ ids : List Int,
    ids.length + 1 + fields.depth ≤ thriftMaxNesting → ∀ turns,
    (encodeFields fields last vs).length ≤ turns → ∀ p b rest, ∃ last' p' b',
      (⟨encodeFields fields last vs ++ rest, last :: ids, p, b, .ok⟩ : Decoder).readFields
        (skipField fuel) turns () =
      some ((), ⟨rest, last' :: ids, p', b', .ok⟩)
  | .nil, _, _, fuel, last, _, ids, _, 0, hturns, p, b, rest =>
    absurd hturns (Nat.not_succ_le_zero 0)
  | .nil, _, _, fuel, last, _, ids, _, turns + 1, _, p, b, rest => ⟨last, p, b, rfl⟩
  | .cons id type more, vs, h, fuel, last, hfuel, ids, hdepth, turns, hturns, p, b, rest => by
    have hdepth : ids.length + 1 + max type.depth more.depth ≤ thriftMaxNesting := hdepth
    have hheader := fieldHeaderBytes_pos last (type.fieldType vs.1) id.toInt
    have hmore := encodeFields_pos more id.toInt vs.2
    have hlen : (encodeFields (.cons id type more) last vs).length =
        (fieldHeaderBytes last (type.fieldType vs.1) id.toInt).length +
          (encode type vs.1).length + (encodeFields more id.toInt vs.2).length := by
      simp only [encodeFields, List.length_append]
    obtain ⟨turns, rfl⟩ : ∃ t, turns = t + 1 := ⟨turns - 1, by omega⟩
    obtain ⟨p₁, b₁, h₁⟩ := skip_encode type vs.1 h.1 fuel (by omega) (id.toInt :: ids)
      (by simp only [List.length_cons]; omega) (pendingAfter (type.fieldType vs.1) p)
      (valueAfter (type.fieldType vs.1) b) (encodeFields more id.toInt vs.2 ++ rest)
    obtain ⟨last', p', b', h'⟩ := readFields_encode more vs.2 h.2 fuel id.toInt (by omega) ids
      (by omega) turns (by omega) p₁ b₁ rest
    refine ⟨last', p', b', ?_⟩
    simp only [encodeFields, List.append_assoc, readFields_header, h₁, Option.bind_some, h']

end

/-- A field that a loop skips. -/
theorem readsField_skip {σ : Type} {handle : Int → ThriftType → σ → Decoder → Option (σ × Decoder)}
    {n : Nat} {s s' : σ} {id : Int} {shape : Shape} {v : Val shape} (h : NoBoolElements shape v)
    (hdepth : shape.depth ≤ n)
    (hhandle : ∀ d : Decoder, d.status = .ok →
      handle id (shape.fieldType v) s d = skipping s' (shape.fieldType v) d) :
    ReadsField handle n s s' ⟨id, shape.fieldType v, encode shape v⟩ := by
  intro ids p b rest hids
  obtain ⟨p', b', hskip⟩ := skip_encode shape v h ((encode shape v ++ rest).length + 1)
    (by rw [List.length_append]; omega) ids (by omega) (pendingAfter (shape.fieldType v) p)
    (valueAfter (shape.fieldType v) b) rest
  refine ⟨p', b', ?_⟩
  rw [hhandle _ rfl, skipping, thriftSkip]
  exact congrArg (Option.map fun d => (s', d)) hskip

end Carquet
