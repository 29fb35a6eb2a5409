import Carquet.Thrift.SkipSpec

/-!
# Skipping a value that was cut short

`thrift_skip` drops the status of `carquet_buffer_reader_skip` (thrift_decode.c:390-391, 400-401,
443-444), so that a byte, a double or a UUID that is cut short is no error; and it takes no byte for
a boolean, also where the boolean is an element of a container. Everywhere else it is right:
`allSkipped_iff`.
-/

namespace Carquet

open LittleEndian Leb128 Decoder

/-! ## Errors stay -/

theorem skip_of_error {d d' : Decoder} {fuel : Nat} {type : ThriftType} (hd : d.status ≠ .ok)
    (h : d.skip fuel type = some d') : d'.status ≠ .ok := by
  cases fuel with
  | zero => cases h
  | succ fuel =>
    rw [Decoder.skip.eq_def] at h
    simp only [if_pos hd] at h
    exact Option.some.inj h ▸ hd

theorem repeatWhileOk_of_error {d : Decoder} {body : Decoder → Option Decoder} (n : Nat)
    (hd : d.status ≠ .ok) : d.repeatWhileOk body n = some d := by
  cases n with
  | zero => rfl
  | succ n => rw [repeatWhileOk, if_neg hd]

theorem readFields_of_error {d : Decoder} {fuel turns : Nat} {r : Unit × Decoder}
    (hd : d.status ≠ .ok) (h : d.readFields (skipField fuel) turns () = some r) :
    r.2.status ≠ .ok := by
  cases turns with
  | zero => cases h
  | succ turns =>
    simp only [readFields, readFieldBegin, if_pos hd] at h
    exact Option.some.inj h ▸ hd

/-- After a field's header that was an error, whatever its type is. -/
theorem readFields_of_header_error {d : Decoder} {fuel turns : Nat} {r : Unit × Decoder}
    (hd : d.readFieldBegin.2.status ≠ .ok)
    (h : d.readFields (skipField fuel) turns () = some r) : r.2.status ≠ .ok := by
  cases turns with
  | zero => cases h
  | succ turns =>
    rw [readFields] at h
    split at h
    · rename_i d' heq
      rw [heq] at hd
      exact Option.some.inj h ▸ hd
    · rename_i type id d' heq
      rw [heq] at hd
      split at h
      · cases h
      · rename_i s d'' hskip
        rw [skipField] at hskip
        obtain ⟨e, he, heq⟩ := Option.map_eq_some_iff.mp hskip
        obtain rfl : e = d'' := congrArg Prod.snd heq
        exact readFields_of_error (skip_of_error hd he) h

/-! ## Cuts that are errors -/

/-- Every cut of `enc` to fewer than `bound` bytes is an error. -/
def CutsFail (body : Decoder → Option Decoder) (ids : List Int) (bound : Nat) (enc : Bytes) :
    Prop :=
  ∀ p b pre d, pre.length < bound → Cut pre enc → body ⟨pre, ids, p, b, .ok⟩ = some d →
    d.status ≠ .ok

/-- The first element that is cut ends the loop. -/
theorem cutsFail_repeatWhileOk {β : Type} {body : Decoder → Option Decoder} {ids : List Int}
    {bound : Nat} {enc : β → Bytes} {vs : List β}
    (htakes : ∀ v ∈ vs, (enc v).length < bound → Takes body ids (enc v))
    (hcuts : ∀ v ∈ vs, CutsFail body ids bound (enc v)) :
    CutsFail (fun d => d.repeatWhileOk body vs.length) ids bound (vs.flatMap enc) := by
  induction vs with
  | nil => exact fun p b pre d _ hcut => absurd hcut Cut.not_nil
  | cons v vs ih =>
    intro p b pre d hlen hcut h
    simp only [List.length_cons, repeatWhileOk, if_true] at h
    rw [List.flatMap_cons] at hcut
    rcases hcut.append_cases with hv | ⟨pre', rfl, hvs⟩
    · split at h
      · cases h
      · rename_i d' hd'
        have herr := hcuts v List.mem_cons_self p b pre d' hlen hv hd'
        rw [repeatWhileOk_of_error _ herr] at h
        exact Option.some.inj h ▸ herr
    · rw [List.length_append] at hlen
      obtain ⟨p', b', hv⟩ := htakes v List.mem_cons_self (by omega) p b pre'
      simp only [hv] at h
      exact ih (fun v hv => htakes v (List.mem_cons_of_mem _ hv))
        (fun v hv => hcuts v (List.mem_cons_of_mem _ hv)) p' b' pre' d (by omega) hvs h

/-- A list or a set, given its elements. -/
theorem cutsFail_list {elem : Shape} {fuel : Nat} {ids : List Int} {vs : List (Val elem)}
    {type : ThriftType} (htype : type = .list ∨ type = .set) (hlen : vs.length < 2147483648)
    (htakes : ∀ v ∈ vs, (elemBytes elem (encode elem) v).length < fuel →
      Takes (Decoder.skip fuel elem.wireType) ids (elemBytes elem (encode elem) v))
    (hcuts : ∀ v ∈ vs,
      CutsFail (Decoder.skip fuel elem.wireType) ids fuel (elemBytes elem (encode elem) v)) :
    CutsFail (Decoder.skip (fuel + 1) type) ids (fuel + 1)
      (listBeginBytes elem.wireType vs.length ++ vs.flatMap (elemBytes elem (encode elem))) := by
  intro p b pre d hbound hcut h
  have hhead := listBeginBytes_pos elem.wireType vs.length
  have hloop : (⟨pre, ids, p, b, .ok⟩ : Decoder).readListBegin.2.repeatWhileOk
      (Decoder.skip fuel (⟨pre, ids, p, b, .ok⟩ : Decoder).readListBegin.1.1)
      (⟨pre, ids, p, b, .ok⟩ : Decoder).readListBegin.1.2 = some d := by
    rcases htype with rfl | rfl
    · exact h
    · exact h
  have hshort : (Cut pre (listBeginBytes elem.wireType vs.length) ∨
      ∃ pre', pre = listBeginBytes elem.wireType vs.length ++ pre' ∧ pre'.length < vs.length) →
      d.status ≠ .ok := by
    intro hpre
    obtain ⟨d', t, hbegin, herr⟩ : ∃ d' t, (⟨pre, ids, p, b, .ok⟩ : Decoder).readListBegin =
        ((t, 0), d') ∧ d'.status ≠ .ok :=
      readListBegin_cut (wireType_ne_unknown elem) hlen hpre
    simp only [hbegin, repeatWhileOk, Option.some.injEq] at hloop
    exact hloop ▸ herr
  rcases hcut.append_cases with hhead | ⟨pre', rfl, helems⟩
  · exact hshort (.inl hhead)
  · rcases Nat.lt_or_ge pre'.length vs.length with hlt | hge
    · exact hshort (.inr ⟨pre', rfl, hlt⟩)
    · rw [readListBegin_bytes (wireType_ne_unknown elem) hlen hge] at hloop
      rw [List.length_append] at hbound
      exact cutsFail_repeatWhileOk htakes hcuts p b pre' d (by omega) helems hloop

/-- One value after another. -/
theorem cutsFail_bind {f g : Decoder → Option Decoder} {ids : List Int} {bound : Nat}
    {x y : Bytes} (htakes : x.length < bound → Takes f ids x) (hx : CutsFail f ids bound x)
    (hy : CutsFail g ids bound y)
    (hg : ∀ d d', d.status ≠ .ok → g d = some d' → d'.status ≠ .ok) :
    CutsFail (fun d => (f d).bind g) ids bound (x ++ y) := by
  intro p b pre d hlen hcut h
  rcases hcut.append_cases with hcut | ⟨pre', rfl, hcut'⟩
  · obtain ⟨d', hf, h'⟩ := Option.bind_eq_some_iff.mp h
    exact hg d' d (hx p b pre d' hlen hcut hf) h'
  · rw [List.length_append] at hlen
    obtain ⟨p', b', hf⟩ := htakes (by omega) p b pre'
    simp only [hf, Option.bind_some] at h
    exact hy p' b' pre' d (by omega) hcut' h

/-- A map, given its keys and values. -/
theorem cutsFail_map {key value : Shape} {fuel : Nat} {ids : List Int}
    {es : List (Val key × Val value)} (hlen : es.length < 2147483648)
    (htakes : ∀ e ∈ es, (entryBytes key value e).length < fuel →
      Takes (fun d => (d.skip fuel key.wireType).bind (Decoder.skip fuel value.wireType)) ids
        (entryBytes key value e))
    (hcuts : ∀ e ∈ es,
      CutsFail (fun d => (d.skip fuel key.wireType).bind (Decoder.skip fuel value.wireType)) ids
        fuel (entryBytes key value e)) :
    CutsFail (Decoder.skip (fuel + 1) .map) ids (fuel + 1)
      (mapBeginBytes key.wireType value.wireType es.length ++
        es.flatMap (entryBytes key value)) := by
  intro p b pre d hbound hcut h
  have hhead := mapBeginBytes_pos key.wireType value.wireType es.length
  simp only [Decoder.skip, ne_eq, not_true_eq_false, if_false] at h
  rcases hcut.append_cases with hcut | ⟨pre', rfl, hentries⟩
  · obtain ⟨d', t, hbegin, herr⟩ : ∃ d' t, (⟨pre, ids, p, b, .ok⟩ : Decoder).readMapBegin =
        ((t, t, 0), d') ∧ d'.status ≠ .ok := readMapBegin_cut hlen hcut
    simp only [hbegin, repeatWhileOk, Option.some.injEq] at h
    exact h ▸ herr
  · rw [List.length_append] at hbound
    rcases Nat.lt_or_ge (pre'.length + 1) es.length with hlt | hge
    · obtain ⟨d', t, hbegin, herr⟩ :
          ∃ d' t, (⟨mapBeginBytes key.wireType value.wireType es.length ++ pre', ids, p, b, .ok⟩ :
            Decoder).readMapBegin = ((t, t, 0), d') ∧ d'.status ≠ .ok := readMapBegin_short hlen hlt
      simp only [hbegin, repeatWhileOk, Option.some.injEq] at h
      exact h ▸ herr
    · obtain ⟨k, v, hbegin, hkv⟩ :
          ∃ k v, (⟨mapBeginBytes key.wireType value.wireType es.length ++ pre', ids, p, b, .ok⟩ :
            Decoder).readMapBegin = ((k, v, es.length), ⟨pre', ids, p, b, .ok⟩) ∧
            (es.length ≠ 0 → k = key.wireType ∧ v = value.wireType) :=
        readMapBegin_bytes (wireType_ne_unknown key) (wireType_ne_unknown value) hlen hge
      have hzero : es.length ≠ 0 := by
        intro hzero
        rw [List.length_eq_zero_iff.mp hzero] at hentries
        exact Cut.not_nil hentries
      obtain ⟨rfl, rfl⟩ := hkv hzero
      simp only [hbegin] at h
      exact cutsFail_repeatWhileOk htakes hcuts p b pre' d (by omega) hentries h

/-! ## Values that are right in all their parts -/

mutual

/-- No byte, double or UUID is in the value, and no container in it holds a boolean. -/
def Plain : (s : Shape) → Val s → Prop
  | .byte | .double | .uuid => fun _ => False
  | .list elem => fun (vs : { vs : List (Val elem) // vs.length < 2147483648 }) =>
    (elem.isBool = true → vs.1 = []) ∧ ∀ v ∈ vs.1, Plain elem v
  | .set elem => fun (vs : { vs : List (Val elem) // vs.length < 2147483648 }) =>
    (elem.isBool = true → vs.1 = []) ∧ ∀ v ∈ vs.1, Plain elem v
  | .map key value =>
    fun (es : { es : List (Val key × Val value) // es.length < 2147483648 }) =>
    (key.isBool = true ∨ value.isBool = true → es.1 = []) ∧
      ∀ e ∈ es.1, Plain key e.1 ∧ Plain value e.2
  | .struct fields => fun (vs : FieldVals fields) => PlainFields fields vs
  | _ => fun _ => True

def PlainFields : (fields : Fields) → FieldVals fields → Prop
  | .nil => fun _ => True
  | .cons _ type rest => fun (vs : Val type × FieldVals rest) =>
    Plain type vs.1 ∧ PlainFields rest vs.2

end

mutual

theorem noBoolElements_of_plain : (s : Shape) → (v : Val s) → Plain s v → NoBoolElements s v
  | .list elem, _, h => ⟨h.1, fun v hv => noBoolElements_of_plain elem v (h.2 v hv)⟩
  | .set elem, _, h => ⟨h.1, fun v hv => noBoolElements_of_plain elem v (h.2 v hv)⟩
  | .map key value, _, h => ⟨h.1, fun e he =>
    ⟨noBoolElements_of_plain key e.1 (h.2 e he).1, noBoolElements_of_plain value e.2 (h.2 e he).2⟩⟩
  | .struct fields, vs, h => noBoolFields_of_plain fields vs h
  | .bool, _, _ => trivial
  | .i16, _, _ => trivial
  | .i32, _, _ => trivial
  | .i64, _, _ => trivial
  | .binary, _, _ => trivial

theorem noBoolFields_of_plain : (fields : Fields) → (vs : FieldVals fields) →
    PlainFields fields vs → NoBoolFields fields vs
  | .nil, _, _ => trivial
  | .cons _ type rest, vs, h =>
    ⟨noBoolElements_of_plain type vs.1 h.1, noBoolFields_of_plain rest vs.2 h.2⟩

end

theorem cutsFail_int {n : Int} {ids : List Int} {fuel bound : Nat} {type : ThriftType}
    (htype : type = .i16 ∨ type = .i32 ∨ type = .i64) :
    CutsFail (Decoder.skip (fuel + 1) type) ids bound (zigzagBytes n) := by
  intro p b pre d _ hcut h
  have hd : d = (⟨pre, ids, p, b, .ok⟩ : Decoder).readVarint.2 := by
    rcases htype with rfl | rfl | rfl
    · exact (Option.some.inj h).symm
    · exact (Option.some.inj h).symm
    · exact (Option.some.inj h).symm
  rw [hd, readVarint_cut hcut]
  exact Status.noConfusion

/-- What holds of the elements as values holds of them as elements. -/
theorem takes_elem {elem : Shape} {fuel : Nat} {ids : List Int} {vs : List (Val elem)}
    {v : Val elem} (hbool : elem.isBool = true → vs = []) (hv : v ∈ vs)
    (h : NoBoolElements elem v) (hfuel : (elemBytes elem (encode elem) v).length < fuel)
    (hdepth : ids.length + elem.depth ≤ thriftMaxNesting) :
    Takes (Decoder.skip fuel elem.wireType) ids (elemBytes elem (encode elem) v) := by
  have hb : elem.isBool = false := Bool.eq_false_iff.mpr fun hb => List.ne_nil_of_mem hv (hbool hb)
  rw [elemBytes_of_not_bool hb] at hfuel ⊢
  have := skip_encode elem v h fuel hfuel ids hdepth
  rwa [fieldType_of_not_bool hb] at this

theorem cutsFail_elem {elem : Shape} {fuel : Nat} {ids : List Int} {vs : List (Val elem)}
    {v : Val elem} (hbool : elem.isBool = true → vs = []) (hv : v ∈ vs)
    (h : CutsFail (fun d => d.skip fuel (elem.fieldType v)) ids fuel (encode elem v)) :
    CutsFail (Decoder.skip fuel elem.wireType) ids fuel (elemBytes elem (encode elem) v) := by
  have hb : elem.isBool = false := Bool.eq_false_iff.mpr fun hb => List.ne_nil_of_mem hv (hbool hb)
  rw [elemBytes_of_not_bool hb]
  rwa [fieldType_of_not_bool hb] at h

theorem takes_entry {key value : Shape} {e : Val key × Val value} {fuel : Nat} {ids : List Int}
    (hk : key.isBool = false) (hv : value.isBool = false) (hkey : NoBoolElements key e.1)
    (hvalue : NoBoolElements value e.2) (hfuel : (entryBytes key value e).length < fuel)
    (hdepth : ids.length + max key.depth value.depth ≤ thriftMaxNesting) :
    Takes (fun d => (d.skip fuel key.wireType).bind (Decoder.skip fuel value.wireType)) ids
      (entryBytes key value e) := by
  rw [entryBytes, elemBytes_of_not_bool hk, elemBytes_of_not_bool hv] at hfuel ⊢
  rw [List.length_append] at hfuel
  intro p b rest
  obtain ⟨p₁, b₁, h₁⟩ := skip_encode key e.1 hkey fuel (by omega) ids (by omega) p b
    (encode value e.2 ++ rest)
  obtain ⟨p₂, b₂, h₂⟩ := skip_encode value e.2 hvalue fuel (by omega) ids (by omega) p₁ b₁ rest
  rw [fieldType_of_not_bool hk] at h₁
  rw [fieldType_of_not_bool hv] at h₂
  exact ⟨p₂, b₂, by simp only [List.append_assoc, h₁, Option.bind_some, h₂]⟩

theorem cutsFail_entry {key value : Shape} {e : Val key × Val value} {fuel : Nat} {ids : List Int}
    (hk : key.isBool = false) (hv : value.isBool = false) (hkey : NoBoolElements key e.1)
    (hdepth : ids.length + key.depth ≤ thriftMaxNesting)
    (hcutKey : CutsFail (fun d => d.skip fuel (key.fieldType e.1)) ids fuel (encode key e.1))
    (hcutValue : CutsFail (fun d => d.skip fuel (value.fieldType e.2)) ids fuel
      (encode value e.2)) :
    CutsFail (fun d => (d.skip fuel key.wireType).bind (Decoder.skip fuel value.wireType)) ids fuel
      (entryBytes key value e) := by
  rw [entryBytes, elemBytes_of_not_bool hk, elemBytes_of_not_bool hv]
  rw [fieldType_of_not_bool hk] at hcutKey
  rw [fieldType_of_not_bool hv] at hcutValue
  refine cutsFail_bind (fun hfuel => ?_) hcutKey hcutValue fun d d' => skip_of_error
  have := skip_encode key e.1 hkey fuel hfuel ids hdepth
  rwa [fieldType_of_not_bool hk] at this

mutual

/-- **A plain value that is cut short is an error.** -/
theorem skip_cut : (s : Shape) → (v : Val s) → Plain s v → ∀ fuel (ids : List Int),
    ids.length + s.depth ≤ thriftMaxNesting →
    CutsFail (fun d => d.skip fuel (s.fieldType v)) ids fuel (encode s v)
  | _, _, _, 0, _, _ => fun _ _ _ _ hlen => absurd hlen (Nat.not_lt_zero _)
  | .bool, _, _, _ + 1, _, _ => fun _ _ _ _ _ hcut => absurd hcut Cut.not_nil
  | .i16, _, _, _ + 1, _, _ => cutsFail_int (.inl rfl)
  | .i32, _, _, _ + 1, _, _ => cutsFail_int (.inr (.inl rfl))
  | .i64, _, _, _ + 1, _, _ => cutsFail_int (.inr (.inr rfl))
  | .binary, v, _, fuel + 1, ids, _ => by
    intro p b pre d _ hcut h
    have hd : (⟨pre, ids, p, b, .ok⟩ : Decoder).readBinary.2 = d := Option.some.inj h
    exact hd ▸ readBinary_cut v.2 hcut
  | .list elem, vs, h, fuel + 1, ids, hdepth =>
    cutsFail_list (.inl rfl) vs.2
      (fun v hv hlt => (takes_elem h.1 hv (noBoolElements_of_plain elem v (h.2 v hv)) hlt hdepth))
      fun v hv => cutsFail_elem h.1 hv (skip_cut elem v (h.2 v hv) fuel ids hdepth)
  | .set elem, vs, h, fuel + 1, ids, hdepth =>
    cutsFail_list (.inr rfl) vs.2
      (fun v hv hlt => (takes_elem h.1 hv (noBoolElements_of_plain elem v (h.2 v hv)) hlt hdepth))
      fun v hv => cutsFail_elem h.1 hv (skip_cut elem v (h.2 v hv) fuel ids hdepth)
  | .map key value, es, h, fuel + 1, ids, hdepth => by
    have hdepth : ids.length + max key.depth value.depth ≤ thriftMaxNesting := hdepth
    refine cutsFail_map es.2 (fun e he hlt => ?_) fun e he => ?_
    · obtain ⟨hk, hv⟩ := not_bool_of_entry h.1 he
      obtain ⟨hkey, hvalue⟩ := h.2 e he
      exact takes_entry hk hv (noBoolElements_of_plain key e.1 hkey)
        (noBoolElements_of_plain value e.2 hvalue) hlt (by omega)
    · obtain ⟨hk, hv⟩ := not_bool_of_entry h.1 he
      obtain ⟨hkey, hvalue⟩ := h.2 e he
      exact cutsFail_entry hk hv (noBoolElements_of_plain key e.1 hkey) (by omega)
        (skip_cut key e.1 hkey fuel ids (by omega)) (skip_cut value e.2 hvalue fuel ids (by omega))
  | .struct fields, vs, h, fuel + 1, ids, hdepth => by
    intro p b pre d hlen hcut hskip
    have hdepth : ids.length + (fields.depth + 1) ≤ thriftMaxNesting := hdepth
    have hbegin : (⟨pre, ids, p, b, .ok⟩ : Decoder).readStructBegin = ⟨pre, 0 :: ids, p, b, .ok⟩ := by
      rw [readStructBegin, if_neg (by simp only; omega)]
    obtain ⟨r, hr, rfl⟩ := Option.map_eq_some_iff.mp
      (show ((⟨pre, ids, p, b, .ok⟩ : Decoder).readStructBegin.readFields (skipField fuel)
        ((⟨pre, ids, p, b, .ok⟩ : Decoder).readStructBegin.rest.length + 1) ()).map
          (fun r => r.2.readStructEnd) = some d from hskip)
    rw [hbegin] at hr
    exact readFields_cut fields vs h fuel 0 ids (by omega) p b pre _ r (by omega) hcut hr

/-- So is a struct whose fields are cut short, or whose stop is missing. -/
theorem readFields_cut : (fields : Fields) → (vs : FieldVals fields) → PlainFields fields vs →
    ∀ fuel (last : Int) (ids : List Int), ids.length + 1 + fields.depth ≤ thriftMaxNesting →
    ∀ p b pre turns (r : Unit × Decoder), pre.length ≤ fuel → Cut pre (encodeFields fields last vs) →
    (⟨pre, last :: ids, p, b, .ok⟩ : Decoder).readFields (skipField fuel) turns () = some r →
    r.2.status ≠ .ok
  | .nil, _, _, fuel, last, ids, _, p, b, pre, turns, r, _, hcut, h => by
    rcases hcut.cons_cases with rfl | ⟨pre', -, h'⟩
    · exact readFields_of_header_error (by simp [readFieldBegin, readByteRaw]) h
    · exact absurd h' Cut.not_nil
  | .cons id type more, vs, hplain, fuel, last, ids, hdepth, p, b, pre, turns, r, hlen, hcut, h => by
    have hdepth : ids.length + 1 + max type.depth more.depth ≤ thriftMaxNesting := hdepth
    have hheader := fieldHeaderBytes_pos last (type.fieldType vs.1) id.toInt
    simp only [encodeFields, List.append_assoc] at hcut
    rcases hcut.append_cases with hhead | ⟨pre', rfl, hrest⟩
    · exact readFields_of_header_error
        (readFieldBegin_cut (fieldType_ne_unknown type vs.1) (fieldType_ne_stop type vs.1) hhead) h
    · cases turns with
      | zero => cases h
      | succ turns =>
        rw [List.length_append] at hlen
        rw [readFields_header] at h
        obtain ⟨d', hskip, h⟩ := Option.bind_eq_some_iff.mp h
        rcases hrest.append_cases with hvalue | ⟨pre, rfl, hmore⟩
        · exact readFields_of_error (skip_cut type vs.1 hplain.1 fuel (id.toInt :: ids)
            (by simp only [List.length_cons]; omega) _ _ pre' d' (by omega) hvalue hskip) h
        · rw [List.length_append] at hlen
          have hbool := noBoolElements_of_plain type vs.1 hplain.1
          obtain ⟨p', b', h'⟩ := skip_encode type vs.1 hbool fuel (by omega) (id.toInt :: ids)
            (by simp only [List.length_cons]; omega)
            (pendingAfter (type.fieldType vs.1) p) (valueAfter (type.fieldType vs.1) b) pre
          obtain rfl : d' = _ := Option.some.inj (hskip.symm.trans h')
          exact readFields_cut more vs.2 hplain.2 fuel id.toInt ids (by omega) p' b' pre turns r
            (by omega) hmore h

end

/-! ## The calls -/

/-- A call of `thrift_skip` at the start of a value: the type that it is given, how deep the value
nests structs, and the value's bytes. -/
structure SkipCall where
  type : ThriftType
  depth : Nat
  bytes : Bytes

/-- The call is right: it takes the value's bytes and no others, and leaves an error where they
are cut short. -/
def SkipCall.Right (c : SkipCall) : Prop :=
  ∀ ids : List Int, ids.length + c.depth ≤ thriftMaxNesting → ∀ p b,
    (∀ rest, ∃ p' b', thriftSkip ⟨c.bytes ++ rest, ids, p, b, .ok⟩ c.type =
      some ⟨rest, ids, p', b', .ok⟩) ∧
    ∀ pre, Cut pre c.bytes → ∃ d, thriftSkip ⟨pre, ids, p, b, .ok⟩ c.type = some d ∧
      d.status ≠ .ok

/-- The call for a value that is a field's, or that stands alone. -/
def skipCall (s : Shape) (v : Val s) : SkipCall := ⟨s.fieldType v, s.depth, encode s v⟩

/-- The call for an element of a container, whose type is in the container's header. -/
def elemCall (s : Shape) (v : Val s) : SkipCall :=
  ⟨s.wireType, s.depth, elemBytes s (encode s) v⟩

/-- The call for an element and those for the values in it. -/
def elemCalls (s : Shape) (inner : Val s → List SkipCall) (v : Val s) : List SkipCall :=
  elemCall s v :: inner v

mutual

/-- The calls for the values in a value. -/
def callsIn : (s : Shape) → Val s → List SkipCall
  | .list elem => fun (vs : { vs : List (Val elem) // vs.length < 2147483648 }) =>
    vs.1.flatMap (elemCalls elem (callsIn elem))
  | .set elem => fun (vs : { vs : List (Val elem) // vs.length < 2147483648 }) =>
    vs.1.flatMap (elemCalls elem (callsIn elem))
  | .map key value =>
    fun (es : { es : List (Val key × Val value) // es.length < 2147483648 }) =>
    es.1.flatMap fun e =>
      elemCalls key (callsIn key) e.1 ++ elemCalls value (callsIn value) e.2
  | .struct fields => fun (vs : FieldVals fields) => callsInFields fields vs
  | _ => fun _ => []

def callsInFields : (fields : Fields) → FieldVals fields → List SkipCall
  | .nil => fun _ => []
  | .cons _ type rest => fun (vs : Val type × FieldVals rest) =>
    (skipCall type vs.1 :: callsIn type vs.1) ++ callsInFields rest vs.2

end

theorem right_of_plain {s : Shape} {v : Val s} (h : Plain s v) : (skipCall s v).Right := by
  intro ids hdepth p b
  refine ⟨fun rest => ?_, fun pre hcut => ?_⟩
  · exact skip_encode s v (noBoolElements_of_plain s v h) _
      (by simp only [skipCall, List.length_append]; omega) ids hdepth p b rest
  · obtain ⟨d, hd⟩ := Option.isSome_iff_exists.mp
      (thriftSkip_isSome ⟨pre, ids, p, b, .ok⟩ (s.fieldType v))
    exact ⟨d, hd, skip_cut s v h _ ids hdepth p b pre d (Nat.lt_succ_self _) hcut hd⟩

theorem elemCall_of_not_bool {s : Shape} (h : s.isBool = false) (v : Val s) :
    elemCall s v = skipCall s v := by
  rw [elemCall, skipCall, elemBytes_of_not_bool h, fieldType_of_not_bool h]

/-- A boolean element is left where it is. -/
theorem not_right_elemBool (v : Bool) : ¬ SkipCall.Right ⟨.boolTrue, 0, boolBytes v⟩ := by
  intro h
  obtain ⟨p', b', h⟩ := (h [] (Nat.zero_le _) false false).1 []
  have hskip : thriftSkip ⟨boolBytes v ++ [], [], false, false, .ok⟩ .boolTrue =
      some ⟨boolBytes v ++ [], [], false, false, .ok⟩ := rfl
  have hrest := congrArg Decoder.rest (Option.some.inj (hskip.symm.trans h))
  simp [boolBytes] at hrest

/-- Of these, none is missed where there is nothing at all. -/
theorem not_right_fixed {type : ThriftType} {depth : Nat} {bytes : Bytes} (hne : bytes ≠ [])
    (h : type = .byte ∨ type = .double ∨ type = .uuid) (hdepth : depth ≤ thriftMaxNesting) :
    ¬ SkipCall.Right ⟨type, depth, bytes⟩ := by
  intro hright
  obtain ⟨d, hd, herr⟩ := (hright [] (by simpa using hdepth) false false).2 [] (Cut.nil_of_ne hne)
  rcases h with rfl | rfl | rfl
  · exact herr (Option.some.inj hd ▸ rfl)
  · exact herr (Option.some.inj hd ▸ rfl)
  · exact herr (Option.some.inj hd ▸ rfl)

theorem not_bool_of_right {s : Shape} {v : Val s} (h : (elemCall s v).Right) :
    s.isBool = false := by
  cases s with
  | bool => exact absurd h (not_right_elemBool v)
  | _ => rfl

theorem nil_of_right {s : Shape} {vs : List (Val s)} (h : ∀ v ∈ vs, (elemCall s v).Right)
    (hbool : s.isBool = true) : vs = [] := by
  refine List.eq_nil_iff_forall_not_mem.mpr fun v hv => ?_
  rw [not_bool_of_right (h v hv)] at hbool
  cases hbool

theorem right_of_elemCalls {s : Shape} {v : Val s}
    (h : ∀ c ∈ elemCalls s (callsIn s) v, c.Right) :
    ∀ c ∈ skipCall s v :: callsIn s v, c.Right := by
  rw [← elemCall_of_not_bool (not_bool_of_right (h _ List.mem_cons_self))]
  exact h

theorem elemCalls_of_plain {s : Shape} {v : Val s} (hb : s.isBool = false) (h : Plain s v)
    (hin : ∀ c ∈ callsIn s v, c.Right) : ∀ c ∈ elemCalls s (callsIn s) v, c.Right := by
  intro c hc
  rcases List.mem_cons.mp hc with rfl | hc
  · rw [elemCall_of_not_bool hb]
    exact right_of_plain h
  · exact hin c hc

mutual

/-- Every value in a plain value is right. -/
theorem callsIn_of_plain : (s : Shape) → (v : Val s) → Plain s v → ∀ c ∈ callsIn s v, c.Right
  | .list elem, vs, h, c, hc => by
    obtain ⟨v, hv, hc⟩ := List.mem_flatMap.mp hc
    refine elemCalls_of_plain ?_ (h.2 v hv) (callsIn_of_plain elem v (h.2 v hv)) c hc
    exact Bool.eq_false_iff.mpr fun hb => List.ne_nil_of_mem hv (h.1 hb)
  | .set elem, vs, h, c, hc => by
    obtain ⟨v, hv, hc⟩ := List.mem_flatMap.mp hc
    refine elemCalls_of_plain ?_ (h.2 v hv) (callsIn_of_plain elem v (h.2 v hv)) c hc
    exact Bool.eq_false_iff.mpr fun hb => List.ne_nil_of_mem hv (h.1 hb)
  | .map key value, es, h, c, hc => by
    obtain ⟨e, he, hc⟩ := List.mem_flatMap.mp hc
    obtain ⟨hk, hv⟩ := not_bool_of_entry h.1 he
    obtain ⟨hkey, hvalue⟩ := h.2 e he
    rcases List.mem_append.mp hc with hc | hc
    · exact elemCalls_of_plain hk hkey (callsIn_of_plain key e.1 hkey) c hc
    · exact elemCalls_of_plain hv hvalue (callsIn_of_plain value e.2 hvalue) c hc
  | .struct fields, vs, h, c, hc => callsInFields_of_plain fields vs h c hc
  | .bool, _, _, _, hc => absurd hc List.not_mem_nil
  | .i16, _, _, _, hc => absurd hc List.not_mem_nil
  | .i32, _, _, _, hc => absurd hc List.not_mem_nil
  | .i64, _, _, _, hc => absurd hc List.not_mem_nil
  | .binary, _, _, _, hc => absurd hc List.not_mem_nil

theorem callsInFields_of_plain : (fields : Fields) → (vs : FieldVals fields) →
    PlainFields fields vs → ∀ c ∈ callsInFields fields vs, c.Right
  | .nil, _, _, _, hc => absurd hc List.not_mem_nil
  | .cons _ type rest, vs, h, c, hc => by
    rcases List.mem_append.mp hc with hc | hc
    · rcases List.mem_cons.mp hc with rfl | hc
      · exact right_of_plain h.1
      · exact callsIn_of_plain type vs.1 h.1 c hc
    · exact callsInFields_of_plain rest vs.2 h.2 c hc

end

mutual

theorem plain_of_right : (s : Shape) → (v : Val s) →
    (∀ c ∈ skipCall s v :: callsIn s v, c.Right) → Plain s v
  | .byte, (v : UInt8), h =>
    not_right_fixed (List.cons_ne_nil v []) (.inl rfl) (Nat.zero_le _) (h _ List.mem_cons_self)
  | .double, (v : Vector UInt8 8), h =>
    not_right_fixed (List.ne_nil_of_length_pos (encode_pos (s := .double) rfl v)) (.inr (.inl rfl))
      (Nat.zero_le _) (h _ List.mem_cons_self)
  | .uuid, (v : Vector UInt8 16), h =>
    not_right_fixed (List.ne_nil_of_length_pos (encode_pos (s := .uuid) rfl v)) (.inr (.inr rfl))
      (Nat.zero_le _) (h _ List.mem_cons_self)
  | .list elem, vs, h => by
    have hcalls : ∀ v ∈ vs.1, ∀ c ∈ elemCalls elem (callsIn elem) v, c.Right := fun v hv c hc =>
      h c (List.mem_cons_of_mem _ (List.mem_flatMap.mpr ⟨v, hv, hc⟩))
    exact ⟨nil_of_right fun v hv => hcalls v hv _ List.mem_cons_self,
      fun v hv => plain_of_right elem v (right_of_elemCalls (hcalls v hv))⟩
  | .set elem, vs, h => by
    have hcalls : ∀ v ∈ vs.1, ∀ c ∈ elemCalls elem (callsIn elem) v, c.Right := fun v hv c hc =>
      h c (List.mem_cons_of_mem _ (List.mem_flatMap.mpr ⟨v, hv, hc⟩))
    exact ⟨nil_of_right fun v hv => hcalls v hv _ List.mem_cons_self,
      fun v hv => plain_of_right elem v (right_of_elemCalls (hcalls v hv))⟩
  | .map key value, es, h => by
    have hkey : ∀ e ∈ es.1, ∀ c ∈ elemCalls key (callsIn key) e.1, c.Right := fun e he c hc =>
      h c (List.mem_cons_of_mem _ (List.mem_flatMap.mpr ⟨e, he, List.mem_append_left _ hc⟩))
    have hvalue : ∀ e ∈ es.1, ∀ c ∈ elemCalls value (callsIn value) e.2, c.Right := fun e he c hc =>
      h c (List.mem_cons_of_mem _ (List.mem_flatMap.mpr ⟨e, he, List.mem_append_right _ hc⟩))
    refine ⟨fun hbool => List.eq_nil_iff_forall_not_mem.mpr fun e he => ?_, fun e he => ?_⟩
    · have hk := not_bool_of_right (hkey e he _ List.mem_cons_self)
      have hv := not_bool_of_right (hvalue e he _ List.mem_cons_self)
      rcases hbool with hbool | hbool
      · rw [hk] at hbool; cases hbool
      · rw [hv] at hbool; cases hbool
    · exact ⟨plain_of_right key e.1 (right_of_elemCalls (hkey e he)),
        plain_of_right value e.2 (right_of_elemCalls (hvalue e he))⟩
  | .struct fields, vs, h =>
    plainFields_of_right fields vs fun c hc => h c (List.mem_cons_of_mem _ hc)
  | .bool, _, _ => trivial
  | .i16, _, _ => trivial
  | .i32, _, _ => trivial
  | .i64, _, _ => trivial
  | .binary, _, _ => trivial

theorem plainFields_of_right : (fields : Fields) → (vs : FieldVals fields) →
    (∀ c ∈ callsInFields fields vs, c.Right) → PlainFields fields vs
  | .nil, _, _ => trivial
  | .cons _ type rest, vs, h =>
    ⟨plain_of_right type vs.1 fun c hc => h c (List.mem_append_left _ hc),
      plainFields_of_right rest vs.2 fun c hc => h c (List.mem_append_right _ hc)⟩

end

/-- **`thrift_skip` is right on a value and on every value in it if and only if** no byte, double
or UUID is in the value and no container in it holds a boolean. -/
theorem allSkipped_iff (s : Shape) (v : Val s) :
    (∀ c ∈ skipCall s v :: callsIn s v, c.Right) ↔ Plain s v := by
  refine ⟨plain_of_right s v, fun h c hc => ?_⟩
  rcases List.mem_cons.mp hc with rfl | hc
  · exact right_of_plain h
  · exact callsIn_of_plain s v h c hc

/-- A list of one boolean, and a double of which there is nothing. -/
theorem skip_boolList_double :
    (skipCall (.list .bool) ⟨[true], by decide⟩).bytes = [0x11, 1] ∧
    thriftSkip ⟨[0x11, 1], [], false, false, .ok⟩ .list = some ⟨[1], [], false, false, .ok⟩ ∧
    ¬ (skipCall (.list .bool) ⟨[true], by decide⟩).Right ∧
    thriftSkip ⟨[], [], false, false, .ok⟩ .double = some ⟨[], [], false, false, .ok⟩ ∧
    ¬ (skipCall .double (Vector.replicate 8 0)).Right := by
  have hlist : thriftSkip ⟨[0x11, 1], [], false, false, .ok⟩ .list =
      some ⟨[1], [], false, false, .ok⟩ := by decide
  refine ⟨rfl, hlist, fun h => ?_, rfl, ?_⟩
  · obtain ⟨p', b', h⟩ := (h [] (Nat.zero_le _) false false).1 []
    have hrest := congrArg Decoder.rest (Option.some.inj (hlist.symm.trans h))
    simp at hrest
  · exact not_right_fixed (List.ne_nil_of_length_pos (encode_pos rfl _)) (.inr (.inl rfl))
      (Nat.zero_le _)

end Carquet
