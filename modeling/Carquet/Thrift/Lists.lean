import Carquet.Thrift.Fields
import Carquet.Thrift.SkipSpec

/-!
# Lists, element by element

A list is a header with the element type and the count, then the elements. A parser reads the header
and loops over the count (`Decoder.readElems`); a writer loops over its elements. What one reads back
of each element by itself, the loop reads back of the list (`readElems_bytes`). The flags of the
decoder are left to the elements: a boolean in a list is a byte only while no boolean of a field
header is pending, so the elements may rely on what the ones before them keep (`keeps`).
-/

namespace Carquet

open Decoder

/-! ## Writing -/

/-- `thrift_write_list_begin` (thrift_encode.c:173-184). -/
def Encoder.writeListBegin (e : Encoder) (elemType : ThriftType) (count : Nat) : Encoder :=
  e.append (listBeginBytes elemType count)

/-- `thrift_write_bool` (thrift_encode.c:88-91). -/
def Encoder.writeBool (e : Encoder) (value : Bool) : Encoder := e.append (boolBytes value)

theorem Encoder.append_append (e : Encoder) (bytes more : Bytes) :
    (e.append bytes).append more = e.append (bytes ++ more) := by
  simp [Encoder.append]

/-- A loop that appends for each element appends all of it. -/
theorem Encoder.foldl_append {β : Type} (enc : β → Bytes) (vs : List β) (e : Encoder) :
    vs.foldl (fun e v => e.append (enc v)) e = e.append (vs.flatMap enc) := by
  induction vs generalizing e with
  | nil => simp [Encoder.append]
  | cons v vs ih => rw [List.foldl_cons, ih, Encoder.append_append, List.flatMap_cons]

/-! ## Reading -/

/-- `for (i = 0; i < count; i++) { x[i] = read(dec); }`. -/
def Decoder.readElems {α : Type} (read : Decoder → Option (α × Decoder)) :
    Nat → Decoder → Option (List α × Decoder)
  | 0, d => some ([], d)
  | n + 1, d =>
    (read d).bind fun r => (readElems read n r.2).map fun rs => (r.1 :: rs.1, rs.2)

/-- The list's header and its elements, where the count is within `limit`. -/
def Decoder.readList {α : Type} (limit : Nat) (read : Decoder → Option (α × Decoder)) (d : Decoder) :
    Option (List α × Decoder) :=
  let l := d.readListBegin
  if limit < l.1.2 then none else l.2.readElems read l.1.2

variable {α β : Type} {read : Decoder → Option (α × Decoder)} {enc : β → Bytes} {val : β → α}
  {ids : List Int} {keeps : Bool → Bool → Prop}

/-- The element `v` is read back wherever the flags are as they must be. -/
def ReadsElem (read : Decoder → Option (α × Decoder)) (ids : List Int) (keeps : Bool → Bool → Prop)
    (bytes : Bytes) (a : α) : Prop :=
  ∀ p b rest, keeps p b → ∃ p' b', keeps p' b' ∧
    read ⟨bytes ++ rest, ids, p, b, .ok⟩ = some (a, ⟨rest, ids, p', b', .ok⟩)

/-- **The elements read back**, whatever follows them. -/
theorem readElems_bytes (vs : List β)
    (h : ∀ v ∈ vs, ReadsElem read ids keeps (enc v) (val v)) {p b : Bool} (hkeeps : keeps p b)
    (rest : Bytes) :
    ∃ p' b', keeps p' b' ∧ readElems read vs.length ⟨vs.flatMap enc ++ rest, ids, p, b, .ok⟩ =
      some (vs.map val, ⟨rest, ids, p', b', .ok⟩) := by
  induction vs generalizing p b with
  | nil => exact ⟨p, b, hkeeps, rfl⟩
  | cons v vs ih =>
    obtain ⟨p₁, b₁, hkeeps₁, h₁⟩ := h v List.mem_cons_self p b (vs.flatMap enc ++ rest) hkeeps
    obtain ⟨p₂, b₂, hkeeps₂, h₂⟩ := ih (fun u hu => h u (List.mem_cons_of_mem v hu)) hkeeps₁
    refine ⟨p₂, b₂, hkeeps₂, ?_⟩
    rw [List.flatMap_cons, List.append_assoc, List.length_cons, readElems, h₁, Option.bind_some, h₂]
    rfl

/-- **A list reads back**, whatever follows it. -/
theorem readList_bytes {limit : Nat} {elemType : ThriftType} (vs : List β)
    (htype : ∀ code, elemType ≠ .unknown code) (hlimit : vs.length ≤ limit)
    (hcount : vs.length < 2147483648) (hpos : ∀ v, 0 < (enc v).length)
    (h : ∀ v ∈ vs, ReadsElem read ids keeps (enc v) (val v)) {p b : Bool} (hkeeps : keeps p b)
    (rest : Bytes) :
    ∃ p' b', keeps p' b' ∧ readList limit read
        ⟨listBeginBytes elemType vs.length ++ vs.flatMap enc ++ rest, ids, p, b, .ok⟩ =
      some (vs.map val, ⟨rest, ids, p', b', .ok⟩) := by
  have hroom : vs.length ≤ (vs.flatMap enc ++ rest).length := by
    rw [List.length_append]
    exact Nat.le_trans (count_le_flatMap vs hpos) (Nat.le_add_right _ _)
  obtain ⟨p', b', hkeeps', hread⟩ := readElems_bytes vs h hkeeps rest
  refine ⟨p', b', hkeeps', ?_⟩
  rw [readList, List.append_assoc, readListBegin_bytes htype hcount hroom]
  simp only [if_neg (Nat.not_lt.2 hlimit)]
  exact hread

/-- A field that is a list whose elements read back whatever the flags. -/
theorem readsField_list {σ : Type} {handle : Int → ThriftType → σ → Decoder → Option (σ × Decoder)}
    {n limit : Nat} {s : σ} {id : Int} {elemType : ThriftType} (set : List α → σ) (vs : List β)
    (htype : ∀ code, elemType ≠ .unknown code) (hlimit : vs.length ≤ limit)
    (hcount : vs.length < 2147483648) (hpos : ∀ v, 0 < (enc v).length)
    (h : ∀ v ∈ vs, ∀ ids : List Int, ids.length + n ≤ thriftMaxNesting →
      ReadsElem read ids (fun _ _ => True) (enc v) (val v))
    (hhandle : ∀ d : Decoder, d.status = .ok →
      handle id .list s d = (d.readList limit read).map fun r => (set r.1, r.2)) :
    ReadsField handle n s (set (vs.map val))
      ⟨id, .list, listBeginBytes elemType vs.length ++ vs.flatMap enc⟩ := by
  intro ids p b rest hids
  obtain ⟨p', b', -, hread⟩ := readList_bytes vs htype hlimit hcount hpos
    (fun v hv => h v hv ids hids) (p := p) (b := b) trivial rest
  refine ⟨p', b', ?_⟩
  simp only [pendingAfter, valueAfter]
  rw [hhandle _ rfl, hread]
  rfl

/-! ## Elements -/

/-- A boolean, as long as none is pending. -/
theorem readsElem_bool (ids : List Int) (v : Bool) :
    ReadsElem (fun d => some d.readBool) ids (fun p _ => p = false) (boolBytes v) v := by
  rintro p b rest rfl
  refine ⟨false, b, rfl, ?_⟩
  cases v <;> rfl

/-- A binary, of which the reader keeps what `keep` makes of it. -/
theorem readsElem_binary (ids : List Int) {data : Bytes} (h : data.length < 2147483648)
    (keep : Option Bytes → α) :
    ReadsElem (fun d => some (keep d.readBinary.1, d.readBinary.2)) ids (fun _ _ => True)
      (binaryBytes data) (keep (some data)) := by
  intro p b rest _
  refine ⟨p, b, trivial, ?_⟩
  show some (keep (readBinary _).1, (readBinary _).2) = _
  rw [readBinary_bytes h]

theorem readsElem_i64 (ids : List Int) (v : Int64) :
    ReadsElem (fun d => some d.readI64) ids (fun _ _ => True) (zigzagBytes v.toInt) v.toInt := by
  intro p b rest _
  refine ⟨p, b, trivial, ?_⟩
  show some (readZigzag _) = _
  rw [readZigzag_bytes v.le_toInt v.toInt_lt]

/-- A struct, read by a loop over its fields. -/
theorem readsElem_struct {τ : Type} {inner : Int → ThriftType → τ → Decoder → Option (τ × Decoder)}
    {m : Nat} {t t' : τ} {fs : List Field} (hfields : ReadsFields inner m t fs t')
    (hnest : ids.length + 1 + m ≤ thriftMaxNesting) :
    ReadsElem (fun d => d.readStruct inner t) ids (fun _ _ => True) (structBytes fs) t' := by
  intro p b rest _
  obtain ⟨p', b', hread⟩ := readStruct_bytes hfields ids hnest p b rest
  exact ⟨p', b', trivial, hread⟩

end Carquet
