import Carquet.Thrift.SkipReads
import Carquet.Thrift.Wire

/-!
# Structs, field by field

A parser of a struct is a loop over its fields with a body that looks at the id
(`Decoder.readFields`); a writer appends a header and a value for each field that is there. Here
both are taken apart into fields: `structBytes fs` is what the writer makes of the fields `fs`
(`written_field`, `written_struct`), and a body that reads each field by itself reads the struct
(`readStruct_bytes`).
-/

namespace Carquet

open Decoder

/-- A field as it is written: its id, the type in its header, and the bytes of its value. -/
structure Field where
  id : Int
  type : ThriftType
  bytes : Bytes
  deriving DecidableEq, Repr

/-- The fields behind one with the id `last`, without the stop. -/
def chainBytes : Int → List Field → Bytes
  | _, [] => []
  | last, f :: fs => fieldHeaderBytes last f.type f.id ++ f.bytes ++ chainBytes f.id fs

/-- The id of the last field. -/
def lastId : Int → List Field → Int
  | last, [] => last
  | _, f :: fs => lastId f.id fs

/-- A struct: its fields and the stop. -/
def structBytes (fs : List Field) : Bytes := chainBytes 0 fs ++ [0]

theorem chainBytes_append (last : Int) (fs gs : List Field) :
    chainBytes last (fs ++ gs) = chainBytes last fs ++ chainBytes (lastId last fs) gs := by
  induction fs generalizing last with
  | nil => rfl
  | cons f fs ih => simp only [List.cons_append, chainBytes, lastId, ih, List.append_assoc]

theorem lastId_append (last : Int) (fs gs : List Field) :
    lastId last (fs ++ gs) = lastId (lastId last fs) gs := by
  induction fs generalizing last with
  | nil => rfl
  | cons f fs ih => exact ih f.id

/-! ## Writing -/

/-- The encoder in a struct of which the fields `fs` are written. -/
def written (buffer : Bytes) (ids : List Int) (fs : List Field) : Encoder :=
  ⟨buffer ++ chainBytes 0 fs, lastId 0 fs :: ids, .ok⟩

variable {buffer : Bytes} {ids : List Int} {fs gs : List Field}

theorem writeStructBegin_written (buffer : Bytes) {ids : List Int}
    (h : ids.length < thriftEncoderMaxNesting) :
    (⟨buffer, ids, .ok⟩ : Encoder).writeStructBegin = written buffer ids [] := by
  simp [Encoder.writeStructBegin, written, chainBytes, lastId, Nat.not_le.mpr h]

theorem writeStructEnd_written :
    (written buffer ids fs).writeStructEnd = ⟨buffer ++ structBytes fs, ids, .ok⟩ := by
  simp [Encoder.writeStructEnd, Encoder.append, written, structBytes]

/-- One more field. -/
theorem written_field (type : ThriftType) (id : Int) (bytes : Bytes) :
    ((written buffer ids fs).writeFieldHeader type id).append bytes =
      written buffer ids (fs ++ [⟨id, type, bytes⟩]) := by
  simp [Encoder.writeFieldHeader, Encoder.append, written, chainBytes_append, lastId_append,
    chainBytes, lastId]

/-- A field whose value is in its header. -/
theorem written_flag (type : ThriftType) (id : Int) :
    (written buffer ids fs).writeFieldHeader type id =
      written buffer ids (fs ++ [⟨id, type, []⟩]) := by
  rw [← written_field]
  simp [Encoder.append]

/-- A field whose value is a struct, up to the struct's begin. -/
theorem written_open (id : Int) (h : (id :: ids).length < thriftEncoderMaxNesting) :
    ((written buffer ids fs).writeFieldHeader .struct id).writeStructBegin =
      written (buffer ++ chainBytes 0 fs ++ fieldHeaderBytes (lastId 0 fs) .struct id) (id :: ids)
        [] :=
  writeStructBegin_written _ h

/-- And from its end. -/
theorem written_close (id : Int) :
    (written (buffer ++ chainBytes 0 fs ++ fieldHeaderBytes (lastId 0 fs) .struct id) (id :: ids)
        gs).writeStructEnd =
      written buffer ids (fs ++ [⟨id, .struct, structBytes gs⟩]) := by
  rw [← written_field, writeStructEnd_written]
  rfl

/-- A field that is there or not. -/
theorem written_ite (c : Prop) [Decidable c] :
    (if c then written buffer ids (fs ++ gs) else written buffer ids fs) =
      written buffer ids (fs ++ if c then gs else []) := by
  split
  · rfl
  · rw [List.append_nil]

/-! ## Reading -/

variable {σ : Type} {handle : Int → ThriftType → σ → Decoder → Option (σ × Decoder)} {n : Nat}
  {s s' s'' : σ}

/-- `thrift_read_struct_begin`, the loop over the fields, `thrift_read_struct_end`. -/
def Decoder.readStruct (handle : Int → ThriftType → σ → Decoder → Option (σ × Decoder)) (s : σ)
    (d : Decoder) : Option (σ × Decoder) :=
  (d.readStructBegin.readFields handle (d.readStructBegin.rest.length + 1) s).map
    fun r => (r.1, r.2.readStructEnd)

/-- `s->field = thrift_read_..(dec)`. -/
@[irreducible] def storing {α σ : Type} (set : α → σ) (r : α × Decoder) : Option (σ × Decoder) :=
  some (set r.1, r.2)

/-- `thrift_skip(dec, type)`. -/
def skipping {σ : Type} (s : σ) (type : ThriftType) (d : Decoder) : Option (σ × Decoder) :=
  (d.thriftSkip type).map fun d => (s, d)

/-- A type that a field can have. -/
def ThriftType.isField : ThriftType → Bool
  | .stop | .unknown _ => false
  | _ => true

/-- The body takes `s` to `s'` on this field and takes its bytes; at least `n` structs can be
opened in it. -/
def ReadsField (handle : Int → ThriftType → σ → Decoder → Option (σ × Decoder)) (n : Nat)
    (s s' : σ) (f : Field) : Prop :=
  ∀ ids p b rest, ids.length + n ≤ thriftMaxNesting → ∃ p' b',
    handle f.id f.type s
        ⟨f.bytes ++ rest, ids, pendingAfter f.type p, valueAfter f.type b, .ok⟩ =
      some (s', ⟨rest, ids, p', b', .ok⟩)

/-- The body takes `s` to `s'` on these fields, one after another. -/
inductive ReadsFields (handle : Int → ThriftType → σ → Decoder → Option (σ × Decoder)) (n : Nat) :
    σ → List Field → σ → Prop where
  | nil (s : σ) : ReadsFields handle n s [] s
  | cons {s s' s'' : σ} {f : Field} {fs : List Field} (htype : f.type.isField = true)
      (hlo : -32768 ≤ f.id) (hhi : f.id < 32768) (hfield : ReadsField handle n s s' f)
      (hfields : ReadsFields handle n s' fs s'') : ReadsFields handle n s (f :: fs) s''

/-- One field in front. -/
theorem ReadsFields.field {id : Int} {type : ThriftType} {bytes : Bytes}
    (hfield : ReadsField handle n s s' ⟨id, type, bytes⟩)
    (hfields : ReadsFields handle n s' fs s'') (htype : type.isField = true)
    (hid : -32768 ≤ id ∧ id < 32768) :
    ReadsFields handle n s (⟨id, type, bytes⟩ :: fs) s'' :=
  .cons htype hid.1 hid.2 hfield hfields

theorem ReadsFields.append (h : ReadsFields handle n s fs s') (h' : ReadsFields handle n s' gs s'') :
    ReadsFields handle n s (fs ++ gs) s'' := by
  induction h with
  | nil s => exact h'
  | cons htype hlo hhi hfield _ ih => exact .cons htype hlo hhi hfield (ih h')

/-- Fields that are there or not. -/
theorem ReadsFields.ite {c : Prop} [Decidable c] (h : c → ReadsFields handle n s fs s') :
    ReadsFields handle n s (if c then fs else []) (if c then s' else s) := by
  split
  · exact h ‹_›
  · exact .nil s

/-- **Fields that are read one by one are read by the loop**, up to the stop. -/
theorem readFields_chainBytes (h : ReadsFields handle n s fs s') {last : Int} (ids : List Int)
    (hnest : ids.length + 1 + n ≤ thriftMaxNesting) (rest : Bytes) (turns : Nat)
    (hturns : fs.length < turns) (p b : Bool) :
    ∃ last' p' b', (⟨chainBytes last fs ++ 0 :: rest, last :: ids, p, b, .ok⟩ :
      Decoder).readFields handle turns s = some (s', ⟨rest, last' :: ids, p', b', .ok⟩) := by
  induction h generalizing last turns p b with
  | nil s =>
    obtain ⟨turns, rfl⟩ : ∃ t, turns = t + 1 := ⟨turns - 1, by simp at hturns; omega⟩
    exact ⟨last, p, b, rfl⟩
  | @cons s s₁ s₂ f fs htype hlo hhi hfield _ ih =>
    rw [List.length_cons] at hturns
    obtain ⟨turns, rfl⟩ : ∃ t, turns = t + 1 := ⟨turns - 1, by omega⟩
    have hunknown : ∀ code, f.type ≠ .unknown code := by
      intro code h
      rw [h] at htype
      cases htype
    have hstop : f.type ≠ .stop := by
      intro h
      rw [h] at htype
      cases htype
    simp only [chainBytes, List.append_assoc]
    rw [readFields_bytes hunknown hstop hlo hhi]
    obtain ⟨p₁, b₁, h₁⟩ := hfield (f.id :: ids) p b (chainBytes f.id fs ++ 0 :: rest)
      (by simpa using hnest)
    rw [h₁]
    exact ih turns (by omega) p₁ b₁

theorem length_le_chainBytes (last : Int) (fs : List Field) :
    fs.length ≤ (chainBytes last fs).length := by
  induction fs generalizing last with
  | nil => exact Nat.le_refl 0
  | cons f fs ih =>
    have hhead : 0 < (fieldHeaderBytes last f.type f.id).length := by
      unfold fieldHeaderBytes
      simp only
      split <;> simp
    have := ih f.id
    simp only [chainBytes, List.length_append, List.length_cons]
    omega

/-- **A struct reads back**, whatever follows it. -/
theorem readStruct_bytes (h : ReadsFields handle n s fs s') (ids : List Int)
    (hnest : ids.length + 1 + n ≤ thriftMaxNesting) (p b : Bool) (rest : Bytes) :
    ∃ p' b', (⟨structBytes fs ++ rest, ids, p, b, .ok⟩ : Decoder).readStruct handle s =
      some (s', ⟨rest, ids, p', b', .ok⟩) := by
  have hbegin : (⟨structBytes fs ++ rest, ids, p, b, .ok⟩ : Decoder).readStructBegin =
      ⟨chainBytes 0 fs ++ 0 :: rest, 0 :: ids, p, b, .ok⟩ := by
    rw [readStructBegin, if_neg (by simp only; omega)]
    simp [structBytes]
  have hlen := length_le_chainBytes 0 fs
  obtain ⟨last', p', b', hread⟩ := readFields_chainBytes h ids hnest rest
    ((chainBytes 0 fs ++ 0 :: rest).length + 1) (by rw [List.length_append]; omega) p b
  refine ⟨p', b', ?_⟩
  rw [readStruct, hbegin, hread]
  rfl

/-! ## The bodies' cases -/

/-- A field that is an `i32`. -/
theorem readsField_i32 {id v : Int} {set : Int → σ} (hlo : -2147483648 ≤ v) (hhi : v < 2147483648)
    (hhandle : ∀ d : Decoder, d.status = .ok → handle id .i32 s d = storing set d.readI32) :
    ReadsField handle n s (set v) ⟨id, .i32, zigzagBytes v⟩ := by
  intro ids p b rest _
  refine ⟨p, b, ?_⟩
  simp only [pendingAfter, valueAfter]
  rw [hhandle _ rfl, readI32_bytes hlo hhi, storing]

/-- A boolean is in the header. -/
theorem readsField_bool {id : Int} {v : Bool} {set : Bool → σ}
    (hhandle : ∀ (type : ThriftType) (d : Decoder), d.status = .ok →
      handle id type s d = storing set d.readBool) :
    ReadsField handle n s (set v) ⟨id, if v then .boolTrue else .boolFalse, []⟩ := by
  intro ids p b rest _
  rw [hhandle _ _ rfl, storing]
  cases v with
  | true => exact ⟨false, true, rfl⟩
  | false => exact ⟨false, false, rfl⟩

/-- A field that is a struct, read by a loop of its own. -/
theorem readsField_struct {τ : Type} {inner : Int → ThriftType → τ → Decoder → Option (τ × Decoder)}
    {m : Nat} {t t' : τ} {id : Int} {fs : List Field} (set : τ → σ)
    (hfields : ReadsFields inner m t fs t') (hnest : m + 1 ≤ n)
    (hhandle : ∀ d : Decoder, d.status = .ok →
      handle id .struct s d = (d.readStruct inner t).map fun r => (set r.1, r.2)) :
    ReadsField handle n s (set t') ⟨id, .struct, structBytes fs⟩ := by
  intro ids p b rest hids
  obtain ⟨p', b', h⟩ := readStruct_bytes hfields ids (by omega) p b rest
  refine ⟨p', b', ?_⟩
  simp only [pendingAfter, valueAfter]
  rw [hhandle _ rfl, h]
  rfl

end Carquet
