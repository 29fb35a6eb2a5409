import Carquet.Thrift.Fields
import Carquet.Thrift.Window

/-!
# Reading a struct that was cut short

A struct that a writer made, cut short, is `CARQUET_ERROR_THRIFT_TRUNCATED` where each of its fields
is: a reader that is told so asks for more and comes to the end. `Truncates` says it of a field,
`readStruct_truncated` of the struct.
-/

namespace Carquet

open Decoder

/-- The body says that it was given too little of this field. -/
def Truncates {σ : Type} (handle : Int → ThriftType → σ → Decoder → Option (σ × Decoder)) (n : Nat)
    (s : σ) (f : Field) : Prop :=
  ∀ ids p b pre r, ids.length + n ≤ thriftMaxNesting → Cut pre f.bytes →
    handle f.id f.type s ⟨pre, ids, pendingAfter f.type p, valueAfter f.type b, .ok⟩ = some r →
    r.2.status = .thriftTruncated

variable {σ : Type} {handle : Int → ThriftType → σ → Decoder → Option (σ × Decoder)} {n : Nat}
  {s s' : σ} {fs : List Field}

/-! ## The loop over the fields -/

theorem Decoder.Advances.truncated {d d' : Decoder} (h : d.Advances d')
    (hd : d.status = .thriftTruncated) : d'.status = .thriftTruncated := by
  rw [h.sticky (by rw [hd]; decide), hd]

/-- Where the whole input has no error, a window onto it has no other. -/
theorem Agree.truncated_of_ok {α : Type} {more : Bytes} {r r' : α × Decoder} (h : Agree more r r')
    (herr : r.2.status ≠ .ok) (hok : r'.2.status = .ok) : r.2.status = .thriftTruncated := by
  cases h with
  | same a hsame => exact absurd hsame herr
  | truncated h => exact h
  | failed _ h => exact absurd (h.symm.trans hok) herr

/-- A header that is cut is truncated: the whole one is none of the decoder's other errors. -/
theorem readFieldBegin_truncated {type : ThriftType} {lastId id : Int} {ids : List Int}
    {p b : Bool} {pre : Bytes} (htype : ∀ code, type ≠ .unknown code) (hstop : type ≠ .stop)
    (h1 : -32768 ≤ id) (h2 : id < 32768) (hcut : Cut pre (fieldHeaderBytes lastId type id)) :
    (⟨pre, lastId :: ids, p, b, .ok⟩ : Decoder).readFieldBegin.2.status = .thriftTruncated := by
  have herr : (⟨pre, lastId :: ids, p, b, .ok⟩ : Decoder).readFieldBegin.2.status ≠ .ok :=
    readFieldBegin_cut htype hstop hcut
  obtain ⟨more, hmore⟩ := hcut.1
  have hagree := @agree_readFieldBegin more ⟨pre, lastId :: ids, p, b, .ok⟩ rfl
  have hwhole : (⟨pre, lastId :: ids, p, b, .ok⟩ : Decoder).extend more =
      ⟨fieldHeaderBytes lastId type id ++ [], lastId :: ids, p, b, .ok⟩ := by
    rw [List.append_nil, ← hmore]
    rfl
  rw [hwhole, readFieldBegin_bytes htype hstop h1 h2] at hagree
  exact hagree.truncated_of_ok herr rfl

/-- **The loop** over fields that are cut short. -/
theorem readFields_truncated (h : ReadsFields handle n s fs s')
    (hadv : ∀ id type s d r, handle id type s d = some r → d.Advances r.2)
    (htruncates : ∀ f ∈ fs, ∀ s, Truncates handle n s f) {last : Int} {ids : List Int}
    (hnest : ids.length + 1 + n ≤ thriftMaxNesting) {pre : Bytes}
    (hcut : Cut pre (chainBytes last fs ++ [0])) {turns : Nat} {p b : Bool} {r : σ × Decoder}
    (hr : (⟨pre, last :: ids, p, b, .ok⟩ : Decoder).readFields handle turns s = some r) :
    r.2.status = .thriftTruncated := by
  cases turns with
  | zero => cases hr
  | succ turns =>
    induction h generalizing last pre turns p b with
    | nil s =>
      obtain rfl : pre = [] := by
        rcases hcut.cons_cases with hnil | ⟨pre', -, h⟩
        · exact hnil
        · exact absurd h Cut.not_nil
      obtain rfl := Option.some.inj hr
      rfl
    | @cons s s₁ s₂ f fs htype hlo hhi hfield hfields ih =>
      have hunknown : ∀ code, f.type ≠ .unknown code := by
        intro code heq
        rw [heq] at htype
        cases htype
      have hstop : f.type ≠ .stop := by
        intro heq
        rw [heq] at htype
        cases htype
      simp only [chainBytes, List.append_assoc] at hcut
      rcases hcut.append_cases with hheader | ⟨pre', rfl, hrest⟩
      · -- the header is cut, whatever the body makes of it
        rw [readFields_succ] at hr
        exact (advances_fieldsFrom hadv hr).truncated
          (readFieldBegin_truncated hunknown hstop hlo hhi hheader)
      · rw [readFields_bytes hunknown hstop hlo hhi] at hr
        obtain ⟨q, hq, hr⟩ := Option.bind_eq_some_iff.mp hr
        rcases hrest.append_cases with hbytes | ⟨pre'', rfl, hlater⟩
        · have htrunc := htruncates f List.mem_cons_self s (f.id :: ids) p b pre' q
            (by simpa using hnest) hbytes hq
          exact (advances_readFields hadv hr).truncated htrunc
        · obtain ⟨p₁, b₁, h₁⟩ := hfield (f.id :: ids) p b pre'' (by simpa using hnest)
          obtain rfl := Option.some.inj (h₁.symm.trans hq)
          cases turns with
          | zero => cases hr
          | succ turns =>
            exact ih (fun g hg => htruncates g (List.mem_cons_of_mem _ hg)) hlater turns hr

/-- **A struct that is cut short is truncated.** -/
theorem readStruct_truncated (h : ReadsFields handle n s fs s')
    (hadv : ∀ id type s d r, handle id type s d = some r → d.Advances r.2)
    (htruncates : ∀ f ∈ fs, ∀ s, Truncates handle n s f) {ids : List Int}
    (hnest : ids.length + 1 + n ≤ thriftMaxNesting) {pre : Bytes} (hcut : Cut pre (structBytes fs))
    {p b : Bool} {r : σ × Decoder}
    (hr : (⟨pre, ids, p, b, .ok⟩ : Decoder).readStruct handle s = some r) :
    r.2.status = .thriftTruncated := by
  have hbegin : (⟨pre, ids, p, b, .ok⟩ : Decoder).readStructBegin = ⟨pre, 0 :: ids, p, b, .ok⟩ := by
    rw [readStructBegin, if_neg (by simp only; omega)]
  rw [Decoder.readStruct, hbegin] at hr
  obtain ⟨q, hq, rfl⟩ := Option.map_eq_some_iff.mp hr
  have htrunc := readFields_truncated h hadv htruncates hnest hcut hq
  exact (advances_readStructEnd q.2).truncated htrunc

/-! ## Fields -/

theorem truncates_i32 {id v : Int} {set : Int → σ}
    (hhandle : ∀ d : Decoder, d.status = .ok → handle id .i32 s d = storing set d.readI32) :
    Truncates handle n s ⟨id, .i32, zigzagBytes v⟩ := by
  intro ids p b pre r _ hcut hr
  rw [hhandle _ rfl, storing] at hr
  obtain rfl := Option.some.inj hr
  simp only [readI32, readZigzag]
  rw [readVarint_cut hcut]

/-- A field without bytes cannot be cut. -/
theorem truncates_flag {id : Int} {type : ThriftType} : Truncates handle n s ⟨id, type, []⟩ :=
  fun _ _ _ _ _ _ hcut _ => absurd hcut Cut.not_nil

theorem truncates_struct {τ : Type} {inner : Int → ThriftType → τ → Decoder → Option (τ × Decoder)}
    {m : Nat} {t t' : τ} {id : Int} (set : τ → σ) (hfields : ReadsFields inner m t fs t')
    (hadv : ∀ id type s d r, inner id type s d = some r → d.Advances r.2)
    (htruncates : ∀ f ∈ fs, ∀ s, Truncates inner m s f) (hnest : m + 1 ≤ n)
    (hhandle : ∀ d : Decoder, d.status = .ok →
      handle id .struct s d = (d.readStruct inner t).map fun r => (set r.1, r.2)) :
    Truncates handle n s ⟨id, .struct, structBytes fs⟩ := by
  intro ids p b pre r hids hcut hr
  rw [hhandle _ rfl] at hr
  obtain ⟨q, hq, rfl⟩ := Option.map_eq_some_iff.mp hr
  exact readStruct_truncated hfields hadv htruncates (by omega) hcut hq

/-! ## Fields that are skipped -/

theorem readBinary_truncated {data pre : Bytes} {ids : List Int} {p b : Bool}
    (h : data.length < 2147483648) (hcut : Cut pre (binaryBytes data)) :
    (⟨pre, ids, p, b, .ok⟩ : Decoder).readBinary.2.status = .thriftTruncated := by
  have herr : (⟨pre, ids, p, b, .ok⟩ : Decoder).readBinary.2.status ≠ .ok := readBinary_cut h hcut
  obtain ⟨more, hmore⟩ := hcut.1
  have hagree := @agree_readBinary more ⟨pre, ids, p, b, .ok⟩ rfl
  have hwhole : (⟨pre, ids, p, b, .ok⟩ : Decoder).extend more =
      ⟨binaryBytes data ++ [], ids, p, b, .ok⟩ := by
    rw [List.append_nil, ← hmore]
    rfl
  rw [hwhole, readBinary_bytes h] at hagree
  exact hagree.truncated_of_ok herr rfl

/-- An integer or a binary, as the loop of `thrift_skip` sees it. -/
inductive Scalar : Field → Prop where
  | i64 {id v : Int} (hlo : -9223372036854775808 ≤ v) (hhi : v < 9223372036854775808) :
      Scalar ⟨id, .i64, zigzagBytes v⟩
  | binary {id : Int} {data : Bytes} (h : data.length < 2147483648) :
      Scalar ⟨id, .binary, binaryBytes data⟩

theorem skipField_i64 {fuel : Nat} {id : Int} {d : Decoder} (hd : d.status = .ok) :
    skipField (fuel + 1) id .i64 () d = some ((), d.readVarint.2) := by
  simp only [skipField, Decoder.skip, hd, ne_eq, not_true_eq_false, if_false, Option.map_some]

theorem skipField_binary {fuel : Nat} {id : Int} {d : Decoder} (hd : d.status = .ok) :
    skipField (fuel + 1) id .binary () d = some ((), d.readBinary.2) := by
  simp only [skipField, Decoder.skip, hd, ne_eq, not_true_eq_false, if_false, Option.map_some]

theorem snd_of_some {d : Decoder} {o : Option (Unit × Decoder)} {r : Unit × Decoder}
    (h : o = some ((), d)) (hr : o = some r) : r.2 = d := by
  cases h.symm.trans hr
  rfl

theorem Scalar.reads {fuel : Nat} {f : Field} (h : Scalar f) :
    ReadsField (skipField (fuel + 1)) 0 () () f := by
  intro ids p b rest _
  refine ⟨p, b, ?_⟩
  cases h with
  | i64 hlo hhi =>
    refine (skipField_i64 rfl).trans ?_
    rw [zigzagBytes, readVarint_bytes (zigzagEncode64_lt hlo hhi)]
    rfl
  | binary hdata =>
    refine (skipField_binary rfl).trans ?_
    rw [readBinary_bytes hdata]
    rfl

theorem Scalar.truncates {fuel : Nat} {f : Field} (h : Scalar f) (s : Unit) :
    Truncates (skipField (fuel + 1)) 0 s f := by
  intro ids p b pre r _ hcut hr
  cases h with
  | i64 hlo hhi =>
    rw [snd_of_some (skipField_i64 rfl) hr, readVarint_cut hcut]
  | binary hdata =>
    rw [snd_of_some (skipField_binary rfl) hr]
    exact readBinary_truncated hdata hcut

/-- A struct of such fields that is skipped. -/
theorem truncates_skip {id : Int} (hscalar : ∀ f ∈ fs, Scalar f)
    (hid : ∀ f ∈ fs, -32768 ≤ f.id ∧ f.id < 32768) (hnest : 1 ≤ n)
    (hhandle : ∀ d : Decoder, d.status = .ok → handle id .struct s d = skipping s' .struct d) :
    Truncates handle n s ⟨id, .struct, structBytes fs⟩ := by
  intro ids p b pre r hids hcut hr
  rw [hhandle _ rfl] at hr
  obtain ⟨q, hq, rfl⟩ := Option.map_eq_some_iff.mp hr
  simp only [pendingAfter, valueAfter, thriftSkip] at hq
  rw [skip_struct rfl] at hq
  obtain ⟨t, ht, rfl⟩ := Option.map_eq_some_iff.mp hq
  cases pre with
  | nil =>
    -- not even a header
    rw [Decoder.readStruct, readStructBegin, if_neg (by simp only; omega)] at ht
    obtain ⟨u, hu, rfl⟩ := Option.map_eq_some_iff.mp ht
    obtain rfl := Option.some.inj hu
    rfl
  | cons x pre =>
    have hreads : ∀ gs : List Field, (∀ f ∈ gs, f ∈ fs) →
        ReadsFields (skipField ((x :: pre).length)) 0 () gs () := by
      intro gs
      induction gs with
      | nil => exact fun _ => .nil ()
      | cons f gs ih =>
        intro hmem
        have hf := hmem f List.mem_cons_self
        have htype : f.type.isField = true := by cases hscalar f hf <;> rfl
        exact .cons htype (hid f hf).1 (hid f hf).2 (hscalar f hf).reads
          (ih fun g hg => hmem g (List.mem_cons_of_mem _ hg))
    exact readStruct_truncated (hreads fs fun _ hf => hf)
      (fun _ _ _ _ _ h => advances_skipField h) (fun f hf s => (hscalar f hf).truncates s)
      (by omega) hcut ht

/-! ## Robust fields -/

/-- A field that the body reads, whatever it has read before, and that is truncated where it is cut
short. -/
structure Robust {σ : Type} (handle : Int → ThriftType → σ → Decoder → Option (σ × Decoder))
    (n : Nat) (f : Field) : Prop where
  isField : f.type.isField = true
  id_range : -32768 ≤ f.id ∧ f.id < 32768
  reads : ∀ s, ∃ s', ReadsField handle n s s' f
  truncates : ∀ s, Truncates handle n s f

theorem readsFields_of_robust (h : ∀ f ∈ fs, Robust handle n f) (s : σ) :
    ∃ s', ReadsFields handle n s fs s' := by
  induction fs generalizing s with
  | nil => exact ⟨s, .nil s⟩
  | cons f fs ih =>
    have hf := h f List.mem_cons_self
    obtain ⟨s₁, h₁⟩ := hf.reads s
    obtain ⟨s₂, h₂⟩ := ih (fun g hg => h g (List.mem_cons_of_mem _ hg)) s₁
    exact ⟨s₂, .cons hf.isField hf.id_range.1 hf.id_range.2 h₁ h₂⟩

/-- **A struct of robust fields** is truncated where it is cut short. -/
theorem readStruct_robust (h : ∀ f ∈ fs, Robust handle n f)
    (hadv : ∀ id type s d r, handle id type s d = some r → d.Advances r.2) {ids : List Int}
    (hnest : ids.length + 1 + n ≤ thriftMaxNesting) {pre : Bytes} (hcut : Cut pre (structBytes fs))
    {p b : Bool} {r : σ × Decoder}
    (hr : (⟨pre, ids, p, b, .ok⟩ : Decoder).readStruct handle s = some r) :
    r.2.status = .thriftTruncated := by
  obtain ⟨s', hfields⟩ := readsFields_of_robust h s
  exact readStruct_truncated hfields hadv (fun f hf => (h f hf).truncates) hnest hcut hr

theorem Robust.i32 {id v : Int} (hid : -32768 ≤ id ∧ id < 32768)
    (hv : -2147483648 ≤ v ∧ v < 2147483648) (set : σ → Int → σ)
    (hhandle : ∀ (s : σ) (d : Decoder), d.status = .ok →
      handle id .i32 s d = storing (set s) d.readI32) :
    Robust handle n ⟨id, .i32, zigzagBytes v⟩ where
  isField := rfl
  id_range := hid
  reads s := ⟨set s v, readsField_i32 hv.1 hv.2 (hhandle s)⟩
  truncates s := truncates_i32 (hhandle s)

theorem Robust.flag {id : Int} (v : Bool) (hid : -32768 ≤ id ∧ id < 32768) (set : σ → Bool → σ)
    (hhandle : ∀ (s : σ) (type : ThriftType) (d : Decoder), d.status = .ok →
      handle id type s d = storing (set s) d.readBool) :
    Robust handle n ⟨id, if v then .boolTrue else .boolFalse, []⟩ where
  isField := by cases v <;> rfl
  id_range := hid
  reads s := ⟨set s v, readsField_bool (hhandle s)⟩
  truncates _ := truncates_flag

theorem Robust.struct {τ : Type} {inner : Int → ThriftType → τ → Decoder → Option (τ × Decoder)}
    {m : Nat} {id : Int} (hid : -32768 ≤ id ∧ id < 32768) (start : σ → τ) (set : σ → τ → σ)
    (hfields : ∀ f ∈ fs, Robust inner m f) (hnest : m + 1 ≤ n)
    (hadv : ∀ id type s d r, inner id type s d = some r → d.Advances r.2)
    (hhandle : ∀ (s : σ) (d : Decoder), d.status = .ok →
      handle id .struct s d = (d.readStruct inner (start s)).map fun r => (set s r.1, r.2)) :
    Robust handle n ⟨id, .struct, structBytes fs⟩ where
  isField := rfl
  id_range := hid
  reads s := by
    obtain ⟨t, ht⟩ := readsFields_of_robust hfields (start s)
    exact ⟨set s t, readsField_struct (set s) ht hnest (hhandle s)⟩
  truncates s := by
    obtain ⟨t, ht⟩ := readsFields_of_robust hfields (start s)
    exact truncates_struct (set s) ht hadv (fun f hf => (hfields f hf).truncates) hnest (hhandle s)

end Carquet
