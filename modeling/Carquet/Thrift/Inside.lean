import Carquet.Thrift.Lists

/-!
# Reads stay inside the input

`Decoder.Inside d d'`: what `d'` has left is the end of what `d` had left, so everything in between
was taken from the input, and `last_field_id` is still written inside its array. Every read of the
decoder is of this kind. `d.Gives Q r` says of a parser's result `r` from
`d` that there is one, that `Decoder.Reads` and `Decoder.Inside` hold of what was taken for it, and
that it is of the kind `Q`; the rules below are those of the parsers' constructs.
-/

namespace Carquet

open Leb128

/-- From one decoder to the next over one input. -/
structure Decoder.Inside (d d' : Decoder) : Prop where
  suffix : d'.rest <:+ d.rest
  nesting : d.lastFieldId.length ≤ thriftMaxNesting → d'.lastFieldId.length ≤ thriftMaxNesting

namespace Decoder.Inside

variable {d d' d'' : Decoder}

theorem refl (d : Decoder) : d.Inside d := ⟨List.suffix_refl _, id⟩

theorem trans (h : d.Inside d') (h' : d'.Inside d'') : d.Inside d'' :=
  ⟨h'.suffix.trans h.suffix, fun hn => h'.nesting (h.nesting hn)⟩

/-- Only bytes were taken. -/
theorem of_suffix (hsuffix : d'.rest <:+ d.rest) (hids : d'.lastFieldId = d.lastFieldId) :
    d.Inside d' := ⟨hsuffix, fun hn => hids ▸ hn⟩

end Decoder.Inside

open Decoder

/-! ## Reads -/

@[simp] theorem setError_lastFieldId (d : Decoder) (status : Status) :
    (d.setError status).lastFieldId = d.lastFieldId := by
  unfold Decoder.setError
  split <;> rfl

theorem inside_setError (d : Decoder) (status : Status) : d.Inside (d.setError status) :=
  .of_suffix (by simp) (by simp)

theorem inside_drop (d : Decoder) (n : Nat) : d.Inside { d with rest := d.rest.drop n } :=
  .of_suffix (List.drop_suffix n d.rest) rfl

theorem inside_readByteRaw (d : Decoder) : d.Inside d.readByteRaw.2 := by
  unfold readByteRaw
  split
  · exact inside_setError d _
  · rename_i b rest h
    exact .of_suffix (h ▸ List.suffix_cons b rest) rfl

theorem inside_readVarint (d : Decoder) : d.Inside d.readVarint.2 := by
  unfold Decoder.readVarint
  split
  · rename_i v rest h
    exact .of_suffix (readUleb_suffix h) rfl
  · split
    · have hnil : d.Inside { d with rest := [] } := .of_suffix List.nil_suffix rfl
      exact hnil.trans (inside_setError _ _)
    · exact (inside_drop d 10).trans (inside_setError _ _)

theorem inside_readDouble (d : Decoder) : d.Inside d.readDouble.2 := by
  unfold readDouble
  split
  · exact inside_setError d _
  · exact inside_drop d 8

theorem inside_readBool (d : Decoder) : d.Inside d.readBool.2 := by
  unfold readBool
  split
  · exact .of_suffix (List.suffix_refl _) rfl
  · exact inside_readByteRaw d

theorem inside_readBinary (d : Decoder) : d.Inside d.readBinary.2 := by
  have hvar := inside_readVarint d
  unfold readBinary
  simp only
  split
  · exact hvar.trans (inside_setError _ _)
  · split
    · exact hvar.trans (inside_setError _ _)
    · exact hvar.trans (inside_drop _ _)

theorem inside_readerSkip (d : Decoder) (n : Nat) : d.Inside (d.readerSkip n) := by
  unfold readerSkip
  split
  · exact inside_drop d n
  · exact .refl d

theorem inside_readStructBegin (d : Decoder) : d.Inside d.readStructBegin := by
  unfold readStructBegin
  split
  · exact inside_setError d _
  · rename_i hlt
    refine ⟨List.suffix_refl _, fun _ => ?_⟩
    simp only [List.length_cons]
    omega

theorem inside_readStructEnd (d : Decoder) : d.Inside d.readStructEnd := by
  refine ⟨List.suffix_refl _, fun hn => ?_⟩
  simp only [readStructEnd, List.length_tail]
  omega

theorem inside_setLastFieldId (d : Decoder) (id : Int) : d.Inside (d.setLastFieldId id) := by
  refine ⟨setLastFieldId_rest d id ▸ List.suffix_refl _, fun hn => ?_⟩
  unfold setLastFieldId
  split
  · exact hn
  · rename_i h
    simpa [h] using hn

theorem inside_readFieldBegin (d : Decoder) : d.Inside d.readFieldBegin.2 := by
  have hbyte := inside_readByteRaw d
  unfold readFieldBegin
  split
  · exact .refl d
  · simp only
    split
    · exact hbyte
    · have hfield : d.Inside (if d.readByteRaw.1.toNat / 16 = 0 then d.readByteRaw.2.readI16
          else (toI16 (d.lastFieldId.headD 0 + (d.readByteRaw.1.toNat / 16 : Nat)),
            d.readByteRaw.2)).2 := by
        split
        · exact hbyte.trans (inside_readVarint _)
        · exact hbyte
      generalize (if d.readByteRaw.1.toNat / 16 = 0 then d.readByteRaw.2.readI16
          else (toI16 (d.lastFieldId.headD 0 + (d.readByteRaw.1.toNat / 16 : Nat)),
            d.readByteRaw.2)) = f at hfield ⊢
      have hset := hfield.trans (inside_setLastFieldId f.2 f.1)
      split
      · exact hset.trans (.of_suffix (List.suffix_refl _) rfl)
      · exact hset.trans (.of_suffix (List.suffix_refl _) rfl)
      · exact hset

theorem inside_readListBegin (d : Decoder) : d.Inside d.readListBegin.2 := by
  have hbyte := inside_readByteRaw d
  have hsized : d.Inside (if d.readByteRaw.1.toNat / 16 = 15 then
      (toI32 d.readByteRaw.2.readVarint.1, d.readByteRaw.2.readVarint.2)
      else ((d.readByteRaw.1.toNat / 16 : Nat), d.readByteRaw.2)).2 := by
    split
    · exact hbyte.trans (inside_readVarint _)
    · exact hbyte
  unfold readListBegin
  simp only
  generalize (if d.readByteRaw.1.toNat / 16 = 15 then
      (toI32 d.readByteRaw.2.readVarint.1, d.readByteRaw.2.readVarint.2)
      else ((d.readByteRaw.1.toNat / 16 : Nat), d.readByteRaw.2)) = sized at hsized ⊢
  split
  · exact hsized.trans (inside_setError _ _)
  · split
    · exact hsized.trans (inside_setError _ _)
    · exact hsized

theorem inside_readMapBegin (d : Decoder) : d.Inside d.readMapBegin.2 := by
  have hvar := inside_readVarint d
  unfold readMapBegin
  simp only
  split
  · exact hvar.trans (inside_setError _ _)
  · split
    · exact hvar
    · split
      · exact hvar.trans (inside_setError _ _)
      · exact hvar.trans (inside_readByteRaw _)

/-! ## Loops -/

theorem inside_repeatWhileOk {body : Decoder → Option Decoder}
    (hbody : ∀ d d', body d = some d' → d.Inside d') {count : Nat} {d d' : Decoder}
    (h : d.repeatWhileOk body count = some d') : d.Inside d' := by
  induction count generalizing d with
  | zero => exact Option.some.inj h ▸ .refl d
  | succ count ih =>
    rw [repeatWhileOk] at h
    split at h
    · split at h
      · cases h
      · rename_i d₁ hd₁
        exact (hbody d d₁ hd₁).trans (ih h)
    · exact Option.some.inj h ▸ .refl d

theorem inside_readFields {σ : Type}
    {handle : Int → ThriftType → σ → Decoder → Option (σ × Decoder)}
    (hhandle : ∀ id type s d r, handle id type s d = some r → d.Inside r.2) {fuel : Nat} {s : σ}
    {d : Decoder} {r : σ × Decoder} (h : d.readFields handle fuel s = some r) : d.Inside r.2 := by
  induction fuel generalizing s d with
  | zero => cases h
  | succ fuel ih =>
    have hfield := inside_readFieldBegin d
    rw [readFields] at h
    split at h
    · rename_i d₁ hd₁
      obtain rfl := Option.some.inj h
      rwa [hd₁] at hfield
    · rename_i type id d₁ hd₁
      rw [hd₁] at hfield
      split at h
      · cases h
      · rename_i s₂ d₂ hd₂
        exact (hfield.trans (hhandle _ _ _ _ _ hd₂)).trans (ih h)

theorem inside_skip {fuel : Nat} {type : ThriftType} {d d' : Decoder}
    (h : d.skip fuel type = some d') : d.Inside d' := by
  induction fuel generalizing type d d' with
  | zero => cases h
  | succ fuel ih =>
    rw [Decoder.skip.eq_def] at h
    simp only at h
    split at h
    · exact Option.some.inj h ▸ .refl d
    · cases type with
      | stop => exact Option.some.inj h ▸ inside_setError d _
      | unknown code => exact Option.some.inj h ▸ inside_setError d _
      | boolTrue => exact Option.some.inj h ▸ .of_suffix (List.suffix_refl _) rfl
      | boolFalse => exact Option.some.inj h ▸ .of_suffix (List.suffix_refl _) rfl
      | byte => exact Option.some.inj h ▸ inside_readerSkip d 1
      | i16 => exact Option.some.inj h ▸ inside_readVarint d
      | i32 => exact Option.some.inj h ▸ inside_readVarint d
      | i64 => exact Option.some.inj h ▸ inside_readVarint d
      | double => exact Option.some.inj h ▸ inside_readerSkip d 8
      | uuid => exact Option.some.inj h ▸ inside_readerSkip d 16
      | binary => exact Option.some.inj h ▸ inside_readBinary d
      | list => exact (inside_readListBegin d).trans (inside_repeatWhileOk (fun _ _ => ih) h)
      | set => exact (inside_readListBegin d).trans (inside_repeatWhileOk (fun _ _ => ih) h)
      | map =>
        refine (inside_readMapBegin d).trans (inside_repeatWhileOk (fun d d' hd => ?_) h)
        obtain ⟨d₁, hd₁, hd₂⟩ := Option.bind_eq_some_iff.mp hd
        exact (ih hd₁).trans (ih hd₂)
      | struct =>
        obtain ⟨r, hr, rfl⟩ := Option.map_eq_some_iff.mp h
        refine ((inside_readStructBegin d).trans (inside_readFields (fun _ type s d r hr => ?_)
          hr)).trans (inside_readStructEnd r.2)
        obtain ⟨d', hd', rfl⟩ := Option.map_eq_some_iff.mp hr
        exact ih hd'

/-! ## Parsers -/

/-- The parser returned, inside its input, a result of the kind `Q`. -/
def Decoder.Gives {α : Type} (d : Decoder) (Q : α → Prop) (r : Option (α × Decoder)) : Prop :=
  ∃ a d', r = some (a, d') ∧ d.Reads d' 0 ∧ d.Inside d' ∧ Q a

section
variable {α σ : Type} {Q : α → Prop} {P : σ → Prop} {d : Decoder}

/-- A read of the decoder, stored. -/
theorem gives_storing {r : α × Decoder} {set : α → σ} {n : Nat} (hreads : d.Reads r.2 n)
    (hinside : d.Inside r.2) (hset : P (set r.1)) : d.Gives P (storing set r) := by
  refine ⟨set r.1, r.2, ?_, hreads.mono (Nat.zero_le n), hinside, hset⟩
  rw [storing]

/-- A read whose result is made of another's. -/
theorem gives_stored {a : α} {d' : Decoder} {set : α → σ} {n : Nat} (hreads : d.Reads d' n)
    (hinside : d.Inside d') (hset : P (set a)) : d.Gives P (storing set (a, d')) :=
  @gives_storing α σ P d (a, d') set n hreads hinside hset

theorem gives_skipping {s : σ} (type : ThriftType) (hs : P s) : d.Gives P (skipping s type d) := by
  obtain ⟨d', hd'⟩ := Option.isSome_iff_exists.mp (thriftSkip_isSome d type)
  refine ⟨s, d', ?_, (reads_skip hd').mono (Nat.zero_le _), inside_skip hd', hs⟩
  rw [skipping, hd']
  rfl

/-- A structure's parser, its result stored. -/
theorem Decoder.Gives.map {r : Option (α × Decoder)} {f : α × Decoder → σ × Decoder}
    (h : d.Gives Q r) (hf : ∀ a d', Q a → (f (a, d')).2 = d' ∧ P (f (a, d')).1) :
    d.Gives P (r.map f) := by
  obtain ⟨a, d', rfl, hreads, hinside, ha⟩ := h
  obtain ⟨hrest, hP⟩ := hf a d' ha
  exact ⟨(f (a, d')).1, d', congrArg some (Prod.ext rfl hrest), hreads, hinside, hP⟩

/-- What was taken in front. -/
theorem Decoder.Gives.after {r : Option (α × Decoder)} {d₀ : Decoder} {n : Nat} (h : d.Gives Q r)
    (hreads : d₀.Reads d n) (hinside : d₀.Inside d) : d₀.Gives Q r := by
  obtain ⟨a, d', rfl, hreads', hinside', ha⟩ := h
  exact ⟨a, d', rfl, (hreads.trans hreads').mono (Nat.zero_le _), hinside.trans hinside', ha⟩

/-- **A loop over fields** gives what every turn keeps. -/
theorem gives_readFields {handle : Int → ThriftType → σ → Decoder → Option (σ × Decoder)}
    (h : ∀ id type s (d : Decoder), P s → d.Gives P (handle id type s d)) {fuel : Nat} {s : σ} (hs : P s)
    (hfuel : d.rest.length < fuel) : d.Gives P (d.readFields handle fuel s) := by
  induction fuel generalizing s d with
  | zero => omega
  | succ fuel ih =>
    obtain ⟨hfield, htook⟩ := reads_readFieldBegin d
    have hinside := inside_readFieldBegin d
    rw [readFields]
    split
    · rename_i d₁ hd₁
      rw [hd₁] at hfield hinside
      exact ⟨s, d₁, rfl, hfield.mono (Nat.zero_le 1), hinside, hs⟩
    · rename_i type id d₁ hd₁
      rw [hd₁] at hfield htook hinside
      have hlt : d₁.rest.length + 1 ≤ d.rest.length := htook rfl
      obtain ⟨s₂, d₂, hhandle, hreads₂, hinside₂, hs₂⟩ := h id type s d₁ hs
      have hle := hreads₂.le
      rw [hhandle]
      exact (ih hs₂ (by omega)).after (hfield.trans hreads₂) (hinside.trans hinside₂)

/-- **A struct** gives what every field keeps. -/
theorem gives_readStruct {handle : Int → ThriftType → σ → Decoder → Option (σ × Decoder)} {s : σ}
    (h : ∀ id type s (d : Decoder), P s → d.Gives P (handle id type s d)) (hs : P s) :
    d.Gives P (d.readStruct handle s) := by
  obtain ⟨s', d', hread, hreads, hinside, hs'⟩ :=
    gives_readFields (d := d.readStructBegin) h hs (Nat.lt_succ_self _)
  have hend : d'.Reads d'.readStructEnd 0 := .of_eq rfl rfl
  refine ⟨s', d'.readStructEnd, ?_, ((reads_readStructBegin d).trans hreads).trans hend,
    ((inside_readStructBegin d).trans hinside).trans (inside_readStructEnd d'), hs'⟩
  rw [readStruct, hread]
  rfl

/-- **A loop over a count** fills as many cells. -/
theorem gives_readElems {read : Decoder → Option (α × Decoder)} (h : ∀ d : Decoder, d.Gives Q (read d))
    (n : Nat) : d.Gives (fun l => l.length = n ∧ ∀ a ∈ l, Q a) (readElems read n d) := by
  induction n generalizing d with
  | zero => exact ⟨[], d, rfl, .refl d, .refl d, rfl, fun a ha => absurd ha List.not_mem_nil⟩
  | succ n ih =>
    obtain ⟨a, d₁, hread, hreads, hinside, ha⟩ := h d
    obtain ⟨l, d₂, hrest, hreads₂, hinside₂, hlen, hl⟩ := ih (d := d₁)
    refine ⟨a :: l, d₂, ?_, hreads.trans hreads₂, hinside.trans hinside₂,
      by rw [List.length_cons, hlen], ?_⟩
    · rw [readElems, hread, Option.bind_some, hrest]
      rfl
    · rintro b (- | ⟨-, hb⟩)
      · exact ha
      · exact hl b hb

end

end Carquet
