import Carquet.Thrift.Wire

/-!
# What a read takes

`Decoder.Reads d d' n`: from `d` to `d'` nothing was given back, and if `d'` is not in error then
neither was `d` and at least `n` bytes were taken. Every read is of this kind, so `thriftSkip`
always comes to an end (`thriftSkip_isSome`) and a loop over fields takes a byte a turn.
-/

namespace Carquet

open Leb128

/-- From one decoder to the next. -/
structure Decoder.Reads (d d' : Decoder) (n : Nat) : Prop where
  le : d'.rest.length ≤ d.rest.length
  ok : d'.status = .ok → d.status = .ok ∧ d'.rest.length + n ≤ d.rest.length

namespace Decoder.Reads

variable {d d' d'' : Decoder} {n m : Nat}

theorem refl (d : Decoder) : d.Reads d 0 := ⟨Nat.le_refl _, fun h => ⟨h, Nat.le_refl _⟩⟩

theorem trans (h : d.Reads d' n) (h' : d'.Reads d'' m) : d.Reads d'' (n + m) := by
  refine ⟨Nat.le_trans h'.le h.le, fun hok => ?_⟩
  obtain ⟨hok', hm⟩ := h'.ok hok
  obtain ⟨hok'', hn⟩ := h.ok hok'
  exact ⟨hok'', by omega⟩

theorem mono (h : d.Reads d' n) (hm : m ≤ n) : d.Reads d' m :=
  ⟨h.le, fun hok => ⟨(h.ok hok).1, by have := (h.ok hok).2; omega⟩⟩

/-- An error takes any number of bytes. -/
theorem setError (d : Decoder) (status : Status) (hne : status ≠ .ok) (n : Nat) :
    d.Reads (d.setError status) n := by
  refine ⟨by simp, fun hok => absurd hok ?_⟩
  rw [setError_status]
  split
  · exact hne
  · assumption

/-- Flags and ids do not matter. -/
theorem of_eq (hrest : d'.rest = d.rest) (hstatus : d'.status = d.status) : d.Reads d' 0 :=
  ⟨Nat.le_of_eq (congrArg _ hrest), fun h => ⟨hstatus ▸ h, Nat.le_of_eq (congrArg _ hrest)⟩⟩

end Decoder.Reads

open Decoder

variable {d : Decoder}

theorem reads_readByteRaw (d : Decoder) : d.Reads d.readByteRaw.2 1 := by
  unfold readByteRaw
  split
  · exact Reads.setError d _ (by decide) 1
  · rename_i b rest h
    refine ⟨by simp [h], fun hok => ⟨hok, by simp [h]⟩⟩

theorem reads_readVarint (d : Decoder) : d.Reads d.readVarint.2 1 := by
  unfold Decoder.readVarint
  split
  · rename_i v rest h
    have := length_readUleb h
    exact ⟨Nat.le_of_lt this, fun hok => ⟨hok, this⟩⟩
  · split
    · have h := Reads.setError { d with rest := [] } .thriftTruncated (by decide) 1
      exact ⟨by simp, fun hok => ⟨(h.ok hok).1, by simpa using (h.ok hok).2⟩⟩
    · have h := Reads.setError { d with rest := d.rest.drop 10 } .thriftDecode (by decide) 1
      refine ⟨by simp, fun hok => ⟨(h.ok hok).1, ?_⟩⟩
      have := (h.ok hok).2
      simp only [setError_rest] at this
      omega

theorem reads_readI16 (d : Decoder) : d.Reads d.readI16.2 1 := reads_readVarint d

theorem reads_readBinary (d : Decoder) : d.Reads d.readBinary.2 1 := by
  have hvar := reads_readVarint d
  unfold readBinary
  simp only
  split
  · exact hvar.trans (Reads.setError _ _ (by decide) 0)
  · split
    · exact hvar.trans (Reads.setError _ _ (by decide) 0)
    · have hdrop : d.readVarint.2.Reads { d.readVarint.2 with
          rest := d.readVarint.2.rest.drop (toI32 d.readVarint.1).toNat } 0 :=
        ⟨by simp, fun hok => ⟨hok, by simp⟩⟩
      exact hvar.trans hdrop

theorem reads_readerSkip (d : Decoder) (n : Nat) : d.Reads (d.readerSkip n) 0 := by
  unfold readerSkip
  split
  · exact ⟨by simp, fun hok => ⟨hok, by simp⟩⟩
  · exact Reads.refl d

theorem reads_readStructBegin (d : Decoder) : d.Reads d.readStructBegin 0 := by
  unfold readStructBegin
  split
  · exact Reads.setError d _ (by decide) 0
  · exact Reads.of_eq rfl rfl

theorem reads_readListBegin (d : Decoder) : d.Reads d.readListBegin.2 1 := by
  have hbyte := reads_readByteRaw d
  have hsized : d.Reads (if d.readByteRaw.1.toNat / 16 = 15 then
      (toI32 d.readByteRaw.2.readVarint.1, d.readByteRaw.2.readVarint.2)
      else ((d.readByteRaw.1.toNat / 16 : Nat), d.readByteRaw.2)).2 1 := by
    split
    · exact (hbyte.trans (reads_readVarint _)).mono (by omega)
    · exact hbyte
  unfold readListBegin
  simp only
  generalize (if d.readByteRaw.1.toNat / 16 = 15 then
      (toI32 d.readByteRaw.2.readVarint.1, d.readByteRaw.2.readVarint.2)
      else ((d.readByteRaw.1.toNat / 16 : Nat), d.readByteRaw.2)) = sized at hsized ⊢
  split
  · exact hsized.trans (Reads.setError _ _ (by decide) 0)
  · split
    · exact hsized.trans (Reads.setError _ _ (by decide) 0)
    · exact hsized

theorem reads_readMapBegin (d : Decoder) : d.Reads d.readMapBegin.2 1 := by
  have hvar := reads_readVarint d
  unfold readMapBegin
  simp only
  split
  · exact hvar.trans (Reads.setError _ _ (by decide) 0)
  · split
    · exact hvar
    · split
      · exact hvar.trans (Reads.setError _ _ (by decide) 0)
      · exact (hvar.trans (reads_readByteRaw _)).mono (by omega)

theorem setLastFieldId_rest (d : Decoder) (id : Int) : (d.setLastFieldId id).rest = d.rest := by
  unfold setLastFieldId
  split <;> rfl

theorem setLastFieldId_status (d : Decoder) (id : Int) :
    (d.setLastFieldId id).status = d.status := by
  unfold setLastFieldId
  split <;> rfl

/-- A header takes a byte, if only because it may be missing. -/
theorem reads_readFieldBegin (d : Decoder) :
    d.Reads d.readFieldBegin.2 1 ∧
      (d.readFieldBegin.1.isSome = true → d.readFieldBegin.2.rest.length + 1 ≤ d.rest.length) := by
  have hbyte := reads_readByteRaw d
  unfold readFieldBegin
  split
  · rename_i herr
    exact ⟨⟨Nat.le_refl _, fun hok => absurd hok herr⟩, by simp⟩
  · simp only
    split
    · exact ⟨hbyte, by simp⟩
    · rename_i hheader
      have htook : d.readByteRaw.2.rest.length + 1 ≤ d.rest.length := by
        unfold readByteRaw at hheader ⊢
        cases hrest : d.rest with
        | nil => simp [hrest] at hheader
        | cons b rest => simp
      have hfield : d.Reads (if d.readByteRaw.1.toNat / 16 = 0 then d.readByteRaw.2.readI16
          else (toI16 (d.lastFieldId.headD 0 + (d.readByteRaw.1.toNat / 16 : Nat)),
            d.readByteRaw.2)).2 1 ∧
          (if d.readByteRaw.1.toNat / 16 = 0 then d.readByteRaw.2.readI16
          else (toI16 (d.lastFieldId.headD 0 + (d.readByteRaw.1.toNat / 16 : Nat)),
            d.readByteRaw.2)).2.rest.length + 1 ≤ d.rest.length := by
        split
        · have h := reads_readI16 d.readByteRaw.2
          exact ⟨(hbyte.trans h).mono (by omega), Nat.le_trans (Nat.add_le_add_right h.le 1) htook⟩
        · exact ⟨hbyte, htook⟩
      generalize (if d.readByteRaw.1.toNat / 16 = 0 then d.readByteRaw.2.readI16
          else (toI16 (d.lastFieldId.headD 0 + (d.readByteRaw.1.toNat / 16 : Nat)),
            d.readByteRaw.2)) = f at hfield ⊢
      have hset : f.2.Reads (f.2.setLastFieldId f.1) 0 :=
        Reads.of_eq (setLastFieldId_rest _ _) (setLastFieldId_status _ _)
      have hlen : (f.2.setLastFieldId f.1).rest.length + 1 ≤ d.rest.length := by
        rw [setLastFieldId_rest]
        exact hfield.2
      have hflags (a b : Bool) : (f.2.setLastFieldId f.1).Reads
          { f.2.setLastFieldId f.1 with boolPending := a, boolValue := b } 0 :=
        Reads.of_eq rfl rfl
      split
      · exact ⟨(hfield.1.trans hset).trans (hflags _ _), fun _ => hlen⟩
      · exact ⟨(hfield.1.trans hset).trans (hflags _ _), fun _ => hlen⟩
      · exact ⟨hfield.1.trans hset, fun _ => hlen⟩

/-! ## Loops -/

theorem reads_repeatWhileOk {body : Decoder → Option Decoder}
    (hbody : ∀ d d', body d = some d' → d.Reads d' 0) {count : Nat} {d d' : Decoder}
    (h : d.repeatWhileOk body count = some d') : d.Reads d' 0 := by
  induction count generalizing d with
  | zero => exact Option.some.inj h ▸ Reads.refl d
  | succ count ih =>
    rw [repeatWhileOk] at h
    split at h
    · split at h
      · cases h
      · rename_i d₁ hd₁
        exact (hbody d d₁ hd₁).trans (ih h)
    · exact Option.some.inj h ▸ Reads.refl d

/-- **A loop over fields takes at least the stop.** -/
theorem reads_readFields {σ : Type} {handle : Int → ThriftType → σ → Decoder → Option (σ × Decoder)}
    (hhandle : ∀ id type s d r, handle id type s d = some r → d.Reads r.2 0) {fuel : Nat} {s : σ}
    {d : Decoder} {r : σ × Decoder} (h : d.readFields handle fuel s = some r) : d.Reads r.2 1 := by
  induction fuel generalizing s d with
  | zero => cases h
  | succ fuel ih =>
    have hfield := (reads_readFieldBegin d).1
    rw [readFields] at h
    split at h
    · rename_i d₁ hd₁
      obtain rfl := Option.some.inj h
      rwa [hd₁] at hfield
    · rename_i type id d₁ hd₁
      rw [hd₁] at hfield
      split at h
      · cases h
      · rename_i s₂ d₂ hd₂
        exact ((hfield.trans (hhandle _ _ _ _ _ hd₂)).trans (ih h)).mono (by omega)

/-- The types that have no encoding without a byte, as `thriftSkip` reads them. -/
def ThriftType.minBytes : ThriftType → Nat
  | .i16 | .i32 | .i64 | .binary | .list | .set | .map | .struct | .stop | .unknown _ => 1
  | _ => 0

theorem reads_skip {fuel : Nat} {type : ThriftType} {d d' : Decoder}
    (h : d.skip fuel type = some d') : d.Reads d' type.minBytes := by
  induction fuel generalizing type d d' with
  | zero => cases h
  | succ fuel ih =>
    have hbody : ∀ type d d', Decoder.skip fuel type d = some d' → d.Reads d' 0 :=
      fun _ _ _ h => (ih h).mono (Nat.zero_le _)
    rw [Decoder.skip.eq_def] at h
    simp only at h
    split at h
    · rename_i herr
      obtain rfl := Option.some.inj h
      exact ⟨Nat.le_refl _, fun hok => absurd hok herr⟩
    · cases type with
      | stop => exact Option.some.inj h ▸ Reads.setError d _ (by decide) 1
      | unknown code => exact Option.some.inj h ▸ Reads.setError d _ (by decide) 1
      | boolTrue => exact Option.some.inj h ▸ Reads.of_eq rfl rfl
      | boolFalse => exact Option.some.inj h ▸ Reads.of_eq rfl rfl
      | byte => exact Option.some.inj h ▸ reads_readerSkip d 1
      | i16 => exact Option.some.inj h ▸ reads_readVarint d
      | i32 => exact Option.some.inj h ▸ reads_readVarint d
      | i64 => exact Option.some.inj h ▸ reads_readVarint d
      | double => exact Option.some.inj h ▸ reads_readerSkip d 8
      | uuid => exact Option.some.inj h ▸ reads_readerSkip d 16
      | binary => exact Option.some.inj h ▸ reads_readBinary d
      | list => exact (reads_readListBegin d).trans (reads_repeatWhileOk (hbody _) h)
      | set => exact (reads_readListBegin d).trans (reads_repeatWhileOk (hbody _) h)
      | map =>
        refine (reads_readMapBegin d).trans (reads_repeatWhileOk (fun d d' hd => ?_) h)
        obtain ⟨d₁, hd₁, hd₂⟩ := Option.bind_eq_some_iff.mp hd
        exact (hbody _ _ _ hd₁).trans (hbody _ _ _ hd₂)
      | struct =>
        obtain ⟨r, hr, rfl⟩ := Option.map_eq_some_iff.mp h
        have hend : r.2.Reads r.2.readStructEnd 0 := Reads.of_eq rfl rfl
        refine ((reads_readStructBegin d).trans (reads_readFields (fun _ type s d r hr => ?_)
          hr)).trans hend
        obtain ⟨d', hd', rfl⟩ := Option.map_eq_some_iff.mp hr
        exact hbody _ _ _ hd'

/-! ## Skipping ends -/

theorem isSome_repeatWhileOk {body : Decoder → Option Decoder} {bound : Nat}
    (hreads : ∀ d d', body d = some d' → d.Reads d' 0)
    (hsome : ∀ d : Decoder, d.rest.length < bound → (body d).isSome = true) (count : Nat)
    {d : Decoder} (hd : d.status = .ok → d.rest.length < bound) :
    (d.repeatWhileOk body count).isSome = true := by
  induction count generalizing d with
  | zero => rfl
  | succ count ih =>
    rw [repeatWhileOk]
    split
    · rename_i hok
      obtain ⟨d', hd'⟩ := Option.isSome_iff_exists.mp (hsome d (hd hok))
      rw [hd']
      exact ih fun _ => Nat.lt_of_le_of_lt (hreads d d' hd').le (hd hok)
    · rfl

theorem isSome_readFields {σ : Type} {handle : Int → ThriftType → σ → Decoder → Option (σ × Decoder)}
    {bound : Nat} (hreads : ∀ id type s d r, handle id type s d = some r → d.Reads r.2 0)
    (hsome : ∀ id type s d, d.rest.length < bound → (handle id type s d).isSome = true)
    {fuel : Nat} {d : Decoder} (s : σ) (hfuel : d.rest.length < fuel)
    (hd : d.rest.length ≤ bound) :
    (d.readFields handle fuel s).isSome = true := by
  induction fuel generalizing s d with
  | zero => omega
  | succ fuel ih =>
    obtain ⟨hfield, htook⟩ := reads_readFieldBegin d
    rw [readFields]
    split
    · rfl
    · rename_i type id d₁ hd₁
      rw [hd₁] at htook
      have htook : d₁.rest.length + 1 ≤ d.rest.length := htook rfl
      obtain ⟨r, hr⟩ := Option.isSome_iff_exists.mp (hsome id type s d₁ (by omega))
      rw [hr]
      have := (hreads id type s d₁ r hr).le
      exact ih r.1 (by omega) (by omega)

theorem isSome_skip {fuel : Nat} {d : Decoder} (type : ThriftType) (h : d.rest.length < fuel) :
    (d.skip fuel type).isSome = true := by
  induction fuel generalizing type d with
  | zero => omega
  | succ fuel ih =>
    have hreads : ∀ type d d', Decoder.skip fuel type d = some d' → d.Reads d' 0 :=
      fun _ _ _ h => (reads_skip h).mono (Nat.zero_le _)
    rw [Decoder.skip.eq_def]
    simp only
    split
    · rfl
    · have hinner (type : ThriftType) (d : Decoder) (hd : d.rest.length < fuel) :
          (Decoder.skip fuel type d).isSome = true := ih type hd
      have hafter {d₁ : Decoder} (hd₁ : d.Reads d₁ 1) (hok : d₁.status = .ok) :
          d₁.rest.length < fuel := by
        have := (hd₁.ok hok).2
        omega
      cases type with
      | list => exact isSome_repeatWhileOk (hreads _) (hinner _) _ (hafter (reads_readListBegin d))
      | set => exact isSome_repeatWhileOk (hreads _) (hinner _) _ (hafter (reads_readListBegin d))
      | map =>
        refine isSome_repeatWhileOk (fun d d' hd => ?_) (fun d₁ hd₁ => ?_) _
          (hafter (reads_readMapBegin d))
        · obtain ⟨d₁, hd₁, hd₂⟩ := Option.bind_eq_some_iff.mp hd
          exact (hreads _ _ _ hd₁).trans (hreads _ _ _ hd₂)
        · obtain ⟨d₂, hd₂⟩ := Option.isSome_iff_exists.mp (hinner d.readMapBegin.1.1 d₁ hd₁)
          simp only [hd₂, Option.bind_some]
          exact hinner _ _ (Nat.lt_of_le_of_lt (hreads _ _ _ hd₂).le hd₁)
      | struct =>
        have hbegin := (reads_readStructBegin d).le
        have hsome (id : Int) (type : ThriftType) (s : Unit) (d : Decoder)
            (hd : d.rest.length < fuel) :
            ((Decoder.skip fuel type d).map fun d => ((), d)).isSome = true := by
          rw [Option.isSome_map]
          exact hinner type d hd
        rw [Option.isSome_map]
        refine isSome_readFields (fun _ type s d r hr => ?_) hsome () (Nat.lt_succ_self _)
          (by omega)
        obtain ⟨d', hd', rfl⟩ := Option.map_eq_some_iff.mp hr
        exact hreads _ _ _ hd'
      | _ => rfl

/-- **`thriftSkip` returns.** -/
theorem thriftSkip_isSome (d : Decoder) (type : ThriftType) : (d.thriftSkip type).isSome = true :=
  isSome_skip type (Nat.lt_succ_self _)

end Carquet
