import Carquet.Thrift.SkipReads

/-!
# How deep `thrift_skip` nests (`src/thrift/thrift_decode.c:205-219, 371-451`)

`Decoder.skipNesting` is `Decoder.skip` with a record of how deep its calls were nested: how many
structs, lists, sets and maps were open at once, and how many structs among them. The decoder
counts the structs it has open and refuses to open more than `THRIFT_MAX_NESTING`
("maximum nesting depth for structs", thrift_decode.h:57-60); lists, sets and maps have no level
in it, so their nesting is bounded by the bytes they take only.
-/

namespace Carquet

/-- The most containers, and the most structs, that were open at once. -/
structure Nesting where
  containers : Nat
  structs : Nat
  deriving DecidableEq, Repr

namespace Nesting

def flat : Nesting := ⟨0, 0⟩

/-- Two values one after the other. -/
def join (a b : Nesting) : Nesting :=
  ⟨Nat.max a.containers b.containers, Nat.max a.structs b.structs⟩

/-- A list, set or map around what `n` says. -/
def inContainer (n : Nesting) : Nesting := ⟨n.containers + 1, n.structs⟩

def inStruct (n : Nesting) : Nesting := ⟨n.containers + 1, n.structs + 1⟩

end Nesting

namespace Decoder

/-- `repeatWhileOk`, with the nesting of its turns joined to `n`. -/
def repeatNesting (body : Decoder → Option (Nesting × Decoder)) :
    Nat → Nesting → Decoder → Option (Nesting × Decoder)
  | 0, n, d => some (n, d)
  | count + 1, n, d =>
    if d.status = .ok then
      match body d with
      | none => none
      | some (m, d) => repeatNesting body count (n.join m) d
    else some (n, d)

/-- The body of the loop over the entries of a map. -/
def entryNesting (key value : Decoder → Option (Nesting × Decoder)) (d : Decoder) :
    Option (Nesting × Decoder) :=
  (key d).bind fun k => (value k.2).map fun v => (k.1.join v.1, v.2)

/-- `thrift_skip` (thrift_decode.c:371-451), with the nesting of its calls. -/
def skipNesting : Nat → ThriftType → Decoder → Option (Nesting × Decoder)
  | 0, _, _ => none
  | fuel + 1, type, d =>
    if d.status ≠ .ok then some (.flat, d)
    else
      match type with
      | .stop => some (.flat, d.setError .thriftDecode)
      | .boolTrue | .boolFalse => some (.flat, { d with boolPending := false })
      | .byte => some (.flat, d.readerSkip 1)
      | .i16 | .i32 | .i64 => some (.flat, d.readVarint.2)
      | .double => some (.flat, d.readerSkip 8)
      | .binary => some (.flat, d.readBinary.2)
      | .list | .set =>
        let l := d.readListBegin
        (repeatNesting (skipNesting fuel l.1.1) l.1.2 .flat l.2).map
          fun r => (r.1.inContainer, r.2)
      | .map =>
        let m := d.readMapBegin
        (repeatNesting (entryNesting (skipNesting fuel m.1.1) (skipNesting fuel m.1.2.1))
          m.1.2.2 .flat m.2).map fun r => (r.1.inContainer, r.2)
      | .struct =>
        let s := d.readStructBegin
        (s.readFields (fun _ type (n : Nesting) d =>
            (skipNesting fuel type d).map fun r => (n.join r.1, r.2))
          (s.rest.length + 1) .flat).map fun r => (r.1.inStruct, r.2.readStructEnd)
      | .uuid => some (.flat, d.readerSkip 16)
      | .unknown _ => some (.flat, d.setError .thriftInvalidType)

/-! ## The record does not change the run -/

theorem repeatNesting_snd {body : Decoder → Option (Nesting × Decoder)}
    {body' : Decoder → Option Decoder} (h : ∀ d, (body d).map Prod.snd = body' d) (count : Nat)
    (n : Nesting) (d : Decoder) :
    (repeatNesting body count n d).map Prod.snd = d.repeatWhileOk body' count := by
  induction count generalizing n d with
  | zero => rfl
  | succ count ih =>
    rw [repeatNesting, repeatWhileOk, ← h]
    split
    · cases body d with
      | none => rfl
      | some r => exact ih (n.join r.1) r.2
    · rfl

/-- Two loops over the same fields whose bodies leave the same decoder. -/
theorem readFields_snd {σ τ : Type} {f : Int → ThriftType → σ → Decoder → Option (σ × Decoder)}
    {g : Int → ThriftType → τ → Decoder → Option (τ × Decoder)}
    (h : ∀ id type s t d, (f id type s d).map Prod.snd = (g id type t d).map Prod.snd) (fuel : Nat)
    (s : σ) (t : τ) (d : Decoder) :
    (d.readFields f fuel s).map Prod.snd = (d.readFields g fuel t).map Prod.snd := by
  induction fuel generalizing s t d with
  | zero => rfl
  | succ fuel ih =>
    rw [readFields, readFields]
    split
    · rfl
    next type id d₁ _ =>
      have hbody := h id type s t d₁
      revert hbody
      cases f id type s d₁ with
      | none =>
        cases g id type t d₁ with
        | none => exact fun _ => rfl
        | some r => simp
      | some r =>
        cases g id type t d₁ with
        | none => simp
        | some r' =>
          intro hbody
          have heq : r.2 = r'.2 := Option.some.inj hbody
          simp only [heq]
          exact ih r.1 r'.1 r'.2

theorem skipNesting_snd (fuel : Nat) (type : ThriftType) (d : Decoder) :
    (skipNesting fuel type d).map Prod.snd = d.skip fuel type := by
  induction fuel generalizing type d with
  | zero => rfl
  | succ fuel ih =>
    rw [skipNesting.eq_def, Decoder.skip.eq_def]
    simp only
    split
    · rfl
    · cases type with
      | list =>
        simp only [Option.map_map]
        exact repeatNesting_snd (ih _) _ _ _
      | set =>
        simp only [Option.map_map]
        exact repeatNesting_snd (ih _) _ _ _
      | map =>
        simp only [Option.map_map]
        refine repeatNesting_snd (fun d => ?_) _ _ _
        rw [entryNesting, ← ih, Option.map_bind]
        cases skipNesting fuel (readMapBegin _).1.1 d with
        | none => rfl
        | some k =>
          simp only [Option.map_some, Option.bind_some, Function.comp_apply, Option.map_map]
          exact ih _ k.2
      | struct =>
        have hloop := readFields_snd
          (f := fun _ type n d => (skipNesting fuel type d).map fun r => (Nesting.join n r.1, r.2))
          (g := fun _ type (_ : Unit) d => (Decoder.skip fuel type d).map fun d => ((), d))
          (fun _ type s t d => by
            rw [← ih, Option.map_map, Option.map_map, Option.map_map]
            rfl)
          (d.readStructBegin.rest.length + 1) .flat () d.readStructBegin
        have hend := congrArg (Option.map readStructEnd) hloop
        rw [Option.map_map, Option.map_map] at hend
        rw [Option.map_map]
        exact hend
      | binary =>
        rcases d.readBinary with ⟨_, _⟩
        rfl
      | _ => rfl

/-- Every call that reads a value inside another takes a unit of fuel. -/
theorem repeatNesting_le {body : Decoder → Option (Nesting × Decoder)} {bound : Nat}
    (h : ∀ d r, body d = some r → r.1.containers ≤ bound) {count : Nat} {n : Nesting}
    {d : Decoder} {r : Nesting × Decoder} (hn : n.containers ≤ bound)
    (hrun : repeatNesting body count n d = some r) : r.1.containers ≤ bound := by
  induction count generalizing n d with
  | zero => exact Option.some.inj hrun ▸ hn
  | succ count ih =>
    rw [repeatNesting] at hrun
    split at hrun
    · split at hrun
      · cases hrun
      next m d₁ hm => exact ih (Nat.max_le.2 ⟨hn, h _ _ hm⟩) hrun
    · exact Option.some.inj hrun ▸ hn

theorem readFields_le {f : Int → ThriftType → Nesting → Decoder → Option (Nesting × Decoder)}
    {bound : Nat}
    (h : ∀ id type n d r, n.containers ≤ bound → f id type n d = some r → r.1.containers ≤ bound)
    {fuel : Nat} {n : Nesting} {d : Decoder} {r : Nesting × Decoder} (hn : n.containers ≤ bound)
    (hrun : d.readFields f fuel n = some r) : r.1.containers ≤ bound := by
  induction fuel generalizing n d with
  | zero => cases hrun
  | succ fuel ih =>
    rw [readFields] at hrun
    split at hrun
    · exact Option.some.inj hrun ▸ hn
    · split at hrun
      · cases hrun
      next m d₁ hm => exact ih (h _ _ _ _ _ hn hm) hrun

theorem skipNesting_le {fuel : Nat} {type : ThriftType} {d : Decoder} {r : Nesting × Decoder}
    (h : skipNesting fuel type d = some r) : r.1.containers ≤ fuel := by
  induction fuel generalizing type d r with
  | zero => cases h
  | succ fuel ih =>
    rw [skipNesting.eq_def] at h
    simp only at h
    split at h
    · exact Option.some.inj h ▸ Nat.zero_le _
    · have hlist : ∀ {body count d₁}, (∀ d r, body d = some r → r.1.containers ≤ fuel) →
          (repeatNesting body count .flat d₁).map (fun r => (r.1.inContainer, r.2)) = some r →
          r.1.containers ≤ fuel + 1 := by
        intro body count d₁ hbody hrun
        obtain ⟨r', hr', rfl⟩ := Option.map_eq_some_iff.1 hrun
        exact Nat.succ_le_succ (repeatNesting_le hbody (Nat.zero_le _) hr')
      cases type with
      | list => exact hlist (fun _ _ hr => ih hr) h
      | set => exact hlist (fun _ _ hr => ih hr) h
      | map =>
        refine hlist (fun d r hr => ?_) h
        obtain ⟨k, hk, hrest⟩ := Option.bind_eq_some_iff.1 hr
        obtain ⟨v, hv, rfl⟩ := Option.map_eq_some_iff.1 hrest
        exact Nat.max_le.2 ⟨ih hk, ih hv⟩
      | struct =>
        obtain ⟨r', hr', rfl⟩ := Option.map_eq_some_iff.1 h
        refine Nat.succ_le_succ (readFields_le (fun _ _ n d r hn hr => ?_) (Nat.zero_le _) hr')
        obtain ⟨m, hm, rfl⟩ := Option.map_eq_some_iff.1 hr
        exact Nat.max_le.2 ⟨hn, ih hm⟩
      | _ => exact Option.some.inj h ▸ Nat.zero_le _

/-! ## The structs that are open -/

/-- As many structs are open as were. -/
structure SameLevel (d d' : Decoder) : Prop where
  length : d'.lastFieldId.length = d.lastFieldId.length

namespace SameLevel

variable {d d' d'' : Decoder}

theorem refl (d : Decoder) : d.SameLevel d := ⟨rfl⟩

theorem trans (h : d.SameLevel d') (h' : d'.SameLevel d'') : d.SameLevel d'' :=
  ⟨h'.length.trans h.length⟩

theorem of_eq (h : d'.lastFieldId = d.lastFieldId) : d.SameLevel d' := ⟨by rw [h]⟩

end SameLevel

theorem sameLevel_setError (d : Decoder) (status : Status) : d.SameLevel (d.setError status) := by
  unfold setError
  split <;> exact .of_eq rfl

theorem sameLevel_drop (d : Decoder) (n : Nat) : d.SameLevel { d with rest := d.rest.drop n } :=
  .of_eq rfl

theorem sameLevel_readByteRaw (d : Decoder) : d.SameLevel d.readByteRaw.2 := by
  unfold readByteRaw
  split
  · exact sameLevel_setError d _
  · exact .of_eq rfl

theorem sameLevel_readVarint (d : Decoder) : d.SameLevel d.readVarint.2 := by
  unfold readVarint
  split
  · exact .of_eq rfl
  · split
    · have hnil : d.SameLevel { d with rest := [] } := .of_eq rfl
      exact hnil.trans (sameLevel_setError _ _)
    · exact (sameLevel_drop d 10).trans (sameLevel_setError _ _)

theorem sameLevel_readBinary (d : Decoder) : d.SameLevel d.readBinary.2 := by
  have hvar := sameLevel_readVarint d
  unfold readBinary
  simp only
  split
  · exact hvar.trans (sameLevel_setError _ _)
  · split
    · exact hvar.trans (sameLevel_setError _ _)
    · exact hvar.trans (sameLevel_drop _ _)

theorem sameLevel_readerSkip (d : Decoder) (n : Nat) : d.SameLevel (d.readerSkip n) := by
  unfold readerSkip
  split
  · exact sameLevel_drop d n
  · exact .refl d

theorem sameLevel_setLastFieldId (d : Decoder) (id : Int) : d.SameLevel (d.setLastFieldId id) := by
  unfold setLastFieldId
  split
  · exact .refl d
  next heq => exact ⟨by rw [heq, List.length_cons, List.length_cons]⟩

theorem sameLevel_readFieldBegin (d : Decoder) : d.SameLevel d.readFieldBegin.2 := by
  have hbyte := sameLevel_readByteRaw d
  unfold readFieldBegin
  split
  · exact .refl d
  · simp only
    split
    · exact hbyte
    · have hfield : d.SameLevel (if d.readByteRaw.1.toNat / 16 = 0 then d.readByteRaw.2.readI16
          else (toI16 (d.lastFieldId.headD 0 + (d.readByteRaw.1.toNat / 16 : Nat)),
            d.readByteRaw.2)).2 := by
        split
        · exact hbyte.trans (sameLevel_readVarint _)
        · exact hbyte
      generalize (if d.readByteRaw.1.toNat / 16 = 0 then d.readByteRaw.2.readI16
          else (toI16 (d.lastFieldId.headD 0 + (d.readByteRaw.1.toNat / 16 : Nat)),
            d.readByteRaw.2)) = f at hfield ⊢
      have hset := hfield.trans (sameLevel_setLastFieldId f.2 f.1)
      split
      · exact hset.trans (.of_eq rfl)
      · exact hset.trans (.of_eq rfl)
      · exact hset

theorem sameLevel_readListBegin (d : Decoder) : d.SameLevel d.readListBegin.2 := by
  have hbyte := sameLevel_readByteRaw d
  have hsized : d.SameLevel (if d.readByteRaw.1.toNat / 16 = 15 then
      (toI32 d.readByteRaw.2.readVarint.1, d.readByteRaw.2.readVarint.2)
      else ((d.readByteRaw.1.toNat / 16 : Nat), d.readByteRaw.2)).2 := by
    split
    · exact hbyte.trans (sameLevel_readVarint _)
    · exact hbyte
  unfold readListBegin
  simp only
  generalize (if d.readByteRaw.1.toNat / 16 = 15 then
      (toI32 d.readByteRaw.2.readVarint.1, d.readByteRaw.2.readVarint.2)
      else ((d.readByteRaw.1.toNat / 16 : Nat), d.readByteRaw.2)) = sized at hsized ⊢
  split
  · exact hsized.trans (sameLevel_setError _ _)
  · split
    · exact hsized.trans (sameLevel_setError _ _)
    · exact hsized

theorem sameLevel_readMapBegin (d : Decoder) : d.SameLevel d.readMapBegin.2 := by
  have hvar := sameLevel_readVarint d
  unfold readMapBegin
  simp only
  split
  · exact hvar.trans (sameLevel_setError _ _)
  · split
    · exact hvar
    · split
      · exact hvar.trans (sameLevel_setError _ _)
      · exact hvar.trans (sameLevel_readByteRaw _)

/-- The structs that a decoder can still open. -/
def freeLevels (d : Decoder) : Nat := thriftMaxNesting - d.lastFieldId.length

theorem SameLevel.freeLevels {d d' : Decoder} (h : d.SameLevel d') :
    d'.freeLevels = d.freeLevels := by
  unfold Decoder.freeLevels
  rw [h.length]

/-- What reading does to the levels when `n` says what was nested on the way: a success closes the
structs it opened and nests no more than there were levels for, a failure one more at most. -/
structure Levels (d d' : Decoder) (n : Nesting) : Prop where
  done : d'.status = .ok → d.SameLevel d' ∧ n.structs ≤ d.freeLevels
  bound : n.structs ≤ d.freeLevels + 1

namespace Levels

variable {d d' d'' : Decoder} {n m : Nesting}

theorem of_sameLevel (h : d.SameLevel d') : d.Levels d' .flat :=
  ⟨fun _ => ⟨h, Nat.zero_le _⟩, Nat.zero_le _⟩

theorem after (h : d.SameLevel d') (h' : d'.Levels d'' n) : d.Levels d'' n := by
  have hfree := h.freeLevels
  refine ⟨fun hok => ?_, hfree ▸ h'.bound⟩
  obtain ⟨hsame, hstructs⟩ := h'.done hok
  exact ⟨h.trans hsame, hfree ▸ hstructs⟩

/-- A read behind one that did not fail. -/
theorem join (h : d.Levels d' n) (hok : d'.status = .ok) (h' : d'.Levels d'' m) :
    d.Levels d'' (n.join m) := by
  obtain ⟨hsame, hstructs⟩ := h.done hok
  have hnext := Levels.after hsame h'
  refine ⟨fun hok' => ?_, Nat.max_le.2 ⟨h.bound, hnext.bound⟩⟩
  obtain ⟨hsame', hstructs'⟩ := hnext.done hok'
  exact ⟨hsame', Nat.max_le.2 ⟨hstructs, hstructs'⟩⟩

theorem inContainer (h : d.Levels d' n) : d.Levels d' n.inContainer := ⟨h.done, h.bound⟩

end Levels

theorem repeatNesting_levels {body : Decoder → Option (Nesting × Decoder)}
    (h : ∀ d r, body d = some r → d.Levels r.2 r.1) {d₀ : Decoder} {count : Nat} {n : Nesting}
    {d : Decoder} {r : Nesting × Decoder} (hn : d₀.Levels d n)
    (hrun : repeatNesting body count n d = some r) : d₀.Levels r.2 r.1 := by
  induction count generalizing n d with
  | zero => exact Option.some.inj hrun ▸ hn
  | succ count ih =>
    rw [repeatNesting] at hrun
    split at hrun
    next hok =>
      split at hrun
      · cases hrun
      next m d₁ hm => exact ih (hn.join hok (h _ _ hm)) hrun
    · exact Option.some.inj hrun ▸ hn

theorem readFields_levels {f : Int → ThriftType → Nesting → Decoder → Option (Nesting × Decoder)}
    (h : ∀ id type n d r, f id type n d = some r → ∃ m, r.1 = n.join m ∧ d.Levels r.2 m)
    {d₀ : Decoder} {fuel : Nat} {n : Nesting} {d : Decoder} {r : Nesting × Decoder}
    (hn : d₀.Levels d n) (hrun : d.readFields f fuel n = some r) : d₀.Levels r.2 r.1 := by
  induction fuel generalizing n d with
  | zero => cases hrun
  | succ fuel ih =>
    have hfield := sameLevel_readFieldBegin d
    have hstatus := (reads_readFieldBegin d).1
    rw [readFields] at hrun
    split at hrun
    next d₁ hd₁ =>
      rw [hd₁] at hfield hstatus
      obtain rfl := Option.some.inj hrun
      refine ⟨fun hok => ?_, hn.bound⟩
      obtain ⟨hsame, hstructs⟩ := hn.done (hstatus.ok hok).1
      exact ⟨hsame.trans hfield, hstructs⟩
    next type id d₁ hd₁ =>
      rw [hd₁] at hfield
      have hok : d.status = .ok := by
        by_contra herr
        rw [readFieldBegin, if_pos herr] at hd₁
        cases hd₁
      split at hrun
      · cases hrun
      next s d₂ hs =>
        obtain ⟨m, hm, hlevels⟩ := h _ _ _ _ _ hs
        simp only at hm
        subst hm
        exact ih (hn.join hok (.after hfield hlevels)) hrun

/-- A struct between its begin and its end. -/
theorem levels_struct {d : Decoder} {r : Nesting × Decoder}
    (h : d.readStructBegin.Levels r.2 r.1)
    (herr : d.readStructBegin.status ≠ .ok → r = (.flat, d.readStructBegin))
    (hstatus : r.2.status = .ok → d.readStructBegin.status = .ok) :
    d.Levels r.2.readStructEnd r.1.inStruct := by
  by_cases hfull : thriftMaxNesting ≤ d.lastFieldId.length
  · have hbegin : d.readStructBegin.status ≠ .ok := by
      rw [readStructBegin, if_pos hfull, setError]
      split
      · simp
      · assumption
    refine ⟨fun hok => absurd (hstatus hok) hbegin, ?_⟩
    rw [herr hbegin]
    exact Nat.le_add_left 1 _
  · have hids : d.readStructBegin.lastFieldId.length = d.lastFieldId.length + 1 := by
      rw [readStructBegin, if_neg hfull]
      rfl
    have hfree : d.readStructBegin.freeLevels + 1 = d.freeLevels := by
      unfold freeLevels
      omega
    refine ⟨fun hok => ?_, ?_⟩
    · obtain ⟨hsame, hstructs⟩ := h.done hok
      have hlen := hsame.length
      refine ⟨⟨?_⟩, ?_⟩
      · rw [readStructEnd, List.length_tail, hlen, hids, Nat.add_sub_cancel]
      · show r.1.structs + 1 ≤ d.freeLevels
        omega
    · have hbound := h.bound
      show r.1.structs + 1 ≤ d.freeLevels + 1
      omega

theorem skip_of_skipNesting {fuel : Nat} {type : ThriftType} {d : Decoder}
    {r : Nesting × Decoder} (h : skipNesting fuel type d = some r) :
    d.skip fuel type = some r.2 := by
  rw [← skipNesting_snd, h]
  rfl

/-- In error nothing is read. -/
theorem skipNesting_of_error {fuel : Nat} {type : ThriftType} {d : Decoder}
    {r : Nesting × Decoder} (herr : d.status ≠ .ok) (h : skipNesting fuel type d = some r) :
    r = (.flat, d) := by
  cases fuel with
  | zero => cases h
  | succ fuel =>
    rw [skipNesting.eq_def] at h
    simp only [if_pos herr] at h
    exact (Option.some.inj h).symm

theorem entryNesting_levels {key value : ThriftType} {fuel : Nat}
    (h : ∀ type d r, skipNesting fuel type d = some r → d.Levels r.2 r.1) {d : Decoder}
    {r : Nesting × Decoder}
    (hrun : entryNesting (skipNesting fuel key) (skipNesting fuel value) d = some r) :
    d.Levels r.2 r.1 := by
  obtain ⟨k, hk, hrest⟩ := Option.bind_eq_some_iff.1 hrun
  obtain ⟨v, hv, rfl⟩ := Option.map_eq_some_iff.1 hrest
  have hkey := h key d k hk
  by_cases hok : k.2.status = .ok
  · exact hkey.join hok (h value k.2 v hv)
  · obtain rfl := skipNesting_of_error hok hv
    refine ⟨fun hok' => absurd hok' hok, ?_⟩
    exact Nat.max_le.2 ⟨hkey.bound, Nat.zero_le _⟩

/-- Skipping a value, one case for each kind. -/
theorem skipNesting_levels {fuel : Nat} {type : ThriftType} {d : Decoder}
    {r : Nesting × Decoder} (h : skipNesting fuel type d = some r) : d.Levels r.2 r.1 := by
  induction fuel generalizing type d r with
  | zero => cases h
  | succ fuel ih =>
    rw [skipNesting.eq_def] at h
    simp only at h
    split at h
    · obtain rfl := Option.some.inj h
      exact .of_sameLevel (.refl d)
    · have hleaf : ∀ {d' : Decoder}, d.SameLevel d' → some (Nesting.flat, d') = some r →
          d.Levels r.2 r.1 := by
        intro d' hsame hr
        obtain rfl := Option.some.inj hr
        exact .of_sameLevel hsame
      have hcontainer : ∀ {body count} {d₁ : Decoder}, d.SameLevel d₁ →
          (∀ d r, body d = some r → d.Levels r.2 r.1) →
          (repeatNesting body count .flat d₁).map (fun r => (r.1.inContainer, r.2)) = some r →
          d.Levels r.2 r.1 := by
        intro body count d₁ hsame hbody hrun
        obtain ⟨r', hr', rfl⟩ := Option.map_eq_some_iff.1 hrun
        have hloop := repeatNesting_levels hbody (Levels.of_sameLevel (.refl d₁)) hr'
        exact (Levels.after hsame hloop).inContainer
      have hbool : d.SameLevel { d with boolPending := false } := .of_eq rfl
      cases type with
      | stop => exact hleaf (sameLevel_setError d _) h
      | unknown code => exact hleaf (sameLevel_setError d _) h
      | boolTrue => exact hleaf hbool h
      | boolFalse => exact hleaf hbool h
      | byte => exact hleaf (sameLevel_readerSkip d 1) h
      | i16 => exact hleaf (sameLevel_readVarint d) h
      | i32 => exact hleaf (sameLevel_readVarint d) h
      | i64 => exact hleaf (sameLevel_readVarint d) h
      | double => exact hleaf (sameLevel_readerSkip d 8) h
      | uuid => exact hleaf (sameLevel_readerSkip d 16) h
      | binary => exact hleaf (sameLevel_readBinary d) h
      | list => exact hcontainer (sameLevel_readListBegin d) (fun _ _ hr => ih hr) h
      | set => exact hcontainer (sameLevel_readListBegin d) (fun _ _ hr => ih hr) h
      | map =>
        refine hcontainer (sameLevel_readMapBegin d) (fun _ _ hr => ?_) h
        exact entryNesting_levels (fun _ _ _ hr => ih hr) hr
      | struct =>
        obtain ⟨r', hr', rfl⟩ := Option.map_eq_some_iff.1 h
        refine levels_struct ?_ (fun herr => ?_) (fun hok => ?_)
        · refine readFields_levels (fun _ type n d r hr => ?_) (Levels.of_sameLevel (.refl _)) hr'
          obtain ⟨m, hm, rfl⟩ := Option.map_eq_some_iff.1 hr
          exact ⟨m.1, rfl, ih hm⟩
        · rw [readFields, readFieldBegin, if_pos herr] at hr'
          exact (Option.some.inj hr').symm
        · refine ((reads_readFields (fun _ type n d r hr => ?_) hr').ok hok).1
          obtain ⟨m, hm, rfl⟩ := Option.map_eq_some_iff.1 hr
          exact (reads_skip (skip_of_skipNesting hm)).mono (Nat.zero_le _)

/-! ## Main result -/

/-- **What bounds the nesting of `thrift_skip`.** For every input, at every level: it skips a value
without error only if the structs nested in it fit in the levels of `THRIFT_MAX_NESTING` that are
free, lists, sets and maps not counted; whatever it meets, it has at most one struct more open, and
at most as many containers of all kinds as there are bytes, and one. -/
theorem thriftSkip_nesting (d : Decoder) (type : ThriftType) :
    ∃ n d', skipNesting (d.rest.length + 1) type d = some (n, d') ∧
      d.thriftSkip type = some d' ∧
      (d'.status = .ok → n.structs ≤ thriftMaxNesting - d.lastFieldId.length) ∧
      n.structs ≤ thriftMaxNesting - d.lastFieldId.length + 1 ∧
      n.containers ≤ d.rest.length + 1 := by
  obtain ⟨d', hd'⟩ := Option.isSome_iff_exists.1 (thriftSkip_isSome d type)
  have hsnd := skipNesting_snd (d.rest.length + 1) type d
  rw [show d.skip (d.rest.length + 1) type = some d' from hd'] at hsnd
  obtain ⟨⟨n, d₁⟩, hrun, rfl⟩ := Option.map_eq_some_iff.1 hsnd
  have hlevels := skipNesting_levels hrun
  exact ⟨n, d₁, hrun, hd', fun hok => (hlevels.done hok).2, hlevels.bound, skipNesting_le hrun⟩

/-- 33 lists, each but the last with the next as its one element. -/
def nestedLists : Bytes := List.replicate 32 0x19 ++ [0x03]

/-- They are skipped without error, one container deeper than `THRIFT_MAX_NESTING`. -/
theorem nestedLists_skipped :
    ¬ ∀ (d : Decoder) (type : ThriftType) (n : Nesting) (d' : Decoder),
      skipNesting (d.rest.length + 1) type d = some (n, d') → d'.status = .ok →
      n.containers ≤ thriftMaxNesting := by
  intro h
  have hdeep := h (.init nestedLists) .list ⟨33, 0⟩ (.init []) (by decide +kernel) rfl
  exact absurd hdeep (by decide)

end Decoder

end Carquet
