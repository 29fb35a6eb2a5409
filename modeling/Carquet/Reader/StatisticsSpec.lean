import Carquet.Reader.Statistics

/-!
# Which row groups statistics rule out

A reader that passes over a row group must not lose rows: where some written value is in the
relation a query asks for, `rowGroupMatches` says so. The order is that of the column's type
(`StatType.order`).

What a page's bounds stand for is what its calls `surviving` a refused one gave; a page that
holds an empty string adds nothing to the column's (`counted`). Rows are kept exactly when the
bounds that are left reach every value written (`KeepsRows`).
-/

namespace Carquet

open LittleEndian Bounds Std

/-! ## Values and their order -/

/-- The truth value of a BOOLEAN as a number. -/
def boolOf (v : Value) : Nat := if isTrue v then 1 else 0

/-- The order of a column's values: numeric, signed or unsigned, or unsigned lexicographic. -/
def StatType.order : StatType → Value → Value → Ordering
  | .int32 u => compareInt 4 u
  | .int64 u => compareInt 8 u
  | .boolean => compareOn boolOf
  | .fixedLenByteArray _ | .byteArray => compare

instance (ty : StatType) : TransCmp ty.order := by
  cases ty <;> simp only [StatType.order, compareInt] <;> infer_instance

/-- `v op x`, of how `v` compares with `x`. -/
def CompareOp.Holds : CompareOp → Ordering → Prop
  | .eq, o => o = .eq
  | .ne, o => o ≠ .eq
  | .lt, o => o = .lt
  | .le, o => o ≠ .gt
  | .gt, o => o = .gt
  | .ge, o => o ≠ .lt

/-- The size of a value, where the type fixes it. -/
def StatType.width : StatType → Option Nat
  | .int32 _ => some 4
  | .int64 _ => some 8
  | .boolean => some 1
  | .fixedLenByteArray n => some n
  | .byteArray => none

/-- The value's memory image has the type's size. -/
def StatType.Sized (ty : StatType) (v : Value) : Prop := ∀ n, ty.width = some n → v.length = n

/-- Only a BYTE_ARRAY can lack its data pointer. -/
def Cell.Fits (c : Cell) (ty : StatType) : Prop := ty = .byteArray ∨ ∃ v, c = some v ∧ ty.Sized v

/-- `dict_eligible_type` (column_writer.c:271-276). -/
def StatType.dictEligible : StatType → Bool
  | .int32 _ | .int64 _ | .byteArray => true
  | _ => false

def AddCall.cells : AddCall → List Cell
  | .accepted cells => cells
  | .refused => []

/-- The present values of all calls that were taken. -/
def ChunkCalls.cells : ChunkCalls → List Cell
  | .paged _ pages => pages.flatMap fun calls => calls.flatMap AddCall.cells
  | .dictionary cells => cells

/-- What a column of type `ty` can be given for one row group. -/
structure WrittenColumn (ty : StatType) where
  chunk : ChunkCalls
  fits : ∀ c ∈ chunk.cells, c.Fits ty
  dictType : ∀ cells, chunk = .dictionary cells → ty.dictEligible = true

/-- The values written to the row group. -/
def WrittenColumn.values {ty : StatType} (col : WrittenColumn ty) : List Value :=
  col.chunk.cells.map Cell.value

/-! ## The values the bounds stand for -/

/-- A least or a greatest value of `vs` is longer than the snapshot of a call. -/
def LongBound (ty : StatType) (vs : List Value) : Prop :=
  ∃ v ∈ vs, statSnapshotSize < v.length ∧
    ((∀ u ∈ vs, (ty.order v u).isLE) ∨ ∀ u ∈ vs, (ty.order u v).isLE)

instance (ty : StatType) (vs : List Value) : Decidable (LongBound ty vs) :=
  inferInstanceAs (Decidable (∃ v ∈ vs, statSnapshotSize < v.length ∧
    ((∀ u ∈ vs, (ty.order v u).isLE) ∨ ∀ u ∈ vs, (ty.order u v).isLE)))

/-- A refused call drops what the page had so far if a bound of it is long. -/
def survivingStep (ty : StatType) (vs : List Value) : AddCall → List Value
  | .accepted cells => vs ++ cells.filterMap id
  | .refused => if LongBound ty vs then [] else vs

def surviving (ty : StatType) (calls : List AddCall) : List Value :=
  calls.foldl (survivingStep ty) []

/-- What a page that has `vs` adds to the column: nothing if an empty string is among them. -/
def contribution (vs : List Value) : List Value := if [] ∈ vs then [] else vs

/-- The values a chunk's bounds stand for. -/
def counted (ty : StatType) : ChunkCalls → List Value
  | .paged _ pages => pages.flatMap fun calls => contribution (surviving ty calls)
  | .dictionary cells => contribution (cells.map Cell.value)

/-- The bounds that the counted values leave in the footer reach every written value: where a
greatest counted value, or its raised 32-byte prefix, becomes the maximum `q`, no written value
is above `q` nor below every counted value's 32-byte prefix. -/
def KeepsRows {ty : StatType} (col : WrittenColumn ty) : Prop :=
  ∀ k ∈ counted ty col.chunk, (∀ u ∈ counted ty col.chunk, (ty.order u k).isLE) →
    ∀ q, footerMax ty k = some q → ∀ v ∈ col.values,
      (ty.order v q).isLE ∧ ∃ m ∈ counted ty col.chunk, (ty.order (footerMin ty m) v).isLE

/-! ## Comparisons that agree with the order -/

/-- What a stored bound looks like: a value's size, and 0 or 1 for a BOOLEAN. -/
def StatType.Stored (ty : StatType) (v : Bytes) : Prop :=
  ty.Sized v ∧ (ty = .boolean → v = [0] ∨ v = [1])

theorem compareStatValues_eq {ty : StatType} {a b : Bytes} (ha : ty.Stored a) (hb : ty.Stored b) :
    compareStatValues ty a b = ty.order a b := by
  cases ty with
  | int32 u => exact if_pos ((ha.1 4 rfl).trans (hb.1 4 rfl).symm)
  | int64 u => exact if_pos ((ha.1 8 rfl).trans (hb.1 8 rfl).symm)
  | boolean => rcases ha.2 rfl with rfl | rfl <;> rcases hb.2 rfl with rfl | rfl <;> rfl
  | fixedLenByteArray n => exact (ite_self _).trans (ByteOrder.lexCompare_eq a b)
  | byteArray => exact (ite_self _).trans (ByteOrder.lexCompare_eq a b)

/-- Byte strings that compare equal are equal. -/
theorem eq_of_compare_eq {a b : Bytes} (h : compare a b = .eq) : a = b :=
  LawfulEqCmp.eq_of_compare h

/-- Values in the same place of the order have the same size. -/
theorem length_of_order_eq {ty : StatType} {a b : Value} (ha : ty.Sized a) (hb : ty.Sized b)
    (h : ty.order a b = .eq) : a.length = b.length := by
  cases hw : ty.width with
  | some n => rw [ha n hw, hb n hw]
  | none =>
    cases ty with
    | byteArray => rw [eq_of_compare_eq h]
    | _ => exact absurd hw (by simp [StatType.width])

/-- Only an empty string is no greater than an empty string. -/
theorem length_eq_zero_of_le {ty : StatType} {a b : Value} (ha : ty.Sized a) (hb : ty.Sized b)
    (h : (ty.order a b).isLE) (hb0 : b.length = 0) : a.length = 0 := by
  cases hw : ty.width with
  | some n => rw [ha n hw, ← hb n hw, hb0]
  | none =>
    cases ty with
    | byteArray =>
      rw [List.length_eq_zero_iff] at hb0 ⊢
      subst hb0
      by_contra hne
      have hlt : compare [] a = .lt := ByteOrder.compare_nil a hne
      have hgt : compare a [] = .gt := OrientedCmp.gt_iff_lt.mpr hlt
      change (compare a []).isLE at h
      rw [hgt] at h
      exact absurd h (by decide)
    | _ => exact absurd hw (by simp [StatType.width])

/-! ## One page -/

/-- `m` are stored bounds of `vs`. -/
def Bounded (ty : StatType) (m : MinMax) (vs : List Value) : Prop :=
  match m with
  | none => vs = []
  | some b => Spans ty.order vs b.1 b.2 ∧ ty.Stored b.1 ∧ ty.Stored b.2

theorem Bounded.of_mem_iff {ty : StatType} {m : MinMax} {vs ws : List Value}
    (h : Bounded ty m vs) (hiff : ∀ v, v ∈ ws ↔ v ∈ vs) : Bounded ty m ws := by
  cases m with
  | none =>
    have hvs : vs = [] := h
    exact List.eq_nil_iff_forall_not_mem.mpr fun v hv => by simpa [hvs] using (hiff v).mp hv
  | some b => exact ⟨h.1.of_mem_iff hiff, h.2⟩

/-- Further bounds are taken in by any comparison that agrees with the order on stored bounds. -/
theorem Bounded.widen {ty : StatType} {m : MinMax} {vs ws : List Value} {lo hi : Bytes}
    {cmp : Bytes → Bytes → Ordering} (h : Bounded ty m vs) (hs : Spans ty.order ws lo hi)
    (hlo : ty.Stored lo) (hhi : ty.Stored hi)
    (hcmp : ∀ a b, ty.Stored a → ty.Stored b → cmp a b = ty.order a b) :
    Bounded ty (widen cmp m lo hi) (vs ++ ws) := by
  cases m with
  | none =>
    have hvs : vs = [] := h
    subst hvs
    exact ⟨hs, hlo, hhi⟩
  | some b =>
    obtain ⟨hb, hb1, hb2⟩ := h
    have h1 : pickLo cmp b.1 lo = pickLo ty.order b.1 lo := by
      rw [pickLo, pickLo, hcmp lo b.1 hlo hb1]
    have h2 : pickHi cmp b.2 hi = pickHi ty.order b.2 hi := by
      rw [pickHi, pickHi, hcmp hi b.2 hhi hb2]
    refine ⟨?_, ?_, ?_⟩
    · rw [h1, h2]
      exact hb.merge hs
    · simp only [pickLo]
      split
      · exact hlo
      · exact hb1
    · simp only [pickHi]
      split
      · exact hhi
      · exact hb2

theorem stored_of_sized {ty : StatType} {v : Bytes} (hty : ty ≠ .boolean) (h : ty.Sized v) :
    ty.Stored v := ⟨h, fun hb => absurd hb hty⟩

/-- The integers of one call. -/
theorem bounded_updateStatisticsInt {ty : StatType} {size : Nat} {u : Bool} {m : MinMax}
    {vs : List Value} (values : List Value) (hord : ty.order = compareInt size u)
    (hty : ty ≠ .boolean) (h : Bounded ty m vs) (hsized : ∀ v ∈ values, ty.Sized v) :
    Bounded ty (updateStatisticsInt size u m values) (vs ++ values) := by
  cases values with
  | nil => rwa [List.append_nil]
  | cons v values =>
    have hmem := ofList_mem (compareInt size u) v values
    have hspans : Spans ty.order (v :: values) (ofList (compareInt size u) v values).1
        (ofList (compareInt size u) v values).2 := by
      rw [← hord]
      exact spans_ofList v values
    exact h.widen hspans (stored_of_sized hty (hsized _ hmem.1))
      (stored_of_sized hty (hsized _ hmem.2)) fun a b _ _ => by rw [hord]

/-- The same by the fused copy of PLAIN pages. -/
theorem bounded_encodePlainIntWithStats {ty : StatType} {size : Nat} {u : Bool} {m : MinMax}
    {vs : List Value} (values : List Value) (hord : ty.order = compareInt size u)
    (hty : ty ≠ .boolean) (h : Bounded ty m vs) (hsized : ∀ v ∈ values, ty.Sized v) :
    Bounded ty (encodePlainIntWithStats size u m values) (vs ++ values) := by
  cases values with
  | nil => rwa [List.append_nil]
  | cons v values =>
    cases u with
    | true => exact bounded_updateStatisticsInt (v :: values) hord hty h hsized
    | false =>
      have hchunk : Bounded ty (some (ofList (compareInt size false) v values)) (v :: values) :=
        bounded_updateStatisticsInt (m := none) (v :: values) hord hty rfl hsized
      cases m with
      | none =>
        have hvs : vs = [] := h
        subst hvs
        exact hchunk
      | some b =>
        -- the call's bounds come first, so the lists are the other way round
        refine (hchunk.widen h.1 h.2.1 h.2.2 fun a b _ _ => by rw [hord]).of_mem_iff fun w => ?_
        rw [List.mem_append, List.mem_append, or_comm]

theorem bounded_updateStatisticsByteArray {m : MinMax} {vs : List Value} (cells : List Cell)
    (h : Bounded .byteArray m vs) :
    Bounded .byteArray (updateStatisticsByteArray m cells) (vs ++ cells.filterMap id) := by
  induction cells generalizing m vs with
  | nil => simpa [updateStatisticsByteArray] using h
  | cons c cells ih =>
    cases c with
    | none => exact ih h
    | some v =>
      have hv : StatType.byteArray.Stored v :=
        ⟨fun n hn => by simp [StatType.width] at hn, fun hb => by cases hb⟩
      have h' := ih (h.widen (spans_singleton v) hv hv fun a b _ _ => ByteOrder.lexCompare_eq a b)
      rwa [List.append_assoc] at h'

theorem bounded_updateStatisticsFlba {n : Nat} {m : MinMax} {vs : List Value}
    (values : List Value) (hn : n ≠ 0) (h : Bounded (.fixedLenByteArray n) m vs)
    (hsized : ∀ v ∈ values, (StatType.fixedLenByteArray n).Sized v) :
    Bounded (.fixedLenByteArray n) (updateStatisticsFlba n m values) (vs ++ values) := by
  rw [updateStatisticsFlba, if_neg hn]
  induction values generalizing m vs with
  | nil => simpa using h
  | cons v values ih =>
    have hv := stored_of_sized (by simp) (hsized v List.mem_cons_self)
    have h' := ih (h.widen (spans_singleton v) hv hv fun a b ha hb =>
      ByteOrder.memcmp_eq (ha.1 n rfl) (hb.1 n rfl)) fun w hw => hsized w (List.mem_cons_of_mem v hw)
    rwa [List.append_assoc] at h'

/-- The flags record which truth values occurred; leaving the loop early loses none. -/
theorem booleanSeen_spec (seen : Bool × Bool) (values : List Value) :
    ((booleanSeen seen values).1 = true ↔ seen.1 = true ∨ ∃ v ∈ values, isTrue v = false) ∧
    ((booleanSeen seen values).2 = true ↔ seen.2 = true ∨ ∃ v ∈ values, isTrue v = true) := by
  induction values generalizing seen with
  | nil => simp [booleanSeen]
  | cons v values ih =>
    obtain ⟨seenFalse, seenTrue⟩ := seen
    simp only [booleanSeen, List.mem_cons, exists_eq_or_imp]
    cases hv : isTrue v with
    | true =>
      simp only [if_true]
      cases seenFalse with
      | true => simp
      | false => simpa using ih (false, true)
    | false =>
      simp only [Bool.false_eq_true, if_false]
      cases seenTrue with
      | true => simp
      | false => simpa using ih (true, false)

/-- The flags of all values so far give their bounds. -/
theorem spans_boolean {vs : List Value} {seenFalse seenTrue : Bool}
    (hf : seenFalse = true ↔ ∃ v ∈ vs, isTrue v = false)
    (ht : seenTrue = true ↔ ∃ v ∈ vs, isTrue v = true) (hne : vs ≠ []) :
    Spans StatType.boolean.order vs [if seenFalse then 0 else 1] [if seenTrue then 1 else 0] := by
  have hlow : boolOf [if seenFalse then 0 else 1] = if seenFalse then 0 else 1 := by
    cases seenFalse <;> rfl
  have hhigh : boolOf [if seenTrue then 1 else 0] = if seenTrue then 1 else 0 := by
    cases seenTrue <;> rfl
  have hle (a b : Value) : (StatType.boolean.order a b).isLE ↔ boolOf a ≤ boolOf b :=
    Nat.isLE_compare
  have heq (a b : Value) : StatType.boolean.order a b = .eq ↔ boolOf a = boolOf b :=
    Nat.compare_eq_eq
  obtain ⟨w, hw⟩ := List.exists_mem_of_ne_nil vs hne
  refine ⟨⟨fun v hv => ?_, fun v hv => ?_⟩, ?_, ?_⟩
  · rw [hle, hlow, boolOf]
    cases hv' : isTrue v with
    | true => cases seenFalse <;> simp
    | false => simp [hf.mpr ⟨v, hv, hv'⟩]
  · rw [hle, hhigh, boolOf]
    cases hv' : isTrue v with
    | true => simp [ht.mpr ⟨v, hv, hv'⟩]
    | false => cases seenTrue <;> simp
  · cases hs : seenFalse with
    | true =>
      obtain ⟨v, hv, hv'⟩ := hf.mp hs
      exact ⟨v, hv, (heq _ _).mpr (by rw [boolOf, boolOf, hv']; rfl)⟩
    | false =>
      refine ⟨w, hw, (heq _ _).mpr ?_⟩
      cases hw' : isTrue w with
      | true => rw [boolOf, boolOf, hw']; rfl
      | false => simp [hf.mpr ⟨w, hw, hw'⟩] at hs
  · cases hs : seenTrue with
    | true =>
      obtain ⟨v, hv, hv'⟩ := ht.mp hs
      exact ⟨v, hv, (heq _ _).mpr (by rw [boolOf, boolOf, hv']; rfl)⟩
    | false =>
      refine ⟨w, hw, (heq _ _).mpr ?_⟩
      cases hw' : isTrue w with
      | true => simp [ht.mpr ⟨w, hw, hw'⟩] at hs
      | false => rw [boolOf, boolOf, hw']; rfl

/-- The statistics of a page that stand for `vs`. -/
structure PageStats.Tracks (ty : StatType) (s : PageStats) (vs : List Value) : Prop where
  bounds : ty ≠ .fixedLenByteArray 0 → Bounded ty s.minMax vs
  noWidth : ty = .fixedLenByteArray 0 → s.minMax = none
  sized : ∀ v ∈ vs, ty.Sized v
  seenFalse : ty = .boolean → (s.boolSeenFalse = true ↔ ∃ v ∈ vs, isTrue v = false)
  seenTrue : ty = .boolean → (s.boolSeenTrue = true ↔ ∃ v ∈ vs, isTrue v = true)

theorem PageStats.tracks_reset (ty : StatType) : PageStats.reset.Tracks ty [] :=
  ⟨fun _ => rfl, fun _ => rfl, fun _ hv => absurd hv List.not_mem_nil, by simp [PageStats.reset],
    by simp [PageStats.reset]⟩

theorem tracks_updateStatisticsBoolean {s : PageStats} {vs : List Value} (values : List Value)
    (h : s.Tracks .boolean vs) (hsized : ∀ v ∈ values, StatType.boolean.Sized v) :
    (updateStatisticsBoolean s values).Tracks .boolean (vs ++ values) := by
  have hseen := booleanSeen_spec (s.boolSeenFalse, s.boolSeenTrue) values
  have hf : (booleanSeen (s.boolSeenFalse, s.boolSeenTrue) values).1 = true ↔
      ∃ v ∈ vs ++ values, isTrue v = false := by
    rw [hseen.1, h.seenFalse rfl]
    simp only [List.mem_append, or_and_right, exists_or]
  have ht : (booleanSeen (s.boolSeenFalse, s.boolSeenTrue) values).2 = true ↔
      ∃ v ∈ vs ++ values, isTrue v = true := by
    rw [hseen.2, h.seenTrue rfl]
    simp only [List.mem_append, or_and_right, exists_or]
  have hall : ∀ v ∈ vs ++ values, StatType.boolean.Sized v := fun v hv =>
    (List.mem_append.mp hv).elim (h.sized v) (hsized v)
  simp only [updateStatisticsBoolean]
  split
  · rename_i hstay
    have hnil : values = [] := by
      rcases hstay with hnil | ⟨hs1, hs2⟩
      · exact hnil
      · by_contra hne
        obtain ⟨w, hw⟩ := List.exists_mem_of_ne_nil values hne
        have hmem : w ∈ vs ++ values := List.mem_append_right vs hw
        cases hw' : isTrue w with
        | true => simp [ht.mpr ⟨w, hmem, hw'⟩] at hs2
        | false => simp [hf.mpr ⟨w, hmem, hw'⟩] at hs1
    rw [hnil, List.append_nil]
    exact h
  · rename_i hgo
    have hne : vs ++ values ≠ [] := fun hnil => hgo (.inl (List.append_eq_nil_iff.mp hnil).2)
    refine ⟨fun _ => ⟨spans_boolean hf ht hne, ?_, ?_⟩, by simp, hall, fun _ => hf, fun _ => ht⟩
    · refine ⟨fun n hn => Option.some.inj hn, fun _ => ?_⟩
      cases (booleanSeen (s.boolSeenFalse, s.boolSeenTrue) values).1 <;> simp
    · refine ⟨fun n hn => Option.some.inj hn, fun _ => ?_⟩
      cases (booleanSeen (s.boolSeenFalse, s.boolSeenTrue) values).2 <;> simp

/-- Cells of other types than BYTE_ARRAY all have a value. -/
theorem filterMap_eq_map_value {ty : StatType} {cells : List Cell} (hty : ty ≠ .byteArray)
    (hfit : ∀ c ∈ cells, c.Fits ty) : cells.filterMap id = cells.map Cell.value := by
  induction cells with
  | nil => rfl
  | cons c cells ih =>
    rcases hfit c List.mem_cons_self with hb | ⟨v, rfl, -⟩
    · exact absurd hb hty
    · rw [List.map_cons, List.filterMap_cons_some (f := id) rfl,
        ih fun c hc => hfit c (List.mem_cons_of_mem _ hc)]
      rfl

theorem sized_byteArray (v : Value) : StatType.byteArray.Sized v :=
  fun n hn => by simp [StatType.width] at hn

theorem sized_of_fits {ty : StatType} {cells : List Cell} (hfit : ∀ c ∈ cells, c.Fits ty) :
    (∀ v ∈ cells.map Cell.value, ty.Sized v) ∧ ∀ v ∈ cells.filterMap id, ty.Sized v := by
  constructor
  · intro v hv
    obtain ⟨c, hc, rfl⟩ := List.mem_map.mp hv
    rcases hfit c hc with rfl | ⟨w, rfl, hw⟩
    · exact sized_byteArray _
    · exact hw
  · intro v hv
    obtain ⟨c, hc, hcv⟩ := List.mem_filterMap.mp hv
    rcases hfit c hc with rfl | ⟨w, rfl, hw⟩
    · exact sized_byteArray _
    · obtain rfl := Option.some.inj hcv
      exact hw

/-- What a bound's size says about the values it stands for. -/
theorem longBound_iff {ty : StatType} {vs : List Value} {lo hi : Bytes}
    (h : Spans ty.order vs lo hi) (hlo : ty.Sized lo) (hhi : ty.Sized hi)
    (hsized : ∀ v ∈ vs, ty.Sized v) :
    LongBound ty vs ↔ ¬ (lo.length ≤ statSnapshotSize ∧ hi.length ≤ statSnapshotSize) := by
  obtain ⟨l, hl, hlEq⟩ := h.lo_mem
  obtain ⟨g, hg, hgEq⟩ := h.hi_mem
  constructor
  · rintro ⟨v, hv, hlong, hleast | hgreatest⟩ ⟨h1, h2⟩
    · have hle : (ty.order v lo).isLE := by
        rw [TransCmp.congr_right hlEq]
        exact hleast l hl
      have heq : ty.order lo v = .eq := OrientedCmp.isLE_antisymm (h.lower v hv) hle
      have := length_of_order_eq hlo (hsized v hv) heq
      omega
    · have hle : (ty.order hi v).isLE := by
        rw [TransCmp.congr_left hgEq]
        exact hgreatest g hg
      have heq : ty.order hi v = .eq := OrientedCmp.isLE_antisymm hle (h.upper v hv)
      have := length_of_order_eq hhi (hsized v hv) heq
      omega
  · intro hlong
    have hl' := length_of_order_eq hlo (hsized l hl) hlEq
    have hg' := length_of_order_eq hhi (hsized g hg) hgEq
    by_cases hlo' : lo.length ≤ statSnapshotSize
    · refine ⟨g, hg, by omega, .inr fun u hu => ?_⟩
      rw [← TransCmp.congr_right hgEq]
      exact h.upper u hu
    · refine ⟨l, hl, by omega, .inl fun u hu => ?_⟩
      rw [← TransCmp.congr_left hlEq]
      exact h.lower u hu

theorem not_longBound {ty : StatType} {vs : List Value} {n : Nat} (hw : ty.width = some n)
    (hn : n ≤ statSnapshotSize) (hsized : ∀ v ∈ vs, ty.Sized v) : ¬ LongBound ty vs := by
  rintro ⟨v, hv, hlong, -⟩
  have := hsized v hv n hw
  omega

/-- A refused call drops the bounds of the values it drops. -/
theorem addValues_refused {ty : StatType} {isPlain : Bool} {s : PageStats} {vs : List Value}
    (h : s.Tracks ty vs) :
    s.addValues ty isPlain .refused = if LongBound ty vs then { s with minMax := none } else s := by
  simp only [PageStats.addValues]
  cases hm : s.minMax with
  | none =>
    obtain ⟨m, f, t⟩ := s
    obtain rfl : m = none := hm
    rw [ite_self]
  | some b =>
    have hty : ty ≠ .fixedLenByteArray 0 := fun hty => by simp [h.noWidth hty] at hm
    have hb := h.bounds hty
    rw [hm] at hb
    simp only [longBound_iff hb.1 hb.2.1.1 hb.2.2.1 h.sized, ite_not]

/-- **One call keeps the page's statistics right for what survives it.** -/
theorem addValues_tracks {ty : StatType} {isPlain : Bool} {s : PageStats} {vs : List Value}
    (call : AddCall) (h : s.Tracks ty vs) (hfit : ∀ c ∈ call.cells, c.Fits ty) :
    (s.addValues ty isPlain call).Tracks ty (survivingStep ty vs call) := by
  cases call with
  | accepted cells =>
    have hfit : ∀ c ∈ cells, c.Fits ty := hfit
    have hsized := sized_of_fits hfit
    have hall : ∀ v ∈ vs ++ cells.filterMap id, ty.Sized v := fun v hv =>
      (List.mem_append.mp hv).elim (h.sized v) (hsized.2 v)
    simp only [survivingStep]
    cases ty with
    | boolean =>
      rw [filterMap_eq_map_value (by simp) hfit]
      exact tracks_updateStatisticsBoolean _ h hsized.1
    | int32 u =>
      refine ⟨fun hty => ?_, by simp, hall, by simp, by simp⟩
      rw [filterMap_eq_map_value (by simp) hfit]
      cases isPlain with
      | true => exact bounded_encodePlainIntWithStats _ rfl (by simp) (h.bounds hty) hsized.1
      | false => exact bounded_updateStatisticsInt _ rfl (by simp) (h.bounds hty) hsized.1
    | int64 u =>
      refine ⟨fun hty => ?_, by simp, hall, by simp, by simp⟩
      rw [filterMap_eq_map_value (by simp) hfit]
      cases isPlain with
      | true => exact bounded_encodePlainIntWithStats _ rfl (by simp) (h.bounds hty) hsized.1
      | false => exact bounded_updateStatisticsInt _ rfl (by simp) (h.bounds hty) hsized.1
    | byteArray =>
      exact ⟨fun hty => bounded_updateStatisticsByteArray cells (h.bounds hty), by simp, hall,
        by simp, by simp⟩
    | fixedLenByteArray n =>
      refine ⟨fun hty => ?_, fun hty => ?_, hall, by simp, by simp⟩
      · rw [filterMap_eq_map_value (by simp) hfit]
        exact bounded_updateStatisticsFlba _ (fun hn => hty (by rw [hn])) (h.bounds hty) hsized.1
      · have hn : n = 0 := by injection hty
        simp only [PageStats.addValues, updateStatisticsFlba, if_pos hn]
        exact h.noWidth hty
  | refused =>
    rw [addValues_refused h]
    simp only [survivingStep]
    split
    · rename_i hlong
      have hbool : ty ≠ .boolean := by
        rintro rfl
        exact not_longBound (n := 1) rfl (by decide) h.sized hlong
      exact ⟨fun _ => rfl, fun _ => rfl, fun _ hv => absurd hv List.not_mem_nil,
        fun hb => absurd hb hbool, fun hb => absurd hb hbool⟩
    · exact h

theorem foldl_addValues_tracks {ty : StatType} {s : PageStats} {vs : List Value}
    (isPlain : Bool) (calls : List AddCall) (h : s.Tracks ty vs)
    (hfit : ∀ call ∈ calls, ∀ c ∈ call.cells, c.Fits ty) :
    (calls.foldl (PageStats.addValues ty isPlain) s).Tracks ty
      (calls.foldl (survivingStep ty) vs) := by
  induction calls generalizing s vs with
  | nil => exact h
  | cons call calls ih =>
    exact ih (addValues_tracks call h (hfit call List.mem_cons_self)) fun c hc =>
      hfit c (List.mem_cons_of_mem call hc)

/-! ## The chunk -/

/-- Bounds are empty when, and only when, an empty string is among the values. -/
theorem nil_mem_iff {ty : StatType} {vs : List Value} {lo hi : Bytes}
    (h : Spans ty.order vs lo hi) (hlo : ty.Sized lo) (hhi : ty.Sized hi)
    (hsized : ∀ v ∈ vs, ty.Sized v) : [] ∈ vs ↔ lo.length = 0 ∨ hi.length = 0 := by
  constructor
  · intro hnil
    exact .inl (length_eq_zero_of_le hlo (hsized [] hnil) (h.lower [] hnil) rfl)
  · rintro (h0 | h0)
    · obtain ⟨l, hl, hlEq⟩ := h.lo_mem
      have := length_of_order_eq hlo (hsized l hl) hlEq
      rwa [← List.length_eq_zero_iff.mp (this.symm.trans h0)]
    · obtain ⟨g, hg, hgEq⟩ := h.hi_mem
      have := length_of_order_eq hhi (hsized g hg) hgEq
      rwa [← List.length_eq_zero_iff.mp (this.symm.trans h0)]

/-- **Merging a page takes in what the page contributes.** -/
theorem mergePageStatistics_bounded {ty : StatType} {column page : MinMax} {vs ws : List Value}
    (hcol : Bounded ty column vs) (hpage : Bounded ty page ws) (hsized : ∀ v ∈ ws, ty.Sized v) :
    Bounded ty (mergePageStatistics ty column page) (vs ++ contribution ws) := by
  cases page with
  | none =>
    have hws : ws = [] := hpage
    subst hws
    simpa [mergePageStatistics, contribution] using hcol
  | some b =>
    obtain ⟨hspans, hlo, hhi⟩ := hpage
    have hnil := nil_mem_iff hspans hlo.1 hhi.1 hsized
    simp only [mergePageStatistics, contribution, ← hnil]
    split
    · rwa [List.append_nil]
    · exact hcol.widen hspans hlo hhi fun a b => compareStatValues_eq

/-- The statistics a page ends with, for the column. -/
theorem merge_pageStatistics {ty : StatType} {column : MinMax} {vs : List Value}
    (isPlain : Bool) (calls : List AddCall) (hcol : Bounded ty column vs)
    (hfit : ∀ call ∈ calls, ∀ c ∈ call.cells, c.Fits ty) :
    Bounded ty (mergePageStatistics ty column (pageStatistics ty isPlain calls))
      (vs ++ contribution (surviving ty calls)) := by
  have h := foldl_addValues_tracks isPlain calls (PageStats.tracks_reset ty) hfit
  by_cases hty : ty = .fixedLenByteArray 0
  · have hnil : contribution (surviving ty calls) = [] := by
      rw [contribution]
      split
      · rfl
      · rename_i hmem
        by_contra hne
        obtain ⟨v, hv⟩ := List.exists_mem_of_ne_nil _ hne
        have hv0 : v.length = 0 := h.sized v hv 0 (by rw [hty]; rfl)
        exact hmem (List.length_eq_zero_iff.mp hv0 ▸ hv)
    rw [hnil, List.append_nil, pageStatistics, h.noWidth hty]
    exact hcol
  · exact mergePageStatistics_bounded hcol (h.bounds hty) h.sized

theorem foldl_merge_pageStatistics {ty : StatType} {isPlain : Bool} {column : MinMax}
    {vs : List Value} (pages : List (List AddCall)) (hcol : Bounded ty column vs)
    (hfit : ∀ calls ∈ pages, ∀ call ∈ calls, ∀ c ∈ call.cells, c.Fits ty) :
    Bounded ty
      (pages.foldl (fun m calls => mergePageStatistics ty m (pageStatistics ty isPlain calls)) column)
      (vs ++ pages.flatMap fun calls => contribution (surviving ty calls)) := by
  induction pages generalizing column vs with
  | nil => simpa using hcol
  | cons calls pages ih =>
    have h := ih (merge_pageStatistics isPlain calls hcol
      (hfit calls List.mem_cons_self)) fun c hc => hfit c (List.mem_cons_of_mem calls hc)
    rw [List.flatMap_cons, ← List.append_assoc]
    exact h

theorem dictComputeMinMax_bounded {ty : StatType} {vs : List Value} (hty : ty.dictEligible = true)
    (hsized : ∀ v ∈ vs, ty.Sized v) : Bounded ty (dictComputeMinMax ty vs) vs := by
  have hne : ty ≠ .boolean := by
    rintro rfl
    exact absurd hty (by decide)
  have hgo (ws : List Value) (b : Bytes × Bytes) (us : List Value)
      (hb : Bounded ty (some b) us) (hws : ∀ w ∈ ws, ty.Sized w) :
      Bounded ty (some (ws.foldl (fun b u => (pickLo (compareStatValues ty) b.1 u,
        pickHi (compareStatValues ty) b.2 u)) b)) (us ++ ws) := by
    induction ws generalizing b us with
    | nil => simpa using hb
    | cons w ws ih =>
      have hw := stored_of_sized hne (hws w List.mem_cons_self)
      have h := ih _ _ (hb.widen (spans_singleton w) hw hw fun a b => compareStatValues_eq)
        fun u hu => hws u (List.mem_cons_of_mem w hu)
      rwa [List.append_assoc] at h
  cases vs with
  | nil => rfl
  | cons v vs =>
    have hv := stored_of_sized hne (hsized v List.mem_cons_self)
    exact hgo vs (v, v) [v] ⟨spans_singleton v, hv, hv⟩ fun w hw =>
      hsized w (List.mem_cons_of_mem v hw)

/-- Giving up empty bounds before the merge changes nothing. -/
theorem mergePageStatistics_setMinMax (ty : StatType) (column page : MinMax) :
    mergePageStatistics ty column (setMinMax page) = mergePageStatistics ty column page := by
  cases page with
  | none => rfl
  | some b =>
    simp only [setMinMax, Option.filter_some]
    split
    · rfl
    · rename_i h
      have h0 : b.1.length = 0 ∨ b.2.length = 0 := by
        by_contra hne
        exact h (by simpa [not_or] using hne)
      simp only [mergePageStatistics, if_pos h0]

theorem bounded_nil (ty : StatType) : Bounded ty none [] := rfl

/-- **A chunk's bounds are those of its counted values.** -/
theorem columnStatistics_bounded {ty : StatType} (col : WrittenColumn ty) :
    Bounded ty (columnStatistics ty col.chunk) (counted ty col.chunk) := by
  obtain ⟨chunk, hfits, hdict⟩ := col
  cases chunk with
  | paged isPlain pages =>
    refine foldl_merge_pageStatistics pages (bounded_nil ty) fun calls hcalls call hcall c hc => ?_
    exact hfits c (List.mem_flatMap.mpr ⟨calls, hcalls, List.mem_flatMap.mpr ⟨call, hcall, hc⟩⟩)
  | dictionary cells =>
    have hsized := (sized_of_fits hfits).1
    have hb := dictComputeMinMax_bounded (hdict cells rfl) hsized
    simp only [columnStatistics, mergePageStatistics_setMinMax]
    exact mergePageStatistics_bounded (bounded_nil ty) hb hsized

theorem nil_not_mem_contribution (vs : List Value) : [] ∉ contribution vs := by
  rw [contribution]
  split
  · exact List.not_mem_nil
  · assumption

theorem nil_not_mem_counted (ty : StatType) (chunk : ChunkCalls) : [] ∉ counted ty chunk := by
  cases chunk with
  | paged isPlain pages =>
    intro hmem
    obtain ⟨calls, -, h⟩ := List.mem_flatMap.mp hmem
    exact nil_not_mem_contribution _ h
  | dictionary cells => exact nil_not_mem_contribution _

/-- Only values of the calls survive. -/
theorem mem_surviving {ty : StatType} {calls : List AddCall} {v : Value}
    (hv : v ∈ surviving ty calls) : ∃ call ∈ calls, some v ∈ call.cells := by
  have hgo (cs : List AddCall) (vs : List Value) (h : v ∈ cs.foldl (survivingStep ty) vs) :
      v ∈ vs ∨ ∃ call ∈ cs, some v ∈ call.cells := by
    induction cs generalizing vs with
    | nil => exact .inl h
    | cons call cs ih =>
      rcases ih _ h with hmem | ⟨c, hc, hcv⟩
      · cases call with
        | accepted cells =>
          rcases List.mem_append.mp hmem with hmem | hmem
          · exact .inl hmem
          · obtain ⟨c, hc, hcv⟩ := List.mem_filterMap.mp hmem
            obtain rfl : c = some v := hcv
            exact .inr ⟨_, List.mem_cons_self, hc⟩
        | refused =>
          simp only [survivingStep] at hmem
          split at hmem
          · exact absurd hmem List.not_mem_nil
          · exact .inl hmem
      · exact .inr ⟨c, List.mem_cons_of_mem call hc, hcv⟩
  exact (hgo calls [] hv).resolve_left List.not_mem_nil

theorem contribution_subset (vs : List Value) : contribution vs ⊆ vs := by
  rw [contribution]
  split
  · exact List.nil_subset vs
  · exact List.Subset.refl vs

/-- Counted values were written. -/
theorem counted_subset {ty : StatType} (col : WrittenColumn ty) :
    counted ty col.chunk ⊆ col.values := by
  intro v hv
  obtain ⟨chunk, hfits, hdict⟩ := col
  cases chunk with
  | paged isPlain pages =>
    obtain ⟨calls, hcalls, hv⟩ := List.mem_flatMap.mp hv
    obtain ⟨call, hcall, hmem⟩ := mem_surviving (contribution_subset _ hv)
    exact List.mem_map.mpr ⟨some v, List.mem_flatMap.mpr ⟨calls, hcalls,
      List.mem_flatMap.mpr ⟨call, hcall, hmem⟩⟩, rfl⟩
  | dictionary cells => exact contribution_subset _ hv

theorem WrittenColumn.sized {ty : StatType} (col : WrittenColumn ty) :
    ∀ v ∈ col.values, ty.Sized v := (sized_of_fits col.fits).1

/-! ## The footer and the reader -/

theorem footerMin_byteArray (v : Bytes) : footerMin .byteArray v = v.take truncLength := by
  rw [footerMin]
  split
  · rfl
  · rename_i h
    rw [List.take_of_length_le (by simpa [isCut] using h)]

theorem footerMin_of_ne {ty : StatType} (hty : ty ≠ .byteArray) (v : Bytes) :
    footerMin ty v = v := if_neg (by simp [isCut, hty])

theorem footerMax_of_ne {ty : StatType} (hty : ty ≠ .byteArray) (v : Bytes) :
    footerMax ty v = some v := if_neg (by simp [isCut, hty])

/-- Cutting keeps the order of minima. -/
theorem footerMin_mono {ty : StatType} {a b : Bytes} (h : (ty.order a b).isLE) :
    (ty.order (footerMin ty a) (footerMin ty b)).isLE := by
  by_cases hty : ty = .byteArray
  · subst hty
    rw [footerMin_byteArray, footerMin_byteArray]
    exact ByteOrder.take_mono truncLength h
  · rwa [footerMin_of_ne hty, footerMin_of_ne hty]

/-- A cut minimum is no greater. -/
theorem footerMin_le (ty : StatType) (v : Bytes) : (ty.order (footerMin ty v) v).isLE := by
  by_cases hty : ty = .byteArray
  · subst hty
    rw [footerMin_byteArray]
    exact ByteOrder.take_le truncLength v
  · rw [footerMin_of_ne hty, @ReflCmp.compare_self _ ty.order _ _]
    rfl

/-- A raised maximum is no less. -/
theorem le_footerMax {ty : StatType} {v q : Bytes} (h : footerMax ty v = some q) :
    (ty.order v q).isLE := by
  rw [footerMax] at h
  split at h
  · rename_i hcut
    obtain rfl : ty = .byteArray := by
      simp only [isCut, Bool.and_eq_true, decide_eq_true_eq] at hcut
      exact hcut.1
    have hlt := ByteOrder.lt_raise h (v.drop truncLength)
    rw [List.take_append_drop] at hlt
    change (compare v q).isLE
    rw [hlt]
    rfl
  · rw [← Option.some.inj h, @ReflCmp.compare_self _ ty.order _ _]
    rfl

/-- Greatest values in the same place give maxima in the same place. -/
theorem footerMax_congr {ty : StatType} {a b q : Bytes} (h : ty.order a b = .eq)
    (hq : footerMax ty a = some q) : ∃ q', footerMax ty b = some q' ∧ ty.order q q' = .eq := by
  by_cases hty : ty = .byteArray
  · subst hty
    rw [← eq_of_compare_eq h]
    exact ⟨q, hq, @ReflCmp.compare_self _ StatType.byteArray.order _ _⟩
  · rw [footerMax_of_ne hty, Option.some.injEq] at hq
    exact ⟨b, footerMax_of_ne hty b, by rw [← hq]; exact h⟩

theorem footerMin_ne_nil {ty : StatType} {v : Bytes} (h : v ≠ []) : footerMin ty v ≠ [] := by
  rw [footerMin]
  split
  · simpa [truncLength] using h
  · exact h

theorem footerMax_ne_nil {ty : StatType} {v q : Bytes} (h : v ≠ []) (hq : footerMax ty v = some q) :
    q ≠ [] := by
  rw [footerMax] at hq
  split at hq
  · exact ByteOrder.raise_ne_nil hq
  · rwa [← Option.some.inj hq]

theorem nonEmpty_some {v : Bytes} (h : v ≠ []) : nonEmpty (some v) = some v := by
  simp [nonEmpty, h]

/-- A reader of the footer finds the cut bounds, and none where the maximum was given up: the
deprecated fields never stand in for it. -/
theorem readerColumnStatistics_truncate (ty : StatType) (o : StatsOptions) {lo hi : Bytes}
    (hlo : lo ≠ []) (hhi : hi ≠ []) :
    readerColumnStatistics (some (truncateStatistics ty o lo hi)) =
      (footerMax ty hi).map fun q => (footerMin ty lo, q) := by
  simp only [readerColumnStatistics, truncateStatistics, nonEmpty_some (footerMin_ne_nil hlo)]
  cases hq : footerMax ty hi with
  | some q => simp only [nonEmpty_some (footerMax_ne_nil hhi hq), Option.map_some]
  | none =>
    have hnone : nonEmpty none = none := rfl
    simp only [ite_self, hnone, Option.map_none]
    cases nonEmpty (if (deprecatedStatsAreCompatible ty o && !isCut ty lo) = true then
      some (footerMin ty lo) else none) <;> rfl

/-- A comparison that is made is that of the order. -/
theorem statCompare_cases (ty : StatType) (x st : Bytes) :
    statCompare (getCmpKind ty) x st = none ∨
      statCompare (getCmpKind ty) x st = some (ty.order x st) := by
  have hwide (n : Nat) (o : Ordering) :
      (if x.length < n ∨ st.length < n then none else some o) = none ∨
        (if x.length < n ∨ st.length < n then none else some o) = some o := by
    split
    · exact .inl rfl
    · exact .inr rfl
  cases ty with
  | boolean => exact hwide 1 _
  | int32 u => cases u <;> exact hwide 4 _
  | int64 u => cases u <;> exact hwide 8 _
  | fixedLenByteArray n => exact .inr (congrArg some (ByteOrder.lexCompare_eq x st))
  | byteArray => exact .inr (congrArg some (ByteOrder.lexCompare_eq x st))

/-- Values of the type's size are compared. -/
theorem statCompare_sized {ty : StatType} {v st : Bytes} (hv : ty.Sized v) (hst : ty.Sized st) :
    statCompare (getCmpKind ty) v st = some (ty.order v st) := by
  rcases statCompare_cases ty v st with h | h
  · exfalso
    cases ty with
    | boolean => simp [statCompare, getCmpKind, hv 1 rfl, hst 1 rfl] at h
    | int32 u => cases u <;> simp [statCompare, getCmpKind, hv 4 rfl, hst 4 rfl] at h
    | int64 u => cases u <;> simp [statCompare, getCmpKind, hv 8 rfl, hst 8 rfl] at h
    | fixedLenByteArray n => simp [statCompare, getCmpKind] at h
    | byteArray => simp [statCompare, getCmpKind] at h
  · exact h

/-- A value within the bounds that stands in the relation rules pruning out. -/
theorem mightMatch_of_holds {ty : StatType} {lo hi v x : Bytes} (op : CompareOp)
    (hlo : (ty.order lo v).isLE) (hhi : (ty.order v hi).isLE) (h : op.Holds (ty.order v x)) :
    mightMatch (ty.order x lo) (ty.order x hi) op = true := by
  have hbelow : ty.order x lo = .lt → ty.order v x = .gt := fun hx =>
    OrientedCmp.gt_iff_lt.mpr (TransCmp.lt_of_lt_of_isLE hx hlo)
  have hnotAbove : (ty.order x lo).isLE → (ty.order x v).isLE := fun hx =>
    TransCmp.isLE_trans hx hlo
  have habove : ty.order x hi = .gt → ty.order v x = .lt := fun hx =>
    TransCmp.lt_of_isLE_of_lt hhi (OrientedCmp.gt_iff_lt.mp hx)
  have hnotBelow : (ty.order hi x).isLE → (ty.order v x).isLE := fun hx =>
    TransCmp.isLE_trans hhi hx
  rw [@OrientedCmp.eq_swap _ ty.order _ x v] at hnotAbove
  rw [@OrientedCmp.eq_swap _ ty.order _ hi x] at hnotBelow
  generalize ty.order x lo = a at *
  generalize ty.order x hi = b at *
  generalize ty.order v x = c at *
  cases op <;> cases a <;> cases b <;> cases c <;>
    simp_all [mightMatch, CompareOp.Holds]

/-- **Nothing is lost exactly when the reader's bounds reach every value.** -/
theorem rowGroupMatches_bounds_iff {ty : StatType} {stats : Option FooterStats} {lo hi : Bytes}
    {vs : List Value} (hstats : readerColumnStatistics stats = some (lo, hi)) (hlo : ty.Sized lo)
    (hhi : ty.Sized hi) (hsized : ∀ v ∈ vs, ty.Sized v) :
    (∀ op x, ∀ v ∈ vs, op.Holds (ty.order v x) → rowGroupMatches ty stats op x = true) ↔
      Covers ty.order vs lo hi := by
  constructor
  · intro h
    have hself : ∀ v ∈ vs, (ty.order v lo ≠ .lt) ∧ ty.order v hi ≠ .gt := by
      intro v hv
      have hm := h .eq v v hv (@ReflCmp.compare_self _ ty.order _ _)
      simp only [rowGroupMatches, hstats, statCompare_sized (hsized v hv) hlo,
        statCompare_sized (hsized v hv) hhi, mightMatch] at hm
      simpa using hm
    exact ⟨fun v hv => isLE_of_not_lt (hself v hv).1, fun v hv => isLE_of_not_gt (hself v hv).2⟩
  · intro h op x v hv hop
    simp only [rowGroupMatches, hstats]
    have hm := mightMatch_of_holds op (h.lower v hv) (h.upper v hv) hop
    rcases statCompare_cases ty x lo with h1 | h1 <;> rcases statCompare_cases ty x hi with h2 | h2 <;>
      simp only [h1, h2, hm]

/-- The cut bounds of `ks` reach `v` exactly when a counted value's prefix and a greatest one's
maximum do. -/
theorem covers_footer_iff {ty : StatType} {ks vs : List Value} {lo hi q : Bytes}
    (h : Spans ty.order ks lo hi) (hq : footerMax ty hi = some q) :
    Covers ty.order vs (footerMin ty lo) q ↔
      ∀ k ∈ ks, (∀ u ∈ ks, (ty.order u k).isLE) → ∀ q', footerMax ty k = some q' →
        ∀ v ∈ vs, (ty.order v q').isLE ∧ ∃ m ∈ ks, (ty.order (footerMin ty m) v).isLE := by
  obtain ⟨l, hl, hlEq⟩ := h.lo_mem
  obtain ⟨g, hg, hgEq⟩ := h.hi_mem
  constructor
  · intro hc k hk hgreatest q' hq' v hv
    have hkhi : ty.order hi k = .eq := OrientedCmp.isLE_antisymm
      (by rw [TransCmp.congr_left hgEq]; exact hgreatest g hg) (h.upper k hk)
    obtain ⟨q'', hq'', heq⟩ := footerMax_congr hkhi hq
    obtain rfl : q'' = q' := Option.some.inj (hq''.symm.trans hq')
    refine ⟨?_, l, hl, ?_⟩
    · rw [← TransCmp.congr_right heq]
      exact hc.upper v hv
    · have hle : (ty.order l lo).isLE := by
        rw [@OrientedCmp.eq_swap _ ty.order _ _ _, hlEq]
        rfl
      exact TransCmp.isLE_trans (footerMin_mono hle) (hc.lower v hv)
  · intro hall
    obtain ⟨q', hq', heq⟩ := footerMax_congr hgEq hq
    have hg' := hall g hg (fun u hu => by
      rw [← TransCmp.congr_right hgEq]
      exact h.upper u hu) q' hq'
    refine ⟨fun v hv => ?_, fun v hv => ?_⟩
    · obtain ⟨-, m, hm, hmv⟩ := hg' v hv
      exact TransCmp.isLE_trans (footerMin_mono (h.lower m hm)) hmv
    · rw [TransCmp.congr_right heq]
      exact (hg' v hv).1

theorem sized_footerMin {ty : StatType} {v : Bytes} (h : ty.Sized v) : ty.Sized (footerMin ty v) := by
  by_cases hty : ty = .byteArray
  · subst hty
    exact sized_byteArray _
  · rwa [footerMin_of_ne hty]

theorem sized_footerMax {ty : StatType} {v q : Bytes} (h : ty.Sized v)
    (hq : footerMax ty v = some q) : ty.Sized q := by
  by_cases hty : ty = .byteArray
  · subst hty
    exact sized_byteArray _
  · rw [footerMax_of_ne hty, Option.some.injEq] at hq
    rwa [← hq]

/-- **When pruning loses no rows.** For every operator and query value a row group with a
matching value is kept, if and only if the column's bounds are not written or those of the
counted values reach every value written. -/
theorem rowGroupMatches_right_iff {ty : StatType} (o : StatsOptions) (col : WrittenColumn ty) :
    (∀ op x, ∀ v ∈ col.values, op.Holds (ty.order v x) →
      rowGroupMatches ty (footerStatistics ty o col.chunk) op x = true) ↔
    (o.collects && o.emits) = false ∨ KeepsRows col := by
  cases ho : o.collects && o.emits with
  | false =>
    have hnone : footerStatistics ty o col.chunk = none := by simp [footerStatistics, ho]
    simp [rowGroupMatches, readerColumnStatistics, hnone]
  | true =>
    have hb := columnStatistics_bounded col
    simp only [footerStatistics, ho, if_true, Bool.true_eq_false, false_or]
    cases hm : columnStatistics ty col.chunk with
    | none =>
      rw [hm] at hb
      have hnil : counted ty col.chunk = [] := hb
      simp [rowGroupMatches, readerColumnStatistics, KeepsRows, hnil]
    | some b =>
      rw [hm] at hb
      obtain ⟨hspans, hlo, hhi⟩ := hb
      have hne : ¬ (b.1.length = 0 ∨ b.2.length = 0) := fun h0 =>
        nil_not_mem_counted ty col.chunk ((nil_mem_iff hspans hlo.1 hhi.1 fun v hv =>
          col.sized v (counted_subset col hv)).mpr h0)
      rw [not_or, List.length_eq_zero_iff, List.length_eq_zero_iff] at hne
      have hstats := readerColumnStatistics_truncate ty o hne.1 hne.2
      simp only [Option.map_some]
      cases hq : footerMax ty b.2 with
      | none =>
        rw [hq] at hstats
        refine iff_of_true (fun op x v _ _ => by simp [rowGroupMatches, hstats]) ?_
        -- a greatest counted value has no maximum either
        intro k hk hgreatest q hq'
        obtain ⟨g, hg, hgEq⟩ := hspans.hi_mem
        have hkhi : ty.order k b.2 = .eq := OrientedCmp.isLE_antisymm (hspans.upper k hk)
          (by rw [TransCmp.congr_left hgEq]; exact hgreatest g hg)
        obtain ⟨q', hq'', -⟩ := footerMax_congr hkhi hq'
        rw [hq] at hq''
        exact absurd hq'' (by simp)
      | some q =>
        rw [hq] at hstats
        rw [rowGroupMatches_bounds_iff hstats (sized_footerMin hlo.1) (sized_footerMax hhi.1 hq)
          col.sized]
        exact covers_footer_iff hspans hq

/-- Two pages of a BYTE_ARRAY column, the first of an empty string, the second of `b`. -/
def emptyThenB : WrittenColumn .byteArray where
  chunk := .paged true [[.accepted [some []]], [.accepted [some [98]]]]
  fits := fun _ _ => .inl rfl
  dictType := by simp

/-- The first page adds nothing to the column's bounds, and a query for the empty string passes
the row group over. -/
theorem emptyThenB_lost :
    [] ∈ emptyThenB.values ∧ CompareOp.eq.Holds (StatType.byteArray.order [] []) ∧
      rowGroupMatches .byteArray
        (footerStatistics .byteArray ⟨true, none, true, true⟩ emptyThenB.chunk) .eq [] = false := by
  refine ⟨by decide, rfl, by decide⟩

/-! ## What the condition leaves out -/

theorem contribution_of_not_mem {vs : List Value} (h : [] ∉ vs) : contribution vs = vs := if_neg h

theorem surviving_of_accepted {ty : StatType} {calls : List AddCall} (h : .refused ∉ calls) :
    surviving ty calls = calls.flatMap fun call => call.cells.filterMap id := by
  have hgo (cs : List AddCall) (vs : List Value) (h : .refused ∉ cs) :
      cs.foldl (survivingStep ty) vs = vs ++ cs.flatMap fun call => call.cells.filterMap id := by
    induction cs generalizing vs with
    | nil => simp
    | cons call cs ih =>
      rw [List.mem_cons, not_or] at h
      cases call with
      | accepted cells => simp [survivingStep, ih _ h.2, AddCall.cells]
      | refused => exact absurd rfl h.1
  exact hgo calls [] h

/-- Without empty strings and without refused calls every written value counts, so that no row
is lost. -/
theorem keepsRows_of_no_empty {ty : StatType} (col : WrittenColumn ty)
    (hempty : [] ∉ col.values)
    (hrefused : ∀ isPlain pages, col.chunk = .paged isPlain pages → ∀ calls ∈ pages,
      .refused ∉ calls) : KeepsRows col := by
  have hall : ∀ v ∈ col.values, v ∈ counted ty col.chunk := by
    obtain ⟨chunk, hfits, hdict⟩ := col
    cases chunk with
    | paged isPlain pages =>
      intro v hv
      obtain ⟨c, hc, rfl⟩ := List.mem_map.mp hv
      obtain ⟨calls, hcalls, hc⟩ := List.mem_flatMap.mp hc
      have hmem : ∀ w ∈ calls.flatMap AddCall.cells, w.value ≠ [] := fun w hw hnil =>
        hempty (List.mem_map.mpr ⟨w, List.mem_flatMap.mpr ⟨calls, hcalls, hw⟩, hnil⟩)
      have hsurv : surviving ty calls = calls.flatMap fun call => call.cells.filterMap id :=
        surviving_of_accepted (hrefused isPlain pages rfl calls hcalls)
      have hnil : [] ∉ surviving ty calls := by
        intro h
        obtain ⟨call, hcall, hmem'⟩ := mem_surviving h
        exact hmem _ (List.mem_flatMap.mpr ⟨call, hcall, hmem'⟩) rfl
      refine List.mem_flatMap.mpr ⟨calls, hcalls, ?_⟩
      rw [contribution_of_not_mem hnil, hsurv]
      obtain ⟨call, hcall, hc'⟩ := List.mem_flatMap.mp hc
      refine List.mem_flatMap.mpr ⟨call, hcall, List.mem_filterMap.mpr ⟨c, hc', ?_⟩⟩
      cases c with
      | none => exact absurd rfl (hmem none hc)
      | some w => rfl
    | dictionary cells =>
      intro v hv
      have hnil : [] ∉ cells.map Cell.value := hempty
      rw [counted, contribution_of_not_mem hnil]
      exact hv
  intro k hk hgreatest q hq v hv
  exact ⟨TransCmp.isLE_trans (hgreatest v (hall v hv)) (le_footerMax hq), v, hall v hv,
    footerMin_le ty v⟩

end Carquet
