import Carquet.Core.GeoWkb
import Carquet.Lib.Mergeable

/-!
# Geospatial statistics merge

What the walker hands over depends on the value only, not on the accumulator, and it never leaves
the value (`walkWkb_eq`). The accumulator is a `GeoSummary`: four extents and a set of codes with
limited room, which merge (`addCoord_concrete`, `addType_concrete`, `geoStatsMerge_concrete`). So
pages may be cut anywhere (`geoStats_pages`).
-/

open Access

namespace Carquet

open LittleEndian Mergeable Bounds
open Parquet (GeospatialStatistics Double geoMaxTypes)

/-! ## Finite numbers -/

/-- A finite `double`. -/
abbrev FiniteDouble : Type := { d : Double // d.isFinite = true }

/-- The place of a number. -/
def Parquet.Double.place (d : Double) : Int := FloatFormat.double.key d.bits

/-- The numeric order. -/
def cmpFinite : FiniteDouble → FiniteDouble → Ordering := compareOn fun d => d.val.place

instance : Std.TransCmp cmpFinite :=
  inferInstanceAs (Std.TransCmp (compareOn fun d : FiniteDouble => d.val.place))

theorem isNan_eq_false (d : FiniteDouble) : FloatFormat.double.isNan d.val.bits = false := by
  have hfinite := of_decide_eq_true d.property
  refine decide_eq_false ?_
  exact Nat.not_lt.mpr (Nat.le_of_lt hfinite)

theorem lt_eq (a b : FiniteDouble) : a.val.lt b.val = decide (a.val.place < b.val.place) := by
  rw [Parquet.Double.lt, FloatFormat.lt, isNan_eq_false, isNan_eq_false]
  rfl

theorem lower_eq (a b : FiniteDouble) : lower a.val b.val = (pickLo cmpFinite a b).val := by
  have hlt : cmpFinite b a = .lt ↔ b.val.place < a.val.place := compare_lt_iff_lt
  rw [lower, lt_eq, pickLo]
  by_cases h : b.val.place < a.val.place
  · rw [if_pos (decide_eq_true h), if_pos (hlt.mpr h)]
  · rw [if_neg (by simpa using h), if_neg (fun hc => h (hlt.mp hc))]

theorem raise_eq (a b : FiniteDouble) : raise a.val b.val = (pickHi cmpFinite a b).val := by
  have hgt : cmpFinite b a = .gt ↔ a.val.place < b.val.place := compare_gt_iff_gt
  rw [raise, lt_eq, pickHi]
  by_cases h : a.val.place < b.val.place
  · rw [if_pos (decide_eq_true h), if_pos (hgt.mpr h)]
  · rw [if_neg (by simpa using h), if_neg (fun hc => h (hgt.mp hc))]

/-! ## The accumulator -/

abbrev GeoExtent : Type := Extent FiniteDouble

/-- What statistics are about. -/
@[ext] structure GeoSummary where
  x : GeoExtent
  y : GeoExtent
  z : GeoExtent
  m : GeoExtent
  types : CappedSet Int32 geoMaxTypes
  both : x.isSome = y.isSome
  flat : x = none → z = none ∧ m = none

namespace GeoSummary

def empty : GeoSummary := ⟨none, none, none, none, .empty, rfl, fun _ => ⟨rfl, rfl⟩⟩

theorem isSome_join (a b : GeoExtent) :
    (Extent.join cmpFinite a b).isSome = (a.isSome || b.isSome) := by
  cases a <;> cases b <;> rfl

def merge (a b : GeoSummary) : GeoSummary where
  x := Extent.join cmpFinite a.x b.x
  y := Extent.join cmpFinite a.y b.y
  z := Extent.join cmpFinite a.z b.z
  m := Extent.join cmpFinite a.m b.m
  types := a.types.union b.types
  both := by rw [isSome_join, isSome_join, a.both, b.both]
  flat := by
    intro h
    have hnone := isSome_join a.x b.x
    rw [h, Option.isSome_none, eq_comm, Bool.or_eq_false_iff, Option.isSome_eq_false_iff,
      Option.isSome_eq_false_iff, Option.isNone_iff_eq_none, Option.isNone_iff_eq_none] at hnone
    obtain ⟨haz, ham⟩ := a.flat hnone.1
    obtain ⟨hbz, hbm⟩ := b.flat hnone.2
    rw [haz, ham, hbz, hbm]
    exact ⟨rfl, rfl⟩

theorem merge_assoc (a b c : GeoSummary) : (a.merge b).merge c = a.merge (b.merge c) := by
  ext1 <;> simp only [merge, Extent.join_assoc, CappedSet.union_assoc]

theorem empty_merge (a : GeoSummary) : empty.merge a = a := by
  ext1 <;> simp only [merge, empty, Extent.none_join, CappedSet.empty_union]

theorem merge_empty (a : GeoSummary) : a.merge empty = a := by
  ext1 <;> simp only [merge, empty, Extent.join_none, CappedSet.union_empty]

/-- An extent as two fields, which are 0 while it is empty. -/
def lo (e : GeoExtent) : Double := e.elim .zero fun r => r.1.val

def hi (e : GeoExtent) : Double := e.elim .zero fun r => r.2.val

/-- The statistics with the parts of a summary. -/
def ofParts (x y z m : GeoExtent) (types : CappedSet Int32 geoMaxTypes) : GeospatialStatistics where
  valid := x.isSome
  xmin := lo x
  xmax := hi x
  ymin := lo y
  ymax := hi y
  hasZ := z.isSome
  zmin := lo z
  zmax := hi z
  hasM := m.isSome
  mmin := lo m
  mmax := hi m
  types := types.items
  numTypes := types.items.length

/-- The statistics with a summary. -/
def concrete (a : GeoSummary) : GeospatialStatistics := ofParts a.x a.y a.z a.m a.types

theorem concrete_empty : empty.concrete = geoStatsInit := rfl

section Parts

variable (x y z m : GeoExtent) (types : CappedSet Int32 geoMaxTypes)

theorem stretchXy_ofParts (hboth : x.isSome = y.isSome) (r t : FiniteDouble × FiniteDouble) :
    stretchXy (ofParts x y z m types) r.1.val r.2.val t.1.val t.2.val =
      ofParts (Extent.join cmpFinite x (some r)) (Extent.join cmpFinite y (some t)) z m types := by
  cases x with
  | none =>
    cases y with
    | none => rfl
    | some s => cases hboth
  | some e =>
    cases y with
    | none => cases hboth
    | some s => simp [stretchXy, ofParts, lo, hi, Extent.join, lower_eq, raise_eq]

theorem ite_stretchXy_ofParts (hboth : x.isSome = y.isSome) {e t : GeoExtent}
    (het : e.isSome = t.isSome) :
    (if e.isSome then stretchXy (ofParts x y z m types) (lo e) (hi e) (lo t) (hi t)
      else ofParts x y z m types) =
      ofParts (Extent.join cmpFinite x e) (Extent.join cmpFinite y t) z m types := by
  cases e with
  | none =>
    cases t with
    | none => simp
    | some r => cases het
  | some r =>
    cases t with
    | none => cases het
    | some r' => exact stretchXy_ofParts x y z m types hboth r r'

theorem ite_stretchZ_ofParts (e : GeoExtent) :
    (if e.isSome then stretchZ (ofParts x y z m types) (lo e) (hi e)
      else ofParts x y z m types) = ofParts x y (Extent.join cmpFinite z e) m types := by
  cases e with
  | none => simp
  | some r =>
    cases z with
    | none => rfl
    | some s => simp [stretchZ, ofParts, lo, hi, Extent.join, lower_eq, raise_eq]

theorem ite_stretchM_ofParts (e : GeoExtent) :
    (if e.isSome then stretchM (ofParts x y z m types) (lo e) (hi e)
      else ofParts x y z m types) = ofParts x y z (Extent.join cmpFinite m e) types := by
  cases e with
  | none => simp
  | some r =>
    cases m with
    | none => rfl
    | some s => simp [stretchM, ofParts, lo, hi, Extent.join, lower_eq, raise_eq]

theorem addType_ofParts (code : Int32) :
    addType (ofParts x y z m types) code = ofParts x y z m (types.insert code) := by
  have htake : (ofParts x y z m types).types.take (ofParts x y z m types).numTypes =
      types.items := List.take_length
  have hnum : (ofParts x y z m types).numTypes = types.items.length := rfl
  rw [addType, htake, hnum]
  by_cases hmem : code ∈ types.items
  · rw [if_pos hmem, CappedSet.insert_of_mem hmem]
  · rw [if_neg hmem]
    by_cases hroom : types.items.length < geoMaxTypes
    · have hitems := CappedSet.items_insert hmem hroom
      rw [if_pos hroom, ofParts, ofParts, hitems, List.length_append, List.length_singleton]
    · rw [if_neg hroom, CappedSet.insert_of_full (Nat.not_lt.mp hroom)]

theorem foldl_addType_ofParts (codes : List Int32) :
    codes.foldl addType (ofParts x y z m types) =
      ofParts x y z m (codes.foldl CappedSet.insert types) := by
  induction codes generalizing types with
  | nil => rfl
  | cons code codes ih => rw [List.foldl_cons, List.foldl_cons, addType_ofParts, ih]

end Parts

/-! ## What is handed over -/

/-- One type code. -/
def ofType (code : Int32) : GeoSummary := { empty with types := CappedSet.empty.insert code }

/-- One number, if it is there and finite. -/
def extentOf (has : Bool) (d : Double) : GeoExtent :=
  if h : has = true ∧ d.isFinite = true then some (⟨d, h.2⟩, ⟨d, h.2⟩) else none

theorem extentOf_of_finite {has : Bool} {d : Double} (hhas : has = true) (h : d.isFinite = true) :
    extentOf has d = some (⟨d, h⟩, ⟨d, h⟩) := dif_pos ⟨hhas, h⟩

/-- The test for a number is the test for its extent. -/
theorem ite_extentOf {α : Type} (has : Bool) (d : Double) (f : Double → Double → α) (s : α) :
    (if has && d.isFinite then f d d else s) =
      if (extentOf has d).isSome then f (lo (extentOf has d)) (hi (extentOf has d)) else s := by
  by_cases h : has = true ∧ d.isFinite = true
  · rw [extentOf_of_finite h.1 h.2, if_pos (by simp [h])]
    rfl
  · rw [extentOf, dif_neg h, if_neg (by rwa [Bool.and_eq_true])]
    rfl

/-- One position. -/
def ofPosition (p : Position) : GeoSummary :=
  if h : p.x.isFinite = true ∧ p.y.isFinite = true then
    { x := extentOf true p.x
      y := extentOf true p.y
      z := extentOf p.hasZ p.z
      m := extentOf p.hasM p.m
      types := .empty
      both := by rw [extentOf_of_finite rfl h.1, extentOf_of_finite rfl h.2]; rfl
      flat := fun hx => by rw [extentOf_of_finite rfl h.1] at hx; cases hx }
  else empty

theorem addType_concrete (a : GeoSummary) (code : Int32) :
    addType a.concrete code = (a.merge (ofType code)).concrete := by
  have hone : (CappedSet.empty.insert code : CappedSet Int32 geoMaxTypes).items = [code] :=
    CappedSet.items_insert List.not_mem_nil (by decide)
  have hunion : a.types.union (CappedSet.empty.insert code) = a.types.insert code := by
    rw [CappedSet.union, hone]
    rfl
  rw [concrete, addType_ofParts, ← hunion]
  simp [concrete, merge, ofType, empty]

theorem addCoord_concrete (a : GeoSummary) (p : Position) :
    addCoord a.concrete p = (a.merge (ofPosition p)).concrete := by
  by_cases hfinite : p.x.isFinite = true ∧ p.y.isFinite = true
  · have hxy := stretchXy_ofParts a.x a.y a.z a.m a.types a.both
      (⟨p.x, hfinite.1⟩, ⟨p.x, hfinite.1⟩) (⟨p.y, hfinite.2⟩, ⟨p.y, hfinite.2⟩)
    rw [addCoord, if_neg (by simp [hfinite]), ofPosition, dif_pos hfinite, concrete]
    simp only [hxy, ite_extentOf, ite_stretchZ_ofParts, ite_stretchM_ofParts]
    simp only [concrete, merge, extentOf_of_finite rfl hfinite.1,
      extentOf_of_finite rfl hfinite.2, CappedSet.union_empty]
  · have hskip : (!p.x.isFinite || !p.y.isFinite) = true := by
      cases hx : p.x.isFinite <;> cases hy : p.y.isFinite <;> simp_all
    rw [addCoord, if_pos hskip, ofPosition, dif_neg hfinite, merge_empty]

/-- **The code merges summaries.** -/
theorem geoStatsMerge_concrete (a b : GeoSummary) :
    geoStatsMerge a.concrete b.concrete = (a.merge b).concrete := by
  have htake : b.types.items.take b.types.items.length = b.types.items := List.take_length
  by_cases hnothing : b.x = none ∧ b.types.items = []
  · have hempty : b = empty := by
      have hy : b.y = none := by
        have hboth := b.both
        rw [hnothing.1] at hboth
        exact Option.isNone_iff_eq_none.mp (Option.isSome_eq_false_iff.mp hboth.symm)
      obtain ⟨hz, hm⟩ := b.flat hnothing.1
      ext1
      · exact hnothing.1
      · exact hy
      · exact hz
      · exact hm
      · exact CappedSet.ext hnothing.2
    rw [hempty, merge_empty]
    rfl
  · have hskip : (!b.concrete.valid && decide (b.concrete.numTypes = 0)) = false := by
      show (!b.x.isSome && decide (b.types.items.length = 0)) = false
      cases hx : b.x with
      | some r => rfl
      | none =>
        have hitems : b.types.items ≠ [] := fun h => hnothing ⟨hx, h⟩
        simpa using hitems
    have hxy := ite_stretchXy_ofParts a.x a.y a.z a.m a.types a.both b.both
    have hz := ite_stretchZ_ofParts (Extent.join cmpFinite a.x b.x) (Extent.join cmpFinite a.y b.y)
      a.z a.m a.types b.z
    have hm := ite_stretchM_ofParts (Extent.join cmpFinite a.x b.x) (Extent.join cmpFinite a.y b.y)
      (Extent.join cmpFinite a.z b.z) a.m a.types b.m
    rw [← hxy] at hz
    rw [← hz] at hm
    have htypes := foldl_addType_ofParts (Extent.join cmpFinite a.x b.x)
      (Extent.join cmpFinite a.y b.y) (Extent.join cmpFinite a.z b.z)
      (Extent.join cmpFinite a.m b.m) a.types b.types.items
    rw [geoStatsMerge, if_neg (by rw [hskip]; exact Bool.false_ne_true)]
    show (b.types.items.take b.types.items.length).foldl addType _ = _
    rw [htake]
    exact (congrArg (b.types.items.foldl addType) hm).trans htypes

end GeoSummary

/-! ## The walker -/

/-- What the walker hands over: a code or a position. -/
inductive Visit where
  | type (code : Int32)
  | position (p : Position)
  deriving DecidableEq, Repr

def GeoSink.visit {σ : Type} (sink : GeoSink σ) (s : σ) : Visit → σ
  | .type code => sink.addType s code
  | .position p => sink.addCoord s p

/-- A sink that writes down what it is handed. -/
def recordSink : GeoSink (List Visit) :=
  ⟨fun vs code => vs ++ [.type code], fun vs p => vs ++ [.position p]⟩

theorem foldl_recordSink (vs ws : List Visit) : vs.foldl recordSink.visit ws = ws ++ vs := by
  induction vs generalizing ws with
  | nil => exact (List.append_nil ws).symm
  | cons v vs ih =>
    have hstep : recordSink.visit ws v = ws ++ [v] := by cases v <;> rfl
    rw [List.foldl_cons, hstep, ih, List.append_assoc, List.singleton_append]

/-- Some walk from a cursor, over every accumulator. -/
abbrev WalkFrom : Type 1 := (σ : Type) → GeoSink σ → σ → Except (Fault Empty) (σ × GeoCursor)

/-- The walk hands over the same visits whatever the accumulator, does not leave the value, and
stands a byte further for each visit. -/
def Walks (wkb : Bytes) (c : GeoCursor) (run : WalkFrom) : Prop :=
  ∃ (vs : List Visit) (c' : GeoCursor),
    (∀ σ sink s, run σ sink s = .ok (vs.foldl sink.visit s, c')) ∧
    c.off + vs.length ≤ c'.off ∧ c'.off ≤ wkb.length

section Walker

variable {wkb : Bytes} {c : GeoCursor}

/-- Nothing is handed over. -/
theorem walks_ok (c' : GeoCursor) (hle : c.off ≤ c'.off) (hlen : c'.off ≤ wkb.length) :
    Walks wkb c fun _ _ s => .ok (s, c') :=
  ⟨[], c', fun _ _ _ => rfl, hle, hlen⟩

theorem walks_fail (hlen : c.off ≤ wkb.length) : Walks wkb c fun _ _ s => .ok (s, c.fail) :=
  walks_ok _ (Nat.le_refl _) hlen

theorem Walks.congr {run run' : WalkFrom} (h : Walks wkb c run)
    (heq : ∀ σ sink s, run' σ sink s = run σ sink s) : Walks wkb c run' := by
  obtain ⟨vs, c', hrun, hoff, hlen⟩ := h
  exact ⟨vs, c', fun σ sink s => (heq σ sink s).trans (hrun σ sink s), hoff, hlen⟩

/-- A walk behind a read. -/
theorem Walks.from_read {c' : GeoCursor} {run : WalkFrom} (h : Walks wkb c' run)
    (hle : c.off ≤ c'.off) : Walks wkb c run := by
  obtain ⟨vs, c'', hrun, hoff, hlen⟩ := h
  exact ⟨vs, c'', hrun, by omega, hlen⟩

/-- One walk after the other. -/
theorem Walks.bind {run : WalkFrom} {next : (σ : Type) → GeoSink σ → σ × GeoCursor →
      Except (Fault Empty) (σ × GeoCursor)} (h : Walks wkb c run)
    (hnext : ∀ c' : GeoCursor, c'.off ≤ wkb.length →
      Walks wkb c' fun σ sink s => next σ sink (s, c')) :
    Walks wkb c fun σ sink s => run σ sink s >>= next σ sink := by
  obtain ⟨vs, c', hrun, hoff, hlen⟩ := h
  obtain ⟨ws, c'', hrun', hoff', hlen'⟩ := hnext c' hlen
  refine ⟨vs ++ ws, c'', fun σ sink s => ?_, ?_, hlen'⟩
  · show (run σ sink s >>= next σ sink) = _
    rw [hrun, List.foldl_append]
    exact hrun' σ sink _
  · rw [List.length_append]
    omega

theorem rdU32_spec (le : Bool) (hoff : c.off ≤ wkb.length) :
    ∃ v c', rdU32 wkb le c = .ok (v, c') ∧ c.off ≤ c'.off ∧ c'.off ≤ wkb.length ∧
      (c'.bad = false → c.off + 4 ≤ c'.off) := by
  unfold rdU32
  split
  · exact ⟨0, c.fail, rfl, Nat.le_refl _, hoff, fun h => by cases h⟩
  · rename_i h
    have hle : c.off + 4 ≤ wkb.length := by
      simp only [Bool.or_eq_true, decide_eq_true_eq] at h
      omega
    rw [sliceAt_of_le hle]
    exact ⟨_, _, rfl, Nat.le_add_right _ _, hle, fun _ => Nat.le_refl _⟩

theorem rdF64_spec (le : Bool) (hoff : c.off ≤ wkb.length) :
    ∃ d c', rdF64 wkb le c = .ok (d, c') ∧ c.off ≤ c'.off ∧ c'.off ≤ wkb.length ∧
      (c'.bad = false → c.off + 8 ≤ c'.off) := by
  unfold rdF64
  split
  · exact ⟨_, c.fail, rfl, Nat.le_refl _, hoff, fun h => by cases h⟩
  · rename_i h
    have hle : c.off + 8 ≤ wkb.length := by
      simp only [Bool.or_eq_true, decide_eq_true_eq] at h
      omega
    rw [sliceAt_of_le hle]
    exact ⟨_, _, rfl, Nat.le_add_right _ _, hle, fun _ => Nat.le_refl _⟩

theorem rdDims_spec (le : Bool) (n : Nat) (hoff : c.off ≤ wkb.length) :
    ∃ ds c', rdDims wkb le n c = .ok (ds, c') ∧ c.off ≤ c'.off ∧ c'.off ≤ wkb.length ∧
      (c'.bad = false → 0 < n → c.off < c'.off) := by
  induction n generalizing c with
  | zero => exact ⟨[], c, rfl, Nat.le_refl _, hoff, fun _ h => absurd h (Nat.lt_irrefl 0)⟩
  | succ n ih =>
    obtain ⟨d, c₁, hread, hle₁, hlen₁, hadv₁⟩ := rdF64_spec le hoff
    obtain ⟨ds, c', hrest, hle, hlen, hadv⟩ := ih hlen₁
    refine ⟨d :: ds, c', ?_, Nat.le_trans hle₁ hle, hlen, fun hbad _ => ?_⟩
    · rw [rdDims, hread]
      show (rdDims wkb le n c₁ >>= _) = _
      rw [hrest]
      rfl
    · rcases Nat.eq_zero_or_pos n with rfl | hn
      · cases hrest
        have := hadv₁ hbad
        omega
      · have := hadv hbad hn
        omega

/-- `geoLoop` over a body that walks. -/
theorem walks_geoLoop {body : (σ : Type) → GeoSink σ → σ × GeoCursor →
      Except (Fault Empty) (σ × GeoCursor)}
    (hbody : ∀ c : GeoCursor, c.off ≤ wkb.length → Walks wkb c fun σ sink s => body σ sink (s, c))
    (n : Nat) (hoff : c.off ≤ wkb.length) :
    Walks wkb c fun σ sink s => geoLoop (body σ sink) n (s, c) := by
  induction n generalizing c with
  | zero => exact walks_ok _ (Nat.le_refl _) hoff
  | succ n ih =>
    by_cases hbad : c.bad = true
    · simp only [geoLoop, hbad, if_true]
      exact walks_ok _ (Nat.le_refl _) hoff
    · simp only [geoLoop, hbad]
      exact (hbody c hoff).bind fun c' hlen => ih hlen

theorem walks_readPoint (le : Bool) {ndim : Nat} (hdim : 0 < ndim) (hz hm : Bool)
    (hoff : c.off ≤ wkb.length) :
    Walks wkb c fun _ sink s => readPoint sink wkb le ndim hz hm (s, c) := by
  obtain ⟨ds, c', hread, hle, hlen, hadv⟩ := rdDims_spec le ndim hoff
  cases hbad : c'.bad with
  | true =>
    refine ⟨[], c', fun σ sink s => ?_, hle, hlen⟩
    show (rdDims wkb le ndim c >>= _) = _
    rw [hread]
    exact if_pos hbad
  | false =>
    refine ⟨[.position (positionOf ds hz hm)], c', fun σ sink s => ?_, hadv hbad hdim, hlen⟩
    show (rdDims wkb le ndim c >>= _) = _
    rw [hread]
    exact if_neg (by rw [hbad]; exact Bool.false_ne_true)

theorem walks_readPoints (le : Bool) (count : Nat) {ndim : Nat} (hdim : 0 < ndim) (hz hm : Bool)
    (hoff : c.off ≤ wkb.length) :
    Walks wkb c fun _ sink s => readPoints sink wkb le count ndim hz hm (s, c) :=
  walks_geoLoop (fun _ => walks_readPoint le hdim hz hm) count hoff

/-- A number, and what depends on it. -/
theorem walks_rdU32_bind (le : Bool) (hoff : c.off ≤ wkb.length)
    {next : (σ : Type) → GeoSink σ → Nat × GeoCursor → σ → Except (Fault Empty) (σ × GeoCursor)}
    (hnext : ∀ (v : Nat) (c' : GeoCursor), c'.off ≤ wkb.length →
      Walks wkb c' fun σ sink s => next σ sink (v, c') s) :
    Walks wkb c fun σ sink s => rdU32 wkb le c >>= fun r => next σ sink r s := by
  obtain ⟨v, c', hread, hle, hlen, -⟩ := rdU32_spec le hoff
  rw [hread]
  exact (hnext v c' hlen).from_read hle

theorem walks_readRing (le : Bool) {ndim : Nat} (hdim : 0 < ndim) (hz hm : Bool)
    (hoff : c.off ≤ wkb.length) :
    Walks wkb c fun _ sink s => readRing sink wkb le ndim hz hm (s, c) :=
  walks_rdU32_bind le hoff fun npts _ => walks_readPoints le npts hdim hz hm

theorem readHeader_spec (le : Bool) (raw : Nat) (hoff : c.off ≤ wkb.length) :
    ∃ head c', readHeader wkb le raw c = .ok (head, c') ∧ c.off ≤ c'.off ∧
      c'.off ≤ wkb.length := by
  unfold readHeader
  split
  · split
    · obtain ⟨v, c', hread, hle, hlen, -⟩ := rdU32_spec le hoff
      rw [hread]
      exact ⟨_, c', rfl, hle, hlen⟩
    · exact ⟨_, c, rfl, Nat.le_refl _, hoff⟩
  · exact ⟨_, c, rfl, Nat.le_refl _, hoff⟩

theorem walks_walkBody {inner : (σ : Type) → GeoSink σ → σ × GeoCursor →
      Except (Fault Empty) (σ × GeoCursor)}
    (hinner : ∀ c : GeoCursor, c.off ≤ wkb.length → Walks wkb c fun σ sink s => inner σ sink (s, c))
    (le : Bool) (head : GeoHeader) (hoff : c.off ≤ wkb.length) :
    Walks wkb c fun σ sink s => walkBody sink wkb (inner σ sink) le head (s, c) := by
  have hdim : 0 < head.ndim := by
    unfold GeoHeader.ndim
    omega
  have hmulti : Walks wkb c fun σ sink s =>
      rdU32 wkb le c >>= fun r => geoLoop (inner σ sink) r.1 (s, r.2) :=
    walks_rdU32_bind le hoff fun n _ => walks_geoLoop hinner n
  unfold walkBody
  split
  · exact walks_readPoints le 1 hdim head.hz head.hm hoff
  · exact walks_readRing le hdim head.hz head.hm hoff
  · exact walks_rdU32_bind le hoff fun rings _ =>
      walks_geoLoop (fun _ => walks_readRing le hdim head.hz head.hm) rings
  · exact hmulti
  · exact hmulti
  · exact hmulti
  · exact hmulti
  · exact walks_fail hoff

/-- **The walk**, at every depth. -/
theorem walks_walk (left : Nat) (hoff : c.off ≤ wkb.length) :
    Walks wkb c fun _ sink s => walk sink wkb left (s, c) := by
  induction left generalizing c with
  | zero => exact walks_fail hoff
  | succ left ih =>
    by_cases hbad : c.bad = true
    · exact (walks_fail hoff).congr fun _ _ _ => by rw [walk, if_pos hbad]
    by_cases hend : wkb.length < c.off + 1
    · exact (walks_fail hoff).congr fun _ _ _ => by rw [walk, if_neg hbad, if_pos hend]
    have hlt : c.off < wkb.length := by omega
    have hbyte := @readAt_of_lt Empty _ _ _ hlt
    generalize wkb[c.off] = order at hbyte
    obtain ⟨raw, c₁, hraw, hle₁, hlen₁, -⟩ :=
      rdU32_spec (c := { c with off := c.off + 1 }) (order == 1) hlt
    have hle₁ : c.off + 1 ≤ c₁.off := hle₁
    by_cases hbad₁ : c₁.bad = true
    · refine (walks_ok c₁ (by omega) hlen₁).congr fun σ sink s => ?_
      rw [walk, if_neg hbad, if_neg hend, hbyte]
      show (rdU32 _ _ _ >>= _) = _
      rw [hraw]
      exact if_pos hbad₁
    obtain ⟨head, c₂, hhead, hle₂, hlen₂⟩ := readHeader_spec (order == 1) raw hlen₁
    by_cases hbad₂ : c₂.bad = true
    · refine (walks_ok c₂ (by omega) hlen₂).congr fun σ sink s => ?_
      rw [walk, if_neg hbad, if_neg hend, hbyte]
      show (rdU32 _ _ _ >>= _) = _
      rw [hraw]
      show (if c₁.bad then _ else readHeader _ _ _ _ >>= _) = _
      rw [if_neg hbad₁, hhead]
      exact if_pos hbad₂
    · have htype : Walks wkb c fun σ sink s => .ok (sink.addType s head.iso, c₂) :=
        ⟨[.type head.iso], c₂, fun _ _ _ => rfl, Nat.le_trans hle₁ hle₂, hlen₂⟩
      have hbody := htype.bind fun c' hlen => walks_walkBody (fun _ => ih) (order == 1) head hlen
      refine hbody.congr fun σ sink s => ?_
      rw [walk, if_neg hbad, if_neg hend, hbyte]
      show (rdU32 _ _ _ >>= _) = _
      rw [hraw]
      show (if c₁.bad then _ else readHeader _ _ _ _ >>= _) = _
      rw [if_neg hbad₁, hhead]
      exact if_neg hbad₂

end Walker

/-! ## One value -/

/-- What a value holds. -/
def visits (wkb : Bytes) : List Visit :=
  match walkWkb recordSink wkb [] with
  | .ok vs => vs
  | .error _ => []

theorem visits_spec (wkb : Bytes) :
    (∀ (σ : Type) (sink : GeoSink σ) (s : σ),
      walkWkb sink wkb s = .ok ((visits wkb).foldl sink.visit s)) ∧
    (visits wkb).length ≤ wkb.length := by
  by_cases hshort : wkb.length < 5
  · have hnone : visits wkb = [] := by
      rw [visits, walkWkb, if_pos hshort]
    rw [hnone]
    exact ⟨fun σ sink s => if_pos hshort, Nat.zero_le _⟩
  · obtain ⟨vs, c', hrun, hoff, hlen⟩ := @walks_walk wkb ⟨0, false⟩ 33 (Nat.zero_le _)
    have hwalk : ∀ (σ : Type) (sink : GeoSink σ) (s : σ),
        walkWkb sink wkb s = .ok (vs.foldl sink.visit s) := by
      intro σ sink s
      have hrun := hrun σ sink s
      dsimp only at hrun
      rw [walkWkb, if_neg hshort, hrun]
      rfl
    have hvisits : visits wkb = vs := by
      rw [visits, hwalk, foldl_recordSink]
      rfl
    have hoff : 0 + vs.length ≤ c'.off := hoff
    rw [hvisits]
    exact ⟨hwalk, by omega⟩

/-- **A value is folded into any accumulator alike**, without leaving it. -/
theorem walkWkb_eq {σ : Type} (sink : GeoSink σ) (wkb : Bytes) (s : σ) :
    walkWkb sink wkb s = .ok ((visits wkb).foldl sink.visit s) := (visits_spec wkb).1 σ sink s

namespace GeoSummary

def ofVisit : Visit → GeoSummary
  | .type code => ofType code
  | .position p => ofPosition p

def addVisits (a : GeoSummary) (vs : List Visit) : GeoSummary :=
  vs.foldl (fun a v => a.merge (ofVisit v)) a

theorem foldl_visit_concrete (vs : List Visit) (a : GeoSummary) :
    vs.foldl statsSink.visit a.concrete = (a.addVisits vs).concrete := by
  induction vs generalizing a with
  | nil => rfl
  | cons v vs ih =>
    have hstep : statsSink.visit a.concrete v = (a.merge (ofVisit v)).concrete := by
      cases v with
      | type code => exact addType_concrete a code
      | position p => exact addCoord_concrete a p
    rw [List.foldl_cons, hstep, ih]
    rfl

theorem geoStatsAddWkb_concrete (a : GeoSummary) (wkb : Bytes) :
    geoStatsAddWkb a.concrete wkb = .ok (a.addVisits (visits wkb)).concrete := by
  rw [geoStatsAddWkb, walkWkb_eq, foldl_visit_concrete]

end GeoSummary

/-! ## Pages -/

/-- The statistics of the values of a page. -/
def geoStatsOf (values : List Bytes) : Except (Fault Empty) GeospatialStatistics :=
  values.foldlM geoStatsAddWkb geoStatsInit

namespace GeoSummary

/-- The summary of the values of a page. -/
def ofValues (values : List Bytes) : GeoSummary := empty.addVisits (values.flatMap visits)

theorem foldlM_concrete (values : List Bytes) (a : GeoSummary) :
    values.foldlM geoStatsAddWkb a.concrete =
      .ok (a.addVisits (values.flatMap visits)).concrete := by
  induction values generalizing a with
  | nil => rfl
  | cons v vs ih =>
    rw [List.foldlM_cons, geoStatsAddWkb_concrete]
    show vs.foldlM geoStatsAddWkb (a.addVisits (visits v)).concrete = _
    rw [ih, List.flatMap_cons, addVisits, addVisits, addVisits, List.foldl_append]

theorem geoStatsOf_eq (values : List Bytes) : geoStatsOf values = .ok (ofValues values).concrete :=
  foldlM_concrete values empty

theorem foldl_geoStatsMerge (summaries : List GeoSummary) (a : GeoSummary) :
    (summaries.map concrete).foldl geoStatsMerge a.concrete = (summaries.foldl merge a).concrete := by
  induction summaries generalizing a with
  | nil => rfl
  | cons b bs ih => rw [List.map_cons, List.foldl_cons, List.foldl_cons, geoStatsMerge_concrete, ih]

theorem foldl_merge_ofValues (pages : List (List Bytes)) :
    (pages.map ofValues).foldl merge empty = ofValues pages.flatten := by
  have hparts := foldl_parts ofVisit merge_assoc empty_merge merge_empty
    (pages.map fun values => values.flatMap visits)
  have hflatten : (pages.map fun values => values.flatMap visits).flatten =
      pages.flatten.flatMap visits := by
    simp only [List.flatMap_def, List.map_flatten, List.flatten_flatten, List.map_map]
    rfl
  rw [List.map_map, hflatten] at hparts
  exact hparts

/-- A place in a range. -/
def Within (lo hi d : Double) : Prop := lo.place ≤ d.place ∧ d.place ≤ hi.place

/-- The box holds a position, and its z and m where they are finite. -/
structure Holds (s : GeospatialStatistics) (p : Position) : Prop where
  valid : s.valid = true
  x : Within s.xmin s.xmax p.x
  y : Within s.ymin s.ymax p.y
  z : p.hasZ = true → p.z.isFinite = true → s.hasZ = true ∧ Within s.zmin s.zmax p.z
  m : p.hasM = true → p.m.isFinite = true → s.hasM = true ∧ Within s.mmin s.mmax p.m

/-- The summary above that of one position. -/
structure Above (a : GeoSummary) (p : Position) (hx : p.x.isFinite = true)
    (hy : p.y.isFinite = true) : Prop where
  x : a.x.Contains cmpFinite ⟨p.x, hx⟩
  y : a.y.Contains cmpFinite ⟨p.y, hy⟩
  z : p.hasZ = true → ∀ hz : p.z.isFinite = true, a.z.Contains cmpFinite ⟨p.z, hz⟩
  m : p.hasM = true → ∀ hm : p.m.isFinite = true, a.m.Contains cmpFinite ⟨p.m, hm⟩

section Above

variable {a : GeoSummary} {p : Position} {hx : p.x.isFinite = true} {hy : p.y.isFinite = true}

theorem contains_extentOf {has : Bool} {d : Double} (hhas : has = true) (h : d.isFinite = true) :
    (extentOf has d).Contains cmpFinite ⟨d, h⟩ := by
  rw [extentOf_of_finite hhas h]
  exact Extent.contains_single ..

theorem above_ofPosition : Above (ofPosition p) p hx hy := by
  rw [ofPosition, dif_pos ⟨hx, hy⟩]
  exact ⟨contains_extentOf rfl hx, contains_extentOf rfl hy, contains_extentOf, contains_extentOf⟩

theorem Above.merge_left (h : Above a p hx hy) (b : GeoSummary) : Above (a.merge b) p hx hy :=
  ⟨h.x.join_left b.x, h.y.join_left b.y, fun hhas hz => (h.z hhas hz).join_left b.z,
    fun hhas hm => (h.m hhas hm).join_left b.m⟩

theorem Above.merge_right (h : Above a p hx hy) (b : GeoSummary) : Above (b.merge a) p hx hy :=
  ⟨h.x.join_right b.x, h.y.join_right b.y, fun hhas hz => (h.z hhas hz).join_right b.z,
    fun hhas hm => (h.m hhas hm).join_right b.m⟩

theorem Above.addVisits (h : Above a p hx hy) (vs : List Visit) :
    Above (a.addVisits vs) p hx hy := by
  induction vs generalizing a with
  | nil => exact h
  | cons v vs ih => exact ih (h.merge_left _)

theorem above_addVisits {vs : List Visit} (hmem : .position p ∈ vs) (a : GeoSummary) :
    Above (a.addVisits vs) p hx hy := by
  induction vs generalizing a with
  | nil => exact absurd hmem List.not_mem_nil
  | cons v vs ih =>
    rcases List.mem_cons.mp hmem with rfl | hmem
    · exact (above_ofPosition.merge_right a).addVisits vs
    · exact ih hmem _

theorem within_of_contains {e : GeoExtent} {d : FiniteDouble} (h : e.Contains cmpFinite d) :
    e.isSome = true ∧ Within (lo e) (hi e) d.val := by
  obtain ⟨r, rfl, hlo, hhi⟩ := h
  exact ⟨rfl, Std.isLE_compare.mp hlo, Std.isLE_compare.mp hhi⟩

theorem Above.holds (h : Above a p hx hy) : Holds a.concrete p := by
  have hin := within_of_contains h.x
  exact ⟨hin.1, hin.2, (within_of_contains h.y).2, fun hhas hz => within_of_contains (h.z hhas hz),
    fun hhas hm => within_of_contains (h.m hhas hm)⟩

end Above

end GeoSummary

/-- **The statistics of pages merge to those of the column**, wherever the values are cut into
pages: no walk leaves its value, whatever the value; the statistics are the same, box, ranges and
codes; and every position with a finite x and y that is visited lies in the box, with its z and m
where these are finite. -/
theorem geoStats_pages (pages : List (List Bytes)) :
    ∃ (stats : List GeospatialStatistics) (whole : GeospatialStatistics),
      pages.mapM geoStatsOf = .ok stats ∧ geoStatsOf pages.flatten = .ok whole ∧
      stats.foldl geoStatsMerge geoStatsInit = whole ∧
      (∀ values ∈ pages, ∀ wkb ∈ values, ∀ p, .position p ∈ visits wkb →
        p.x.isFinite = true → p.y.isFinite = true → GeoSummary.Holds whole p) ∧
      ∀ wkb, (visits wkb).length ≤ wkb.length := by
  have hstats : ∀ pages : List (List Bytes),
      pages.mapM geoStatsOf = .ok ((pages.map GeoSummary.ofValues).map GeoSummary.concrete) := by
    intro pages
    induction pages with
    | nil => rfl
    | cons values pages ih =>
      rw [List.mapM_cons, GeoSummary.geoStatsOf_eq, ih]
      rfl
  refine ⟨_, _, hstats pages, GeoSummary.geoStatsOf_eq _, ?_, ?_, fun wkb => (visits_spec wkb).2⟩
  · rw [← GeoSummary.concrete_empty, GeoSummary.foldl_geoStatsMerge,
      GeoSummary.foldl_merge_ofValues]
  · intro values hvalues wkb hwkb p hp hx hy
    have hmem : Visit.position p ∈ pages.flatten.flatMap visits :=
      List.mem_flatMap.mpr ⟨wkb, List.mem_flatten.mpr ⟨values, hvalues, hwkb⟩, hp⟩
    exact (@GeoSummary.above_addVisits p hx hy _ hmem .empty).holds

/-- A point whose x is 1 and whose y is not a number. -/
def halfPoint : Bytes :=
  [1, 1, 0, 0, 0] ++ [0, 0, 0, 0, 0, 0, 0xf0, 0x3f] ++ [0, 0, 0, 0, 0, 0, 0xf8, 0x7f]

/-- Its x is a finite coordinate, and is visited, but no box holds it. -/
theorem halfPoint_leftOut :
    ¬ ∀ (values : List Bytes) (s : GeospatialStatistics), geoStatsOf values = .ok s →
      ∀ wkb ∈ values, ∀ p, .position p ∈ visits wkb → p.x.isFinite = true →
        s.valid = true ∧ GeoSummary.Within s.xmin s.xmax p.x := by
  intro h
  have hvisits : visits halfPoint = [.type 1, .position ⟨⟨[0, 0, 0, 0, 0, 0, 0xf0, 0x3f], rfl⟩,
      ⟨[0, 0, 0, 0, 0, 0, 0xf8, 0x7f], rfl⟩, false, .zero, false, .zero⟩] := by decide
  have hbox := h [halfPoint] _ (GeoSummary.geoStatsOf_eq _) halfPoint List.mem_cons_self _
    (by rw [hvisits]; exact List.mem_cons_of_mem _ List.mem_cons_self) (by decide)
  rw [GeoSummary.ofValues, List.flatMap_singleton, hvisits] at hbox
  exact absurd hbox.1 (by decide)

end Carquet
