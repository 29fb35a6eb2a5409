import Carquet.Writer.PageIndex
import Carquet.Reader.StatisticsSpec

/-!
# Which pages a column index rules out

`carquet_column_index_page_might_match` (metadata/page_index.c:564-607) passes over a page by
comparing its bounds with a range. The bounds are in the order in which the column writer compares
values (`StatKind.order`, column_writer.c:425-501); the test goes by `compare_index_values`
(page_index.c:264-303), which has a branch for INT32 and INT64 but none for FLOAT, DOUBLE and
FLOAT16 and compares the little-endian bytes of those as strings.
-/

namespace Carquet

open Std

/-! ## Pages and ranges -/

/-- The order of a column's values. -/
def StatKind.order : StatKind → Value → Value → Ordering
  | .ordered ty => ty.order
  | .floating f => compareFloat f
  | .float16 => compareHalf
  | .unordered => compare

/-- The memory image of a value of the column that has a place in its order. -/
def StatKind.Holds (kind : StatKind) (v : Value) : Prop :=
  match kind with
  | .ordered ty => ty.Stored v
  | .floating f => v.length = f.size ∧ isNanValue f v = false
  | .float16 => v.length = 2 ∧ isNanHalf v = false
  | .unordered => v.length = 12

/-- FLOAT, DOUBLE and FLOAT16. -/
def StatKind.IsFloating : StatKind → Prop
  | .floating _ | .float16 => True
  | _ => False

/-- A page of a column index whose bounds, where it has them, bound its values. -/
structure BoundedPage (kind : StatKind) where
  index : List ColumnIndexPage
  number : Nat
  page : ColumnIndexPage
  values : List Value
  page_eq : index[number]? = some page
  holds : ∀ v ∈ values, kind.Holds v
  lower : ∀ m, page.minValue = some m → kind.Holds m ∧ ∀ v ∈ values, (kind.order m v).isLE
  upper : ∀ m, page.maxValue = some m → kind.Holds m ∧ ∀ v ∈ values, (kind.order v m).isLE
  null : page.nullPage = true → values = []

/-- The range `[lo, hi]` of a query. -/
structure QueryRange (kind : StatKind) where
  lo : Value
  hi : Value
  holds_lo : kind.Holds lo
  holds_hi : kind.Holds hi

variable {kind : StatKind}

/-- A value of the page is in the range. -/
def BoundedPage.Meets (p : BoundedPage kind) (r : QueryRange kind) : Prop :=
  ∃ v ∈ p.values, (kind.order r.lo v).isLE ∧ (kind.order v r.hi).isLE

/-- A page with a value in the range is not passed over. -/
def BoundedPage.Kept (p : BoundedPage kind) (r : QueryRange kind) : Prop :=
  p.Meets r → columnIndexPageMightMatch kind p.index p.number (some r.lo) (some r.hi) = some true

/-- The range reaches the page when bounds are compared as byte strings. -/
def BoundedPage.MeetsAsBytes (p : BoundedPage kind) (r : QueryRange kind) : Prop :=
  (∀ m, p.page.minValue = some m → compare r.hi m ≠ .lt) ∧
    ∀ m, p.page.maxValue = some m → compare r.lo m ≠ .gt

/-! ## The test -/

/-- The way the test goes. -/
theorem columnIndexPageMightMatch_iff {index : List ColumnIndexPage} {number : Nat}
    {page : ColumnIndexPage} (hpage : index[number]? = some page) (lo hi : Value) :
    columnIndexPageMightMatch kind index number (some lo) (some hi) = some true ↔
      page.nullPage = false ∧
        (∀ m, page.minValue = some m → compareIndexValues kind hi m ≠ .lt) ∧
        ∀ m, page.maxValue = some m → compareIndexValues kind lo m ≠ .gt := by
  rw [columnIndexPageMightMatch, hpage]
  obtain ⟨nullCount, minValue, maxValue, nullPage⟩ := page
  cases nullPage <;> cases minValue <;> cases maxValue <;> simp

/-- Numbers with a branch of their own, and byte strings, are compared in the order of the column. -/
theorem compareIndexValues_eq (hkind : ¬ kind.IsFloating) {a b : Value} (ha : kind.Holds a)
    (hb : kind.Holds b) : compareIndexValues kind a b = kind.order a b := by
  cases kind with
  | ordered ty =>
    rw [StatKind.order, ← compareStatValues_eq ha hb]
    cases ty <;> rfl
  | floating f => exact absurd trivial hkind
  | float16 => exact absurd trivial hkind
  | unordered => exact (ite_self _).trans (ByteOrder.lexCompare_eq a b)

/-- Floating point numbers are compared as byte strings. -/
theorem compareIndexValues_floating (hkind : kind.IsFloating) (a b : Value) :
    compareIndexValues kind a b = compare a b := by
  cases kind with
  | ordered ty => exact absurd hkind id
  | floating f => exact (ite_self _).trans (ByteOrder.lexCompare_eq a b)
  | float16 => exact (ite_self _).trans (ByteOrder.lexCompare_eq a b)
  | unordered => exact absurd hkind id

/-- The order of a column that is not floating is transitive. -/
theorem transCmp_order (hkind : ¬ kind.IsFloating) : TransCmp kind.order := by
  cases kind with
  | ordered ty => exact inferInstanceAs (TransCmp ty.order)
  | floating f => exact absurd trivial hkind
  | float16 => exact absurd trivial hkind
  | unordered => exact inferInstanceAs (TransCmp (compare : Bytes → Bytes → Ordering))

/-- No bound of the page excludes a value between the ends of the range. -/
theorem BoundedPage.kept_of_not_floating (hkind : ¬ kind.IsFloating) (p : BoundedPage kind)
    (r : QueryRange kind) : p.Kept r := by
  have htrans := transCmp_order hkind
  rintro ⟨v, hv, hlo, hhi⟩
  rw [columnIndexPageMightMatch_iff p.page_eq]
  refine ⟨?_, ?_, ?_⟩
  · cases hnull : p.page.nullPage with
    | false => rfl
    | true =>
      rw [p.null hnull] at hv
      cases hv
  · intro m hm hlt
    obtain ⟨hmHolds, hle⟩ := p.lower m hm
    rw [compareIndexValues_eq hkind r.holds_hi hmHolds] at hlt
    have hmr : (kind.order m r.hi).isLE := TransCmp.isLE_trans (hle v hv) hhi
    rw [OrientedCmp.gt_iff_lt.2 hlt] at hmr
    cases hmr
  · intro m hm hgt
    obtain ⟨hmHolds, hle⟩ := p.upper m hm
    rw [compareIndexValues_eq hkind r.holds_lo hmHolds] at hgt
    have hrm : (kind.order r.lo m).isLE := TransCmp.isLE_trans hlo (hle v hv)
    rw [hgt] at hrm
    cases hrm

/-- The FLOAT page that holds `1.0` alone. -/
def oneAlone : BoundedPage (statKind .float 0 .unknown) where
  index := columnIndexAddPage [] 0 (some [0, 0, 0x80, 0x3F]) (some [0, 0, 0x80, 0x3F]) false
  number := 0
  page := ⟨0, some [0, 0, 0x80, 0x3F], some [0, 0, 0x80, 0x3F], false⟩
  values := [[0, 0, 0x80, 0x3F]]
  page_eq := by decide
  holds := by
    intro v hv
    obtain rfl := List.mem_singleton.1 hv
    exact ⟨rfl, by decide⟩
  lower := by
    intro m hm
    obtain rfl := Option.some.inj hm
    refine ⟨⟨rfl, by decide⟩, fun v hv => ?_⟩
    obtain rfl := List.mem_singleton.1 hv
    decide
  upper := by
    intro m hm
    obtain rfl := Option.some.inj hm
    refine ⟨⟨rfl, by decide⟩, fun v hv => ?_⟩
    obtain rfl := List.mem_singleton.1 hv
    decide
  null := by simp

/-- The range from `1.0` to `2.0`. -/
def oneToTwo : QueryRange (statKind .float 0 .unknown) where
  lo := [0, 0, 0x80, 0x3F]
  hi := [0, 0, 0, 0x40]
  holds_lo := ⟨rfl, by decide⟩
  holds_hi := ⟨rfl, by decide⟩

end Carquet
