import Carquet.Writer.PageIndexSpec

/-!
# Null pages

`flush_current_page` takes a page without bounds for a page without values
(column_writer.c:588-595), and a null page is ruled out of every query
(page_index.c:577-580). A page has bounds when statistics are collected and one of its values
was looked at and not given up (`PageContent.Bounded`).
-/

namespace Carquet

open LittleEndian Bounds

/-! ## Bounds of floating point values -/

/-- `m` are bounds in values of `size` bytes, and there are some when one of `vs` is not NaN. -/
structure NanBounds (size : Nat) (isNan : Value → Bool) (m : MinMax) (vs : List Value) : Prop where
  isSome : m.isSome = true ↔ ∃ v ∈ vs, isNan v = false
  sized : ∀ b, m = some b → b.1.length = size ∧ b.2.length = size

variable {size : Nat} {isNan : Value → Bool} {m : MinMax} {vs ws : List Value}

theorem nanBounds_none : NanBounds size isNan none [] := ⟨by simp, by simp⟩

/-- Only NaN follows. -/
theorem NanBounds.append_nan (h : NanBounds size isNan m vs) (hws : ∀ w ∈ ws, isNan w = true) :
    NanBounds size isNan m (vs ++ ws) := by
  refine ⟨h.isSome.trans ?_, h.sized⟩
  simp only [List.mem_append, or_and_right, exists_or]
  refine (or_iff_left ?_).symm
  rintro ⟨w, hw, hwn⟩
  simp [hws w hw] at hwn

/-- There is a number, and there are bounds. -/
theorem nanBounds_some {lo hi : Bytes} (hex : ∃ v ∈ vs, isNan v = false)
    (hlo : lo.length = size) (hhi : hi.length = size) :
    NanBounds size isNan (some (lo, hi)) vs := by
  refine ⟨by simpa using hex, ?_⟩
  intro b hb
  obtain rfl := Option.some.inj hb
  exact ⟨hlo, hhi⟩

theorem exists_append_right {p : Value → Prop} (h : ∃ v ∈ ws, p v) : ∃ v ∈ vs ++ ws, p v := by
  obtain ⟨v, hv, hp⟩ := h
  exact ⟨v, List.mem_append_right vs hv, hp⟩

@[simp] theorem length_zeroMin (f : FloatFormat) {v : Bytes} (h : v.length = f.size) :
    (zeroMin f v).length = f.size := by
  unfold zeroMin
  split
  · exact length_leBytes ..
  · exact h

@[simp] theorem length_zeroMax (f : FloatFormat) {v : Bytes} (h : v.length = f.size) :
    (zeroMax f v).length = f.size := by
  unfold zeroMax
  split
  · exact length_leBytes ..
  · exact h

theorem length_pickLo {cmp : Bytes → Bytes → Ordering} {a b : Bytes} (ha : a.length = size)
    (hb : b.length = size) : (pickLo cmp a b).length = size := by
  unfold pickLo
  split
  · exact hb
  · exact ha

theorem length_pickHi {cmp : Bytes → Bytes → Ordering} {a b : Bytes} (ha : a.length = size)
    (hb : b.length = size) : (pickHi cmp a b).length = size := by
  unfold pickHi
  split
  · exact hb
  · exact ha

/-- The bounds of a call are two of its values; there are none when all are NaN. -/
theorem minmaxNanSafe_cases (f : FloatFormat) (v : Value) (vs : List Value) :
    minmaxNanSafe f v vs = none ∧ (∀ u ∈ v :: vs, isNanValue f u = true) ∨
      ∃ lo ∈ v :: vs, ∃ hi ∈ v :: vs, minmaxNanSafe f v vs = some (lo, hi) ∧
        ∃ u ∈ v :: vs, isNanValue f u = false := by
  have hmem := ofList_mem (compareFloat f) v vs
  simp only [minmaxNanSafe]
  split
  · rename_i hnan
    simp only [Bool.and_eq_true, Bool.not_eq_true'] at hnan
    exact .inr ⟨_, hmem.1, _, hmem.2, rfl, _, hmem.1, hnan.1⟩
  · split
    · rename_i hfilter
      refine .inl ⟨rfl, fun u hu => ?_⟩
      simpa using List.filter_eq_nil_iff.mp hfilter u hu
    · rename_i u us hfilter
      have hsub : ∀ w ∈ u :: us, w ∈ v :: vs ∧ isNanValue f w = false := by
        intro w hw
        rw [← hfilter] at hw
        simpa using List.mem_filter.mp hw
      have hmem' := ofList_mem (compareFloat f) u us
      exact .inr ⟨_, (hsub _ hmem'.1).1, _, (hsub _ hmem'.2).1, rfl, u,
        (hsub u List.mem_cons_self).1, (hsub u List.mem_cons_self).2⟩

theorem nanBounds_updateStatisticsFloat {f : FloatFormat}
    (h : NanBounds f.size (isNanValue f) m vs) (hws : ∀ w ∈ ws, w.length = f.size) :
    NanBounds f.size (isNanValue f) (updateStatisticsFloat f m ws) (vs ++ ws) := by
  cases ws with
  | nil => simpa [updateStatisticsFloat] using h
  | cons w ws =>
    rcases minmaxNanSafe_cases f w ws with ⟨hnone, hnan⟩ | ⟨lo, hlo, hi, hhi, hsome, hex⟩
    · simp only [updateStatisticsFloat, hnone]
      exact h.append_nan hnan
    · have hlo := length_zeroMin f (hws lo hlo)
      have hhi := length_zeroMax f (hws hi hhi)
      simp only [updateStatisticsFloat, hsome]
      cases hm : m with
      | none => exact nanBounds_some (exists_append_right hex) hlo hhi
      | some b =>
        have hb := h.sized b hm
        exact nanBounds_some (exists_append_right hex) (length_zeroMin f (length_pickLo hb.1 hlo))
          (length_zeroMax f (length_pickHi hb.2 hhi))

theorem nanBounds_encodePlainFloatWithStats {f : FloatFormat}
    (h : NanBounds f.size (isNanValue f) m vs) (hws : ∀ w ∈ ws, w.length = f.size) :
    NanBounds f.size (isNanValue f) (encodePlainFloatWithStats f m ws) (vs ++ ws) := by
  cases ws with
  | nil => simpa [encodePlainFloatWithStats] using h
  | cons w ws =>
    have hmem := ofList_mem (compareFloat f) w ws
    simp only [encodePlainFloatWithStats]
    split
    · exact nanBounds_updateStatisticsFloat h hws
    · rename_i hnan
      simp only [Bool.or_eq_true, not_or, Bool.not_eq_true] at hnan
      have hex : ∃ v ∈ w :: ws, isNanValue f v = false := ⟨_, hmem.1, hnan.1⟩
      have hlo := length_zeroMin f (hws _ hmem.1)
      have hhi := length_zeroMax f (hws _ hmem.2)
      cases hm : m with
      | none => exact nanBounds_some (exists_append_right hex) hlo hhi
      | some b =>
        have hb := h.sized b hm
        exact nanBounds_some (exists_append_right hex) (length_zeroMin f (length_pickLo hlo hb.1))
          (length_zeroMax f (length_pickHi hhi hb.2))

theorem nanBounds_float16Bounds (h : NanBounds 2 isNanHalf m vs) (hws : ∀ w ∈ ws, w.length = 2) :
    NanBounds 2 isNanHalf (float16Bounds m ws) (vs ++ ws) := by
  induction ws generalizing m vs with
  | nil => simpa [float16Bounds] using h
  | cons w ws ih =>
    have hw := hws w List.mem_cons_self
    have hrest := fun u hu => hws u (List.mem_cons_of_mem w hu)
    rw [List.append_cons, float16Bounds]
    split
    · rename_i hnan
      exact ih (h.append_nan (by simpa using hnan)) hrest
    · rename_i hnan
      have hex : ∃ v ∈ vs ++ [w], isNanHalf v = false := ⟨w, by simp, by simpa using hnan⟩
      refine ih ?_ hrest
      cases hm : m with
      | none => exact nanBounds_some hex hw hw
      | some b =>
        have hb := h.sized b hm
        exact nanBounds_some hex (length_pickLo hb.1 hw) (length_pickHi hb.2 hw)

theorem nanBounds_updateStatisticsFloat16 (h : NanBounds 2 isNanHalf m vs)
    (hws : ∀ w ∈ ws, w.length = 2) :
    NanBounds 2 isNanHalf (updateStatisticsFloat16 m ws) (vs ++ ws) := by
  have hb := nanBounds_float16Bounds h hws
  unfold updateStatisticsFloat16
  cases hm : float16Bounds m ws with
  | none => rwa [hm] at hb
  | some b =>
    have hsized := hb.sized b hm
    refine nanBounds_some (hb.isSome.mp (by simp [hm])) ?_ ?_
    · split
      · rfl
      · exact hsized.1
    · split
      · rfl
      · exact hsized.2

/-- Bounds so short survive a refused call. -/
theorem addValues_refused_of_short {s : PageStats} (isPlain : Bool)
    (h : ∀ b, s.minMax = some b → b.1.length ≤ statSnapshotSize ∧ b.2.length ≤ statSnapshotSize) :
    s.addValues .byteArray isPlain .refused = s := by
  simp only [PageStats.addValues]
  cases hm : s.minMax with
  | none => rfl
  | some b => exact if_pos (h b hm)

/-! ## Pages with bounds -/

/-- What a cell of such a column looks like. -/
def Cell.FitsKind (c : Cell) : StatKind → Prop
  | .ordered ty => c.Fits ty
  | .floating f => ∃ v, c = some v ∧ v.length = f.size
  | .float16 => ∃ v, c = some v ∧ v.length = 2
  | .unordered => True

/-- `dict_eligible_type` (column_writer.c:271-276). -/
def dictEligibleType : PhysicalType → Bool
  | .int32 | .int64 | .float | .double | .byteArray => true
  | _ => false

/-- The content is one that the column can be given. -/
def PageContent.Fits (col : IndexColumn) : PageContent → Prop
  | .batches calls => ∀ c ∈ calls.flatMap PageCall.cells, c.FitsKind col.kind
  | .dictionary b => dictEligibleType col.type = true ∧ ∀ c ∈ b.cells, c.FitsKind col.kind

/-- Some value of the page is ordered and is not given up: it has a data pointer, is not NaN, has a
type with an order and a width, and no refused call drops it for being long; with a dictionary
no value is empty. -/
def PageContent.HasBounds (col : IndexColumn) : PageContent → Prop
  | .batches calls =>
    match col.kind with
    | .ordered ty =>
      ty ≠ .fixedLenByteArray 0 ∧ surviving ty (calls.map PageCall.addCall) ≠ []
    | .floating f => ∃ c ∈ calls.flatMap PageCall.cells, isNanValue f c.value = false
    | .float16 => ∃ c ∈ calls.flatMap PageCall.cells, isNanHalf c.value = false
    | .unordered => False
  | .dictionary b => b.cells ≠ [] ∧ [] ∉ b.cells.map Cell.value

/-- The statistics of a page writer see the calls, if they see anything. -/
theorem stats_foldl_addValues (col : IndexColumn) (w : PageWriter) (calls : List PageCall) :
    (calls.foldl (PageWriter.addValues col) w).stats =
      if col.collects then
        (calls.map PageCall.addCall).foldl (PageStats.add col.kind col.isPlain) w.stats
      else w.stats := by
  induction calls generalizing w with
  | nil => simp
  | cons call calls ih =>
    rw [List.foldl_cons, ih]
    cases call with
    | accepted b =>
      simp only [PageWriter.addValues, List.map_cons, List.foldl_cons]
      split <;> rfl
    | refused =>
      simp only [PageWriter.addValues, List.map_cons, List.foldl_cons]
      split <;> rfl

theorem flatMap_addCall_cells (calls : List PageCall) :
    (calls.map PageCall.addCall).flatMap AddCall.cells = calls.flatMap PageCall.cells := by
  induction calls with
  | nil => rfl
  | cons call calls ih =>
    rw [List.map_cons, List.flatMap_cons, List.flatMap_cons, ih]
    cases call <;> rfl

/-- A run of calls keeps bounds that pass over NaN, where one call taken does. -/
theorem nanBounds_foldl (kind : StatKind) (isPlain : Bool) {s : PageStats}
    (isNan : Value → Bool) (hsize : size ≤ statSnapshotSize)
    (hrefused : ∀ t : PageStats, t.add kind isPlain .refused = t.addValues .byteArray isPlain .refused)
    (hstep : ∀ (t : PageStats) (us : List Value) (cells : List Cell),
      NanBounds size isNan t.minMax us → (∀ c ∈ cells, c.value.length = size) →
        NanBounds size isNan (t.add kind isPlain (.accepted cells)).minMax
          (us ++ cells.map Cell.value))
    (calls : List AddCall) (h : NanBounds size isNan s.minMax vs)
    (hfit : ∀ c ∈ calls.flatMap AddCall.cells, c.value.length = size) :
    NanBounds size isNan (calls.foldl (PageStats.add kind isPlain) s).minMax
      (vs ++ (calls.flatMap AddCall.cells).map Cell.value) := by
  induction calls generalizing s vs with
  | nil => simpa using h
  | cons call calls ih =>
    rw [List.flatMap_cons] at hfit
    have hrest := fun c hc => hfit c (List.mem_append_right _ hc)
    rw [List.foldl_cons, List.flatMap_cons, List.map_append, ← List.append_assoc]
    cases call with
    | accepted cells =>
      exact ih (hstep s vs cells h fun c hc => hfit c (List.mem_append_left _ hc)) hrest
    | refused =>
      have hs : s.add kind isPlain .refused = s := by
        rw [hrefused]
        refine addValues_refused_of_short isPlain fun b hb => ?_
        have := h.sized b hb
        omega
      rw [hs]
      simpa [AddCall.cells] using ih h hrest

theorem statKind_floating {type : PhysicalType} {typeLength : Nat} {lt : LogicalType}
    {f : FloatFormat} (h : statKind type typeLength lt = .floating f) : f.size ≤ statSnapshotSize := by
  cases type <;> simp only [statKind] at h
  case float => injection h with h; subst h; decide
  case double => injection h with h; subst h; decide
  case fixedLenByteArray => split at h <;> cases h
  all_goals cases h

/-- **A page written call by call has bounds when it should.** -/
theorem isSome_batches {col : IndexColumn} {calls : List PageCall}
    (hfit : (PageContent.batches calls).Fits col) :
    ((PageContent.batches calls).writer col).stats.minMax.isSome = true ↔
      col.collects = true ∧ (PageContent.batches calls).HasBounds col := by
  simp only [PageContent.writer, stats_foldl_addValues]
  split
  swap
  · rename_i hc
    simp [PageWriter.reset, PageStats.reset, hc]
  rename_i hcollects
  simp only [hcollects, true_and]
  have hfit : ∀ c ∈ (calls.map PageCall.addCall).flatMap AddCall.cells, c.FitsKind col.kind := by
    rw [flatMap_addCall_cells]
    exact hfit
  cases hkind : col.kind with
  | ordered ty =>
    have hadd : PageStats.add (.ordered ty) col.isPlain = PageStats.addValues ty col.isPlain := by
      funext s call
      cases call <;> rfl
    have htracks := foldl_addValues_tracks col.isPlain (calls.map PageCall.addCall)
      (PageStats.tracks_reset ty) fun call hcall c hc => by
        simpa [Cell.FitsKind, hkind] using hfit c (List.mem_flatMap.mpr ⟨call, hcall, hc⟩)
    simp only [hadd, PageContent.HasBounds, hkind, PageWriter.reset, surviving]
    by_cases hty : ty = .fixedLenByteArray 0
    · rw [htracks.noWidth hty]
      simp [hty]
    · have hb := htracks.bounds hty
      cases hm : ((calls.map PageCall.addCall).foldl (PageStats.addValues ty col.isPlain)
          .reset).minMax with
      | none =>
        rw [hm] at hb
        have hnil : (calls.map PageCall.addCall).foldl (survivingStep ty) [] = [] := hb
        simp [hnil]
      | some b =>
        rw [hm] at hb
        obtain ⟨v, hv, -⟩ := hb.1.lo_mem
        simp only [Option.isSome_some, true_iff]
        exact ⟨hty, List.ne_nil_of_mem hv⟩
  | floating f =>
    have hvalue : ∀ c ∈ (calls.map PageCall.addCall).flatMap AddCall.cells,
        c.value.length = f.size := by
      intro c hc
      obtain ⟨v, rfl, hv⟩ : ∃ v, c = some v ∧ v.length = f.size := by
        simpa [Cell.FitsKind, hkind] using hfit c hc
      exact hv
    have hb := nanBounds_foldl (.floating f) col.isPlain (s := .reset) (isNanValue f)
      (statKind_floating hkind) (fun _ => rfl) ?_ _ nanBounds_none hvalue
    · simp only [PageContent.HasBounds, hkind]
      refine hb.isSome.trans ?_
      simp [flatMap_addCall_cells]
    · intro t us cells ht hcells
      have hws : ∀ w ∈ cells.map Cell.value, w.length = f.size := by simpa using hcells
      simp only [PageStats.add]
      split
      · exact nanBounds_encodePlainFloatWithStats ht hws
      · exact nanBounds_updateStatisticsFloat ht hws
  | float16 =>
    have hvalue : ∀ c ∈ (calls.map PageCall.addCall).flatMap AddCall.cells,
        c.value.length = 2 := by
      intro c hc
      obtain ⟨v, rfl, hv⟩ : ∃ v, c = some v ∧ v.length = 2 := by
        simpa [Cell.FitsKind, hkind] using hfit c hc
      exact hv
    have hb := nanBounds_foldl .float16 col.isPlain (s := .reset) isNanHalf (by decide)
      (fun _ => rfl) ?_ _ nanBounds_none hvalue
    · simp only [PageContent.HasBounds, hkind]
      refine hb.isSome.trans ?_
      simp [flatMap_addCall_cells]
    · intro t us cells ht hcells
      exact nanBounds_updateStatisticsFloat16 ht (by simpa using hcells)
  | unordered =>
    have hgo (cs : List AddCall) (s : PageStats) (hs : s.minMax = none) :
        (cs.foldl (PageStats.add .unordered col.isPlain) s).minMax = none := by
      induction cs generalizing s with
      | nil => exact hs
      | cons call cs ih =>
        refine ih _ ?_
        cases call with
        | accepted cells => exact hs
        | refused => simp only [PageStats.add, PageStats.addValues, hs]
    simp only [PageContent.HasBounds, hkind]
    rw [hgo _ PageWriter.reset.stats rfl]
    simp

theorem kind_of_dictEligible {col : IndexColumn} (h : dictEligibleType col.type = true) :
    (∃ ty, col.kind = .ordered ty ∧ ty.dictEligible = true) ∨
      ∃ f, col.kind = .floating f ∧ 0 < f.size := by
  unfold IndexColumn.kind
  cases ht : col.type with
  | int32 => exact .inl ⟨_, rfl, rfl⟩
  | int64 => exact .inl ⟨_, rfl, rfl⟩
  | byteArray => exact .inl ⟨_, rfl, rfl⟩
  | float => exact .inr ⟨.single, rfl, by decide⟩
  | double => exact .inr ⟨.double, rfl, by decide⟩
  | _ => simp [ht, dictEligibleType] at h

/-- Bounds that are not empty are those of values that are not. -/
theorem isSome_setMinMax {kind : StatKind} {vs : List Value}
    (h : ∀ b, dictMinMax kind vs = some b → ([] ∈ vs ↔ b.1.length = 0 ∨ b.2.length = 0)) :
    (setMinMax (dictMinMax kind vs)).isSome = true ↔ vs ≠ [] ∧ [] ∉ vs := by
  cases vs with
  | nil => simp [dictMinMax, setMinMax]
  | cons v vs =>
    rw [h _ rfl]
    simp only [dictMinMax, setMinMax, Option.filter_some]
    split
    · rename_i hlen
      simpa using hlen
    · rename_i hlen
      simpa [not_or, Decidable.or_iff_not_imp_left] using hlen

/-- **So has a dictionary-encoded page.** -/
theorem isSome_dictionary {col : IndexColumn} {b : LevelBatch}
    (hfit : (PageContent.dictionary b).Fits col) :
    ((PageContent.dictionary b).writer col).stats.minMax.isSome = true ↔
      col.collects = true ∧ (PageContent.dictionary b).HasBounds col := by
  have hbounds : (setMinMax (dictMinMax col.kind (b.cells.map Cell.value))).isSome = true ↔
      b.cells ≠ [] ∧ [] ∉ b.cells.map Cell.value := by
    rw [isSome_setMinMax, ne_eq, ne_eq, List.map_eq_nil_iff]
    intro bounds hm
    rcases kind_of_dictEligible hfit.1 with ⟨ty, hkind, hty⟩ | ⟨f, hkind, hf⟩
    · have hcells : ∀ c ∈ b.cells, c.Fits ty := by simpa [Cell.FitsKind, hkind] using hfit.2
      have hsized := (sized_of_fits hcells).1
      have hb := dictComputeMinMax_bounded hty hsized
      rw [hkind] at hm
      have hm : dictComputeMinMax ty (b.cells.map Cell.value) = some bounds := by
        cases hvs : b.cells.map Cell.value with
        | nil => simp [hvs, dictMinMax] at hm
        | cons v vs =>
          rw [hvs] at hm
          exact hm
      rw [hm] at hb
      exact nil_mem_iff hb.1 hb.2.1.1 hb.2.2.1 hsized
    · have hcells : ∀ v ∈ b.cells.map Cell.value, v.length = f.size := by
        intro v hv
        obtain ⟨c, hc, rfl⟩ := List.mem_map.mp hv
        obtain ⟨w, rfl, hw⟩ : ∃ v, c = some v ∧ v.length = f.size := by
          simpa [Cell.FitsKind, hkind] using hfit.2 c hc
        exact hw
      have hmem : bounds.1 ∈ b.cells.map Cell.value ∧ bounds.2 ∈ b.cells.map Cell.value := by
        cases hvs : b.cells.map Cell.value with
        | nil => simp [hvs, dictMinMax] at hm
        | cons v vs =>
          simp only [hvs, dictMinMax, Option.some.injEq] at hm
          rw [← hm]
          exact ofList_mem _ v vs
      have h1 := hcells _ hmem.1
      have h2 := hcells _ hmem.2
      refine ⟨fun hnil => ?_, fun h => by omega⟩
      have := hcells [] hnil
      simp only [List.length_nil] at this
      omega
  simp only [PageContent.writer, PageWriter.addDictionaryIndices, PageContent.HasBounds]
  rw [← hbounds]
  split
  · rename_i h
    have h := (Bool.and_eq_true _ _).mp h
    exact ⟨fun _ => h, fun _ => h.2⟩
  · rename_i h
    simpa [PageWriter.reset, PageStats.reset] using h

/-! ## Null pages -/

/-- A page with bounds has a value. -/
theorem cells_ne_nil_of_hasBounds {col : IndexColumn} {content : PageContent}
    (h : content.HasBounds col) : content.cells ≠ [] := by
  cases content with
  | dictionary b => exact h.1
  | batches calls =>
    simp only [PageContent.HasBounds] at h
    split at h
    · obtain ⟨v, hv⟩ := List.exists_mem_of_ne_nil _ h.2
      obtain ⟨call, hcall, hmem⟩ := mem_surviving hv
      refine List.ne_nil_of_mem (a := some v) ?_
      rw [PageContent.cells, ← flatMap_addCall_cells]
      exact List.mem_flatMap.mpr ⟨call, hcall, hmem⟩
    · obtain ⟨c, hc, -⟩ := h
      exact List.ne_nil_of_mem hc
    · obtain ⟨c, hc, -⟩ := h
      exact List.ne_nil_of_mem hc
    · exact h.elim

/-- What the column index says of null pages: one entry a page, marked when and only when the page
has no value, so that no query rules out a page with a value for being null. -/
def NullPagesRight (c : PlacedChunk) : Prop :=
  c.written.columnIndex.length = c.chunk.pages.length ∧
    ∀ i p, c.chunk.pages[i]? = some p →
      (∃ e, c.written.columnIndex[i]? = some e ∧ (e.nullPage = true ↔ p.content.cells = [])) ∧
      (p.content.cells ≠ [] →
        columnIndexPageMightMatch c.column.kind c.written.columnIndex i none none = some true)

/-- A file whose columns are given what they can hold. -/
structure IndexedFile where
  cols : List IndexColumn
  groups : List GroupRun
  fits : ∀ c ∈ runFile cols groups, ∀ p ∈ c.chunk.pages, p.content.Fits c.column

theorem columnIndex_eq {cols : List IndexColumn} {groups : List GroupRun} {c : PlacedChunk}
    (hc : c ∈ runFile cols groups) :
    c.written.columnIndex = c.chunk.pages.map fun p => p.content.indexPage c.column := by
  obtain ⟨-, hwritten⟩ := mem_runFile hc
  obtain ⟨bases, -, hfollows⟩ := follows_finalize c.column c.chunk c.position
  rw [hwritten]
  exact hfollows.columnIndex

theorem nullPage_indexPage {col : IndexColumn} {content : PageContent} (h : content.Fits col) :
    (content.indexPage col).nullPage = false ↔ col.collects = true ∧ content.HasBounds col := by
  have hsome : (content.writer col).stats.minMax.isSome = true ↔
      col.collects = true ∧ content.HasBounds col := by
    cases content with
    | batches calls => exact isSome_batches h
    | dictionary b => exact isSome_dictionary h
  simpa [PageContent.indexPage] using hsome

/-- **In every file the null pages of a chunk are marked right when, and only when, statistics
are collected and each page with a value has bounds.** -/
theorem nullPages_right_iff (file : IndexedFile) :
    ∀ c ∈ runFile file.cols file.groups, NullPagesRight c ↔
      ∀ p ∈ c.chunk.pages, p.content.cells = [] ∨
        c.column.collects = true ∧ p.content.HasBounds c.column := by
  intro c hc
  have hindex := columnIndex_eq hc
  simp only [NullPagesRight, hindex, List.length_map, true_and]
  have hentry (i : Nat) (p : WrittenPage) (hp : c.chunk.pages[i]? = some p) :
      (c.chunk.pages.map fun p => p.content.indexPage c.column)[i]? =
        some (p.content.indexPage c.column) := by
    rw [List.getElem?_map, hp]
    rfl
  constructor
  · intro h p hp
    obtain ⟨i, hi⟩ := List.mem_iff_getElem?.mp hp
    obtain ⟨⟨e, he, hnull⟩, -⟩ := h i p hi
    rw [hentry i p hi] at he
    obtain rfl := Option.some.inj he
    have hiff := nullPage_indexPage (file.fits c hc p hp)
    by_cases hcells : p.content.cells = []
    · exact .inl hcells
    · refine .inr (hiff.mp ?_)
      rw [← Bool.not_eq_true, hnull]
      exact hcells
  · intro h i p hi
    have hp := List.mem_of_getElem? hi
    have hiff := nullPage_indexPage (file.fits c hc p hp)
    have hnot : p.content.cells ≠ [] → (p.content.indexPage c.column).nullPage = false :=
      fun hcells => hiff.mpr ((h p hp).resolve_left hcells)
    refine ⟨⟨_, hentry i p hi, ?_, ?_⟩, fun hcells => ?_⟩
    · intro hnull
      by_contra hcells
      rw [hnot hcells] at hnull
      exact absurd hnull (by decide)
    · intro hcells
      by_contra hnull
      exact cells_ne_nil_of_hasBounds (hiff.mp (Bool.eq_false_iff.mpr hnull)).2 hcells
    · simp [columnIndexPageMightMatch, hentry i p hi, hnot hcells]

/-- One page of a FLOAT column, whose only value is NaN. -/
def onlyNan : IndexedFile where
  cols := [⟨.float, 0, .unknown, true, true⟩]
  groups := [⟨[.paged [.addValues (.accepted ⟨[some [0, 0, 0xC0, 0x7F]], [0], by decide⟩)]
    [.flush (some ⟨21, 4⟩)]], 0⟩]
  fits := by
    intro c hc p hp
    have hc := List.mem_singleton.mp hc
    subst hc
    have hp := List.mem_singleton.mp hp
    subst hp
    intro c hc
    have hc := List.mem_singleton.mp hc
    subst hc
    exact ⟨_, rfl, rfl⟩

/-- Its chunk is right when its page has bounds, which it has not. -/
theorem onlyNan_right_iff :
    NullPagesRight ((runFile onlyNan.cols onlyNan.groups).head (List.cons_ne_nil _ _)) ↔
      ∀ p ∈ ((runFile onlyNan.cols onlyNan.groups).head (List.cons_ne_nil _ _)).chunk.pages,
        p.content.cells = [] ∨
          ((runFile onlyNan.cols onlyNan.groups).head (List.cons_ne_nil _ _)).column.collects =
              true ∧
            p.content.HasBounds
              ((runFile onlyNan.cols onlyNan.groups).head (List.cons_ne_nil _ _)).column :=
  nullPages_right_iff onlyNan _ (List.head_mem _)

/-- It is marked as a null page. -/
theorem onlyNan_null :
    ¬ ∀ c ∈ runFile onlyNan.cols onlyNan.groups, NullPagesRight c := by
  intro h
  obtain ⟨-, hpages⟩ := h _ List.mem_cons_self
  obtain ⟨⟨e, he, hnull⟩, -⟩ := hpages 0 _ rfl
  obtain rfl := Option.some.inj he
  exact absurd (hnull.mp (by decide)) (by decide)

end Carquet
