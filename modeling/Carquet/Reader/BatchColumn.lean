import Carquet.Reader.BatchReader
import Carquet.Reader.ColumnReaderSpec

/-!
# One column of a batch

What `read_projected_column` hands out are the next rows of the column, each in its slot
(`ColumnData.Shows`), whether as a view of the page or as a copy: `readProjectedColumn_holds`.
-/

namespace Carquet

open LevelStream

variable {α : Type}

section Rows

variable [Zero α]

/-- The bit of a row; without a bitmap every row is present. -/
def ColumnData.isPresent (d : ColumnData α) (i : Nat) : Bool :=
  match d.nullBitmap with
  | some bitmap => (bitmap.getD (i / 8) 0).toNat.testBit (i % 8)
  | none => true

/-- A column of a batch shows these rows: the value of each row that has one with its bit set, a
zero with a clear bit for each that has none. -/
structure ColumnData.Shows (d : ColumnData α) (rows : List (Option α)) : Prop where
  numValues_eq : d.numValues = rows.length
  data_eq : d.data = rows.map fun row => row.getD 0
  isPresent_eq : ∀ i (h : i < rows.length), d.isPresent i = rows[i].isSome

/-! ## Null slots -/

/-- The loop from back to front. The cells behind `dst` are done; the values of the rows before
are still at the start. -/
theorem expandNulls_eq (maxDefLevel : Int) (levels : List Int) (values : List α)
    (dst : Nat) (hdst : dst ≤ levels.length) (data : List α) (hlen : data.length = levels.length)
    (hvalues : ∀ i < (levels.take dst).countP (· == maxDefLevel), data[i]? = values[i]?)
    (hdone : ∀ i, dst ≤ i → data[i]? =
      ((weave (· == maxDefLevel) levels values).map fun row => row.getD 0)[i]?)
    (hcount : levels.countP (· == maxDefLevel) ≤ values.length) :
    expandNulls maxDefLevel levels dst ((levels.take dst).countP (· == maxDefLevel)) data =
      (weave (· == maxDefLevel) levels values).map fun row => row.getD 0 := by
  induction dst generalizing data with
  | zero =>
    refine List.ext_getElem? fun i => ?_
    rw [expandNulls]
    exact hdone i (Nat.zero_le i)
  | succ dst ih =>
    have hlt : dst < levels.length := hdst
    have htake : levels.take (dst + 1) = levels.take dst ++ [levels[dst]] :=
      (List.take_append_getElem hlt).symm
    have hgetD : levels.getD dst 0 = levels[dst] := by simp [hlt]
    have hrow := getElem?_weave (· == maxDefLevel) levels values dst levels[dst]
      (List.getElem?_eq_getElem hlt)
    have hle : (levels.take dst).countP (· == maxDefLevel) ≤ dst :=
      Nat.le_trans List.countP_le_length (by rw [List.length_take]; omega)
    rw [expandNulls, hgetD]
    split
    next heq =>
      have hbeq : (levels[dst] == maxDefLevel) = true := by simpa using heq
      have hpresent : (levels.take (dst + 1)).countP (· == maxDefLevel) =
          (levels.take dst).countP (· == maxDefLevel) + 1 := by
        rw [htake, List.countP_append, List.countP_singleton, if_pos hbeq]
      rw [hpresent, Nat.add_sub_cancel]
      rw [hpresent] at hvalues
      rw [if_pos hbeq] at hrow
      refine ih (Nat.le_of_succ_le hdst) _ (by rw [List.length_set, hlen]) ?_ ?_
      · intro i hi
        rw [List.getElem?_set_ne (by omega)]
        exact hvalues i (by omega)
      · intro i hi
        rcases Nat.eq_or_lt_of_le hi with rfl | hi
        · have hcell : (levels.take dst).countP (· == maxDefLevel) < values.length := by
            have := (List.take_sublist (dst + 1) levels).countP_le (p := (· == maxDefLevel))
            omega
          rw [List.getElem?_set_self (by omega), List.getElem?_map, hrow, List.getD_eq_getElem?_getD,
            hvalues _ (Nat.lt_succ_self _), List.getElem?_eq_getElem hcell]
          rfl
        · rw [List.getElem?_set_ne (by omega)]
          exact hdone i hi
    next hne =>
      have hbeq : ¬ (levels[dst] == maxDefLevel) = true := by simpa using hne
      have hpresent : (levels.take (dst + 1)).countP (· == maxDefLevel) =
          (levels.take dst).countP (· == maxDefLevel) := by
        rw [htake, List.countP_append, List.countP_singleton, if_neg hbeq, Nat.add_zero]
      rw [hpresent]
      rw [hpresent] at hvalues
      rw [if_neg hbeq] at hrow
      refine ih (Nat.le_of_succ_le hdst) _ (by rw [List.length_set, hlen]) ?_ ?_
      · intro i hi
        rw [List.getElem?_set_ne (by omega)]
        exact hvalues i hi
      · intro i hi
        rcases Nat.eq_or_lt_of_le hi with rfl | hi
        · rw [List.getElem?_set_self (by omega), List.getElem?_map, hrow]
          rfl
        · rw [List.getElem?_set_ne (by omega)]
          exact hdone i hi

end Rows

theorem isPresent_eq_beq {maxDefLevel : Int} (h : 0 < maxDefLevel) :
    isPresent maxDefLevel = (· == maxDefLevel) := by
  funext level
  simp only [isPresent, Bool.or_eq_right_iff_imp, decide_eq_true_eq]
  omega

theorem rows_of_nullable {maxDefLevel : Int} (h : 0 < maxDefLevel) (s : Entries α maxDefLevel) :
    s.rows = weave (· == maxDefLevel) s.levels s.values :=
  congrArg (fun present => weave present s.levels s.values) (isPresent_eq_beq h)

theorem length_values_of_nullable {maxDefLevel : Int} (h : 0 < maxDefLevel)
    (s : Entries α maxDefLevel) : s.values.length = s.levels.countP (· == maxDefLevel) :=
  s.length_values.trans (congrArg (fun present => s.levels.countP present) (isPresent_eq_beq h))

theorem rows_of_required {maxDefLevel : Int} (h : ¬ 0 < maxDefLevel) (s : Entries α maxDefLevel) :
    s.rows = s.values.map some := by
  refine weave_eq_map_some (fun level _ => by simp [isPresent]; omega) ?_
  rw [s.length_values, countP_isPresent_of_required h]

/-- The values of a nullable column in their slots. -/
theorem expandRows_eq [Zero α] {maxDefLevel : Int} (h : 0 < maxDefLevel) (s : Entries α maxDefLevel) :
    expandRows maxDefLevel s.levels s.length s.values = s.rows.map fun row => row.getD 0 := by
  have hcount := length_values_of_nullable h s
  have hle : s.levels.countP (· == maxDefLevel) ≤ s.levels.length := List.countP_le_length
  rw [rows_of_nullable h]
  unfold expandRows Stream.length
  dsimp only
  split
  · have := expandNulls_eq maxDefLevel s.levels s.values s.levels.length (Nat.le_refl _)
      (s.values ++ List.replicate (s.levels.length - s.values.length) 0)
      (by rw [List.length_append, List.length_replicate]; omega)
      (fun i hi => by
        rw [List.take_length] at hi
        rw [List.getElem?_append_left (by omega)])
      (fun i hi => by
        rw [List.getElem?_eq_none
            (by rw [List.length_append, List.length_replicate]; omega),
          List.getElem?_eq_none (by rw [List.length_map, length_weave]; exact hi)])
      (Nat.le_of_eq hcount.symm)
    rwa [List.take_length] at this
  · have hall : ∀ level ∈ s.levels, (level == maxDefLevel) = true :=
      List.countP_eq_length.mp (by omega)
    rw [weave_eq_map_some hall (by omega), List.map_map]
    exact (List.map_id _).symm

/-! ## The bitmap -/

theorem presentBits_lt (maxDefLevel : Int) (levels : List Int) :
    presentBits maxDefLevel levels < 2 ^ levels.length := by
  induction levels with
  | nil => exact Nat.one_pos
  | cons level levels ih =>
    rw [presentBits, List.length_cons, Nat.pow_succ]
    split <;> omega

theorem testBit_presentBits (maxDefLevel : Int) (levels : List Int) (j : Nat) :
    (presentBits maxDefLevel levels).testBit j = (levels[j]? == some maxDefLevel) := by
  induction levels generalizing j with
  | nil => simp [presentBits]
  | cons level levels ih =>
    rw [presentBits]
    cases j with
    | zero =>
      rw [Nat.testBit_zero, List.getElem?_cons_zero]
      by_cases h : level = maxDefLevel
      · simp [h]
      · simp [h]
    | succ j =>
      rw [Nat.testBit_succ, List.getElem?_cons_succ, ← ih]
      congr 1
      split <;> omega

/-- The bit of a row says whether its level is the highest. -/
theorem testBit_buildNullBitmap (maxDefLevel : Int) (levels : List Int) {size i : Nat}
    (h : i < 8 * size) :
    ((buildNullBitmap maxDefLevel levels size).getD (i / 8) 0).toNat.testBit (i % 8) =
      (levels[i]? == some maxDefLevel) := by
  have hbyte : i / 8 < size := by omega
  have hmod := Nat.mod_lt i (show 8 > 0 by decide)
  have hlt : presentBits maxDefLevel ((levels.drop (8 * (i / 8))).take 8) < 256 := by
    refine Nat.lt_of_lt_of_le (presentBits_lt _ _) ?_
    exact Nat.pow_le_pow_right (by decide)
      (by rw [List.length_take]; omega : _ ≤ 8)
  rw [buildNullBitmap, List.getD_eq_getElem?_getD, List.getElem?_map,
    List.getElem?_range hbyte, Option.map_some, Option.getD_some, UInt8.toNat_ofNat',
    Nat.mod_eq_of_lt hlt, testBit_presentBits, List.getElem?_take_of_lt hmod, List.getElem?_drop,
    Nat.div_add_mod]

/-! ## The rows a reader has before it -/

/-- The reader of a projected column has these rows before it. -/
def ProjectedReader.Holds (p : ProjectedReader α) (rows : List (Option α)) : Prop :=
  ∃ (s : Entries α p.column.maxDefLevel) (sizes : List Nat),
    Unread p.reader s sizes ∧ s.rows = rows

/-- What `get_type_size` and the limit on the buffers let through, for batches of `rows` rows. -/
def ProjectedColumn.Fits (c : ProjectedColumn) (rows : Nat) : Prop :=
  c.valueSize ≠ 0 ∧ c.valueSize ≤ maxBatchAlloc / rows

theorem ProjectedColumn.Fits.mono {c : ProjectedColumn} {rows rows' : Nat} (h : c.Fits rows)
    (hpos : 0 < rows') (hle : rows' ≤ rows) : c.Fits rows' :=
  ⟨h.1, Nat.le_trans h.2 (Nat.div_le_div_left hle hpos)⟩

theorem ProjectedColumn.Fits.min_mono {c : ProjectedColumn} {size rows rows' : Nat}
    (h : c.Fits (min size rows)) (hsize : 0 < size) (hpos : 0 < rows') (hle : rows' ≤ rows) :
    c.Fits (min size rows') := h.mono (by omega) (by omega)

theorem ProjectedReader.Holds.remaining {p : ProjectedReader α} {rows : List (Option α)}
    (h : p.Holds rows) : p.reader.valuesRemaining = rows.length := by
  obtain ⟨s, sizes, hunread, rfl⟩ := h
  rw [hunread.remaining, Stream.length_rows]

/-- Loading a page takes no row away. -/
theorem peek_holds {p : ProjectedReader α} {rows : List (Option α)} (h : p.Holds rows) :
    (peek p).Holds rows := by
  obtain ⟨s, sizes, hunread, rfl⟩ := h
  obtain ⟨m, r', hm, hread, h', -⟩ := readBatch_spec hunread 0 ⟨false, false⟩
  obtain rfl : m = 0 := by omega
  rw [Stream.drop_zero] at h'
  refine ⟨s, dropSizes 0 sizes, ?_, rfl⟩
  unfold peek
  rw [show ((0 : Int)) = ((0 : Nat) : Int) from rfl, hread]
  exact h'

theorem prefetch_holds {p : ProjectedReader α} {rows : List (Option α)} (h : p.Holds rows) :
    (prefetch p).Holds rows := by
  unfold prefetch
  split
  · exact peek_holds h
  · exact h

theorem prefetch_column (p : ProjectedReader α) : (prefetch p).column = p.column := by
  unfold prefetch peek
  split <;> rfl

/-- A view of the page that is loaded shows the next rows. -/
theorem handOff_holds [Zero α] {p : ProjectedReader α} {rows : List (Option α)} (h : p.Holds rows)
    {k : Nat} (hpos : 0 < k) (hlt : k < 2147483648) (hsize : p.column.valueSize ≠ 0)
    (hview : columnCanZeroCopyBatch p k = true) :
    (handOff p k).1.Shows (rows.take k) ∧ (handOff p k).2.Holds (rows.drop k) := by
  obtain ⟨s, sizes, hunread, rfl⟩ := h
  obtain ⟨hhas, havail⟩ := Bool.and_eq_true_iff.mp hview
  have havail := of_decide_eq_true havail
  have hflat : p.column.maxDefLevel = 0 := by
    unfold ProjectedReader.hasView at hhas
    exact (of_decide_eq_true (Bool.and_eq_true_iff.mp hhas).2).1
  have htoI32 : toI32 (k : Int) = k := toI32_of_range (by omega) (by omega)
  rw [htoI32] at havail
  unfold ProjectedReader.pageAvailable at havail
  obtain ⟨pages, hloads, hcases⟩ := hunread.pages
  cases hpage : p.reader.page with
  | none =>
    rw [hpage] at havail
    exact absurd havail.1 (Int.lt_irrefl 0)
  | some page =>
    rw [hpage] at havail
    simp only at havail
    obtain ⟨hbetween, -, -⟩ | ⟨q, hwithin, hs, hsizes⟩ := hcases
    · have := hbetween page hpage
      omega
    · obtain rfl : q.toLoadedPage = page := Option.some.inj (hwithin.1.symm.trans hpage)
      obtain ⟨sizes', hsizes', htake, hadvance⟩ := hunread.advance hwithin (n := k) (by omega)
      have hrequired : ¬ 0 < p.column.maxDefLevel := by omega
      have hlength : k ≤ s.length := by
        have := hunread.sum_sizes
        rw [hsizes', List.sum_cons] at this
        omega
      have hdense : ∀ (t : Entries α p.column.maxDefLevel) n, n ≤ t.length → t.dense n = n := by
        intro t n hn
        rw [Stream.dense, countP_isPresent_of_required hrequired, List.length_take]
        unfold Stream.length at hn
        omega
      have hvalues : (q.values.drop p.reader.pageValuesRead).take k = (s.take k).values := by
        rw [htake]
        change _ = (q.values.drop (q.entries.dense p.reader.pageValuesRead)).take
          ((q.entries.drop p.reader.pageValuesRead).dense k)
        rw [hdense q.entries _ (by rw [StoredPage.length_entries]; omega),
          hdense (q.entries.drop _) _ (by rw [Stream.length_drop, StoredPage.length_entries]; omega)]
      refine ⟨?_, s.drop k, _, hadvance, Stream.rows_drop k s⟩
      rw [← Stream.rows_take, rows_of_required hrequired]
      unfold handOff
      rw [hpage]
      simp only [if_neg hsize, Int.toNat_natCast, hvalues]
      refine ⟨?_, ?_, ?_⟩
      · have := (s.take k).length_values
        rw [countP_isPresent_of_required hrequired] at this
        change _ = (s.take k).length at this
        rw [List.length_map, this, Stream.length_take, Nat.min_eq_left hlength]
      · rw [List.map_map]
        exact (List.map_id _).symm
      · intro i hi
        simp [ColumnData.isPresent]

/-- A copy shows the next rows. -/
theorem copyRows_holds [Zero α] {p : ProjectedReader α} {rows : List (Option α)} (h : p.Holds rows)
    {k : Nat} (hpos : 0 < k) (hlt : k < 2147483648) (hfits : p.column.Fits k) :
    ∃ d p', copyRows p k = (some d, p') ∧ d.Shows (rows.take k) ∧ p'.Holds (rows.drop k) ∧
      p'.column = p.column := by
  obtain ⟨s, sizes, hunread, rfl⟩ := h
  obtain ⟨m, r', hm, hread, h', hall⟩ :=
    readBatch_spec hunread k ⟨decide (0 < p.column.maxDefLevel), false⟩
  obtain rfl := hall.mpr (readFits_of_lt hlt sizes)
  have hslice : s.take (min k s.length) = s.take k := by
    rcases Nat.le_total k s.length with hle | hle
    · rw [Nat.min_eq_left hle]
    · rw [Nat.min_eq_right hle, Stream.take_of_length_le (Nat.le_refl _),
        Stream.take_of_length_le hle]
  rw [hslice] at hread
  have hcount : (resultOf (s.take k) ⟨decide (0 < p.column.maxDefLevel), false⟩).count =
      ((s.take k).length : Int) := rfl
  have hguard : ¬ (p.column.valueSize = 0 ∨ (k : Int) ≤ 0 ∨
      maxBatchAlloc / k < p.column.valueSize) := by
    have := hfits.1
    have := hfits.2
    omega
  unfold copyRows
  dsimp only
  rw [Int.toNat_natCast, if_neg hguard, hread]
  dsimp only
  rw [hcount, if_neg (show ¬ ((s.take k).length : Int) < 0 by omega), Int.toNat_natCast]
  refine ⟨_, _, rfl, ?_, ⟨s.drop k, _, h'.drop_min hunread.sum_sizes, Stream.rows_drop k s⟩, rfl⟩
  rw [← Stream.rows_take]
  have hshort : (s.take k).length ≤ k := by
    rw [Stream.length_take]
    omega
  generalize s.take k = t at hshort
  by_cases hnull : 0 < p.column.maxDefLevel
  · simp only [resultOf, hnull, decide_true, if_true]
    refine ⟨by rw [Stream.length_rows], expandRows_eq hnull t, fun i hi => ?_⟩
    rw [Stream.length_rows] at hi
    have hlevel := List.getElem?_eq_getElem (l := t.levels) hi
    have hrow := getElem?_weave (· == p.column.maxDefLevel) t.levels t.values i _ hlevel
    have hget : t.rows[i]? = some t.rows[i] := List.getElem?_eq_getElem _
    have hvalue : (t.levels.take (i + 1)).countP (· == p.column.maxDefLevel) ≤ t.values.length := by
      rw [length_values_of_nullable hnull]
      exact (List.take_sublist _ _).countP_le
    simp only [ColumnData.isPresent]
    rw [testBit_buildNullBitmap _ _ (by omega), hlevel]
    rw [← rows_of_nullable hnull, hget, Option.some.injEq] at hrow
    rw [hrow]
    rw [← List.take_append_getElem hi, List.countP_append, List.countP_singleton] at hvalue
    split at hrow
    next hpresent =>
      rw [if_pos hpresent] at hvalue ⊢
      rw [List.getElem?_eq_getElem (by omega)]
      simpa using hpresent
    next habsent =>
      rw [if_neg habsent]
      simpa using habsent
  · simp only [resultOf, hnull, decide_false, Bool.false_eq_true, if_false]
    rw [rows_of_required hnull]
    have hlength := t.length_values
    rw [countP_isPresent_of_required hnull] at hlength
    refine ⟨by rw [List.length_map, hlength]; rfl, ?_, fun i hi => by simp [ColumnData.isPresent]⟩
    rw [List.map_map]
    exact (List.map_id _).symm

/-- **One column of a batch** shows the next rows of the column. -/
theorem readProjectedColumn_holds [Zero α] {p : ProjectedReader α} {rows : List (Option α)}
    (h : p.Holds rows) {k : Nat} (hpos : 0 < k) (hlt : k < 2147483648) (hfits : p.column.Fits k) :
    ∃ d p', readProjectedColumn k p = (some d, p') ∧ d.Shows (rows.take k) ∧
      p'.Holds (rows.drop k) ∧ p'.column = p.column := by
  unfold readProjectedColumn
  generalize hloaded : (if p.column.maxDefLevel = 0 ∧ p.reader.page.isNone then peek p else p) = q
  have hq : q.Holds rows ∧ q.column = p.column := by
    rw [← hloaded]
    split
    · exact ⟨peek_holds h, rfl⟩
    · exact ⟨h, rfl⟩
  dsimp only
  rw [← hq.2] at hfits ⊢
  split
  next hview =>
    obtain ⟨hshows, hholds⟩ := handOff_holds hq.1 hpos hlt hfits.1 hview
    exact ⟨_, _, rfl, hshows, hholds, rfl⟩
  next => exact copyRows_holds hq.1 hpos hlt hfits

end Carquet
