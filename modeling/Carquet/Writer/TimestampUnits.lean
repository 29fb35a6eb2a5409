import Carquet.Thrift.ParquetTypes
import Carquet.Writer.BatchWriter
import Mathlib.Data.List.Basic
import Mathlib.Logic.Function.Iterate

/-!
# Timestamps in another unit

`coerce_timestamp_values` (file_writer.c:1742-1780) in the arithmetic of `int64_t`. A finer unit
multiplies behind a guard, a coarser one divides towards zero. Neither 1000 nor 1000000 divides
`2^63`, so that the guard, which is symmetric, refuses just what overflows.
-/

namespace Carquet

open Parquet

/-- The code of a unit (types.h:102-106). -/
def Parquet.TimeUnit.rank : TimeUnit → Nat
  | .millis => 0
  | .micros => 1
  | .nanos => 2

/-- `timestamp_unit_factor` (file_writer.c:1743-1750). -/
def unitFactor (a b : TimeUnit) : Int64 :=
  (fun f : Int64 => f * 1000)^[((a.rank : Int) - b.rank).natAbs] 1

/-- `INT64_MAX / factor`. -/
def unitLimit (factor : Int64) : Int64 := Int64.maxValue / factor

/-- One value of `coerce_timestamp_values` (file_writer.c:1761-1777). -/
def coerceUnit (src dst : TimeUnit) (allowTruncation : Bool) (v : Int64) : Except Status Int64 :=
  let factor := unitFactor src dst
  if src.rank < dst.rank then
    let lim := unitLimit factor
    if v > lim ∨ v < -lim then .error .invalidArgument else .ok (v * factor)
  else if allowTruncation = false ∧ v % factor ≠ 0 then .error .invalidArgument
  else .ok (v / factor)

/-- `coerce_timestamp_values` (file_writer.c:1754-1780). -/
def coerceUnits (src dst : TimeUnit) (allowTruncation : Bool) (values : List Int64) :
    Except Status (List Int64) :=
  values.mapM (coerceUnit src dst allowTruncation)

/-! ## The conversion -/

/-- How many of the finer unit are one of the coarser. -/
def unitRatio (a b : TimeUnit) : Int := 1000 ^ ((a.rank : Int) - b.rank).natAbs

/-- The number `v` of units `src` in units `dst`, a fraction dropped. -/
def convertUnit (src dst : TimeUnit) (v : Int) : Int :=
  if src.rank < dst.rank then v * unitRatio src dst else v.tdiv (unitRatio src dst)

/-- The conversion has a result: it fits, or loses nothing that may not be lost. -/
def Convertible (src dst : TimeUnit) (allowTruncation : Bool) (v : Int) : Prop :=
  if src.rank < dst.rank then
    -2 ^ 63 ≤ v * unitRatio src dst ∧ v * unitRatio src dst < 2 ^ 63
  else allowTruncation = true ∨ unitRatio src dst ∣ v

instance (src dst : TimeUnit) (allowTruncation : Bool) (v : Int) :
    Decidable (Convertible src dst allowTruncation v) := by
  unfold Convertible
  infer_instance

theorem unitFactor_toInt (a b : TimeUnit) : (unitFactor a b).toInt = unitRatio a b := by
  cases a <;> cases b <;> rfl

theorem unitRatio_cases (a b : TimeUnit) :
    unitRatio a b = 1 ∨ unitRatio a b = 1000 ∨ unitRatio a b = 1000000 := by
  cases a <;> cases b <;> decide

theorem unitRatio_of_lt {a b : TimeUnit} (h : a.rank < b.rank) :
    unitRatio a b = 1000 ∨ unitRatio a b = 1000000 := by
  cases a <;> cases b <;> revert h <;> decide

theorem unitRatio_comm (a b : TimeUnit) : unitRatio a b = unitRatio b a := by
  cases a <;> cases b <;> rfl

theorem int64_range (v : Int64) :
    -9223372036854775808 ≤ v.toInt ∧ v.toInt < 9223372036854775808 :=
  ⟨Int64.le_toInt v, Int64.toInt_lt v⟩

/-- **The guard refuses what overflows.** -/
theorem unitLimit_iff {src dst : TimeUnit} (h : src.rank < dst.rank) (v : Int64) :
    (v > unitLimit (unitFactor src dst) ∨ v < -unitLimit (unitFactor src dst)) ↔
      ¬(-2 ^ 63 ≤ v.toInt * unitRatio src dst ∧ v.toInt * unitRatio src dst < 2 ^ 63) := by
  have hlim : (unitLimit (unitFactor src dst)).toInt = 9223372036854775807 / unitRatio src dst ∧
      (-unitLimit (unitFactor src dst)).toInt = -(9223372036854775807 / unitRatio src dst) := by
    revert h
    cases src <;> cases dst <;> decide
  rw [gt_iff_lt, Int64.lt_iff_toInt_lt, Int64.lt_iff_toInt_lt, hlim.1, hlim.2]
  rcases unitRatio_of_lt h with hratio | hratio
  · rw [hratio]
    omega
  · rw [hratio]
    omega

/-- The product fits behind the guard. -/
theorem toInt_mul_unitFactor {src dst : TimeUnit} {v : Int64}
    (h : -2 ^ 63 ≤ v.toInt * unitRatio src dst ∧ v.toInt * unitRatio src dst < 2 ^ 63) :
    (v * unitFactor src dst).toInt = v.toInt * unitRatio src dst := by
  rw [Int64.toInt_mul, unitFactor_toInt]
  exact Int.bmod_eq_of_le (by omega) (by omega)

theorem toInt_div_unitFactor (src dst : TimeUnit) (v : Int64) :
    (v / unitFactor src dst).toInt = v.toInt.tdiv (unitRatio src dst) := by
  have hne : unitFactor src dst ≠ -1 := by
    cases src <;> cases dst <;> decide
  rw [Int64.toInt_div_of_ne_right v _ hne, unitFactor_toInt]

theorem mod_unitFactor_iff (src dst : TimeUnit) (v : Int64) :
    v % unitFactor src dst ≠ 0 ↔ ¬unitRatio src dst ∣ v.toInt := by
  rw [ne_eq, ← Int64.toInt_inj, Int64.toInt_mod, unitFactor_toInt, Int.dvd_iff_tmod_eq_zero]
  rfl

/-- **One value**: converted where it can be, else refused. -/
theorem coerceUnit_cases (src dst : TimeUnit) (allowTruncation : Bool) (v : Int64) :
    (Convertible src dst allowTruncation v.toInt ∧
      ∃ out, coerceUnit src dst allowTruncation v = .ok out ∧
        out.toInt = convertUnit src dst v.toInt) ∨
      (¬Convertible src dst allowTruncation v.toInt ∧
        coerceUnit src dst allowTruncation v = .error .invalidArgument) := by
  unfold Convertible coerceUnit convertUnit
  by_cases hfiner : src.rank < dst.rank
  · simp only [if_pos hfiner, unitLimit_iff hfiner]
    by_cases hfits : -2 ^ 63 ≤ v.toInt * unitRatio src dst ∧ v.toInt * unitRatio src dst < 2 ^ 63
    · exact .inl ⟨hfits, _, if_neg (not_not_intro hfits), toInt_mul_unitFactor hfits⟩
    · exact .inr ⟨hfits, if_pos hfits⟩
  · simp only [if_neg hfiner, mod_unitFactor_iff]
    by_cases hlost : allowTruncation = false ∧ ¬unitRatio src dst ∣ v.toInt
    · refine .inr ⟨?_, if_pos hlost⟩
      rintro (hallow | hdvd)
      · rw [hlost.1] at hallow
        cases hallow
      · exact hlost.2 hdvd
    · refine .inl ⟨?_, _, if_neg hlost, toInt_div_unitFactor src dst v⟩
      cases allowTruncation with
      | true => exact .inl rfl
      | false => exact .inr (by simpa using hlost)

/-- A value that was converted. -/
theorem coerceUnit_eq_ok {src dst : TimeUnit} {allowTruncation : Bool} {v out : Int64} :
    coerceUnit src dst allowTruncation v = .ok out ↔
      Convertible src dst allowTruncation v.toInt ∧ out.toInt = convertUnit src dst v.toInt := by
  rcases coerceUnit_cases src dst allowTruncation v with ⟨hconv, out', hout, heq⟩ | ⟨hconv, herr⟩
  · rw [hout, Except.ok.injEq, ← Int64.toInt_inj, heq]
    exact ⟨fun h => ⟨hconv, h.symm⟩, fun h => h.2.symm⟩
  · rw [herr]
    exact ⟨fun h => (by cases h), fun h => absurd h.1 hconv⟩

/-! ## The list -/

theorem coerceUnits_cons (src dst : TimeUnit) (allowTruncation : Bool) (v : Int64)
    (values : List Int64) :
    coerceUnits src dst allowTruncation (v :: values) =
      (coerceUnit src dst allowTruncation v).bind fun out =>
        (coerceUnits src dst allowTruncation values).map fun outs => out :: outs := by
  unfold coerceUnits
  rw [List.mapM_cons]
  cases coerceUnit src dst allowTruncation v with
  | error e => rfl
  | ok out => cases List.mapM (coerceUnit src dst allowTruncation) values <;> rfl

/-- The loop converts every value, or stops at one that cannot be. -/
theorem coerceUnits_cases (src dst : TimeUnit) (allowTruncation : Bool) (values : List Int64) :
    ((∀ v ∈ values, Convertible src dst allowTruncation v.toInt) ∧
      ∃ out, coerceUnits src dst allowTruncation values = .ok out ∧
        out.map Int64.toInt = values.map fun v => convertUnit src dst v.toInt) ∨
      ((∃ v ∈ values, ¬Convertible src dst allowTruncation v.toInt) ∧
        coerceUnits src dst allowTruncation values = .error .invalidArgument) := by
  induction values with
  | nil => exact .inl ⟨fun v hv => absurd hv List.not_mem_nil, [], rfl, rfl⟩
  | cons v values ih =>
    rw [coerceUnits_cons]
    rcases coerceUnit_cases src dst allowTruncation v with ⟨hconv, out, hout, heq⟩ | ⟨hconv, herr⟩
    · rw [hout]
      rcases ih with ⟨hall, outs, houts, hmap⟩ | ⟨⟨u, hu, hnot⟩, herr⟩
      · refine .inl ⟨List.forall_mem_cons.2 ⟨hconv, hall⟩, out :: outs, ?_, ?_⟩
        · rw [houts]
          rfl
        · rw [List.map_cons, List.map_cons, heq, hmap]
      · refine .inr ⟨⟨u, List.mem_cons_of_mem v hu, hnot⟩, ?_⟩
        rw [herr]
        rfl
    · refine .inr ⟨⟨v, List.mem_cons_self, hconv⟩, ?_⟩
      rw [herr]
      rfl

theorem toInt_map_injective {a b : List Int64} (h : a.map Int64.toInt = b.map Int64.toInt) :
    a = b := List.map_injective_iff.2 (fun _ _ h => Int64.toInt_inj.1 h) h

/-- To a finer unit and back. -/
theorem convertUnit_back {src dst : TimeUnit} (h : src.rank < dst.rank) (v : Int) :
    convertUnit dst src (convertUnit src dst v) = v := by
  unfold convertUnit
  rw [if_neg (by omega), if_pos h, unitRatio_comm dst src]
  rcases unitRatio_of_lt h with hratio | hratio
  · rw [hratio]
    exact Int.mul_tdiv_cancel v (by decide)
  · rw [hratio]
    exact Int.mul_tdiv_cancel v (by decide)

theorem convertible_back {src dst : TimeUnit} (h : src.rank < dst.rank) (allowTruncation : Bool)
    (v : Int) : Convertible dst src allowTruncation (convertUnit src dst v) := by
  unfold Convertible convertUnit
  rw [if_neg (by omega), if_pos h, unitRatio_comm dst src]
  exact .inr (Int.dvd_mul_left v _)

theorem coerceUnits_eq_ok {src dst : TimeUnit} {allowTruncation : Bool} {values out : List Int64} :
    coerceUnits src dst allowTruncation values = .ok out ↔
      (∀ v ∈ values, Convertible src dst allowTruncation v.toInt) ∧
        out.map Int64.toInt = values.map fun v => convertUnit src dst v.toInt := by
  rcases coerceUnits_cases src dst allowTruncation values with
    ⟨hall, out', hout, hmap⟩ | ⟨⟨v, hv, hnot⟩, herr⟩
  · rw [hout, Except.ok.injEq]
    constructor
    · rintro rfl
      exact ⟨hall, hmap⟩
    · rintro ⟨-, hmap'⟩
      exact toInt_map_injective (hmap.trans hmap'.symm)
  · rw [herr]
    exact ⟨fun h => (by cases h), fun h => absurd (h.1 v hv) hnot⟩

/-- **`coerce_timestamp_values` converts exactly**: it succeeds with the converted values just where
every value can be converted and fails elsewhere; and what was brought to a finer unit is brought
back. -/
theorem coerceUnits_spec (src dst : TimeUnit) (allowTruncation : Bool) (values : List Int64) :
    (∀ out, coerceUnits src dst allowTruncation values = .ok out ↔
      (∀ v ∈ values, Convertible src dst allowTruncation v.toInt) ∧
        out.map Int64.toInt = values.map fun v => convertUnit src dst v.toInt) ∧
      (coerceUnits src dst allowTruncation values = .error .invalidArgument ↔
        ∃ v ∈ values, ¬Convertible src dst allowTruncation v.toInt) ∧
      (src.rank < dst.rank → ∀ out, coerceUnits src dst allowTruncation values = .ok out →
        ∀ allowBack, coerceUnits dst src allowBack out = .ok values) := by
  refine ⟨fun out => coerceUnits_eq_ok, ?_, fun hfiner out hout allowBack => ?_⟩
  · rcases coerceUnits_cases src dst allowTruncation values with ⟨hall, out, hout, -⟩ | ⟨hsome, herr⟩
    · rw [hout]
      refine ⟨fun h => (by cases h), ?_⟩
      rintro ⟨v, hv, hnot⟩
      exact absurd (hall v hv) hnot
    · exact ⟨fun _ => hsome, fun _ => herr⟩
  · obtain ⟨-, hmap⟩ := coerceUnits_eq_ok.1 hout
    have hback : (out.map Int64.toInt).map (convertUnit dst src) = values.map Int64.toInt := by
      rw [hmap, List.map_map]
      exact List.map_congr_left fun v _ => convertUnit_back hfiner v.toInt
    refine coerceUnits_eq_ok.2 ⟨fun o ho => ?_, ?_⟩
    · have hmem : o.toInt ∈ values.map fun v => convertUnit src dst v.toInt :=
        hmap ▸ List.mem_map_of_mem ho
      obtain ⟨v, -, hv⟩ := List.mem_map.1 hmem
      rw [← hv]
      exact convertible_back hfiner allowBack v.toInt
    · rw [← hback, List.map_map]
      rfl

/-! ## The writer's conversion -/

theorem timestampUnitFactor_eq (src dst : TimeUnit) :
    timestampUnitFactor src.rank dst.rank = unitRatio src dst := by
  cases src <;> cases dst <;> rfl

/-- The conversion of the file writer's model, which is one of integers. -/
theorem coerceTimestamp_eq (src dst : TimeUnit) (allowTruncation : Bool) (v : Int64) :
    coerceTimestamp ⟨src.rank, dst.rank, allowTruncation⟩ v.toInt =
      (coerceUnit src dst allowTruncation v).map Int64.toInt := by
  have hcases := coerceUnit_cases src dst allowTruncation v
  unfold Convertible convertUnit at hcases
  unfold coerceTimestamp
  simp only [timestampUnitFactor_eq]
  by_cases hfiner : src.rank < dst.rank
  · simp only [if_pos hfiner] at hcases ⊢
    have hguard : (int64Max / unitRatio src dst < v.toInt ∨
        v.toInt < -(int64Max / unitRatio src dst)) ↔
        ¬(-2 ^ 63 ≤ v.toInt * unitRatio src dst ∧ v.toInt * unitRatio src dst < 2 ^ 63) := by
      unfold int64Max
      rcases unitRatio_of_lt hfiner with hratio | hratio
      · rw [hratio]
        omega
      · rw [hratio]
        omega
    rcases hcases with ⟨hfits, out, hout, heq⟩ | ⟨hfits, herr⟩
    · rw [if_neg (hguard.not.2 (not_not_intro hfits)), hout, ← heq]
      rfl
    · rw [if_pos (hguard.2 hfits), herr]
      rfl
  · simp only [if_neg hfiner] at hcases ⊢
    have hguard : (allowTruncation = false ∧ v.toInt.tmod (unitRatio src dst) ≠ 0) ↔
        ¬(allowTruncation = true ∨ unitRatio src dst ∣ v.toInt) := by
      rw [ne_eq, ← Int.dvd_iff_tmod_eq_zero]
      simp
    rcases hcases with ⟨hkeeps, out, hout, heq⟩ | ⟨hkeeps, herr⟩
    · rw [if_neg (hguard.not.2 (not_not_intro hkeeps)), hout, ← heq]
      rfl
    · rw [if_pos (hguard.2 hkeeps), herr]
      rfl

/-- **The file writer's conversion of a list** is this one. -/
theorem coerceTimestampValues_eq (src dst : TimeUnit) (allowTruncation : Bool)
    (values : List Int64) :
    coerceTimestampValues ⟨src.rank, dst.rank, allowTruncation⟩ (values.map Int64.toInt) =
      (coerceUnits src dst allowTruncation values).map (List.map Int64.toInt) := by
  induction values with
  | nil => rfl
  | cons v values ih =>
    unfold coerceTimestampValues at ih ⊢
    rw [List.map_cons, List.mapM_cons, ih, coerceTimestamp_eq, coerceUnits_cons]
    cases coerceUnit src dst allowTruncation v with
    | error e => rfl
    | ok out => cases coerceUnits src dst allowTruncation values <;> rfl

/-- The extremes of milliseconds that have a microsecond, and back. -/
theorem coerceUnits_spec_extremes :
    coerceUnits .micros .millis false [9223372036854775000, -9223372036854775000] =
      .ok [9223372036854775, -9223372036854775] :=
  (coerceUnits_spec .millis .micros false [9223372036854775, -9223372036854775]).2.2 (by decide)
    [9223372036854775000, -9223372036854775000] (by rfl) false

example : coerceUnits .millis .micros true [-9223372036854775808] = .error .invalidArgument := by
  rfl

end Carquet
