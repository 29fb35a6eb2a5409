import Carquet.Metadata.StatisticsBuilder

/-!
# What built statistics stand for

The order of a column (`columnOrder`) is stated on its own and the comparisons of the code are shown
to be it. A run is any sequence of calls on a new builder. Its statistics are `Sound` when they
bound the added values and rule out no range with one of them.
-/

namespace Carquet

open LittleEndian Bounds Std

/-! ## The order of a column -/

/-- The place of a floating point number, NaN after everything. -/
def floatPlace (f : FloatFormat) (v : Value) : Int :=
  if isNanValue f v then 2 ^ (f.exponentBits + f.mantissaBits) else f.key (floatBits f v)

/-- The order of a column's values; an INT96 is a number of twelve bytes. -/
def columnOrder : PhysicalType → Value → Value → Ordering
  | .boolean => compareOn fun v => (v.headD 0).toNat
  | .int32 => compareInt 4 false
  | .int64 => compareInt 8 false
  | .int96 => compareOn fun v => leNat (v.take 12)
  | .float => compareOn (floatPlace .single)
  | .double => compareOn (floatPlace .double)
  | .byteArray | .fixedLenByteArray => compare

instance (type : PhysicalType) : TransCmp (columnOrder type) := by
  cases type <;> simp only [columnOrder, compareInt] <;> infer_instance

theorem magnitude_lt (f : FloatFormat) (bits : Nat) :
    f.magnitude bits < 2 ^ (f.exponentBits + f.mantissaBits) :=
  Nat.mod_lt _ (Nat.two_pow_pos _)

/-- Every number is before NaN. -/
theorem key_lt (f : FloatFormat) (bits : Nat) :
    f.key bits < 2 ^ (f.exponentBits + f.mantissaBits) := by
  have h := magnitude_lt f bits
  have hcast : (f.magnitude bits : Int) < 2 ^ (f.exponentBits + f.mantissaBits) := by
    exact_mod_cast h
  rw [FloatFormat.key]
  split
  · omega
  · exact hcast

theorem compareNanLast_eq (f : FloatFormat) (a b : Bytes) :
    compareNanLast f a b = compareOn (floatPlace f) a b := by
  have ha := key_lt f (floatBits f a)
  have hb := key_lt f (floatBits f b)
  rw [compareNanLast, compareOn, floatPlace, floatPlace]
  cases hna : isNanValue f a with
  | true =>
    cases hnb : isNanValue f b with
    | true => simp
    | false =>
      simp only [Bool.and_false, Bool.false_eq_true, if_false, if_true]
      exact (compare_gt_iff_gt.mpr hb).symm
  | false =>
    cases hnb : isNanValue f b with
    | true =>
      simp only [Bool.and_true, Bool.false_eq_true, if_false, if_true]
      exact (compare_lt_iff_lt.mpr ha).symm
    | false =>
      simp only [Bool.and_false, Bool.false_eq_true, if_false]
      have hlt : ∀ x y, isNanValue f x = false → isNanValue f y = false →
          (f.lt (floatBits f x) (floatBits f y) = true ↔
            f.key (floatBits f x) < f.key (floatBits f y)) := by
        intro x y hx hy
        rw [FloatFormat.lt, show f.isNan (floatBits f x) = false from hx,
          show f.isNan (floatBits f y) = false from hy]
        simp
      rw [compareFloat, FloatFormat.compare]
      simp only [hlt a b hna hnb, hlt b a hnb hna]
      split
      · exact (compare_lt_iff_lt.mpr ‹_›).symm
      · split
        · exact (compare_gt_iff_gt.mpr ‹_›).symm
        · exact (Std.compare_eq_iff_eq.mpr (by omega)).symm

theorem int96Word_lt (v : Value) (i : Nat) : int96Word v i < 4294967296 := by
  have h := leNat_lt ((v.drop (4 * i)).take 4)
  have hlen : ((v.drop (4 * i)).take 4).length ≤ 4 := List.length_take_le 4 _
  exact Nat.lt_of_lt_of_le h (Nat.pow_le_pow_right (by decide) hlen)

/-- The words of an INT96 as one number. -/
theorem leNat_take_twelve {v : Value} (h : v.length = 12) :
    leNat (v.take 12) =
      int96Word v 0 + 4294967296 * (int96Word v 1 + 4294967296 * int96Word v 2) := by
  have hsplit : v.take 12 =
      (v.drop (4 * 0)).take 4 ++ ((v.drop (4 * 1)).take 4 ++ (v.drop (4 * 2)).take 4) := by
    have hlow : v = v.take 4 ++ v.drop 4 := (List.take_append_drop 4 v).symm
    have hhigh : v.drop 4 = (v.drop 4).take 4 ++ v.drop 8 := by
      have hdrop := (List.take_append_drop 4 (v.drop 4)).symm
      rwa [List.drop_drop] at hdrop
    have hlast : (v.drop 8).take 4 = v.drop 8 :=
      List.take_of_length_le (by rw [List.length_drop]; omega)
    rw [List.take_of_length_le (by omega), Nat.mul_zero, Nat.mul_one, List.drop_zero, hlast,
      ← hhigh, ← hlow]
  have hlen0 : ((v.drop (4 * 0)).take 4).length = 4 := by
    simp only [List.length_take, List.length_drop]
    omega
  have hlen1 : ((v.drop (4 * 1)).take 4).length = 4 := by
    simp only [List.length_take, List.length_drop]
    omega
  rw [hsplit, leNat_append, leNat_append, hlen0, hlen1]
  rfl

/-- Numbers of two digits are compared by the high one first. -/
theorem compare_digits {base a b x y : Nat} (ha : a < base) (hb : b < base) :
    compare (a + base * x) (b + base * y) = (compare x y).then (compare a b) := by
  rcases Nat.lt_trichotomy x y with h | rfl | h
  · have hmul : base * (x + 1) ≤ base * y := Nat.mul_le_mul_left base h
    rw [Nat.compare_eq_lt.mpr h, Nat.compare_eq_lt.mpr (by rw [Nat.mul_succ] at hmul; omega)]
    rfl
  · rw [Nat.compare_eq_eq.mpr rfl, Ordering.eq_then]
    rcases Nat.lt_trichotomy a b with h | rfl | h
    · rw [Nat.compare_eq_lt.mpr h, Nat.compare_eq_lt.mpr (by omega)]
    · rw [Nat.compare_eq_eq.mpr rfl, Nat.compare_eq_eq.mpr rfl]
    · rw [Nat.compare_eq_gt.mpr h, Nat.compare_eq_gt.mpr (by omega)]
  · have hmul : base * (y + 1) ≤ base * x := Nat.mul_le_mul_left base h
    rw [Nat.compare_eq_gt.mpr h, Nat.compare_eq_gt.mpr (by rw [Nat.mul_succ] at hmul; omega)]
    rfl

theorem compareInt96_eq {a b : Value} (ha : a.length = 12) (hb : b.length = 12) :
    compareInt96 a b = compareOn (fun v : Value => leNat (v.take 12)) a b := by
  rw [compareOn, leNat_take_twelve ha, leNat_take_twelve hb,
    compare_digits (int96Word_lt a 0) (int96Word_lt b 0),
    compare_digits (int96Word_lt a 1) (int96Word_lt b 1), Ordering.then_assoc, compareInt96]

/-! ## The comparisons of the code -/

theorem compareByteArray_eq (a b : Bytes) : compareByteArray a a.length b b.length = compare a b :=
  ByteOrder.lexCompare_eq a b

open StatisticsBuilder in
/-- The switches of the builder compare by the order of the column. -/
theorem compareValue_eq {type : PhysicalType} {typeLength : Int32} (htype : type ≠ .byteArray)
    {a b : Value} (ha : a.length = StatisticsBuilder.getValueSize type typeLength)
    (hb : b.length = StatisticsBuilder.getValueSize type typeLength) :
    compareValue type (StatisticsBuilder.getValueSize type typeLength) a b = columnOrder type a b := by
  cases type with
  | byteArray => exact absurd rfl htype
  | int96 => exact compareInt96_eq ha hb
  | float => exact compareNanLast_eq .single a b
  | double => exact compareNanLast_eq .double a b
  | fixedLenByteArray =>
    show compareByteArray a (StatisticsBuilder.getValueSize .fixedLenByteArray typeLength) b
      (StatisticsBuilder.getValueSize .fixedLenByteArray typeLength) = compare a b
    rw [← compareByteArray_eq, ha, hb]
  | _ => rfl

/-- The ends of a range that the test can be given: as long as it is told where the type is one of
byte arrays, of the size of the type elsewhere. -/
def IsEnd (type : PhysicalType) (valueLen : Nat) (v : Value) : Prop :=
  match type with
  | .byteArray | .fixedLenByteArray => v.length = valueLen
  | _ => v.length = StatisticsBuilder.getValueSize type 0

/-- So do the switches of the test, where it has a case for the type. -/
theorem compareEnd_eq {type : PhysicalType} (hboolean : type ≠ .boolean) (hint96 : type ≠ .int96)
    {valueLen : Nat} {v : Value} (hv : IsEnd type valueLen v) (bound : Bytes) :
    compareEnd type v valueLen bound = columnOrder type v bound := by
  cases type with
  | boolean => exact absurd rfl hboolean
  | int96 => exact absurd rfl hint96
  | float => exact compareNanLast_eq .single v bound
  | double => exact compareNanLast_eq .double v bound
  | byteArray =>
    obtain rfl : v.length = valueLen := hv
    exact compareByteArray_eq v bound
  | fixedLenByteArray =>
    obtain rfl : v.length = valueLen := hv
    exact compareByteArray_eq v bound
  | _ => rfl

/-! ## Runs -/

/-- A call that adds to a builder. -/
inductive StatisticsCall where
  | nulls (count : Int64)
  | values (values : List Value)
  | byteArrays (values : List Value)
  deriving DecidableEq, Repr

/-- The call on the builder, its status dropped; `none` when it writes past a buffer. -/
def StatisticsBuilder.call (b : StatisticsBuilder) : StatisticsCall → Option StatisticsBuilder
  | .nulls count => some (b.addNulls count)
  | .values values => (b.addValues values).map Prod.snd
  | .byteArrays values => some (b.addByteArrays values).2

/-- The calls one after the other. -/
def StatisticsBuilder.run (b : StatisticsBuilder) : List StatisticsCall → Option StatisticsBuilder
  | [] => some b
  | c :: calls => (b.call c).bind fun b => b.run calls

/-- The calls on a new builder; an array of values has the size of the type for each, and no more
of them than an `int64_t` counts. -/
structure StatisticsRun where
  type : PhysicalType
  typeLength : Int32
  calls : List StatisticsCall
  sized : ∀ values, .values values ∈ calls →
    ∀ v ∈ values, v.length = StatisticsBuilder.getValueSize type typeLength
  counted : ∀ values, .values values ∈ calls ∨ .byteArrays values ∈ calls →
    values.length < 9223372036854775808

/-- The values that a call adds; it is refused where the type is not one of its kind. -/
def StatisticsCall.added (type : PhysicalType) (typeLength : Int32) : StatisticsCall → List Value
  | .nulls _ => []
  | .values vs => if StatisticsBuilder.getValueSize type typeLength = 0 then [] else vs
  | .byteArrays vs => if type = .byteArray then vs else []

def StatisticsCall.nullCount : StatisticsCall → Int
  | .nulls count => count.toInt
  | _ => 0

/-- The values that fit the buffers. -/
def fitting (vs : List Value) : List Value := vs.filter fun v => v.length ≤ statBufferSize

namespace StatisticsRun

/-- The values that were added. -/
def added (r : StatisticsRun) : List Value :=
  r.calls.flatMap (StatisticsCall.added r.type r.typeLength)

/-- The nulls that were added. -/
def nulls (r : StatisticsRun) : Int := (r.calls.map StatisticsCall.nullCount).sum

/-- The builder after the calls. -/
def builder (r : StatisticsRun) : Option StatisticsBuilder :=
  (StatisticsBuilder.create r.type r.typeLength).run r.calls

/-- A value is in the range whose ends there may be. -/
def InRange (r : StatisticsRun) (lo hi : Option Value) (v : Value) : Prop :=
  (∀ l, lo = some l → (columnOrder r.type l v).isLE) ∧
    ∀ h, hi = some h → (columnOrder r.type v h).isLE

/-- What the statistics promise: they bound the added values, a bound flagged as exact is an extreme
value, nulls and values are counted, and a range with an added value overlaps. -/
structure Built (r : StatisticsRun) (b : StatisticsBuilder) : Prop where
  lower : ∀ m, b.build.minValue = some m → ∀ v ∈ r.added, (columnOrder r.type m v).isLE
  upper : ∀ m, b.build.maxValue = some m → ∀ v ∈ r.added, (columnOrder r.type v m).isLE
  minExact : b.build.isMinValueExact = some true → ∃ m, b.build.minValue = some m ∧ m ∈ r.added ∧
    ∀ v ∈ r.added, (columnOrder r.type m v).isLE
  maxExact : b.build.isMaxValueExact = some true → ∃ m, b.build.maxValue = some m ∧ m ∈ r.added ∧
    ∀ v ∈ r.added, (columnOrder r.type v m).isLE
  nulls : b.build.nullCount.map Int64.toInt = some r.nulls
  values : b.numValues.toInt = r.added.length
  overlaps : ∀ lo hi valueLen, (∀ v, lo = some v ∨ hi = some v → IsEnd r.type valueLen v) →
    (∃ v ∈ r.added, r.InRange lo hi v) →
    rangeOverlaps b.build r.type lo hi valueLen = true

/-- The calls write past no buffer and the statistics keep what they promise. -/
def Sound (r : StatisticsRun) : Prop := ∃ b, r.builder = some b ∧ r.Built b

/-- The added values that fit the buffers. -/
def kept (r : StatisticsRun) : List Value := fitting r.added

/-- The values that are passed over make no difference: there is no bound, or they lie between
values that fit. -/
def Covered (r : StatisticsRun) : Prop :=
  (∀ v ∈ r.kept, v = []) ∨
    ∀ v ∈ r.added, (∃ u ∈ r.kept, (columnOrder r.type u v).isLE) ∧
      ∃ u ∈ r.kept, (columnOrder r.type v u).isLE

/-- What the calls have to be like. -/
structure Regular (r : StatisticsRun) : Prop where
  nulls : -9223372036854775808 ≤ r.nulls ∧ r.nulls < 9223372036854775808
  values : r.added.length < 9223372036854775808
  type : r.added ≠ [] → r.type ≠ .boolean ∧ r.type ≠ .int96
  fits : r.added ≠ [] → StatisticsBuilder.getValueSize r.type r.typeLength ≤ statBufferSize
  covered : r.Covered

end StatisticsRun

/-! ## What a call does -/

/-- The builder after calls that added `vs` and `nulls` nulls. -/
structure Records (type : PhysicalType) (typeLength : Int32) (vs : List Value) (nulls : Int)
    (b : StatisticsBuilder) : Prop where
  type_eq : b.type = type
  typeLength_eq : b.typeLength = typeLength
  tracks : Bounds.Tracks (columnOrder type) (fitting vs) b.minValue b.maxValue
  nullCount : b.nullCount.toInt = nulls.bmod 18446744073709551616
  numValues : b.numValues.toInt = (vs.length : Int).bmod 18446744073709551616

theorem records_create (type : PhysicalType) (typeLength : Int32) :
    Records type typeLength [] 0 (.create type typeLength) :=
  ⟨rfl, rfl, .empty, rfl, rfl⟩

theorem keepLo_congr {cmp cmp' : Value → Value → Ordering} {bound : Option Value} {v : Value}
    (h : ∀ m, bound = some m → cmp v m = cmp' v m) : keepLo cmp bound v = keepLo cmp' bound v := by
  cases bound with
  | none => rfl
  | some m => rw [keepLo, keepLo, pickLo, pickLo, h m rfl]

theorem keepHi_congr {cmp cmp' : Value → Value → Ordering} {bound : Option Value} {v : Value}
    (h : ∀ m, bound = some m → cmp v m = cmp' v m) : keepHi cmp bound v = keepHi cmp' bound v := by
  cases bound with
  | none => rfl
  | some m => rw [keepHi, keepHi, pickHi, pickHi, h m rfl]

/-- A loop that takes every value, comparing by the column's order, tracks them all. -/
theorem tracks_foldl {cmp : Value → Value → Ordering} (order : Value → Value → Ordering)
    [TransCmp order] (S : Value → Prop) (hcmp : ∀ a b, S a → S b → cmp a b = order a b) (values : List Value)
    (hvalues : ∀ v ∈ values, S v) {ws : List Value} (hws : ∀ w ∈ ws, S w) {b : StatisticsBuilder}
    (h : Bounds.Tracks order ws b.minValue b.maxValue) :
    Bounds.Tracks order (ws ++ values) (values.foldl (StatisticsBuilder.update cmp) b).minValue
        (values.foldl (StatisticsBuilder.update cmp) b).maxValue := by
  induction values generalizing ws b with
  | nil => simpa using h
  | cons v values ih =>
    have hv : S v := hvalues v List.mem_cons_self
    have hstep : Bounds.Tracks order (ws ++ [v]) (StatisticsBuilder.update cmp b v).minValue
        (StatisticsBuilder.update cmp b v).maxValue := by
      have hlo : keepLo cmp b.minValue v = keepLo order b.minValue v :=
        keepLo_congr fun m hm => hcmp v m hv (hws m (h.mem.1 m hm))
      have hhi : keepHi cmp b.maxValue v = keepHi order b.maxValue v :=
        keepHi_congr fun m hm => hcmp v m hv (hws m (h.mem.2 m hm))
      simp only [StatisticsBuilder.update, hlo, hhi]
      exact h.add v
    have hws' : ∀ w ∈ ws ++ [v], S w := by
      intro w hw
      rcases List.mem_append.mp hw with hw | hw
      · exact hws w hw
      · rw [List.mem_singleton.mp hw]
        exact hv
    have hrest := ih (fun u hu => hvalues u (List.mem_cons_of_mem _ hu)) hws' hstep
    rwa [List.append_assoc] at hrest

/-- The loops leave everything else of the builder as it is. -/
theorem foldl_rest {f : StatisticsBuilder → Value → StatisticsBuilder}
    (h : ∀ b v, (f b v).type = b.type ∧ (f b v).typeLength = b.typeLength ∧
      (f b v).nullCount = b.nullCount ∧ (f b v).numValues = b.numValues)
    (values : List Value) (b : StatisticsBuilder) :
    (values.foldl f b).type = b.type ∧ (values.foldl f b).typeLength = b.typeLength ∧
      (values.foldl f b).nullCount = b.nullCount ∧ (values.foldl f b).numValues = b.numValues := by
  induction values generalizing b with
  | nil => exact ⟨rfl, rfl, rfl, rfl⟩
  | cons v values ih =>
    obtain ⟨h1, h2, h3, h4⟩ := h b v
    obtain ⟨i1, i2, i3, i4⟩ := ih (f b v)
    exact ⟨i1.trans h1, i2.trans h2, i3.trans h3, i4.trans h4⟩

/-- Byte arrays that do not fit are passed over. -/
theorem foldl_addByteArray (values : List Value) (b : StatisticsBuilder) :
    values.foldl StatisticsBuilder.addByteArray b =
      (fitting values).foldl (StatisticsBuilder.update compare) b := by
  induction values generalizing b with
  | nil => rfl
  | cons v values ih =>
    have hfitting : fitting (v :: values) =
        if decide (v.length ≤ statBufferSize) = true then v :: fitting values
        else fitting values := List.filter_cons
    rw [List.foldl_cons, ih, hfitting]
    by_cases hv : v.length ≤ statBufferSize
    · have hcmp : (fun v bound => compareByteArray v v.length bound bound.length) = compare := by
        funext v bound
        exact compareByteArray_eq v bound
      rw [if_pos (by simpa using hv), StatisticsBuilder.addByteArray, if_neg (Nat.not_lt.mpr hv),
        hcmp]
      rfl
    · rw [if_neg (by simpa using hv), StatisticsBuilder.addByteArray,
        if_pos (Nat.lt_of_not_le hv)]

/-- The size of a value, where the type fixes it. -/
def Sized (type : PhysicalType) (typeLength : Int32) (v : Value) : Prop :=
  type ≠ .byteArray → v.length = StatisticsBuilder.getValueSize type typeLength

theorem update_rest (cmp : Bytes → Bytes → Ordering) (b : StatisticsBuilder) (v : Value) :
    (b.update cmp v).type = b.type ∧ (b.update cmp v).typeLength = b.typeLength ∧
      (b.update cmp v).nullCount = b.nullCount ∧ (b.update cmp v).numValues = b.numValues :=
  ⟨rfl, rfl, rfl, rfl⟩

theorem fitting_append (vs ws : List Value) : fitting (vs ++ ws) = fitting vs ++ fitting ws :=
  List.filter_append vs ws

theorem fitting_of_le {vs : List Value} (h : ∀ v ∈ vs, v.length ≤ statBufferSize) :
    fitting vs = vs :=
  List.filter_eq_self.mpr fun v hv => decide_eq_true (h v hv)

/-- A loop over values is a step from the values before it to those and its own. -/
theorem Records.loop {type : PhysicalType} {typeLength : Int32} {vs values : List Value}
    {nulls : Int} {b b' : StatisticsBuilder} (h : Records type typeLength vs nulls b)
    (hrest : b'.type = b.type ∧ b'.typeLength = b.typeLength ∧ b'.nullCount = b.nullCount ∧
      b'.numValues = b.numValues)
    (htracks : Bounds.Tracks (columnOrder type) (fitting (vs ++ values)) b'.minValue b'.maxValue) :
    Records type typeLength (vs ++ values) nulls
      { b' with numValues := b'.numValues + Int64.ofNat values.length } := by
  obtain ⟨htype, hlength, hnull, hnum⟩ := hrest
  refine ⟨htype.trans h.type_eq, hlength.trans h.typeLength_eq, htracks,
    (congrArg Int64.toInt hnull).trans h.nullCount, ?_⟩
  show (b'.numValues + Int64.ofNat values.length).toInt = _
  rw [Int64.toInt_add, Int64.toInt_ofNat', hnum, h.numValues]
  show Int.bmod (Int.bmod _ 18446744073709551616 + Int.bmod _ 18446744073709551616)
    18446744073709551616 = _
  rw [Int.add_bmod_bmod, Int.bmod_add_bmod, List.length_append, Int.natCast_add]

theorem Records.addNulls {type : PhysicalType} {typeLength : Int32} {vs : List Value} {nulls : Int}
    {b : StatisticsBuilder} (h : Records type typeLength vs nulls b) (count : Int64) :
    Records type typeLength vs (nulls + count.toInt) (b.addNulls count) := by
  refine ⟨h.type_eq, h.typeLength_eq, h.tracks, ?_, h.numValues⟩
  show (b.nullCount + count).toInt = _
  rw [Int64.toInt_add, h.nullCount]
  exact Int.bmod_add_bmod

theorem Records.addValues {type : PhysicalType} {typeLength : Int32} {vs values : List Value}
    {nulls : Int} {b : StatisticsBuilder} {r : Status × StatisticsBuilder}
    (h : Records type typeLength vs nulls b) (hvs : ∀ v ∈ vs, Sized type typeLength v)
    (hvalues : ∀ v ∈ values, v.length = StatisticsBuilder.getValueSize type typeLength)
    (hr : b.addValues values = some r) :
    Records type typeLength (vs ++ StatisticsCall.added type typeLength (.values values)) nulls
      r.2 := by
  rw [StatisticsBuilder.addValues, h.type_eq, h.typeLength_eq] at hr
  rw [StatisticsCall.added]
  by_cases hempty : values = []
  · rw [if_pos hempty] at hr
    obtain rfl := Option.some.inj hr
    rw [hempty, ite_self, List.append_nil]
    exact h
  rw [if_neg hempty] at hr
  by_cases hzero : StatisticsBuilder.getValueSize type typeLength = 0
  · rw [if_pos hzero] at hr
    obtain rfl := Option.some.inj hr
    rw [if_pos hzero, List.append_nil]
    exact h
  rw [if_neg hzero] at hr
  by_cases hlong : statBufferSize < StatisticsBuilder.getValueSize type typeLength
  · rw [if_pos hlong] at hr
    exact nomatch hr
  rw [if_neg hlong] at hr
  obtain rfl := Option.some.inj hr
  rw [if_neg hzero]
  have htype : type ≠ .byteArray := by
    rintro rfl
    exact hzero rfl
  have hsized : ∀ v ∈ vs ++ values, v.length = StatisticsBuilder.getValueSize type typeLength := by
    intro v hv
    rcases List.mem_append.mp hv with hv | hv
    · exact hvs v hv htype
    · exact hvalues v hv
  have hfits : ∀ us : List Value, (∀ v ∈ us, v ∈ vs ++ values) → fitting us = us := by
    intro us hus
    refine fitting_of_le fun v hv => ?_
    rw [hsized v (hus v hv)]
    exact Nat.le_of_not_lt hlong
  refine h.loop (foldl_rest (update_rest _) values b) ?_
  have htracks := h.tracks
  rw [hfits vs fun v hv => List.mem_append_left _ hv] at htracks
  rw [hfits _ fun v hv => hv]
  exact tracks_foldl (columnOrder type)
    (fun v => v.length = StatisticsBuilder.getValueSize type typeLength)
    (fun a b ha hb => compareValue_eq htype ha hb) values hvalues
    (fun v hv => hvs v hv htype) htracks

theorem Records.addByteArrays {type : PhysicalType} {typeLength : Int32} {vs : List Value}
    {nulls : Int} {b : StatisticsBuilder} (h : Records type typeLength vs nulls b)
    (values : List Value) :
    Records type typeLength (vs ++ StatisticsCall.added type typeLength (.byteArrays values)) nulls
      (b.addByteArrays values).2 := by
  rw [StatisticsBuilder.addByteArrays, h.type_eq, StatisticsCall.added]
  by_cases hempty : values = []
  · rw [if_pos hempty, hempty, ite_self, List.append_nil]
    exact h
  rw [if_neg hempty]
  by_cases htype : type = .byteArray
  · rw [if_neg (not_not.mpr htype), if_pos htype]
    subst htype
    simp only [foldl_addByteArray]
    refine h.loop (foldl_rest (update_rest _) _ b) ?_
    rw [fitting_append]
    exact tracks_foldl (columnOrder .byteArray) (fun _ => True) (fun _ _ _ _ => rfl) (fitting values)
      (fun _ _ => trivial) (fun _ _ => trivial) h.tracks
  · rw [if_pos htype, if_neg htype, List.append_nil]
    exact h

/-! ## What a run does -/

/-- The values of a call have the size of the type. -/
def StatisticsCall.Fits (type : PhysicalType) (typeLength : Int32) : StatisticsCall → Prop
  | .values vs => ∀ v ∈ vs, v.length = StatisticsBuilder.getValueSize type typeLength
  | _ => True

theorem StatisticsCall.Fits.sized {type : PhysicalType} {typeLength : Int32} {c : StatisticsCall}
    (h : c.Fits type typeLength) : ∀ v ∈ c.added type typeLength, Sized type typeLength v := by
  intro v hv htype
  cases c with
  | nulls count => exact absurd hv List.not_mem_nil
  | values vs =>
    rw [StatisticsCall.added] at hv
    split at hv
    · exact absurd hv List.not_mem_nil
    · exact h v hv
  | byteArrays vs =>
    rw [StatisticsCall.added, if_neg htype] at hv
    exact absurd hv List.not_mem_nil

theorem StatisticsCall.Fits.append {type : PhysicalType} {typeLength : Int32} {c : StatisticsCall}
    {vs : List Value} (h : c.Fits type typeLength) (hvs : ∀ v ∈ vs, Sized type typeLength v) :
    ∀ v ∈ vs ++ c.added type typeLength, Sized type typeLength v := by
  intro v hv
  rcases List.mem_append.mp hv with hv | hv
  · exact hvs v hv
  · exact h.sized v hv

/-- **A call adds its values and its nulls.** -/
theorem Records.call {type : PhysicalType} {typeLength : Int32} {vs : List Value} {nulls : Int}
    {b b' : StatisticsBuilder} {c : StatisticsCall} (h : Records type typeLength vs nulls b)
    (hvs : ∀ v ∈ vs, Sized type typeLength v) (hfits : c.Fits type typeLength)
    (hcall : b.call c = some b') :
    Records type typeLength (vs ++ c.added type typeLength) (nulls + c.nullCount) b' := by
  cases c with
  | nulls count =>
    obtain rfl := Option.some.inj hcall
    rw [StatisticsCall.added, List.append_nil]
    exact h.addNulls count
  | values values =>
    obtain ⟨r, hr, rfl⟩ := Option.map_eq_some_iff.mp hcall
    have hnulls : nulls + (StatisticsCall.values values).nullCount = nulls := Int.add_zero nulls
    rw [hnulls]
    exact h.addValues hvs hfits hr
  | byteArrays values =>
    obtain rfl := Option.some.inj hcall
    have hnulls : nulls + (StatisticsCall.byteArrays values).nullCount = nulls :=
      Int.add_zero nulls
    rw [hnulls]
    exact h.addByteArrays values

/-- A call runs unless it adds a value longer than the buffers. -/
theorem call_isSome {type : PhysicalType} {typeLength : Int32} {vs : List Value} {nulls : Int}
    {b : StatisticsBuilder} {c : StatisticsCall} (h : Records type typeLength vs nulls b) :
    (∃ b', b.call c = some b') ↔
      (c.added type typeLength ≠ [] →
        StatisticsBuilder.getValueSize type typeLength ≤ statBufferSize) := by
  cases c with
  | nulls count => exact ⟨fun _ hadded => absurd rfl hadded, fun _ => ⟨_, rfl⟩⟩
  | byteArrays values =>
    refine ⟨fun _ hadded => ?_, fun _ => ⟨_, rfl⟩⟩
    rw [StatisticsCall.added] at hadded
    split at hadded
    · rename_i htype
      subst htype
      exact Nat.zero_le _
    · exact absurd rfl hadded
  | values values =>
    simp only [StatisticsBuilder.call, StatisticsBuilder.addValues, h.type_eq, h.typeLength_eq,
      StatisticsCall.added]
    by_cases hempty : values = []
    · simp [hempty]
    by_cases hzero : StatisticsBuilder.getValueSize type typeLength = 0
    · simp [hempty, hzero]
    by_cases hlong : statBufferSize < StatisticsBuilder.getValueSize type typeLength
    · simp [hempty, hzero, hlong]
    · simp [hempty, hzero, hlong, Nat.le_of_not_lt hlong]

/-- **A run adds the values and the nulls of its calls.** -/
theorem Records.run {type : PhysicalType} {typeLength : Int32} {vs : List Value} {nulls : Int}
    {b b' : StatisticsBuilder} {calls : List StatisticsCall}
    (h : Records type typeLength vs nulls b) (hvs : ∀ v ∈ vs, Sized type typeLength v)
    (hfits : ∀ c ∈ calls, c.Fits type typeLength) (hrun : b.run calls = some b') :
    Records type typeLength (vs ++ calls.flatMap (StatisticsCall.added type typeLength))
      (nulls + (calls.map StatisticsCall.nullCount).sum) b' := by
  induction calls generalizing vs nulls b with
  | nil =>
    obtain rfl := Option.some.inj hrun
    simpa using h
  | cons c calls ih =>
    obtain ⟨b₁, hcall, hrest⟩ := Option.bind_eq_some_iff.mp hrun
    have hc := hfits c List.mem_cons_self
    have hlast := ih (h.call hvs hc hcall) (hc.append hvs)
      (fun c' hc' => hfits c' (List.mem_cons_of_mem _ hc')) hrest
    rwa [List.append_assoc, Int.add_assoc, ← List.flatMap_cons, ← List.sum_cons,
      ← List.map_cons] at hlast

/-- It goes through unless it adds a value longer than the buffers. -/
theorem run_isSome {type : PhysicalType} {typeLength : Int32} {vs : List Value} {nulls : Int}
    {b : StatisticsBuilder} {calls : List StatisticsCall}
    (h : Records type typeLength vs nulls b) (hvs : ∀ v ∈ vs, Sized type typeLength v)
    (hfits : ∀ c ∈ calls, c.Fits type typeLength) :
    (∃ b', b.run calls = some b') ↔
      (calls.flatMap (StatisticsCall.added type typeLength) ≠ [] →
        StatisticsBuilder.getValueSize type typeLength ≤ statBufferSize) := by
  induction calls generalizing vs nulls b with
  | nil => exact ⟨fun _ hadded => absurd rfl hadded, fun _ => ⟨b, rfl⟩⟩
  | cons c calls ih =>
    have hc := hfits c List.mem_cons_self
    have hcalls : ∀ c' ∈ calls, c'.Fits type typeLength :=
      fun c' hc' => hfits c' (List.mem_cons_of_mem _ hc')
    constructor
    · rintro ⟨b', hrun⟩ hadded
      obtain ⟨b₁, hcall, hrest⟩ := Option.bind_eq_some_iff.mp hrun
      by_cases hempty : c.added type typeLength = []
      · rw [List.flatMap_cons, hempty, List.nil_append] at hadded
        exact (ih (h.call hvs hc hcall) (hc.append hvs) hcalls).mp ⟨b', hrest⟩ hadded
      · exact (call_isSome h).mp ⟨b₁, hcall⟩ hempty
    · intro hsize
      rw [List.flatMap_cons, ne_eq, List.append_eq_nil_iff] at hsize
      obtain ⟨b₁, hcall⟩ := (call_isSome h).mpr fun hne => hsize fun hnil => hne hnil.1
      obtain ⟨b', hrest⟩ := (ih (h.call hvs hc hcall) (hc.append hvs) hcalls).mpr
        fun hne => hsize fun hnil => hne hnil.2
      exact ⟨b', Option.bind_eq_some_iff.mpr ⟨b₁, hcall, hrest⟩⟩

/-! ## The statistics of a run -/

namespace StatisticsRun

variable {r : StatisticsRun} {b : StatisticsBuilder}

theorem fits_calls (r : StatisticsRun) : ∀ c ∈ r.calls, c.Fits r.type r.typeLength := by
  intro c hc
  cases c with
  | values vs => exact r.sized vs hc
  | _ => trivial

/-- The builder after a run records what was added. -/
theorem records (h : r.builder = some b) : Records r.type r.typeLength r.added r.nulls b := by
  have hrun := (records_create r.type r.typeLength).run
    (fun _ hv => absurd hv List.not_mem_nil) r.fits_calls h
  rwa [List.nil_append, Int.zero_add] at hrun

theorem builder_isSome (r : StatisticsRun) :
    (∃ b, r.builder = some b) ↔ (r.added ≠ [] →
      StatisticsBuilder.getValueSize r.type r.typeLength ≤ statBufferSize) :=
  run_isSome (records_create r.type r.typeLength) (fun _ hv => absurd hv List.not_mem_nil)
    r.fits_calls

theorem sized_added (r : StatisticsRun) {v : Value} (hv : v ∈ r.added) :
    Sized r.type r.typeLength v := by
  obtain ⟨c, hc, hvc⟩ := List.mem_flatMap.mp hv
  exact (r.fits_calls c hc).sized v hvc

/-- Only a BYTE_ARRAY is ever empty. -/
theorem added_ne_nil (htype : r.type ≠ .byteArray) {v : Value} (hv : v ∈ r.added) : v ≠ [] := by
  rintro rfl
  have hlen : StatisticsBuilder.getValueSize r.type r.typeLength = 0 :=
    (r.sized_added hv htype).symm
  obtain ⟨c, -, hvc⟩ := List.mem_flatMap.mp hv
  cases c with
  | nulls count => exact absurd hvc List.not_mem_nil
  | values vs =>
    rw [StatisticsCall.added, if_pos hlen] at hvc
    exact absurd hvc List.not_mem_nil
  | byteArrays vs =>
    rw [StatisticsCall.added, if_neg htype] at hvc
    exact absurd hvc List.not_mem_nil

theorem mem_added_of_kept {v : Value} (hv : v ∈ r.kept) : v ∈ r.added := List.mem_of_mem_filter hv

end StatisticsRun

/-- A bound is reported unless it is empty. -/
theorem build_minValue {b : StatisticsBuilder} {m : Value} :
    b.build.minValue = some m ↔ b.minValue = some m ∧ m ≠ [] := by
  show (b.minValue.filter fun v => 0 < v.length) = some m ↔ _
  rw [Option.filter_eq_some_iff]
  simp [List.length_pos_iff]

theorem build_maxValue {b : StatisticsBuilder} {m : Value} :
    b.build.maxValue = some m ↔ b.maxValue = some m ∧ m ≠ [] := by
  show (b.maxValue.filter fun v => 0 < v.length) = some m ↔ _
  rw [Option.filter_eq_some_iff]
  simp [List.length_pos_iff]

/-- The end of a range against a bound there may be. -/
theorem endIs_iff {outcome : Ordering} {type : PhysicalType} {value : Option Value} {valueLen : Nat}
    {bound : Option Bytes} : endIs outcome type value valueLen bound = true ↔
      ∃ v m, value = some v ∧ bound = some m ∧ m ≠ [] ∧ compareEnd type v valueLen m = outcome := by
  cases value with
  | none => simp [endIs]
  | some v =>
    cases bound with
    | none => simp [endIs]
    | some m =>
      cases m with
      | nil => simp [endIs]
      | cons x m =>
        have hboth : endIs outcome type (some v) valueLen (some (x :: m)) =
            decide (compareEnd type v valueLen (x :: m) = outcome) := rfl
        rw [hboth]
        simp

theorem rangeOverlaps_iff {stats : Parquet.Statistics} {type : PhysicalType}
    {lo hi : Option Value} {valueLen : Nat} :
    rangeOverlaps stats type lo hi valueLen = true ↔
      endIs .lt type hi valueLen stats.minValue = false ∧
        endIs .gt type lo valueLen stats.maxValue = false := by
  rw [rangeOverlaps]
  cases endIs .lt type hi valueLen stats.minValue <;>
    cases endIs .gt type lo valueLen stats.maxValue <;> simp

/-- **True extremes rule out no range with an added value**, where the test has a case for the
type. -/
theorem rangeOverlaps_of_bounds {r : StatisticsRun} {stats : Parquet.Statistics}
    (hboolean : r.type ≠ .boolean) (hint96 : r.type ≠ .int96)
    (hmin : ∀ m, stats.minValue = some m → ∀ v ∈ r.added, (columnOrder r.type m v).isLE)
    (hmax : ∀ m, stats.maxValue = some m → ∀ v ∈ r.added, (columnOrder r.type v m).isLE)
    {lo hi : Option Value} {valueLen : Nat}
    (hends : ∀ v, lo = some v ∨ hi = some v → IsEnd r.type valueLen v)
    (hmeets : ∃ v ∈ r.added, r.InRange lo hi v) :
    rangeOverlaps stats r.type lo hi valueLen = true := by
  obtain ⟨v, hv, hlo, hhi⟩ := hmeets
  rw [rangeOverlaps_iff, ← Bool.not_eq_true, ← Bool.not_eq_true, endIs_iff, endIs_iff]
  constructor
  · rintro ⟨h, m, hh, hm, -, hlt⟩
    rw [compareEnd_eq hboolean hint96 (hends h (.inr hh))] at hlt
    have hle : (columnOrder r.type m h).isLE := TransCmp.isLE_trans (hmin m hm v hv) (hhi h hh)
    rw [OrientedCmp.gt_iff_lt.mpr hlt] at hle
    exact Bool.noConfusion hle
  · rintro ⟨l, m, hl, hm, -, hgt⟩
    rw [compareEnd_eq hboolean hint96 (hends l (.inl hl))] at hgt
    have hle : (columnOrder r.type l m).isLE := TransCmp.isLE_trans (hlo l hl) (hmax m hm v hv)
    rw [hgt] at hle
    exact Bool.noConfusion hle

/-- Told no length, the test puts every BOOLEAN and INT96 before the least of them. -/
theorem compareEnd_of_other {type : PhysicalType} (htype : type = .boolean ∨ type = .int96)
    (v : Value) {bound : Bytes} (hbound : bound ≠ []) : compareEnd type v 0 bound = .lt := by
  have hlen : compare 0 bound.length = .lt :=
    Nat.compare_eq_lt.mpr (List.length_pos_iff.mpr hbound)
  have hbytes : compareByteArray v 0 bound bound.length = .lt := by
    rw [compareByteArray, hlen, Nat.zero_min]
    rfl
  rcases htype with rfl | rfl
  · exact hbytes
  · exact hbytes

namespace StatisticsRun

variable {r : StatisticsRun} {b : StatisticsBuilder}

/-! ## What regular calls are for -/

/-- In the order of byte strings the empty one is least. -/
theorem columnOrder_nil (type : PhysicalType) (htype : type = .byteArray) (v : Value) :
    (columnOrder type [] v).isLE ∧ ((columnOrder type v []).isLE → v = []) := by
  subst htype
  cases v with
  | nil => exact ⟨rfl, fun _ => rfl⟩
  | cons x v => exact ⟨rfl, fun h => Bool.noConfusion h⟩

/-- The bounds that are built of regular calls are extremes of all added values. -/
theorem extremes_of_covered (hb : r.builder = some b) (hcovered : r.Covered) :
    (∀ m, b.build.minValue = some m →
      m ∈ r.added ∧ ∀ v ∈ r.added, (columnOrder r.type m v).isLE) ∧
    ∀ m, b.build.maxValue = some m →
      m ∈ r.added ∧ ∀ v ∈ r.added, (columnOrder r.type v m).isLE := by
  have htracks := (records hb).tracks
  constructor
  · intro m hm
    obtain ⟨hmin, hne⟩ := build_minValue.mp hm
    have hmem := htracks.mem.1 m hmin
    refine ⟨mem_added_of_kept hmem, fun v hv => ?_⟩
    rcases hcovered with hempty | hbetween
    · exact absurd (hempty m hmem) hne
    · obtain ⟨⟨u, hu, huv⟩, -⟩ := hbetween v hv
      exact TransCmp.isLE_trans (htracks.lower m hmin u hu) huv
  · intro m hm
    obtain ⟨hmax, hne⟩ := build_maxValue.mp hm
    have hmem := htracks.mem.2 m hmax
    refine ⟨mem_added_of_kept hmem, fun v hv => ?_⟩
    rcases hcovered with hempty | hbetween
    · exact absurd (hempty m hmem) hne
    · obtain ⟨-, u, hu, hvu⟩ := hbetween v hv
      exact TransCmp.isLE_trans hvu (htracks.upper m hmax u hu)

/-- Bounds that bound all added values leave none out that matters. -/
theorem covered_of_bounds (hb : r.builder = some b)
    (hmin : ∀ m, b.build.minValue = some m → ∀ v ∈ r.added, (columnOrder r.type m v).isLE)
    (hmax : ∀ m, b.build.maxValue = some m → ∀ v ∈ r.added, (columnOrder r.type v m).isLE) :
    r.Covered := by
  by_cases hempty : ∀ v ∈ r.kept, v = []
  · exact .inl hempty
  obtain ⟨w, hw⟩ := not_forall.mp hempty
  obtain ⟨hw, hwne⟩ := Classical.not_imp.mp hw
  obtain ⟨lo, hi, hlo, hhi⟩ := (records hb).tracks.bounds_of_mem hw
  have htracks := (records hb).tracks
  have hlomem := htracks.mem.1 lo hlo
  have hhimem := htracks.mem.2 hi hhi
  refine .inr fun v hv => ⟨⟨lo, hlomem, ?_⟩, hi, hhimem, ?_⟩
  · by_cases hnil : lo = []
    · have htype : r.type = .byteArray :=
        by_contra fun htype => added_ne_nil htype (mem_added_of_kept hlomem) hnil
      rw [hnil]
      exact (columnOrder_nil r.type htype v).1
    · exact hmin lo (build_minValue.mpr ⟨hlo, hnil⟩) v hv
  · have hnil : hi ≠ [] := by
      intro hnil
      have htype : r.type = .byteArray :=
        by_contra fun htype => added_ne_nil htype (mem_added_of_kept hhimem) hnil
      have hle := htracks.upper hi hhi w hw
      rw [hnil] at hle
      exact hwne ((columnOrder_nil r.type htype w).2 hle)
    exact hmax hi (build_maxValue.mpr ⟨hhi, hnil⟩) v hv

theorem isExact_map {bound : Option Bytes} {P : Value → Prop} (h : ∀ m, bound = some m → P m)
    (hexact : (bound.map fun _ => true) = some true) : ∃ m, bound = some m ∧ P m := by
  obtain ⟨m, hm, -⟩ := Option.map_eq_some_iff.mp hexact
  exact ⟨m, hm, h m hm⟩

theorem bmod_of_range {n : Int} (h : -9223372036854775808 ≤ n ∧ n < 9223372036854775808) :
    n.bmod 18446744073709551616 = n :=
  Int.bmod_eq_of_le (by omega) (by omega)

/-- Regular calls write past no buffer, and what is built of them keeps its promise. -/
theorem sound_of_regular (h : r.Regular) : r.Sound := by
  obtain ⟨b, hb⟩ := r.builder_isSome.mpr h.fits
  have hrecords := records hb
  obtain ⟨hmin, hmax⟩ := extremes_of_covered hb h.covered
  have hlength : (0 : Int) ≤ r.added.length := Int.natCast_nonneg _
  have hvalues : (r.added.length : Int) < 9223372036854775808 := by exact_mod_cast h.values
  refine ⟨b, hb, ?_⟩
  exact {
    lower := fun m hm => (hmin m hm).2
    upper := fun m hm => (hmax m hm).2
    minExact := isExact_map hmin
    maxExact := isExact_map hmax
    nulls := congrArg some (hrecords.nullCount.trans (bmod_of_range h.nulls))
    values := hrecords.numValues.trans (bmod_of_range (by omega))
    overlaps := by
      intro lo hi valueLen hends hmeets
      have hne : r.added ≠ [] := by
        obtain ⟨v, hv, -⟩ := hmeets
        exact List.ne_nil_of_mem hv
      obtain ⟨hboolean, hint96⟩ := h.type hne
      exact rangeOverlaps_of_bounds hboolean hint96 (fun m hm => (hmin m hm).2)
        (fun m hm => (hmax m hm).2) hends hmeets }

/-- Statistics of BOOLEAN and INT96 values rule a range out that begins with the least of them. -/
theorem not_built_of_other (hb : r.builder = some b) (htype : r.type = .boolean ∨ r.type = .int96)
    (hne : r.added ≠ []) : ¬ r.Built b := by
  intro hbuilt
  have hbyteArray : r.type ≠ .byteArray := by
    rcases htype with h | h <;> rw [h] <;> decide
  obtain ⟨v, hv⟩ := List.exists_mem_of_ne_nil _ hne
  have hfits := r.builder_isSome.mp ⟨b, hb⟩ hne
  have hkept : v ∈ r.kept := by
    refine List.mem_filter.mpr ⟨hv, decide_eq_true ?_⟩
    rw [r.sized_added hv hbyteArray]
    exact hfits
  obtain ⟨lo, -, hlo, -⟩ := (records hb).tracks.bounds_of_mem hkept
  have hmem := mem_added_of_kept ((records hb).tracks.mem.1 lo hlo)
  have hnil := added_ne_nil hbyteArray hmem
  have hend : IsEnd r.type 0 lo := by
    have hlen := r.sized_added hmem hbyteArray
    rcases htype with h | h <;> rw [h] at hlen ⊢ <;> exact hlen
  have hself : (columnOrder r.type lo lo).isLE := by
    rw [@ReflCmp.compare_self _ (columnOrder r.type) _ lo]
    rfl
  have hoverlaps := hbuilt.overlaps none (some lo) 0
    (by
      rintro v (h | h)
      · exact nomatch h
      · exact Option.some.inj h ▸ hend)
    ⟨lo, hmem, fun l hl => (nomatch hl), fun h hh => Option.some.inj hh ▸ hself⟩
  have hends := (rangeOverlaps_iff.mp hoverlaps).1
  have hruled : endIs .lt r.type (some lo) 0 b.build.minValue = true :=
    endIs_iff.mpr ⟨lo, lo, rfl, build_minValue.mpr ⟨hlo, hnil⟩, hnil,
      compareEnd_of_other htype lo hnil⟩
  rw [hends] at hruled
  exact Bool.noConfusion hruled

theorem regular_of_sound (h : r.Sound) : r.Regular := by
  obtain ⟨b, hb, hbuilt⟩ := h
  have hnulls : b.nullCount.toInt = r.nulls := Option.some.inj hbuilt.nulls
  have hnullRange := b.nullCount.toInt_lt
  have hnullRange' := b.nullCount.le_toInt
  have hvalueRange := b.numValues.toInt_lt
  rw [hnulls] at hnullRange hnullRange'
  rw [hbuilt.values] at hvalueRange
  exact {
    nulls := ⟨hnullRange', hnullRange⟩
    values := by exact_mod_cast hvalueRange
    type := by
      intro hne
      constructor
      · intro htype
        exact not_built_of_other hb (.inl htype) hne hbuilt
      · intro htype
        exact not_built_of_other hb (.inr htype) hne hbuilt
    fits := r.builder_isSome.mp ⟨b, hb⟩
    covered := covered_of_bounds hb hbuilt.lower hbuilt.upper }

/-- **When built statistics keep their promise**: exactly when the counts stay in `int64_t`, the type
is neither BOOLEAN nor INT96, a fixed length fits the buffers, and the byte arrays that do not fit
lie between others that do or leave no bound. -/
theorem sound_iff (r : StatisticsRun) : r.Sound ↔ r.Regular :=
  ⟨regular_of_sound, sound_of_regular⟩

/-- A byte array of 257 bytes behind a short one. -/
def longBehindShort : StatisticsRun where
  type := .byteArray
  typeLength := 0
  calls := [.byteArrays [[0x61], List.replicate 257 0x7A]]
  sized := fun values h => StatisticsCall.noConfusion (List.mem_singleton.mp h)
  counted := by
    rintro values (h | h)
    · exact StatisticsCall.noConfusion (List.mem_singleton.mp h)
    · obtain rfl := StatisticsCall.byteArrays.inj (List.mem_singleton.mp h)
      exact (by decide : 2 < 9223372036854775808)

/-- The INT96 of the number 1. -/
def oneInt96 : StatisticsRun where
  type := .int96
  typeLength := 0
  calls := [.values [[1, 0, 0, 0, 0, 0, 0, 0, 0, 0, 0, 0]]]
  sized := by
    intro values hvalues v hv
    simp only [List.mem_singleton, StatisticsCall.values.injEq] at hvalues
    subst hvalues
    rw [List.mem_singleton.mp hv]
    rfl
  counted := by simp

/-- The long byte array is above the maximum that is flagged as exact, and a range that begins with
it is ruled out; so is the range up to 256 of an INT96 column that holds 1. -/
theorem longValue_ruledOut : ¬ longBehindShort.Sound ∧ ¬ oneInt96.Sound := by
  constructor
  · rintro ⟨b, hb, hbuilt⟩
    have hb' : longBehindShort.builder =
        some ⟨.byteArray, 0, some [0x61], some [0x61], 0, 0, 2⟩ := by decide +kernel
    obtain rfl := Option.some.inj (hb'.symm.trans hb)
    have hoverlaps := hbuilt.overlaps (some (List.replicate 257 0x7A)) none 257
      (by
        rintro v (h | h)
        · obtain rfl := Option.some.inj h
          exact List.length_replicate
        · exact nomatch h)
      ⟨List.replicate 257 0x7A, by decide +kernel, by
        constructor
        · intro l hl
          obtain rfl := Option.some.inj hl
          decide +kernel
        · exact fun h hh => (nomatch hh)⟩
    exact absurd hoverlaps (by decide +kernel)
  · rintro ⟨b, hb, hbuilt⟩
    have hb' : oneInt96.builder = some ⟨.int96, 0, some [1, 0, 0, 0, 0, 0, 0, 0, 0, 0, 0, 0],
        some [1, 0, 0, 0, 0, 0, 0, 0, 0, 0, 0, 0], 0, 0, 1⟩ := by decide +kernel
    obtain rfl := Option.some.inj (hb'.symm.trans hb)
    have hoverlaps := hbuilt.overlaps none (some [0, 1, 0, 0, 0, 0, 0, 0, 0, 0, 0, 0]) 12
      (by
        rintro v (h | h)
        · exact nomatch h
        · obtain rfl := Option.some.inj h
          rfl)
      ⟨[1, 0, 0, 0, 0, 0, 0, 0, 0, 0, 0, 0], by decide +kernel, by
        constructor
        · exact fun l hl => (nomatch hl)
        · intro h hh
          obtain rfl := Option.some.inj hh
          decide +kernel⟩
    exact absurd hoverlaps (by decide +kernel)

end StatisticsRun

end Carquet
