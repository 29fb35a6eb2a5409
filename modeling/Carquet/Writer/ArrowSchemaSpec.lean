import Carquet.Writer.FbbSpec
import Carquet.Writer.ArrowFormat
import Mathlib

/-!
# The Arrow schema against the format

`carquet_build_arrow_schema_b64` (arrow_schema.c:350-437) writes the field of every element, for
names of any number and length: a type, a name and a table each (`encodeArrowField_spec`), and each
is read back at its place (`readArrowField_isField`).

What the fields say is not always what the schema says. A decimal is written with the precision and
the scale of the element, which only the footer takes from the logical type
(parquet_types.c:1403-1406); a date leaves its unit out; and a message of 2 GiB has no signed
length. `arrowSchema_iff` says that these are all.
-/

namespace Carquet

open LittleEndian FlatBuffer

/-! ## Base64 -/

theorem value_base64Digit (v shift : Nat) :
    Base64.value (base64Digit v shift) = some (v / 2 ^ shift % 64) := by
  have hall : ∀ i < 64, Base64.value (base64Table.getD i 0) = some i := by decide +kernel
  rw [base64Digit, Nat.shiftRight_eq_div_pow,
    show (0x3F : Nat) = 2 ^ 6 - 1 from rfl, Nat.and_two_pow_sub_one_eq_mod]
  exact hall _ (Nat.mod_lt _ (by decide))

/-- Three bytes in one number. -/
theorem or_shifted {x y z : Nat} (hy : y < 256) (hz : z < 256) :
    x <<< 16 ||| y <<< 8 ||| z = x * 65536 + y * 256 + z := by
  have hy' : y <<< 8 < 2 ^ 16 := by
    rw [Nat.shiftLeft_eq]
    omega
  have hsum : x <<< 16 + y <<< 8 = (x * 256 + y) <<< 8 := by
    simp only [Nat.shiftLeft_eq]
    omega
  rw [← Nat.shiftLeft_add_eq_or_of_lt hy', hsum, ← Nat.shiftLeft_add_eq_or_of_lt hz,
    Nat.shiftLeft_eq]
  omega

theorem ofNat_eq_self {x : UInt8} {n : Nat} (h : n = x.toNat) : UInt8.ofNat n = x := by
  rw [h, UInt8.ofNat_toNat]

/-- **Base64 is read back.** -/
theorem decode_base64 (bs : Bytes) : Base64.decode (base64 bs) = some bs := by
  induction bs using base64.induct with
  | case1 => rfl
  | case2 x =>
    have hx := x.toNat_lt
    have hv : x.toNat <<< 16 = x.toNat * 65536 := Nat.shiftLeft_eq ..
    rw [base64, hv]
    refine (Base64.decode_two (value_base64Digit _ _) (value_base64Digit _ _) (by omega)).trans ?_
    simp only [Base64.byte₁, Option.some.injEq, List.cons.injEq, and_true]
    exact ofNat_eq_self (by omega)
  | case3 x y =>
    have hx := x.toNat_lt
    have hy := y.toNat_lt
    have hv := or_shifted (x := x.toNat) (z := 0) hy (by decide)
    rw [Nat.or_zero, Nat.add_zero] at hv
    rw [base64, hv]
    refine (Base64.decode_three (value_base64Digit _ _) (value_base64Digit _ _)
      (value_base64Digit _ _) (by omega)).trans ?_
    simp only [Base64.byte₁, Base64.byte₂, Option.some.injEq, List.cons.injEq, and_true]
    exact ⟨ofNat_eq_self (by omega), ofNat_eq_self (by omega)⟩
  | case4 x y z rest ih =>
    have hx := x.toNat_lt
    have hy := y.toNat_lt
    have hz := z.toNat_lt
    have hv := or_shifted (x := x.toNat) hy hz
    rw [base64, hv]
    refine (Base64.decode_group (value_base64Digit _ _) (value_base64Digit _ _)
      (value_base64Digit _ _) (value_base64Digit _ _) ih).trans ?_
    simp only [Base64.byte₁, Base64.byte₂, Base64.byte₃, Option.some.injEq, List.cons.injEq,
      and_true]
    exact ⟨ofNat_eq_self (by omega), ofNat_eq_self (by omega), ofNat_eq_self (by omega)⟩

/-! ## Types -/

namespace ArrowType

def timezone : ArrowType → Option Bytes
  | timestamp _ tz => tz
  | _ => none

def numFields : ArrowType → Nat
  | int _ _ => 2
  | floatingPoint _ => 1
  | decimal _ _ _ => 3
  | date _ => 1
  | time _ _ => 2
  | timestamp _ _ => 2
  | fixedSizeBinary _ => 1
  | _ => 0

/-- What is put into the table of a type, where its time zone is at `tz`. -/
def adds (tz : Nat) : ArrowType → List Fbb.Add
  | int w isSigned =>
    .scalar 0 4 (w % 2 ^ 32).toNat :: if isSigned then [.scalar 1 1 1] else []
  | floatingPoint p => [.scalar 0 2 (p % 2 ^ 16).toNat]
  | decimal p s w =>
    [.scalar 0 4 (p % 2 ^ 32).toNat, .scalar 1 4 (s % 2 ^ 32).toNat, .scalar 2 4 (w % 2 ^ 32).toNat]
  | time u w => [.scalar 0 2 (u % 2 ^ 16).toNat, .scalar 1 4 (w % 2 ^ 32).toNat]
  | timestamp u none => [.scalar 0 2 (u % 2 ^ 16).toNat]
  | timestamp u (some _) => [.scalar 0 2 (u % 2 ^ 16).toNat, .ref 1 tz]
  | fixedSizeBinary n => [.scalar 0 4 (n % 2 ^ 32).toNat]
  | _ => []

/-- The type as it is written: a decimal has the parameters of the element. -/
def written (e : Parquet.SchemaElement) : ArrowType → ArrowType
  | decimal _ _ w => decimal e.precision.toInt e.scale.toInt w
  | t => t

/-- The type as it is read: a date has the unit that is meant where none is there. -/
def seen (d : ArrowDefaults) : ArrowType → ArrowType
  | date _ => date d.dateUnit
  | t => t

end ArrowType

/-- A type as `build_arrow_type` builds it. -/
def buildType (b : Fbb) (t : ArrowType) : BuiltType :=
  match t.timezone with
  | some s =>
    tagged t.tag ((b.createString s).2.buildTable t.numFields (t.adds (b.createString s).1))
  | none => tagged t.tag (b.buildTable t.numFields (t.adds 0))

theorem buildIntType_eq (b : Fbb) (e : Parquet.SchemaElement) (is64 : Bool) :
    buildIntType b e is64 = buildType b ((arrowIntType e is64).written e) := by
  have hinteger : buildIntType.integer b e is64 =
      buildType b ((arrowIntType.integer e is64).written e) := by
    unfold buildIntType.integer arrowIntType.integer
    obtain ⟨w, isSigned⟩ := integerParams e is64
    cases isSigned <;> rfl
  unfold buildIntType arrowIntType
  cases hlt : e.logicalType with
  | none => exact hinteger
  | some lt =>
    rw [Option.map_some]
    cases lt.id with
    | timestamp =>
      cases is64 with
      | false => exact hinteger
      | true =>
        show buildIntType.timestamp b lt = buildType b (.timestamp (arrowTimeUnit lt.timestamp.unit)
          (if lt.timestamp.isAdjustedToUtc then some [0x55, 0x54, 0x43] else none))
        unfold buildIntType.timestamp
        cases lt.timestamp.isAdjustedToUtc <;> rfl
    | date =>
      cases is64 with
      | false => rfl
      | true => exact hinteger
    | time => cases is64 <;> rfl
    | decimal => rfl
    | _ => exact hinteger

/-- **Every type is built from what the schema says**, but for the parameters of a decimal. -/
theorem buildArrowType_eq (b : Fbb) (e : Parquet.SchemaElement) (type : Int32) :
    buildArrowType b e type = (arrowTypeOf e type).map fun t => buildType b (t.written e) := by
  have hfixed : (if isDecimal e then some (buildDecimal b e)
      else
        some (tagged atFixedSizeBinary ((b.startTable 1).addI32 0 e.typeLength.toInt).endTable)) =
      some (buildType b ((arrowFixedType e).written e)) := by
    unfold isDecimal arrowFixedType
    cases e.logicalType with
    | none => rfl
    | some lt =>
      by_cases hid : lt.id = .decimal
      · simp only [hid, decide_true, if_true]
        rfl
      · simp only [hid, decide_false, if_false]
        rfl
  unfold buildArrowType arrowTypeOf
  by_cases h0 : type = physicalBoolean
  · rw [if_pos h0, if_pos h0]
    rfl
  rw [if_neg h0, if_neg h0]
  by_cases h4 : type = physicalFloat
  · rw [if_pos h4, if_pos h4]
    rfl
  rw [if_neg h4, if_neg h4]
  by_cases h5 : type = physicalDouble
  · rw [if_pos h5, if_pos h5]
    rfl
  rw [if_neg h5, if_neg h5]
  by_cases h1 : type = physicalInt32
  · rw [if_pos h1, if_pos h1, buildIntType_eq]
    rfl
  rw [if_neg h1, if_neg h1]
  by_cases h2 : type = physicalInt64
  · rw [if_pos h2, if_pos h2, buildIntType_eq]
    rfl
  rw [if_neg h2, if_neg h2]
  by_cases h3 : type = physicalInt96
  · rw [if_pos h3, if_pos h3]
    rfl
  rw [if_neg h3, if_neg h3]
  by_cases h6 : type = physicalByteArray
  · rw [if_pos h6, if_pos h6]
    by_cases htext : isText e = true
    · rw [if_pos htext, if_pos htext]
      rfl
    · rw [if_neg htext, if_neg htext]
      by_cases hdecimal : isDecimal e = true
      · rw [if_pos hdecimal, if_pos hdecimal]
        rfl
      · rw [if_neg hdecimal, if_neg hdecimal]
        rfl
  rw [if_neg h6, if_neg h6]
  by_cases h7 : type = physicalFixedLenByteArray
  · rw [if_pos h7, if_pos h7, hfixed]
    rfl
  · rw [if_neg h7, if_neg h7]
    rfl

/-! ## The parameters are in range -/

def InI32 (x : Int) : Prop := -2147483648 ≤ x ∧ x < 2147483648

def InI16 (x : Int) : Prop := -32768 ≤ x ∧ x < 32768

instance (x : Int) : Decidable (InI32 x) := inferInstanceAs (Decidable (_ ∧ _))

instance (x : Int) : Decidable (InI16 x) := inferInstanceAs (Decidable (_ ∧ _))

/-- The parameters are values of their fields. -/
def ArrowType.InRange : ArrowType → Prop
  | int w _ => InI32 w
  | floatingPoint p => InI16 p
  | decimal p s w => InI32 p ∧ InI32 s ∧ InI32 w
  | time u w => InI16 u ∧ InI32 w
  | timestamp u _ => InI16 u
  | fixedSizeBinary n => InI32 n
  | _ => True

theorem inI32_toInt (x : Int32) : InI32 x.toInt := ⟨x.le_toInt, x.toInt_lt⟩

theorem inI32_sixtyFour (is64 : Bool) : InI32 (if is64 then 64 else 32) := by
  cases is64 <;> decide

theorem inI16_timeUnit (u : Parquet.TimeUnit) : InI16 (arrowTimeUnit u) := by
  cases u <;> decide

theorem integerParams_inRange (e : Parquet.SchemaElement) (is64 : Bool) :
    InI32 (integerParams e is64).1 := by
  have hconverted : InI32 (integerParams.convertedParams e is64).1 := by
    unfold integerParams.convertedParams
    cases e.convertedType with
    | none => exact inI32_sixtyFour is64
    | some ct =>
      dsimp only
      split
      · have hall : ∀ i, InI32 (integerParams.widths.getD i 0) := by
          intro i
          rcases Nat.lt_or_ge i 8 with hi | hi
          · have hlit : ∀ i < 8, InI32 (integerParams.widths.getD i 0) := by decide
            exact hlit i hi
          · rw [List.getD_eq_default _ _ hi]
            decide
        exact hall _
      · exact inI32_sixtyFour is64
  unfold integerParams
  cases e.logicalType with
  | none => exact hconverted
  | some lt =>
    dsimp only
    split
    · have hle := lt.integer.bitWidth.le_toInt
      have hlt := lt.integer.bitWidth.toInt_lt
      exact ⟨by omega, by omega⟩
    · exact hconverted

theorem arrowIntType_inRange (e : Parquet.SchemaElement) (is64 : Bool) :
    ((arrowIntType e is64).written e).InRange := by
  have hinteger := integerParams_inRange e is64
  unfold arrowIntType
  cases e.logicalType with
  | none => exact hinteger
  | some lt =>
    rw [Option.map_some]
    cases lt.id with
    | timestamp =>
      cases is64 with
      | false => exact hinteger
      | true => exact inI16_timeUnit lt.timestamp.unit
    | date =>
      cases is64 with
      | false => trivial
      | true => exact hinteger
    | time => exact ⟨inI16_timeUnit lt.time.unit, inI32_sixtyFour is64⟩
    | decimal => exact ⟨inI32_toInt e.precision, inI32_toInt e.scale, by decide, by decide⟩
    | _ => exact hinteger

/-- **What is written of an element is in range.** -/
theorem arrowTypeOf_inRange {e : Parquet.SchemaElement} {type : Int32} {t : ArrowType}
    (h : arrowTypeOf e type = some t) : (t.written e).InRange := by
  have hfixed : ((arrowFixedType e).written e).InRange := by
    unfold arrowFixedType
    cases e.logicalType with
    | none => exact inI32_toInt e.typeLength
    | some lt =>
      dsimp only
      split
      · exact ⟨inI32_toInt e.precision, inI32_toInt e.scale, by decide, by decide⟩
      · exact inI32_toInt e.typeLength
  unfold arrowTypeOf at h
  split at h
  · cases h
    trivial
  split at h
  · cases h
    exact ⟨by decide, by decide⟩
  split at h
  · cases h
    exact ⟨by decide, by decide⟩
  split at h
  · cases h
    exact arrowIntType_inRange e false
  split at h
  · cases h
    exact arrowIntType_inRange e true
  split at h
  · cases h
    exact ⟨by decide, by decide⟩
  split at h
  · split at h
    · cases h
      trivial
    · split at h
      · cases h
      · cases h
        trivial
  split at h
  · cases h
    exact hfixed
  · cases h

/-! ## Types are read back -/

/-- A type at its place. -/
def IsType (buf : Bytes) (o : Nat) (t : ArrowType) : Prop :=
  ∃ tz size offs, IsTable buf o size offs (Fbb.slotsOf t.numFields (t.adds tz)) ∧
    ∀ s, t.timezone = some s → IsString buf tz s

theorem IsType.prepend {buf : Bytes} {o : Nat} {t : ArrowType} (h : IsType buf o t)
    (front : Bytes) : IsType (front ++ buf) o t := by
  obtain ⟨tz, size, offs, htable, hstring⟩ := h
  exact ⟨tz, size, offs, htable.prepend front, fun s hs => (hstring s hs).prepend front⟩

section ReadTable

variable {buf back : Bytes} {o size : Nat} {offs : List Nat} {slots : List Slot} {i : Nat}

theorem readI32_present (h : IsTable buf o size offs slots) (hbuf : 4 ∣ buf.length) {x : Int}
    (hx : InI32 x) (hs : slots[i]? = some (.bytes 4 (x % 2 ^ 32).toNat)) (default : Int) :
    readI32 (buf ++ back) (tableOf buf o size offs) i default = some x := by
  have hround : toI32 ((x % 2 ^ 32).toNat : Nat) = x := by
    obtain ⟨hle, hlt⟩ := hx
    unfold toI32
    omega
  rw [readI32, h.scalar back hbuf hs]
  exact congrArg some hround

theorem readI16_present (h : IsTable buf o size offs slots) (hbuf : 4 ∣ buf.length) {x : Int}
    (hx : InI16 x) (hs : slots[i]? = some (.bytes 2 (x % 2 ^ 16).toNat)) (default : Int) :
    readI16 (buf ++ back) (tableOf buf o size offs) i default = some x := by
  have hround : toI16 ((x % 2 ^ 16).toNat : Nat) = x := by
    obtain ⟨hle, hlt⟩ := hx
    unfold toI16
    omega
  rw [readI16, h.scalar back hbuf hs]
  exact congrArg some hround

theorem readI16_absent (h : IsTable buf o size offs slots) (hbuf : 4 ∣ buf.length)
    (hs : slots.getD i .absent = .absent) (default : Int) :
    readI16 (buf ++ back) (tableOf buf o size offs) i default = some default := by
  rw [readI16, h.scalar_absent back hbuf hs]
  rfl

theorem readU8_present (h : IsTable buf o size offs slots) (hbuf : 4 ∣ buf.length) {v : Nat}
    (hs : slots[i]? = some (.bytes 1 v)) :
    readU8 (buf ++ back) (tableOf buf o size offs) i = some v := by
  rw [readU8, h.scalar back hbuf hs]
  rfl

theorem readFlag_present (h : IsTable buf o size offs slots) (hbuf : 4 ∣ buf.length)
    (hs : slots[i]? = some (.bytes 1 1)) :
    readFlag (buf ++ back) (tableOf buf o size offs) i = some true := by
  rw [readFlag, readU8_present h hbuf hs]
  rfl

theorem readFlag_absent (h : IsTable buf o size offs slots) (hbuf : 4 ∣ buf.length)
    (hs : slots.getD i .absent = .absent) :
    readFlag (buf ++ back) (tableOf buf o size offs) i = some false := by
  rw [readFlag, readU8, h.scalar_absent back hbuf hs]
  rfl

theorem readRef_present (h : IsTable buf o size offs slots) (hbuf : 4 ∣ buf.length)
    (hlt : buf.length < 2 ^ 31) {target : Nat} (hs : slots[i]? = some (.ref target)) :
    readRef (buf ++ back) (tableOf buf o size offs) i = some (buf.length - target) := by
  rw [readRef, h.ref back hbuf hlt hs]
  rfl

theorem readString_present (h : IsTable buf o size offs slots) (hbuf : 4 ∣ buf.length)
    (hlt : buf.length < 2 ^ 31) {target : Nat} (hs : slots[i]? = some (.ref target)) {s : Bytes}
    (hstring : IsString buf target s) :
    readString (buf ++ back) (tableOf buf o size offs) i = some (some s) := by
  rw [readString, h.ref back hbuf hlt hs]
  show (stringAt (buf ++ back) (buf.length - target)).map some = _
  rw [hstring.read back hbuf hlt]
  rfl

theorem readString_absent (h : IsTable buf o size offs slots) (hbuf : 4 ∣ buf.length)
    (hs : slots.getD i .absent = .absent) :
    readString (buf ++ back) (tableOf buf o size offs) i = some none := by
  rw [readString, h.ref_absent back hbuf hs]
  rfl

end ReadTable

/-- **A type is read back.** -/
theorem readArrowType_isType {buf : Bytes} {o : Nat} {t : ArrowType} (d : ArrowDefaults)
    (back : Bytes) (h : IsType buf o t) (ht : t.InRange) (hbuf : 4 ∣ buf.length)
    (hlt : buf.length < 2 ^ 31) :
    readArrowType d (buf ++ back) t.tag (buf.length - o) = some (t.seen d) := by
  obtain ⟨tz, size, offs, htable, hstring⟩ := h
  rw [readArrowType, htable.read back hbuf, Option.bind_eq_bind, Option.bind_some]
  cases t with
  | int w isSigned =>
    show (do
      let bitWidth ← readI32 (buf ++ back) (tableOf buf o size offs) 0 0
      let isSigned ← readFlag (buf ++ back) (tableOf buf o size offs) 1
      some (ArrowType.int bitWidth isSigned)) = _
    cases isSigned with
    | true =>
      rw [readI32_present htable hbuf ht rfl, readFlag_present htable hbuf rfl]
      rfl
    | false =>
      rw [readI32_present htable hbuf ht rfl, readFlag_absent htable hbuf rfl]
      rfl
  | floatingPoint p =>
    show (readI16 (buf ++ back) (tableOf buf o size offs) 0 0).map ArrowType.floatingPoint = _
    rw [readI16_present htable hbuf ht rfl]
    rfl
  | binary => rfl
  | utf8 => rfl
  | bool => rfl
  | decimal p s w =>
    show (do
      let precision ← readI32 (buf ++ back) (tableOf buf o size offs) 0 0
      let scale ← readI32 (buf ++ back) (tableOf buf o size offs) 1 0
      let bitWidth ← readI32 (buf ++ back) (tableOf buf o size offs) 2 d.decimalBitWidth
      some (ArrowType.decimal precision scale bitWidth)) = _
    rw [readI32_present htable hbuf ht.1 rfl, readI32_present htable hbuf ht.2.1 rfl,
      readI32_present htable hbuf ht.2.2 rfl]
    rfl
  | date unit =>
    show (readI16 (buf ++ back) (tableOf buf o size offs) 0 d.dateUnit).map ArrowType.date = _
    rw [readI16_absent htable hbuf rfl]
    rfl
  | time u w =>
    show (do
      let unit ← readI16 (buf ++ back) (tableOf buf o size offs) 0 d.timeUnit
      let bitWidth ← readI32 (buf ++ back) (tableOf buf o size offs) 1 d.timeBitWidth
      some (ArrowType.time unit bitWidth)) = _
    rw [readI16_present htable hbuf ht.1 rfl, readI32_present htable hbuf ht.2 rfl]
    rfl
  | timestamp u timezone =>
    show (do
      let unit ← readI16 (buf ++ back) (tableOf buf o size offs) 0 0
      let timezone ← readString (buf ++ back) (tableOf buf o size offs) 1
      some (ArrowType.timestamp unit timezone)) = _
    cases timezone with
    | none =>
      rw [readI16_present htable hbuf ht rfl, readString_absent htable hbuf rfl]
      rfl
    | some s =>
      rw [readI16_present htable hbuf ht rfl,
        readString_present htable hbuf hlt rfl (hstring s rfl)]
      rfl
  | fixedSizeBinary n =>
    show (readI32 (buf ++ back) (tableOf buf o size offs) 0 0).map ArrowType.fixedSizeBinary = _
    rw [readI32_present htable hbuf ht rfl]
    rfl

/-! ## How long a type is -/

/-- How long the table of a type is, behind a multiple of 4. -/
def ArrowType.tableSize : ArrowType → Nat
  | int _ isSigned => if isSigned then 20 else 14
  | decimal _ _ _ => 26
  | time _ _ => 20
  | timestamp _ (some _) => 20
  | timestamp _ none => 14
  | floatingPoint _ => 14
  | fixedSizeBinary _ => 14
  | _ => 8

/-- And its time zone. -/
def ArrowType.zoneSize (t : ArrowType) : Nat :=
  match t.timezone with
  | some s => Fbb.roundUp (s.length + 1) 4 + 4
  | none => 0

def ArrowType.size (t : ArrowType) : Nat := t.zoneSize + t.tableSize

open Fbb (roundUp filledTo tableEnd)

/-- Where a table ends whose vtable has `n` entries. -/
theorem tableEnd_eq {len n : Nat} {adds : List Fbb.Add} (kept filled : Nat)
    (hfilled : filledTo len adds = filled)
    (hkept : Fbb.entries (Fbb.slotsOf n adds) = kept) :
    tableEnd len n adds = roundUp filled 4 + 4 + (4 + 2 * kept) := by
  rw [tableEnd, hfilled, hkept]

theorem tableEnd_type {len : Nat} (t : ArrowType) (tz : Nat) (hlen : 4 ∣ len) :
    tableEnd len t.numFields (t.adds tz) = len + t.tableSize := by
  cases t with
  | int w isSigned =>
    cases isSigned with
    | true =>
      rw [tableEnd_eq 2 (roundUp (roundUp len 4 + 4) 1 + 1) rfl rfl]
      simp only [roundUp, ArrowType.tableSize, if_true]
      omega
    | false =>
      rw [tableEnd_eq 1 (roundUp len 4 + 4) rfl rfl]
      simp only [roundUp, ArrowType.tableSize, Bool.false_eq_true, if_false]
      omega
  | floatingPoint p =>
    rw [tableEnd_eq 1 (roundUp len 2 + 2) rfl rfl]
    simp only [roundUp, ArrowType.tableSize]
    omega
  | binary | utf8 | bool | date =>
    rw [tableEnd_eq 0 len rfl rfl]
    simp only [roundUp, ArrowType.tableSize]
    omega
  | decimal p s w =>
    rw [tableEnd_eq 3 (roundUp (roundUp (roundUp len 4 + 4) 4 + 4) 4 + 4) rfl rfl]
    simp only [roundUp, ArrowType.tableSize]
    omega
  | time u w =>
    rw [tableEnd_eq 2 (roundUp (roundUp len 2 + 2) 4 + 4) rfl rfl]
    simp only [roundUp, ArrowType.tableSize]
    omega
  | timestamp u timezone =>
    cases timezone with
    | none =>
      rw [tableEnd_eq 1 (roundUp len 2 + 2) rfl rfl]
      simp only [roundUp, ArrowType.tableSize]
      omega
    | some s =>
      rw [tableEnd_eq 2 (roundUp (roundUp len 2 + 2) 4 + 4) rfl rfl]
      simp only [roundUp, ArrowType.tableSize]
      omega
  | fixedSizeBinary n =>
    rw [tableEnd_eq 1 (roundUp len 4 + 4) rfl rfl]
    simp only [roundUp, ArrowType.tableSize]
    omega

theorem ArrowType.adds_ok {base tz : Nat} (t : ArrowType) (htz : tz ≤ base) :
    ∀ a ∈ t.adds tz, a.Ok base := by
  have h4 : ∀ (i : Nat) (x : Int), (Fbb.Add.scalar i 4 (x % 2 ^ 32).toNat).Ok base :=
    fun i x => ⟨.inr (.inr rfl), by omega⟩
  have h2 : ∀ (i : Nat) (x : Int), (Fbb.Add.scalar i 2 (x % 2 ^ 16).toNat).Ok base :=
    fun i x => ⟨.inr (.inl rfl), by omega⟩
  have h1 : (Fbb.Add.scalar 1 1 1).Ok base := ⟨.inl rfl, by decide⟩
  cases t with
  | int w isSigned =>
    cases isSigned with
    | true => exact List.forall_mem_cons.mpr ⟨h4 0 w, List.forall_mem_singleton.mpr h1⟩
    | false => exact List.forall_mem_singleton.mpr (h4 0 w)
  | floatingPoint p => exact List.forall_mem_singleton.mpr (h2 0 p)
  | binary | utf8 | bool | date => exact fun a ha => absurd ha List.not_mem_nil
  | decimal p s w =>
    exact List.forall_mem_cons.mpr ⟨h4 0 p, List.forall_mem_cons.mpr ⟨h4 1 s,
      List.forall_mem_singleton.mpr (h4 2 w)⟩⟩
  | time u w =>
    exact List.forall_mem_cons.mpr ⟨h2 0 u, List.forall_mem_singleton.mpr (h4 1 w)⟩
  | timestamp u timezone =>
    cases timezone with
    | none => exact List.forall_mem_singleton.mpr (h2 0 u)
    | some s => exact List.forall_mem_cons.mpr ⟨h2 0 u, List.forall_mem_singleton.mpr htz⟩
  | fixedSizeBinary n => exact List.forall_mem_singleton.mpr (h4 0 n)

theorem ArrowType.length_adds (t : ArrowType) (tz : Nat) :
    (t.adds tz).length ≤ 100 ∧ t.numFields ≤ 100 := by
  cases t with
  | int w isSigned => cases isSigned <;> simp [ArrowType.adds, ArrowType.numFields]
  | timestamp u timezone => cases timezone <;> simp [ArrowType.adds, ArrowType.numFields]
  | _ => simp [ArrowType.adds, ArrowType.numFields]

/-- **A type is built at its place**, as long as its parameters say. -/
theorem buildType_spec (b : Fbb) (t : ArrowType) :
    Fbb.Extends b (buildType b t).2.2 ∧
      (buildType b t).2.1 ≤ (buildType b t).2.2.live.length ∧
      (4 ∣ b.live.length →
        (buildType b t).2.2.live.length < 2 ^ 31 ∨ b.live.length + t.size < 2 ^ 31 →
        (buildType b t).2.2.live.length = b.live.length + t.size ∧
        IsType (buildType b t).2.2.live (buildType b t).2.1 t) := by
  have hzone : ∀ z, t.timezone = z → t.zoneSize =
      match z with
      | some s => roundUp (s.length + 1) 4 + 4
      | none => 0 := by
    rintro _ rfl
    rfl
  unfold buildType ArrowType.size
  cases htz : t.timezone with
  | none =>
    have hok := t.adds_ok (Nat.zero_le b.live.length)
    obtain ⟨hadds, hn⟩ := t.length_adds 0
    rw [hzone none htz]
    refine ⟨b.extends_buildTable hok, Fbb.endTable_le _, fun hlive hlt => ?_⟩
    rw [Nat.zero_add, ← tableEnd_type t 0 hlive] at hlt ⊢
    obtain ⟨hlength, size, offs, htable⟩ := b.isTable_buildTable hok hn hadds hlt
    exact ⟨hlength, 0, size, offs, htable, fun s hs => absurd (htz.symm.trans hs) nofun⟩
  | some s =>
    obtain ⟨front, hputs, hstring, ho⟩ := b.createString_spec s
    obtain ⟨hfour, hge, hlt'⟩ := b.length_createString s
    have hok := t.adds_ok (Nat.le_of_eq ho)
    obtain ⟨hadds, hn⟩ := t.length_adds (b.createString s).1
    refine ⟨(hputs.extends (Nat.le_refl 4)).trans (Fbb.extends_buildTable _ hok),
      Fbb.endTable_le _, fun hlive hlt => ?_⟩
    have hsize : (b.createString s).2.live.length = b.live.length + t.zoneSize := by
      rw [hzone (some s) htz]
      simp only [roundUp]
      omega
    rw [← Nat.add_assoc, ← hsize, ← tableEnd_type t (b.createString s).1 hfour] at hlt ⊢
    obtain ⟨hlength, size, offs, htable⟩ :=
      (b.createString s).2.isTable_buildTable hok hn hadds hlt
    refine ⟨hlength, (b.createString s).1, size, offs, htable, fun s' hs' => ?_⟩
    obtain ⟨behind, hbehind⟩ :=
      (Fbb.extends_buildTable (b.createString s).2 hok (n := t.numFields)).live
    obtain rfl : s = s' := Option.some.inj (htz.symm.trans hs')
    have hkept := hstring.prepend behind
    rw [← hbehind] at hkept
    exact hkept

/-! ## Fields -/

namespace ArrowField

/-- What is put into the table of a field, where its name and its type are at these places. -/
def adds (f : ArrowField) (nameOff typeOff : Nat) : List Fbb.Add :=
  .ref 0 nameOff :: ((if f.nullable then [.scalar 1 1 1] else []) ++
    [.scalar 2 1 f.type.tag, .ref 3 typeOff])

def written (e : Parquet.SchemaElement) (f : ArrowField) : ArrowField :=
  { f with type := f.type.written e }

def seen (d : ArrowDefaults) (f : ArrowField) : ArrowField := { f with type := f.type.seen d }

/-- How long a field is, behind a multiple of 4: its type, its name and its table. -/
def size (f : ArrowField) : Nat := roundUp (f.type.size + f.name.length + 1) 4 + 32

end ArrowField

/-- A field as the loop builds it. -/
def encodeArrowField (b : Fbb) (f : ArrowField) : Nat × Fbb :=
  ((buildType b f.type).2.2.createString f.name).2.buildTable 7
    (f.adds ((buildType b f.type).2.2.createString f.name).1 (buildType b f.type).2.1)

/-- The field of an element as it is written. -/
def writtenFieldOf (e : Parquet.SchemaElement) : Option ArrowField :=
  (arrowFieldOf e).map (ArrowField.written e)

theorem buildField_eq (b : Fbb) (e : Parquet.SchemaElement) :
    buildField b e = (writtenFieldOf e).map (encodeArrowField b) := by
  have htag : ∀ t, (buildType b t).1 = t.tag := by
    intro t
    unfold buildType
    cases t.timezone <;> rfl
  unfold buildField writtenFieldOf arrowFieldOf
  cases e.type with
  | none => rfl
  | some type =>
    cases e.name with
    | none => rfl
    | some name =>
      simp only [Option.bind_eq_bind, Option.bind_some, buildArrowType_eq]
      cases arrowTypeOf e type with
      | none => rfl
      | some t =>
        simp only [Option.map_some, Option.bind_some, htag]
        generalize (!decide (e.repetitionType = some 0)) = nullable
        cases nullable <;> rfl

/-- The fields, one behind the other. -/
def encodeArrowFields : Fbb → List ArrowField → List Nat × Fbb
  | b, [] => ([], b)
  | b, f :: fs =>
    ((encodeArrowField b f).1 :: (encodeArrowFields (encodeArrowField b f).2 fs).1,
      (encodeArrowFields (encodeArrowField b f).2 fs).2)

theorem buildFields_eq (b : Fbb) (es : List Parquet.SchemaElement) :
    buildFields b es = (es.mapM writtenFieldOf).map (encodeArrowFields b) := by
  induction es generalizing b with
  | nil => rfl
  | cons e es ih =>
    rw [buildFields, buildField_eq, List.mapM_cons]
    cases writtenFieldOf e with
    | none => rfl
    | some f =>
      simp only [Option.map_some, Option.bind_eq_bind, Option.bind_some, ih]
      cases es.mapM writtenFieldOf <;> rfl

/-- A field at its place. -/
def IsField (buf : Bytes) (o : Nat) (f : ArrowField) : Prop :=
  ∃ nameOff typeOff size offs, IsTable buf o size offs (Fbb.slotsOf 7 (f.adds nameOff typeOff)) ∧
    IsString buf nameOff f.name ∧ IsType buf typeOff f.type

theorem IsField.prepend {buf : Bytes} {o : Nat} {f : ArrowField} (h : IsField buf o f)
    (front : Bytes) : IsField (front ++ buf) o f := by
  obtain ⟨nameOff, typeOff, size, offs, htable, hname, htype⟩ := h
  exact ⟨nameOff, typeOff, size, offs, htable.prepend front, hname.prepend front,
    htype.prepend front⟩

/-- **A field is read back.** -/
theorem readArrowField_isField {buf back : Bytes} {o : Nat} {f : ArrowField} (d : ArrowDefaults)
    (h : IsField buf o f) (hf : f.type.InRange) (hbuf : 4 ∣ buf.length)
    (hlt : buf.length < 2 ^ 31) :
    readArrowField d (buf ++ back) (buf.length - o) = some (f.seen d) := by
  obtain ⟨nameOff, typeOff, size, offs, htable, hname, htype⟩ := h
  obtain ⟨name, nullable, type⟩ := f
  have htype := readArrowType_isType d back htype hf hbuf hlt
  have hname := hname.read back hbuf hlt
  rw [readArrowField, htable.read back hbuf, Option.bind_eq_bind, Option.bind_some]
  cases nullable with
  | true =>
    rw [readRef_present htable hbuf hlt rfl, readFlag_present htable hbuf rfl,
      readU8_present htable hbuf rfl, readRef_present htable hbuf hlt rfl]
    simp only [Option.bind_eq_bind, Option.bind_some, hname, htype]
    rfl
  | false =>
    rw [readRef_present htable hbuf hlt rfl, readFlag_absent htable hbuf rfl,
      readU8_present htable hbuf rfl, readRef_present htable hbuf hlt rfl]
    simp only [Option.bind_eq_bind, Option.bind_some, hname, htype]
    rfl

theorem ArrowType.tag_lt (t : ArrowType) : t.tag < 256 := by
  cases t <;> exact Nat.le_of_ble_eq_true rfl

theorem tableEnd_field {len : Nat} (f : ArrowField) (nameOff typeOff : Nat) (hlen : 4 ∣ len) :
    tableEnd len 7 (f.adds nameOff typeOff) = len + 28 := by
  obtain ⟨name, nullable, type⟩ := f
  cases nullable with
  | true =>
    rw [tableEnd_eq 4 (roundUp (roundUp (roundUp (roundUp len 4 + 4) 1 + 1) 1 + 1) 4 + 4) rfl rfl]
    simp only [roundUp]
    omega
  | false =>
    rw [tableEnd_eq 4 (roundUp (roundUp (roundUp len 4 + 4) 1 + 1) 4 + 4) rfl rfl]
    simp only [roundUp]
    omega

/-- **A field is built at its place**, as long as its name and its type say. -/
theorem encodeArrowField_spec (b : Fbb) (f : ArrowField) :
    Fbb.Extends b (encodeArrowField b f).2 ∧
      (encodeArrowField b f).1 ≤ (encodeArrowField b f).2.live.length ∧
      (4 ∣ b.live.length →
        (encodeArrowField b f).2.live.length < 2 ^ 31 ∨ b.live.length + f.size < 2 ^ 31 →
        (encodeArrowField b f).2.live.length = b.live.length + f.size ∧
        IsField (encodeArrowField b f).2.live (encodeArrowField b f).1 f) := by
  obtain ⟨htypeExtends, htypeOff, htype⟩ := buildType_spec b f.type
  obtain ⟨front, hputs, hname, ho⟩ := (buildType b f.type).2.2.createString_spec f.name
  obtain ⟨hfour, hge, hlt'⟩ := (buildType b f.type).2.2.length_createString f.name
  have hok : ∀ a ∈ f.adds ((buildType b f.type).2.2.createString f.name).1 (buildType b f.type).2.1,
      a.Ok ((buildType b f.type).2.2.createString f.name).2.live.length := by
    have htag : (Fbb.Add.scalar 2 1 f.type.tag).Ok
        ((buildType b f.type).2.2.createString f.name).2.live.length := ⟨.inl rfl, f.type.tag_lt⟩
    have hrest : ∀ a ∈ [Fbb.Add.scalar 2 1 f.type.tag, .ref 3 (buildType b f.type).2.1],
        a.Ok ((buildType b f.type).2.2.createString f.name).2.live.length :=
      List.forall_mem_cons.mpr ⟨htag, List.forall_mem_singleton.mpr
        (show (buildType b f.type).2.1 ≤ _ by omega)⟩
    unfold ArrowField.adds
    cases f.nullable with
    | true =>
      exact List.forall_mem_cons.mpr ⟨Nat.le_of_eq ho, List.forall_mem_cons.mpr
        ⟨⟨.inl rfl, by decide⟩, hrest⟩⟩
    | false => exact List.forall_mem_cons.mpr ⟨Nat.le_of_eq ho, hrest⟩
  have hadds : (f.adds ((buildType b f.type).2.2.createString f.name).1
      (buildType b f.type).2.1).length ≤ 100 := by
    unfold ArrowField.adds
    cases f.nullable <;> exact Nat.le_of_ble_eq_true rfl
  have hextends := Fbb.extends_buildTable _ hok (n := 7)
  have hnameLength := (hputs.extends (Nat.le_refl 4)).length_le
  refine ⟨(htypeExtends.trans (hputs.extends (Nat.le_refl 4))).trans hextends,
    Fbb.endTable_le _, fun hlive hlt => ?_⟩
  have hmono : ((buildType b f.type).2.2.createString f.name).2.live.length ≤
      (encodeArrowField b f).2.live.length := hextends.length_le
  obtain ⟨htypeLength, htype⟩ := htype hlive (by
    unfold ArrowField.size roundUp at hlt
    omega)
  have hsize : ((buildType b f.type).2.2.createString f.name).2.live.length + 28 =
      b.live.length + f.size := by
    unfold ArrowField.size roundUp
    omega
  rw [← hsize, ← tableEnd_field f _ _ hfour] at hlt ⊢
  obtain ⟨hlength, size, offs, htable⟩ :=
    Fbb.isTable_buildTable _ hok (by decide) hadds hlt
  obtain ⟨behind, hbehind⟩ := hextends.live
  have hnameKept := hname.prepend behind
  have htypeKept := htype.prepend (behind ++ front)
  rw [← hbehind] at hnameKept
  rw [List.append_assoc, ← hputs.live, ← hbehind] at htypeKept
  exact ⟨hlength, _, _, size, offs, htable, hnameKept, htypeKept⟩

/-- **All fields are built at their places**, however many there are and however long the names. -/
theorem encodeArrowFields_spec (b : Fbb) (fs : List ArrowField) :
    Fbb.Extends b (encodeArrowFields b fs).2 ∧
      (∀ o ∈ (encodeArrowFields b fs).1, o ≤ (encodeArrowFields b fs).2.live.length) ∧
      (4 ∣ b.live.length →
        (encodeArrowFields b fs).2.live.length < 2 ^ 31 ∨
          b.live.length + (fs.map ArrowField.size).sum < 2 ^ 31 →
        (encodeArrowFields b fs).2.live.length = b.live.length + (fs.map ArrowField.size).sum ∧
        List.Forall₂ (IsField (encodeArrowFields b fs).2.live) (encodeArrowFields b fs).1 fs) := by
  induction fs generalizing b with
  | nil =>
    exact ⟨Fbb.Extends.refl b, fun o ho => absurd ho List.not_mem_nil, fun _ _ => ⟨rfl, .nil⟩⟩
  | cons f fs ih =>
    obtain ⟨hextends, hle, hfield⟩ := encodeArrowField_spec b f
    obtain ⟨hrestExtends, hrestLe, hrest⟩ := ih (encodeArrowField b f).2
    have hmono := hrestExtends.length_le
    refine ⟨hextends.trans hrestExtends,
      List.forall_mem_cons.mpr ⟨Nat.le_trans hle hmono, hrestLe⟩, fun hlive hlt => ?_⟩
    rw [List.map_cons, List.sum_cons, ← Nat.add_assoc] at hlt ⊢
    obtain ⟨hlength, hfield⟩ := hfield hlive (hlt.imp (Nat.lt_of_le_of_lt hmono) (by omega))
    rw [← hlength] at hlt ⊢
    have hlive' : 4 ∣ (encodeArrowField b f).2.live.length := by
      rw [hlength, ArrowField.size, roundUp]
      omega
    obtain ⟨hrestLength, hrest⟩ := hrest hlive' hlt
    obtain ⟨front, hfront⟩ := hrestExtends.live
    have hkept := hfield.prepend front
    rw [← hfront] at hkept
    exact ⟨hrestLength, .cons hkept hrest⟩

/-! ## The message -/

/-- What is put into the message. -/
def messageAdds (schemaOff : Nat) : List Fbb.Add :=
  [.scalar 0 2 4, .scalar 1 1 1, .ref 2 schemaOff]

/-- A whole buffer that is the message of a schema with these fields. -/
def IsMessage (buf : Bytes) (fs : List ArrowField) : Prop :=
  4 ∣ buf.length ∧ ∃ root schemaOff vec size size' offs offs' targets,
    root < buf.length ∧ At buf buf.length (leBytes 4 (buf.length - root)) ∧
    IsTable buf root size offs (Fbb.slotsOf 5 (messageAdds schemaOff)) ∧
    IsTable buf schemaOff size' offs' (Fbb.slotsOf 4 [.ref 1 vec]) ∧
    IsVector buf vec targets ∧ List.Forall₂ (IsField buf) targets fs

/-- How long the message is. -/
def arrowMessageSize (fs : List ArrowField) : Nat :=
  (fs.map ArrowField.size).sum + 4 * fs.length + 48

/-- **The message is built around the fields.** -/
theorem buildMessage_spec (b : Fbb) {offs : List Nat} {fs : List ArrowField}
    (hmin : b.minalign ≤ 4) (hoffs : ∀ o ∈ offs, o ≤ b.live.length) :
    b.live.length ≤ (buildMessage b offs).live.length ∧
      (4 ∣ b.live.length → List.Forall₂ (IsField b.live) offs fs →
        (buildMessage b offs).live.length < 2 ^ 31 ∨
          b.live.length + 4 * offs.length + 48 < 2 ^ 31 →
        (buildMessage b offs).live.length = b.live.length + 4 * offs.length + 48 ∧
        IsMessage (buildMessage b offs).live fs) := by
  obtain ⟨hvecExtends, hvecOff, hvecLength, hvec⟩ := b.vector_spec hoffs
  obtain ⟨v, hv⟩ : ∃ v, v = (offs.reverse.foldl Fbb.prependUoffset
    (b.startVector 4 offs.length 4)).endVector offs.length := ⟨_, rfl⟩
  have hmessage : buildMessage b offs =
      ((v.2.buildTable 4 [.ref 1 v.1]).2.buildTable 5
        (messageAdds (v.2.buildTable 4 [.ref 1 v.1]).1)).2.finish
        ((v.2.buildTable 4 [.ref 1 v.1]).2.buildTable 5
          (messageAdds (v.2.buildTable 4 [.ref 1 v.1]).1)).1 := by
    rw [hv]
    rfl
  rw [hmessage]
  rw [← hv] at hvecExtends hvecOff hvecLength hvec
  have hschemaOk : ∀ a ∈ [Fbb.Add.ref 1 v.1], a.Ok v.2.live.length :=
    List.forall_mem_singleton.mpr (Nat.le_of_eq hvecOff)
  have hschemaExtends := v.2.extends_buildTable hschemaOk (n := 4)
  have hmessageOk : ∀ a ∈ messageAdds (v.2.buildTable 4 [.ref 1 v.1]).1,
      a.Ok (v.2.buildTable 4 [.ref 1 v.1]).2.live.length :=
    List.forall_mem_cons.mpr ⟨⟨.inr (.inl rfl), by decide⟩, List.forall_mem_cons.mpr
      ⟨⟨.inl rfl, by decide⟩, List.forall_mem_singleton.mpr (Fbb.endTable_le _)⟩⟩
  have hmessageExtends := Fbb.extends_buildTable _ hmessageOk (n := 5)
  have hschemaSpec := v.2.isTable_buildTable hschemaOk (by decide : 4 ≤ 100)
    (Nat.le_of_ble_eq_true rfl)
  have hmessageSpec := Fbb.isTable_buildTable _ hmessageOk (by decide : 5 ≤ 100)
    (Nat.le_of_ble_eq_true rfl)
  have hendLe := Fbb.endTable_le ((messageAdds (v.2.buildTable 4 [.ref 1 v.1]).1).foldl Fbb.add
    ((v.2.buildTable 4 [.ref 1 v.1]).2.startTable 5))
  have hfour := Fbb.four_le_endTable ((messageAdds (v.2.buildTable 4 [.ref 1 v.1]).1).foldl Fbb.add
    ((v.2.buildTable 4 [.ref 1 v.1]).2.startTable 5))
  have hschemaEnd : 4 ∣ v.2.live.length →
      tableEnd v.2.live.length 4 [.ref 1 v.1] = v.2.live.length + 16 := by
    intro hdvd
    rw [tableEnd_eq 2 (roundUp v.2.live.length 4 + 4) rfl rfl]
    simp only [roundUp]
    omega
  generalize v.2.buildTable 4 [.ref 1 v.1] = schema at *
  have hmessageEnd : 4 ∣ schema.2.live.length →
      tableEnd schema.2.live.length 5 (messageAdds schema.1) = schema.2.live.length + 22 := by
    intro hdvd
    rw [tableEnd_eq 3 (roundUp (roundUp (roundUp schema.2.live.length 2 + 2) 1 + 1) 4 + 4) rfl rfl]
    simp only [roundUp]
    omega
  have hmessageLe : (schema.2.buildTable 5 (messageAdds schema.1)).1 ≤
      (schema.2.buildTable 5 (messageAdds schema.1)).2.live.length := hendLe
  have hmessageFour : 4 ≤ (schema.2.buildTable 5 (messageAdds schema.1)).2.minalign := hfour
  generalize schema.2.buildTable 5 (messageAdds schema.1) = message at *
  have hall := (hvecExtends.trans hschemaExtends).trans hmessageExtends
  obtain ⟨⟨front, hfront⟩, hlength, hroot⟩ := message.2.finish_spec
    (Nat.le_antisymm (hall.le_four hmin) hmessageFour) hmessageLe
  have hallLength := hall.length_le
  have hmessageLength := hmessageExtends.length_le
  have hround : message.2.live.length ≤ roundUp message.2.live.length 4 := by
    unfold roundUp
    omega
  refine ⟨by omega, fun hlive hfields hlt => ?_⟩
  have hvecRound : roundUp b.live.length 4 = b.live.length := by
    unfold roundUp
    omega
  rw [hvecRound] at hvecLength
  have hvecFour : 4 ∣ v.2.live.length := by omega
  have hschemaEnd := hschemaEnd hvecFour
  obtain ⟨hschemaLength, size', offs', hschema⟩ := hschemaSpec (by omega)
  have hmessageEnd := hmessageEnd (by omega)
  obtain ⟨hmessageLength', size, offs'', hmessage⟩ := hmessageSpec (by omega)
  have hround' : roundUp message.2.live.length 4 = message.2.live.length + 2 := by
    unfold roundUp
    omega
  obtain ⟨front₁, hfront₁⟩ := hmessageExtends.live
  obtain ⟨front₂, hfront₂⟩ := hschemaExtends.live
  obtain ⟨front₃, hfront₃⟩ := hvecExtends.live
  have hschema := (hschema.prepend front₁).prepend front
  have hvec := ((hvec.prepend front₂).prepend front₁).prepend front
  have hfields := hfields.imp fun _ _ h =>
    (((h.prepend front₃).prepend front₂).prepend front₁).prepend front
  have hmessage := hmessage.prepend front
  rw [← hfront₁, ← hfront] at hschema
  rw [← hfront₂, ← hfront₁, ← hfront] at hvec
  rw [← hfront₃, ← hfront₂, ← hfront₁, ← hfront] at hfields
  rw [← hfront] at hmessage
  exact ⟨by omega, by omega, message.1, schema.1, v.1, size, size', offs'', offs', offs, by omega,
    hroot, hmessage, hschema, hvec, hfields⟩

/-- **The message is read back.** -/
theorem readArrowMessage_isMessage {buf : Bytes} {fs : List ArrowField} (d : ArrowDefaults)
    (h : IsMessage buf fs) (hfs : ∀ f ∈ fs, f.type.InRange) (hlt : buf.length < 2 ^ 31)
    (back : Bytes) : readArrowMessage d (buf ++ back) = some (fs.map (ArrowField.seen d)) := by
  obtain ⟨hbuf, root, schemaOff, vec, size, size', offs, offs', targets, hrootLt, hroot, hmessage,
    hschema, hvec, hfields⟩ := h
  have hfollow := hroot.follow back hbuf hrootLt hbuf hlt
  rw [Nat.sub_self] at hfollow
  have hvecLength := hvec.length_le
  have hrefs := hvec.read back hbuf hlt (by omega)
  have hall : (targets.map fun t => buf.length - t).mapM (readArrowField d (buf ++ back)) =
      some (fs.map (ArrowField.seen d)) := by
    clear hvecLength hrefs hvec
    induction hfields with
    | nil => rfl
    | cons hfield hrest ih =>
      rw [List.map_cons, List.mapM_cons,
        readArrowField_isField d hfield (hfs _ List.mem_cons_self) hbuf hlt,
        ih fun f hf => hfs f (List.mem_cons_of_mem _ hf)]
      rfl
  rw [readArrowMessage, hfollow]
  simp only [Option.bind_eq_bind, Option.bind_some]
  rw [hmessage.read back hbuf, Option.bind_some,
    readI16_present (x := 4) hmessage hbuf (by decide) rfl,
    readU8_present (v := 1) hmessage hbuf rfl, Option.bind_some, Option.bind_some,
    if_pos ⟨rfl, rfl⟩, readRef_present hmessage hbuf hlt rfl, Option.bind_some,
    hschema.read back hbuf, Option.bind_some, readI16_absent hschema hbuf rfl, Option.bind_some,
    if_pos rfl, readRef_present hschema hbuf hlt rfl, Option.bind_some, hrefs, Option.bind_some,
    hall]

/-! ## The encapsulated message -/

/-- **A message is taken out of its capsule** as long as its length has a sign. -/
theorem readEncapsulated_encapsulate (fb : Bytes) :
    ∃ n, readEncapsulated (encapsulate fb) =
      if fb.length + 7 < 2 ^ 31 then some (fb ++ List.replicate n 0) else none := by
  obtain ⟨padded, hpadded⟩ : ∃ padded, padded = (fb.length + 7) / 8 * 8 := ⟨_, rfl⟩
  have hbytes : encapsulate fb =
      leBytes 4 0xFFFFFFFF ++ (leBytes 4 padded ++
        (fb ++ List.replicate (padded - fb.length) 0)) := by
    simp only [encapsulate, ← hpadded, List.append_assoc]
  have hlength : (encapsulate fb).length = 8 + padded := by
    rw [hbytes]
    simp only [List.length_append, length_leBytes, List.length_replicate]
    omega
  have htake : (encapsulate fb).take 4 = leBytes 4 0xFFFFFFFF := by
    rw [hbytes]
    exact List.take_left' (length_leBytes ..)
  have hmiddle : ((encapsulate fb).drop 4).take 4 = leBytes 4 padded := by
    rw [hbytes, List.drop_left' (length_leBytes ..)]
    exact List.take_left' (length_leBytes ..)
  have hrest : (encapsulate fb).drop 8 = fb ++ List.replicate (padded - fb.length) 0 := by
    rw [show 8 = 4 + 4 from rfl, ← List.drop_drop, hbytes, List.drop_left' (length_leBytes ..)]
    exact List.drop_left' (length_leBytes ..)
  have hlen : toI32 (leNat (((encapsulate fb).drop 4).take 4)) =
      ((encapsulate fb).length - 8 : Nat) ↔ fb.length + 7 < 2 ^ 31 := by
    rw [hmiddle, hlength, leNat_leBytes]
    unfold toI32
    omega
  have hmultiple : ((encapsulate fb).length - 8) % 8 = 0 := by omega
  refine ⟨padded - fb.length, ?_⟩
  unfold readEncapsulated
  by_cases hfits : fb.length + 7 < 2 ^ 31
  · rw [if_pos ⟨by omega, htake, hlen.mpr hfits, hmultiple⟩, if_pos hfits, hrest]
  · rw [if_neg fun h => hfits (hlen.mp h.2.2.1), if_neg hfits]

/-! ## What the schema says is told -/

/-- An element of which the message says what the schema says: a decimal has the parameters of its
logical type, and a date the unit that is meant where none is there. -/
def Told (d : ArrowDefaults) (e : Parquet.SchemaElement) : Prop :=
  ∀ lt, e.logicalType = some lt →
    (lt.id = .decimal → e.type = some physicalInt32 ∨ e.type = some physicalInt64 ∨
      e.type = some physicalFixedLenByteArray →
      e.precision = lt.decimal.precision ∧ e.scale = lt.decimal.scale) ∧
    (lt.id = .date → e.type = some physicalInt32 → d.dateUnit = 0)

theorem toInt_inj {x y : Int32} : x.toInt = y.toInt ↔ x = y := Int32.toInt_inj

/-- A decimal is told exactly when the parameters agree. -/
theorem seen_decimal_iff (d : ArrowDefaults) (e : Parquet.SchemaElement)
    (lt : Parquet.LogicalType) :
    ((arrowDecimal lt).written e).seen d = arrowDecimal lt ↔
      e.precision = lt.decimal.precision ∧ e.scale = lt.decimal.scale := by
  show ArrowType.decimal e.precision.toInt e.scale.toInt 128 = ArrowType.decimal _ _ 128 ↔ _
  rw [ArrowType.decimal.injEq, toInt_inj, toInt_inj]
  exact ⟨fun h => ⟨h.1, h.2.1⟩, fun h => ⟨h.1, h.2, rfl⟩⟩

/-- What an element with no decimal and no date says is told. -/
theorem told_of_other {d : ArrowDefaults} {e : Parquet.SchemaElement}
    (h : ∀ lt, e.logicalType = some lt → lt.id ≠ .decimal ∧ lt.id ≠ .date) : Told d e :=
  fun lt hlt => ⟨fun hid => absurd hid (h lt hlt).1, fun hid => absurd hid (h lt hlt).2⟩

/-- And what one of another physical type says. -/
theorem told_of_type {d : ArrowDefaults} {e : Parquet.SchemaElement} {type : Int32}
    (htype : e.type = some type) (h1 : type ≠ physicalInt32) (h2 : type ≠ physicalInt64)
    (h7 : type ≠ physicalFixedLenByteArray) : Told d e := by
  have hne : ∀ other, type ≠ other → e.type ≠ some other := by
    intro other hother heq
    exact hother (Option.some.inj (htype.symm.trans heq))
  intro lt _
  refine ⟨fun _ h => ?_, fun _ h => absurd h (hne _ h1)⟩
  rcases h with h | h | h
  · exact absurd h (hne _ h1)
  · exact absurd h (hne _ h2)
  · exact absurd h (hne _ h7)

theorem told_iff {d : ArrowDefaults} {e : Parquet.SchemaElement} {lt : Parquet.LogicalType}
    (hlt : e.logicalType = some lt) : Told d e ↔
      (lt.id = .decimal → e.type = some physicalInt32 ∨ e.type = some physicalInt64 ∨
        e.type = some physicalFixedLenByteArray →
        e.precision = lt.decimal.precision ∧ e.scale = lt.decimal.scale) ∧
      (lt.id = .date → e.type = some physicalInt32 → d.dateUnit = 0) := by
  constructor
  · exact fun h => h lt hlt
  · intro h lt' hlt'
    obtain rfl : lt = lt' := Option.some.inj (hlt.symm.trans hlt')
    exact h

theorem told_decimal_iff {d : ArrowDefaults} {e : Parquet.SchemaElement} {lt : Parquet.LogicalType}
    (hlt : e.logicalType = some lt) (hid : lt.id = .decimal)
    (htype : e.type = some physicalInt32 ∨ e.type = some physicalInt64 ∨
      e.type = some physicalFixedLenByteArray) :
    Told d e ↔ e.precision = lt.decimal.precision ∧ e.scale = lt.decimal.scale := by
  rw [told_iff hlt]
  constructor
  · exact fun h => h.1 hid htype
  · exact fun h => ⟨fun _ _ => h, fun hdate => by rw [hid] at hdate; cases hdate⟩

/-- INT32 and INT64. -/
theorem seen_intType_iff {d : ArrowDefaults} {e : Parquet.SchemaElement} {is64 : Bool}
    (htype : e.type = some (if is64 then physicalInt64 else physicalInt32)) :
    ((arrowIntType e is64).written e).seen d = arrowIntType e is64 ↔ Told d e := by
  unfold arrowIntType
  cases hlt : e.logicalType with
  | none => exact iff_of_true rfl (told_of_other fun lt h => by rw [hlt] at h; cases h)
  | some lt =>
    have hother : lt.id ≠ .decimal ∧ lt.id ≠ .date → Told d e := by
      intro hid
      refine told_of_other fun lt' hlt' => ?_
      obtain rfl : lt = lt' := Option.some.inj (hlt.symm.trans hlt')
      exact hid
    rw [Option.map_some]
    cases hid : lt.id with
    | decimal =>
      refine (seen_decimal_iff d e lt).trans (told_decimal_iff hlt hid ?_).symm
      cases is64 with
      | false => exact .inl htype
      | true => exact .inr (.inl htype)
    | date =>
      cases is64 with
      | false =>
        rw [told_iff hlt]
        show ArrowType.date d.dateUnit = ArrowType.date 0 ↔ _
        rw [ArrowType.date.injEq]
        constructor
        · intro h
          refine ⟨fun hdecimal => ?_, fun _ _ => h⟩
          rw [hid] at hdecimal
          cases hdecimal
        · exact fun h => h.2 hid htype
      | true =>
        refine iff_of_true rfl ((told_iff hlt).mpr ⟨fun hdecimal => ?_, fun _ h => ?_⟩)
        · rw [hid] at hdecimal
          cases hdecimal
        · exact absurd (htype.symm.trans h) (by decide)
    | timestamp =>
      cases is64 <;> exact iff_of_true rfl (hother (by rw [hid]; exact ⟨nofun, nofun⟩))
    | _ => exact iff_of_true rfl (hother (by rw [hid]; exact ⟨nofun, nofun⟩))

/-- A fixed length of bytes. -/
theorem seen_fixedType_iff {d : ArrowDefaults} {e : Parquet.SchemaElement}
    (htype : e.type = some physicalFixedLenByteArray) :
    ((arrowFixedType e).written e).seen d = arrowFixedType e ↔ Told d e := by
  unfold arrowFixedType
  cases hlt : e.logicalType with
  | none => exact iff_of_true rfl (told_of_other fun lt h => by rw [hlt] at h; cases h)
  | some lt =>
    dsimp only
    by_cases hid : lt.id = .decimal
    · rw [if_pos hid]
      exact (seen_decimal_iff d e lt).trans (told_decimal_iff hlt hid (.inr (.inr htype))).symm
    · rw [if_neg hid]
      refine iff_of_true rfl ((told_iff hlt).mpr
        ⟨fun hdecimal => absurd hdecimal hid, fun _ h => ?_⟩)
      exact absurd (htype.symm.trans h) (by decide)

/-- **A type is seen as the schema says exactly when it is told.** -/
theorem seen_type_iff {d : ArrowDefaults} {e : Parquet.SchemaElement} {type : Int32} {t : ArrowType}
    (htype : e.type = some type) (h : arrowTypeOf e type = some t) :
    (t.written e).seen d = t ↔ Told d e := by
  unfold arrowTypeOf at h
  split at h
  · rename_i h0
    cases h
    subst h0
    exact iff_of_true rfl (told_of_type htype (by decide) (by decide) (by decide))
  split at h
  · rename_i h4
    cases h
    subst h4
    exact iff_of_true rfl (told_of_type htype (by decide) (by decide) (by decide))
  split at h
  · rename_i h5
    cases h
    subst h5
    exact iff_of_true rfl (told_of_type htype (by decide) (by decide) (by decide))
  split at h
  · rename_i h1
    cases h
    subst h1
    exact @seen_intType_iff d e false htype
  split at h
  · rename_i h2
    cases h
    subst h2
    exact @seen_intType_iff d e true htype
  split at h
  · rename_i h3
    cases h
    subst h3
    exact iff_of_true rfl (told_of_type htype (by decide) (by decide) (by decide))
  split at h
  · rename_i h6
    subst h6
    have htold : Told d e := told_of_type htype (by decide) (by decide) (by decide)
    split at h
    · cases h
      exact iff_of_true rfl htold
    · split at h
      · cases h
      · cases h
        exact iff_of_true rfl htold
  split at h
  · rename_i h7
    cases h
    subst h7
    exact seen_fixedType_iff htype
  · cases h

/-- **A field is seen as the schema says exactly when its element is told.** -/
theorem seen_field_iff {d : ArrowDefaults} {e : Parquet.SchemaElement} {f : ArrowField}
    (h : arrowFieldOf e = some f) : (f.written e).seen d = f ↔ Told d e := by
  unfold arrowFieldOf at h
  obtain ⟨type, htype, h⟩ := Option.bind_eq_some_iff.mp h
  obtain ⟨name, -, h⟩ := Option.bind_eq_some_iff.mp h
  obtain ⟨t, ht, h⟩ := Option.bind_eq_some_iff.mp h
  cases h
  rw [← seen_type_iff htype ht]
  constructor
  · exact fun h => congrArg ArrowField.type h
  · exact fun h => congrArg (ArrowField.mk _ _) h

/-! ## The schema -/

theorem ArrowField.size_written (e : Parquet.SchemaElement) (f : ArrowField) :
    (f.written e).size = f.size := by
  obtain ⟨name, nullable, type⟩ := f
  cases type <;> rfl

/-- Element by element. -/
theorem forall₂_of_mapM {α β : Type} {f : α → Option β} {xs : List α} {ys : List β}
    (h : xs.mapM f = some ys) : List.Forall₂ (fun x y => f x = some y) xs ys := by
  induction xs generalizing ys with
  | nil =>
    cases h
    exact .nil
  | cons x xs ih =>
    rw [List.mapM_cons] at h
    obtain ⟨y, hy, h⟩ := Option.bind_eq_some_iff.mp h
    obtain ⟨zs, hzs, h⟩ := Option.bind_eq_some_iff.mp h
    cases h
    exact .cons hy (ih hzs)

/-- The fields as they are written are those of the schema, each written. -/
theorem written_of_mapM {es : List Parquet.SchemaElement} {ws : List ArrowField}
    (h : es.mapM writtenFieldOf = some ws) :
    ∃ fs, es.mapM arrowFieldOf = some fs ∧ ws.length = fs.length ∧
      ws.map ArrowField.size = fs.map ArrowField.size ∧ (∀ w ∈ ws, w.type.InRange) ∧
      ∀ d, ws.map (ArrowField.seen d) = fs ↔ ∀ e ∈ es, Told d e := by
  induction es generalizing ws with
  | nil =>
    cases h
    exact ⟨[], rfl, rfl, rfl, fun w hw => absurd hw List.not_mem_nil,
      fun d => iff_of_true rfl fun e he => absurd he List.not_mem_nil⟩
  | cons e es ih =>
    rw [List.mapM_cons] at h
    obtain ⟨w, hw, h⟩ := Option.bind_eq_some_iff.mp h
    obtain ⟨ws', hws', h⟩ := Option.bind_eq_some_iff.mp h
    cases h
    obtain ⟨fs, hfs, hlength, hsize, hrange, hseen⟩ := ih hws'
    obtain ⟨f, hf, rfl⟩ := Option.map_eq_some_iff.mp hw
    refine ⟨f :: fs, ?_, ?_, ?_, ?_, fun d => ?_⟩
    · rw [List.mapM_cons, hf, hfs]
      rfl
    · rw [List.length_cons, List.length_cons, hlength]
    · rw [List.map_cons, List.map_cons, hsize, ArrowField.size_written]
    · refine List.forall_mem_cons.mpr ⟨?_, hrange⟩
      unfold arrowFieldOf at hf
      obtain ⟨type, -, hf⟩ := Option.bind_eq_some_iff.mp hf
      obtain ⟨name, -, hf⟩ := Option.bind_eq_some_iff.mp hf
      obtain ⟨t, ht, hf⟩ := Option.bind_eq_some_iff.mp hf
      cases hf
      exact arrowTypeOf_inRange ht
    · rw [List.map_cons, List.cons.injEq, seen_field_iff hf, hseen d, List.forall_mem_cons]

theorem length_encodeArrowFields (b : Fbb) (fs : List ArrowField) :
    (encodeArrowFields b fs).1.length = fs.length := by
  induction fs generalizing b with
  | nil => rfl
  | cons f fs ih =>
    rw [encodeArrowFields, List.length_cons, List.length_cons, ih]

/-- The FlatBuffer of these fields. -/
def encodeArrowMessage (fs : List ArrowField) : Bytes :=
  (buildMessage (encodeArrowFields .init fs).2 (encodeArrowFields .init fs).1).live

/-- **The FlatBuffer is a message of the fields**, and as long as they say. -/
theorem isMessage_encodeArrowMessage {fs : List ArrowField}
    (hlt : (encodeArrowMessage fs).length < 2 ^ 31 ∨ arrowMessageSize fs < 2 ^ 31) :
    (encodeArrowMessage fs).length = arrowMessageSize fs ∧
      IsMessage (encodeArrowMessage fs) fs := by
  obtain ⟨hextends, hoffs, hfields⟩ := encodeArrowFields_spec .init fs
  obtain ⟨hle, hmessage⟩ :=
    @buildMessage_spec (encodeArrowFields .init fs).2 (encodeArrowFields .init fs).1 fs
      (hextends.le_four (by decide)) hoffs
  have hinit : Fbb.init.live.length = 0 := rfl
  have hsizes : 4 ∣ (fs.map ArrowField.size).sum := by
    refine List.dvd_sum fun n hn => ?_
    obtain ⟨f, -, rfl⟩ := List.mem_map.mp hn
    rw [ArrowField.size, roundUp]
    omega
  have hle : (encodeArrowFields .init fs).2.live.length ≤ (encodeArrowMessage fs).length := hle
  unfold arrowMessageSize at hlt ⊢
  obtain ⟨hlength, hfields⟩ := hfields (by rw [hinit]; exact Nat.dvd_zero 4) (by omega)
  rw [length_encodeArrowFields, hlength, hinit, Nat.zero_add] at hmessage
  exact hmessage hsizes hfields hlt

/-- **What a reader gets**: the fields as they are seen, if the length of the message has a sign. -/
theorem readArrowSchemaB64_encodeArrowMessage (d : ArrowDefaults) {fs : List ArrowField}
    (hfs : ∀ f ∈ fs, f.type.InRange) :
    readArrowSchemaB64 d (base64 (encapsulate (encodeArrowMessage fs))) =
      if arrowMessageSize fs + 7 < 2 ^ 31 then some (fs.map (ArrowField.seen d)) else none := by
  obtain ⟨n, hcapsule⟩ := readEncapsulated_encapsulate (encodeArrowMessage fs)
  rw [readArrowSchemaB64, decode_base64, Option.bind_eq_bind, Option.bind_some, hcapsule]
  by_cases hfits : arrowMessageSize fs + 7 < 2 ^ 31
  · obtain ⟨hlength, hmessage⟩ := @isMessage_encodeArrowMessage fs (.inr (by omega))
    rw [hlength, if_pos hfits, if_pos hfits]
    exact readArrowMessage_isMessage d hmessage hfs (by omega) _
  · have hlong : ¬ (encodeArrowMessage fs).length + 7 < 2 ^ 31 := by
      intro hshort
      rw [(isMessage_encodeArrowMessage (.inl (by omega))).1] at hshort
      exact hfits hshort
    rw [if_neg hfits, if_neg hlong]
    rfl

/-- **The Arrow schema that is written says what the schema says** exactly when its message is below
2 GiB, every decimal has the parameters of its logical type and, where there is a date, the unit
that is meant when none is there is the day. -/
theorem arrowSchema_iff (d : ArrowDefaults) (schema : List Parquet.SchemaElement) (text : Bytes)
    (h : buildArrowSchemaB64 schema = some text) :
    ∃ fields, arrowFieldsOf schema = some fields ∧
      (readArrowSchemaB64 d text = some fields ↔
        arrowMessageSize fields + 7 < 2 ^ 31 ∧ ∀ e ∈ schema.drop 1, Told d e) := by
  unfold buildArrowSchemaB64 at h
  split at h
  · cases h
  split at h
  · cases h
  obtain ⟨⟨offs, b⟩, hbuilt, h⟩ := Option.bind_eq_some_iff.mp h
  rw [buildFields_eq] at hbuilt
  obtain ⟨ws, hws, hbuilt⟩ := Option.map_eq_some_iff.mp hbuilt
  obtain ⟨fields, hfields, hlength, hsize, hrange, hseen⟩ := written_of_mapM hws
  have htext : text = base64 (encapsulate (encodeArrowMessage ws)) := by
    unfold encodeArrowMessage
    rw [hbuilt]
    exact (Option.some.inj h).symm
  have hmessageSize : arrowMessageSize ws = arrowMessageSize fields := by
    rw [arrowMessageSize, arrowMessageSize, hsize, hlength]
  refine ⟨fields, hfields, ?_⟩
  rw [htext, readArrowSchemaB64_encodeArrowMessage d hrange, hmessageSize, ← hseen d]
  by_cases hfits : arrowMessageSize fields + 7 < 2 ^ 31
  · rw [if_pos hfits, Option.some.injEq, and_iff_right hfits]
  · rw [if_neg hfits]
    exact iff_of_false nofun fun hboth => hfits hboth.1

/-- The defaults of the format: MILLISECOND for both units, 32 and 128 bits. -/
def formatDefaults : ArrowDefaults := ⟨1, 1, 32, 128⟩

/-- A required INT32 column as `carquet_schema_add_column` adds it: the logical type has the
parameters, the element has not. -/
def int32Column (name : UInt8) (hname : (0 : UInt8) ∉ [name]) (lt : Parquet.LogicalType) :
    Parquet.SchemaElement :=
  { Parquet.SchemaElement.zero with
    type := some physicalInt32
    repetitionType := some 0
    name := some ⟨[name], hname⟩
    logicalType := some lt }

/-- A column `p` of DECIMAL(9, 2) and a column `d` of DATE. -/
def priceAndDay : List Parquet.SchemaElement :=
  [{ Parquet.SchemaElement.zero with numChildren := 2 },
    int32Column 0x70 (by decide)
      { Parquet.LogicalType.zero with id := .decimal, decimal := ⟨9, 2⟩ },
    int32Column 0x64 (by decide) { Parquet.LogicalType.zero with id := .date }]

theorem arrowSchema_priceAndDay : ∃ fields, arrowFieldsOf priceAndDay = some fields ∧
    (readArrowSchemaB64 formatDefaults ((buildArrowSchemaB64 priceAndDay).getD []) = some fields ↔
      arrowMessageSize fields + 7 < 2 ^ 31 ∧ ∀ e ∈ priceAndDay.drop 1, Told formatDefaults e) :=
  arrowSchema_iff formatDefaults priceAndDay _ (by decide +kernel)

/-- A reader gets a DECIMAL(0, 0) and a date in milliseconds. -/
theorem priceAndDay_mistold :
    ¬ ∀ (schema : List Parquet.SchemaElement) (text : Bytes),
      buildArrowSchemaB64 schema = some text → ∃ fields, arrowFieldsOf schema = some fields ∧
        readArrowSchemaB64 formatDefaults text = some fields := by
  intro h
  have hschema : arrowFieldsOf priceAndDay =
      some [⟨[0x70], false, .decimal 9 2 128⟩, ⟨[0x64], false, .date 0⟩] := by decide +kernel
  have hreads : (buildArrowSchemaB64 priceAndDay).bind (readArrowSchemaB64 formatDefaults) =
      some [⟨[0x70], false, .decimal 0 0 128⟩, ⟨[0x64], false, .date 1⟩] := by decide +kernel
  obtain ⟨text, htext, hread⟩ := Option.bind_eq_some_iff.mp hreads
  obtain ⟨fields, hfields, hread'⟩ := h priceAndDay text htext
  rw [hschema] at hfields
  rw [hread, ← hfields] at hread'
  exact absurd hread' (by decide)

end Carquet
