import Carquet.Core.Types

/-!
# Floating point numbers, as far as they are compared

A `float`, a `double` or a half is its bit pattern. The code does no arithmetic on the values of
a column: it asks whether one is NaN and which of two is less.

* `FloatFormat.isNan`, `FloatFormat.compare` — `isnan` and the operators `<` and `>`.
* `halfToFloat` — `carquet_half_to_float` (core/float16.h:18-40).
-/

namespace Carquet

open LittleEndian

/-- An interchange format: a sign bit, then the exponent, then the mantissa. -/
structure FloatFormat where
  exponentBits : Nat
  mantissaBits : Nat
  deriving DecidableEq, Repr

/-- `float`. -/
def FloatFormat.single : FloatFormat := ⟨8, 23⟩

/-- `double`. -/
def FloatFormat.double : FloatFormat := ⟨11, 52⟩

/-- The size in bytes. -/
def FloatFormat.size (f : FloatFormat) : Nat := (1 + f.exponentBits + f.mantissaBits) / 8

/-- The number without its sign; patterns are ordered as the numbers they stand for. -/
def FloatFormat.magnitude (f : FloatFormat) (bits : Nat) : Nat :=
  bits % 2 ^ (f.exponentBits + f.mantissaBits)

/-- `isnan`: beyond the pattern of infinity. -/
def FloatFormat.isNan (f : FloatFormat) (bits : Nat) : Bool :=
  (2 ^ f.exponentBits - 1) * 2 ^ f.mantissaBits < f.magnitude bits

/-- The place of a number that is not NaN; both zeros share theirs. -/
def FloatFormat.key (f : FloatFormat) (bits : Nat) : Int :=
  if bits / 2 ^ (f.exponentBits + f.mantissaBits) % 2 = 1 then -(f.magnitude bits : Int)
  else f.magnitude bits

/-- `a < b`, never true of NaN. -/
def FloatFormat.lt (f : FloatFormat) (a b : Nat) : Bool :=
  !f.isNan a && !f.isNan b && f.key a < f.key b

/-- The outcome of the tests `a < b` and `a > b`. -/
def FloatFormat.compare (f : FloatFormat) (a b : Nat) : Ordering :=
  if f.lt a b then .lt else if f.lt b a then .gt else .eq

/-- The loop that shifts the mantissa of a subnormal half up (float16.h:28). A mantissa that is
not zero takes at most ten turns. -/
def normalizeHalf : Nat → Int → Nat → Int × Nat
  | 0, exp, mant => (exp, mant)
  | fuel + 1, exp, mant =>
    if mant / 1024 % 2 = 0 then normalizeHalf fuel (exp - 1) (mant * 2) else (exp, mant)

/-- `carquet_half_to_float` (core/float16.h:18-40). -/
def halfToFloat (h : Nat) : Nat :=
  let sign := h / 2 ^ 15 % 2
  let exp := h / 2 ^ 10 % 32
  let mant := h % 1024
  if exp = 0 then
    if mant = 0 then sign * 2 ^ 31
    else
      let n := normalizeHalf 10 1 mant
      sign * 2 ^ 31 + (n.1 + (127 - 15)).toNat * 2 ^ 23 + n.2 % 1024 * 2 ^ 13
  else if exp = 31 then sign * 2 ^ 31 + 255 * 2 ^ 23 + mant * 2 ^ 13
  else sign * 2 ^ 31 + (exp + (127 - 15)) * 2 ^ 23 + mant * 2 ^ 13

example : halfToFloat 0x3C00 = 0x3F800000 ∧ halfToFloat 0x0001 = 0x33800000 := by decide

end Carquet
