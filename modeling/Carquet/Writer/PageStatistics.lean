import Carquet.Writer.Statistics
import Carquet.Core.Float

/-!
# Statistics of a page, of any type

`Carquet.Writer.Statistics` has the types ordered as integers or as bytes. Here are the others:
FLOAT, DOUBLE and FLOAT16, which pass over NaN, and INT96, which has no statistics; and what a
column's physical and logical type make of it.

* `updateStatisticsFloat`, `encodePlainFloatWithStats` — their namesakes and those of `double`
  (page_writer.c:543-575, 770-848); the bounds of a call are those of the portable kernel
  (simd/dispatch.c:378-400).
* `updateStatisticsFloat16` — `update_statistics_float16` (page_writer.c:639-676).
* `PageStats.add` — the statistics of `carquet_page_writer_add_values`.
* `dictMinMax` — `dict_compute_min_max` (column_writer.c:921-965) with the comparison of any type.
-/

namespace Carquet

open LittleEndian Bounds

/-- `carquet_logical_type_t` (types.h:77-99), of which INTEGER's sign is looked at. -/
inductive LogicalType where
  | unknown | string | map | list | enum | decimal | date | time | timestamp
  | integer (isSigned : Bool)
  | null | json | bson | uuid | float16 | variant | geometry | geography | interval
  deriving DecidableEq, Repr

/-- `stats_order_defined_for_logical` (page_writer.c:172-184). -/
def statsOrderDefinedForLogical : LogicalType → Bool
  | .geometry | .geography | .variant | .map | .list => false
  | _ => true

/-- `logical_integer_is_unsigned` (page_writer.c:186-190). -/
def logicalIntegerIsUnsigned (lt : LogicalType) : Bool := lt = .integer false

/-- How the statistics of a column go. -/
inductive StatKind where
  | ordered (ty : StatType)
  | floating (f : FloatFormat)
  | float16
  | unordered
  deriving DecidableEq, Repr

/-- The branches of `carquet_page_writer_add_values` (page_writer.c:1106-1248) and of
`update_statistics_flba` (page_writer.c:678-686). -/
def statKind (type : PhysicalType) (typeLength : Nat) (lt : LogicalType) : StatKind :=
  match type with
  | .boolean => .ordered .boolean
  | .int32 => .ordered (.int32 (logicalIntegerIsUnsigned lt))
  | .int64 => .ordered (.int64 (logicalIntegerIsUnsigned lt))
  | .int96 => .unordered
  | .float => .floating .single
  | .double => .floating .double
  | .byteArray => .ordered .byteArray
  | .fixedLenByteArray =>
    if lt = .float16 ∧ typeLength = 2 then .float16 else .ordered (.fixedLenByteArray typeLength)

/-! ## Floating point -/

/-- The number in the bytes of a value. -/
def floatBits (f : FloatFormat) (v : Bytes) : Nat := leNat (v.take f.size)

/-- `<` and `>` on values. -/
def compareFloat (f : FloatFormat) (a b : Bytes) : Ordering :=
  f.compare (floatBits f a) (floatBits f b)

/-- `isnan` of a value. -/
def isNanValue (f : FloatFormat) (v : Bytes) : Bool := f.isNan (floatBits f v)

/-- A zero becomes `-0.0` where it is the minimum. -/
def zeroMin (f : FloatFormat) (v : Bytes) : Bytes :=
  if f.key (floatBits f v) = 0 then leBytes f.size (2 ^ (8 * f.size - 1)) else v

/-- A zero becomes `0.0` where it is the maximum. -/
def zeroMax (f : FloatFormat) (v : Bytes) : Bytes :=
  if f.key (floatBits f v) = 0 then leBytes f.size 0 else v

/-- `float_minmax_nan_safe` and `double_minmax_nan_safe` (page_writer.c:488-541): the kernel's
bounds, and the values again without NaN where a bound is NaN. -/
def minmaxNanSafe (f : FloatFormat) (v : Value) (vs : List Value) : MinMax :=
  let chunk := ofList (compareFloat f) v vs
  if !isNanValue f chunk.1 && !isNanValue f chunk.2 then some chunk
  else
    match (v :: vs).filter fun u => !isNanValue f u with
    | [] => none
    | u :: us => some (ofList (compareFloat f) u us)

/-- `update_statistics_float` and `update_statistics_double` (page_writer.c:543-591). -/
def updateStatisticsFloat (f : FloatFormat) (minMax : MinMax) : List Value → MinMax
  | [] => minMax
  | v :: vs =>
    match minmaxNanSafe f v vs with
    | none => minMax
    | some (lo, hi) =>
      match minMax with
      | none => some (zeroMin f lo, zeroMax f hi)
      | some (minV, maxV) =>
        some (zeroMin f (pickLo (compareFloat f) minV (zeroMin f lo)),
          zeroMax f (pickHi (compareFloat f) maxV (zeroMax f hi)))

/-- `encode_plain_float_with_stats` and `encode_plain_double_with_stats` (page_writer.c:770-848),
as far as the statistics go. The call is refused without values. -/
def encodePlainFloatWithStats (f : FloatFormat) (minMax : MinMax) : List Value → MinMax
  | [] => minMax
  | v :: vs =>
    let chunk := ofList (compareFloat f) v vs
    if isNanValue f chunk.1 || isNanValue f chunk.2 then updateStatisticsFloat f minMax (v :: vs)
    else
      let lo := zeroMin f chunk.1
      let hi := zeroMax f chunk.2
      match minMax with
      | none => some (lo, hi)
      | some (curMin, curMax) =>
        some (zeroMin f (pickLo (compareFloat f) lo curMin),
          zeroMax f (pickHi (compareFloat f) hi curMax))

/-- A half as the `float` it is compared as. -/
def halfBits (v : Bytes) : Nat := halfToFloat (leNat (v.take 2))

def compareHalf (a b : Bytes) : Ordering := FloatFormat.single.compare (halfBits a) (halfBits b)

def isNanHalf (v : Bytes) : Bool := FloatFormat.single.isNan (halfBits v)

/-- The loop of `update_statistics_float16` over the bounds so far. -/
def float16Bounds : MinMax → List Value → MinMax
  | m, [] => m
  | m, v :: vs =>
    if isNanHalf v then float16Bounds m vs
    else float16Bounds (widen compareHalf m v v) vs

/-- `update_statistics_float16` (page_writer.c:639-676). -/
def updateStatisticsFloat16 (minMax : MinMax) (values : List Value) : MinMax :=
  (float16Bounds minMax values).map fun b =>
    (if FloatFormat.single.key (halfBits b.1) = 0 then [0x00, 0x80] else b.1,
      if FloatFormat.single.key (halfBits b.2) = 0 then [0x00, 0x00] else b.2)

/-! ## Any type -/

/-- The statistics after one call of `carquet_page_writer_add_values` (page_writer.c:1026-1284);
`isPlain` says that the call's values are encoded PLAIN, by FLOAT and DOUBLE that they are not
byte-stream split. -/
def PageStats.add (kind : StatKind) (isPlain : Bool) (s : PageStats) (call : AddCall) :
    PageStats :=
  match kind, call with
  | .ordered ty, call => s.addValues ty isPlain call
  | .floating f, .accepted cells =>
    let values := cells.map Cell.value
    { s with
      minMax :=
        if isPlain then encodePlainFloatWithStats f s.minMax values
        else updateStatisticsFloat f s.minMax values }
  | .float16, .accepted cells =>
    { s with minMax := updateStatisticsFloat16 s.minMax (cells.map Cell.value) }
  | .unordered, .accepted _ => s
  | _, .refused => s.addValues .byteArray isPlain .refused

/-- `compare_stat_values` (column_writer.c:425-501). -/
def compareStatKind : StatKind → Bytes → Bytes → Ordering
  | .ordered ty, a, b => compareStatValues ty a b
  | .floating f, a, b => if a.length = b.length then compareFloat f a b else ByteOrder.lexCompare a b
  | .float16, a, b =>
    if a.length = b.length ∧ a.length = 2 then compareHalf a b else ByteOrder.lexCompare a b
  | .unordered, a, b => ByteOrder.lexCompare a b

/-- `dict_compute_min_max` (column_writer.c:921-965). -/
def dictMinMax (kind : StatKind) : List Value → MinMax
  | [] => none
  | v :: vs => some (ofList (compareStatKind kind) v vs)

end Carquet
