import Carquet.Writer.Statistics

/-!
# Statistics of a column chunk, as read

`src/reader/statistics.c`: which bounds a reader takes from the footer and which row groups it
passes over because of them.

* `statCompare`, `getCmpKind` — `stat_compare` and `get_cmp_kind` (statistics.c:45-181).
* `readerColumnStatistics` — `carquet_reader_column_statistics` (statistics.c:188-252).
* `rowGroupMatches` — `carquet_reader_row_group_matches` (statistics.c:259-353).
-/

namespace Carquet

open LittleEndian

/-- `cmp_kind_t` (statistics.c:27-37), without the floating-point kinds. -/
inductive CmpKind where
  | int32S | int32U | int64S | int64U | bool | bytes
  deriving DecidableEq, Repr

/-- `stat_compare` (statistics.c:45-130); `none` where a buffer is shorter than the type. -/
def statCompare (kind : CmpKind) (val st : Bytes) : Option Ordering :=
  let wide (n : Nat) (o : Ordering) := if val.length < n ∨ st.length < n then none else some o
  match kind with
  | .bool => wide 1 (compare (if isTrue val then 1 else 0) (if isTrue st then 1 else 0))
  | .int32S => wide 4 (compareInt 4 false val st)
  | .int32U => wide 4 (compareInt 4 true val st)
  | .int64S => wide 8 (compareInt 8 false val st)
  | .int64U => wide 8 (compareInt 8 true val st)
  | .bytes => some (ByteOrder.lexCompare val st)

/-- `get_cmp_kind` (statistics.c:134-181). -/
def getCmpKind : StatType → CmpKind
  | .boolean => .bool
  | .int32 u => if u then .int32U else .int32S
  | .int64 u => if u then .int64U else .int64S
  | .fixedLenByteArray _ | .byteArray => .bytes

/-- A buffer that is there and not empty. -/
def nonEmpty (b : Option Bytes) : Option Bytes := b.filter fun v => v.length ≠ 0

/-- `carquet_reader_column_statistics` (statistics.c:236-249): the new bounds if both are there,
else the deprecated ones if both are. -/
def readerColumnStatistics (stats : Option FooterStats) : Option (Bytes × Bytes) :=
  match stats with
  | none => none
  | some s =>
    match nonEmpty s.minValue, nonEmpty s.maxValue with
    | some lo, some hi => some (lo, hi)
    | _, _ =>
      match nonEmpty s.minDeprecated, nonEmpty s.maxDeprecated with
      | some lo, some hi => some (lo, hi)
      | _, _ => none

/-- `carquet_compare_op_t`. -/
inductive CompareOp where
  | eq | ne | lt | le | gt | ge
  deriving DecidableEq, Repr

/-- The switch over `op` (statistics.c:309-349), on how the value compares with the bounds. -/
def mightMatch (cmpMin cmpMax : Ordering) : CompareOp → Bool
  | .eq => !(cmpMin = .lt || cmpMax = .gt)
  | .ne => !(cmpMin = .eq && cmpMax = .eq)
  | .lt => !(cmpMin ≠ .gt)
  | .le => !(cmpMin = .lt)
  | .gt => !(cmpMax ≠ .lt)
  | .ge => !(cmpMax = .gt)

/-- `carquet_reader_row_group_matches` (statistics.c:259-353): `might_match` for a column whose
footer statistics are `stats`. -/
def rowGroupMatches (ty : StatType) (stats : Option FooterStats) (op : CompareOp)
    (value : Bytes) : Bool :=
  match readerColumnStatistics stats with
  | none => true
  | some (lo, hi) =>
    match statCompare (getCmpKind ty) value lo, statCompare (getCmpKind ty) value hi with
    | some cmpMin, some cmpMax => mightMatch cmpMin cmpMax op
    | _, _ => true

end Carquet
