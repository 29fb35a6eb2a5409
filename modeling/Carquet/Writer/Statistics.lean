import Carquet.Core.Types
import Carquet.Lib.Bounds
import Carquet.Lib.ByteOrder

/-!
# Statistics of a column chunk, as written

The minimum and maximum of a chunk's values on their way from the calls that add values to the
file's footer.

* `updateStatisticsI32`, … — `update_statistics_i32`, … (page_writer.c:397-703).
* `PageStats.addValues` — the statistics of `carquet_page_writer_add_values`
  (page_writer.c:1026-1284), what a refused call leaves behind included.
* `compareStatValues`, `mergePageStatistics` — their namesakes (column_writer.c:425-563).
* `dictComputeMinMax`, `setMinMax` — `dict_compute_min_max` (column_writer.c:921-965) and
  `carquet_page_writer_set_min_max` (page_writer.c:1993-2009).
* `footerStatistics` — what `flush_row_group` and `build_file_metadata` put into the footer
  (file_writer.c:1116-1150, 1469-1547).

Left out are FLOAT, DOUBLE and FLOAT16, whose order is that of IEEE numbers, and INT96, which has
no statistics. The machine is little-endian; lengths are `int32_t` and so never narrowed.
-/

namespace Carquet

open LittleEndian Bounds

/-- The column types whose statistics are ordered as integers or as bytes. -/
inductive StatType where
  | int32 (isUnsigned : Bool)
  | int64 (isUnsigned : Bool)
  | boolean
  | fixedLenByteArray (typeLength : Nat)
  | byteArray
  deriving DecidableEq, Repr

/-- `logical_integer_is_unsigned` (page_writer.c:186-190). -/
def StatType.isUnsigned : StatType → Bool
  | .int32 u | .int64 u => u
  | _ => false

/-- A value as a caller passes it: `none` is a `carquet_byte_array_t` without a data pointer. -/
abbrev Cell := Option Value

/-- Such a cell is an empty string. -/
def Cell.value (c : Cell) : Value := c.getD []

/-- `min_value` and `max_value`, where `has_min_max` is set. -/
abbrev MinMax := Option (Bytes × Bytes)

/-! ## Comparisons -/

/-- The integer in the first `size` bytes. -/
def intOf (size : Nat) (isUnsigned : Bool) (v : Bytes) : Int :=
  let n := leNat (v.take size)
  if isUnsigned = true ∨ n < 256 ^ size / 2 then n else (n : Int) - (256 ^ size : Nat)

/-- The comparisons of `int32_t`, `uint32_t`, `int64_t` and `uint64_t`. -/
def compareInt (size : Nat) (isUnsigned : Bool) : Bytes → Bytes → Ordering :=
  compareOn (intOf size isUnsigned)

/-- `compare_stat_values` (column_writer.c:425-501). -/
def compareStatValues (ty : StatType) (a b : Bytes) : Ordering :=
  if a.length = b.length then
    match ty with
    | .int32 u => compareInt 4 u a b
    | .int64 u => compareInt 8 u a b
    | _ => ByteOrder.lexCompare a b
  else ByteOrder.lexCompare a b

/-! ## One page -/

/-- Bounds of a further run of values. -/
def widen (cmp : Bytes → Bytes → Ordering) (minMax : MinMax) (lo hi : Bytes) : MinMax :=
  match minMax with
  | none => some (lo, hi)
  | some (minV, maxV) => some (pickLo cmp minV lo, pickHi cmp maxV hi)

/-- `update_statistics_i32` and `update_statistics_i64` (page_writer.c:397-483): the bounds of the
call's values first, by a kernel or by the unsigned loop, then the page's. -/
def updateStatisticsInt (size : Nat) (isUnsigned : Bool) (minMax : MinMax) : List Value → MinMax
  | [] => minMax
  | v :: vs =>
    let chunk := ofList (compareInt size isUnsigned) v vs
    widen (compareInt size isUnsigned) minMax chunk.1 chunk.2

/-- `update_statistics_i32` (page_writer.c:397-439). -/
def updateStatisticsI32 (isUnsigned : Bool) : MinMax → List Value → MinMax :=
  updateStatisticsInt 4 isUnsigned

/-- `update_statistics_i64` (page_writer.c:441-483). -/
def updateStatisticsI64 (isUnsigned : Bool) : MinMax → List Value → MinMax :=
  updateStatisticsInt 8 isUnsigned

/-- `encode_plain_i32_with_stats` and `encode_plain_i64_with_stats` (page_writer.c:705-769), as far
as the statistics go. The signed branch starts from the call's bounds, not from the page's; the
call is refused without values. -/
def encodePlainIntWithStats (size : Nat) (isUnsigned : Bool) (minMax : MinMax) :
    List Value → MinMax
  | [] => minMax
  | v :: vs =>
    if isUnsigned then updateStatisticsInt size isUnsigned minMax (v :: vs)
    else
      let chunk := ofList (compareInt size false) v vs
      match minMax with
      | none => some chunk
      | some (curMin, curMax) =>
        some (pickLo (compareInt size false) chunk.1 curMin,
          pickHi (compareInt size false) chunk.2 curMax)

/-- `encode_plain_i32_with_stats` (page_writer.c:705-737). -/
def encodePlainI32WithStats (isUnsigned : Bool) : MinMax → List Value → MinMax :=
  encodePlainIntWithStats 4 isUnsigned

/-- `encode_plain_i64_with_stats` (page_writer.c:739-769). -/
def encodePlainI64WithStats (isUnsigned : Bool) : MinMax → List Value → MinMax :=
  encodePlainIntWithStats 8 isUnsigned

/-- Whether the byte of a BOOLEAN is not zero. -/
def isTrue (v : Value) : Bool := v.headD 0 != 0

/-- The loop of `update_statistics_boolean` over `bool_seen_false` and `bool_seen_true`. -/
def booleanSeen : Bool × Bool → List Value → Bool × Bool
  | seen, [] => seen
  | (seenFalse, seenTrue), v :: vs =>
    let seen := if isTrue v then (seenFalse, true) else (true, seenTrue)
    if seen.1 && seen.2 then seen else booleanSeen seen vs

/-- `update_statistics_byte_array` (page_writer.c:605-633); cells without a data pointer are
passed over. -/
def updateStatisticsByteArray (minMax : MinMax) (cells : List Cell) : MinMax :=
  cells.foldl (fun m c =>
    match c with
    | none => m
    | some v => widen ByteOrder.lexCompare m v v) minMax

/-- `update_statistics_flba` (page_writer.c:678-703). -/
def updateStatisticsFlba (typeLength : Nat) (minMax : MinMax) (values : List Value) : MinMax :=
  if typeLength = 0 then minMax
  else values.foldl (fun m v => widen (ByteOrder.memcmp typeLength) m v v) minMax

/-- The statistics of `carquet_page_writer_t` (page_writer.c:141-160). -/
structure PageStats where
  minMax : MinMax
  boolSeenFalse : Bool
  boolSeenTrue : Bool
  deriving DecidableEq, Repr

/-- After `carquet_page_writer_reset` (page_writer.c:292-306). -/
def PageStats.reset : PageStats := ⟨none, false, false⟩

/-- `update_statistics_boolean` (page_writer.c:576-592). -/
def updateStatisticsBoolean (s : PageStats) (values : List Value) : PageStats :=
  let seen := booleanSeen (s.boolSeenFalse, s.boolSeenTrue) values
  if values = [] ∨ (seen.1 = false ∧ seen.2 = false) then s
  else ⟨some ([if seen.1 then 0 else 1], [if seen.2 then 1 else 0]), seen.1, seen.2⟩

/-- One call of `carquet_page_writer_add_values`: the present values it took, or that it failed. -/
inductive AddCall where
  | accepted (cells : List Cell)
  | refused
  deriving DecidableEq, Repr

/-- `STAT_SNAPSHOT_SZ` (page_writer.c:1053). -/
def statSnapshotSize : Nat := 256

/-- The statistics of `carquet_page_writer_add_values` (page_writer.c:1051-1062, 1099-1284).
`isPlain` says that the page's encoding is PLAIN. A call that fails does so before the values are
looked at; bounds that do not fit its snapshot are given up. -/
def PageStats.addValues (ty : StatType) (isPlain : Bool) (s : PageStats) : AddCall → PageStats
  | .accepted cells =>
    let values := cells.map Cell.value
    match ty with
    | .boolean => updateStatisticsBoolean s values
    | .int32 u =>
      { s with
        minMax :=
          if isPlain then encodePlainI32WithStats u s.minMax values
          else updateStatisticsI32 u s.minMax values }
    | .int64 u =>
      { s with
        minMax :=
          if isPlain then encodePlainI64WithStats u s.minMax values
          else updateStatisticsI64 u s.minMax values }
    | .byteArray => { s with minMax := updateStatisticsByteArray s.minMax cells }
    | .fixedLenByteArray n => { s with minMax := updateStatisticsFlba n s.minMax values }
  | .refused =>
    match s.minMax with
    | none => s
    | some (lo, hi) =>
      if lo.length ≤ statSnapshotSize ∧ hi.length ≤ statSnapshotSize then s
      else { s with minMax := none }

/-- The statistics a page ends with (`carquet_page_writer_get_statistics`). -/
def pageStatistics (ty : StatType) (isPlain : Bool) (calls : List AddCall) : MinMax :=
  (calls.foldl (PageStats.addValues ty isPlain) .reset).minMax

/-! ## The column chunk -/

/-- `merge_page_statistics` (column_writer.c:516-553), called when the page has statistics
(column_writer.c:584-586). -/
def mergePageStatistics (ty : StatType) (column page : MinMax) : MinMax :=
  match page with
  | none => column
  | some (pageMin, pageMax) =>
    if pageMin.length = 0 ∨ pageMax.length = 0 then column
    else widen (compareStatValues ty) column pageMin pageMax

/-- `dict_compute_min_max` (column_writer.c:921-965). -/
def dictComputeMinMax (ty : StatType) : List Value → MinMax
  | [] => none
  | v :: vs => some (ofList (compareStatValues ty) v vs)

/-- `carquet_page_writer_set_min_max` (page_writer.c:1993-2009) on a page without bounds. -/
def setMinMax (minMax : MinMax) : MinMax :=
  minMax.filter fun b => b.1.length ≠ 0 ∧ b.2.length ≠ 0

/-- What a column writer was given for one row group: the calls of each page, or the values it
held back and put into one dictionary-encoded page. -/
inductive ChunkCalls where
  | paged (isPlain : Bool) (pages : List (List AddCall))
  | dictionary (cells : List Cell)
  deriving DecidableEq, Repr

/-- `min_value` and `max_value` of the column writer when the chunk is finalized. -/
def columnStatistics (ty : StatType) : ChunkCalls → MinMax
  | .paged isPlain pages =>
    pages.foldl (fun m calls => mergePageStatistics ty m (pageStatistics ty isPlain calls)) none
  | .dictionary cells =>
    mergePageStatistics ty none (setMinMax (dictComputeMinMax ty (cells.map Cell.value)))

/-! ## The footer -/

/-- What decides whether a column's bounds are collected and written: the writer's option, the
column's own setting where it has one, and `stats_order_defined_for_logical` and
`leaf_statistics_sort_order_defined` of its type (page_writer.c:172-184, file_writer.c:645-673). -/
structure StatsOptions where
  writeStatistics : Bool
  columnOverride : Option Bool
  orderDefined : Bool
  sortOrderDefined : Bool
  deriving DecidableEq, Repr

/-- `write_statistics` of the page writer (page_writer.c:2044-2049). -/
def StatsOptions.collects (o : StatsOptions) : Bool := o.writeStatistics && o.orderDefined

/-- `emit_stats` (file_writer.c:1116-1123). -/
def StatsOptions.emits (o : StatsOptions) : Bool :=
  o.columnOverride.getD o.writeStatistics && o.sortOrderDefined

/-- `parquet_statistics_t`, its bounds. -/
structure FooterStats where
  minValue : Option Bytes
  maxValue : Option Bytes
  minDeprecated : Option Bytes
  maxDeprecated : Option Bytes
  deriving DecidableEq, Repr

/-- `TRUNC` (file_writer.c:1487). -/
def truncLength : Nat := 32

/-- `variable_len` and longer than `TRUNC`. -/
def isCut (ty : StatType) (v : Bytes) : Bool := ty = .byteArray && truncLength < v.length

/-- The footer's minimum (file_writer.c:1502-1506). -/
def footerMin (ty : StatType) (v : Bytes) : Bytes := if isCut ty v then v.take truncLength else v

/-- The footer's maximum (file_writer.c:1513-1530); none where every kept byte is 0xFF. -/
def footerMax (ty : StatType) (v : Bytes) : Option Bytes :=
  if isCut ty v then ByteOrder.raise (v.take truncLength) else some v

/-- `deprecated_stats_are_compatible` (file_writer.c:1290-1300). -/
def deprecatedStatsAreCompatible (ty : StatType) (o : StatsOptions) : Bool :=
  !ty.isUnsigned && o.sortOrderDefined

/-- The bounds of a chunk in the footer (file_writer.c:1469-1547). -/
def truncateStatistics (ty : StatType) (o : StatsOptions) (minV maxV : Bytes) : FooterStats :=
  { minValue := some (footerMin ty minV)
    maxValue := footerMax ty maxV
    minDeprecated :=
      if deprecatedStatsAreCompatible ty o && !isCut ty minV then some (footerMin ty minV) else none
    maxDeprecated :=
      if deprecatedStatsAreCompatible ty o && !isCut ty maxV then footerMax ty maxV else none }

/-- The chunk's `statistics` in the footer; `none` where it has no bounds. Without
`writeStatistics` the row group writer captures nothing (row_group_writer.c:192), without
`orderDefined` the pages collect nothing. -/
def footerStatistics (ty : StatType) (o : StatsOptions) (chunk : ChunkCalls) :
    Option FooterStats :=
  if o.collects && o.emits then
    (columnStatistics ty chunk).map fun b => truncateStatistics ty o b.1 b.2
  else none

end Carquet
