import Carquet.Writer.PageStatistics
import Carquet.Thrift.ParquetTypes

/-!
# The statistics builder

`src/metadata/statistics.c`: the bounds of the values that are added to a builder, the statistics
built of them, and the test whether a range overlaps these.

* `StatisticsBuilder.addNulls`, `.addValues`, `.addByteArrays` — `carquet_statistics_add_nulls`,
  `carquet_statistics_add_values`, `carquet_statistics_add_byte_arrays` (177-344).
* `StatisticsBuilder.build` — `carquet_statistics_build` (358-417).
* `rangeOverlaps` — `carquet_statistics_range_overlaps` (533-602).

The buffers `min_value` and `max_value` have 256 bytes. A longer byte array is passed over, but the
bounds of the others are flagged as exact; a longer FIXED_LEN_BYTE_ARRAY is copied past their ends.
The test has no case for BOOLEAN and INT96 and takes their bytes for a string of `value_len` bytes.
-/

namespace Carquet

open LittleEndian Bounds Std

/-! ## Comparisons -/

/-- `compare_boolean` (statistics.c:47-51). -/
def compareBoolean : Bytes → Bytes → Ordering := compareOn fun v => (v.headD 0).toNat

/-- One of the `uint32_t` of an INT96. -/
def int96Word (v : Bytes) (i : Nat) : Nat := leNat ((v.drop (4 * i)).take 4)

/-- `compare_int96` (statistics.c:88-100), from the high word to the low one. -/
def compareInt96 (a b : Bytes) : Ordering :=
  (compare (int96Word a 2) (int96Word b 2)).then
    ((compare (int96Word a 1) (int96Word b 1)).then (compare (int96Word a 0) (int96Word b 0)))

/-- `compare_float` and `compare_double` (statistics.c:65-86): NaN is after everything. -/
def compareNanLast (f : FloatFormat) (a b : Bytes) : Ordering :=
  if isNanValue f a && isNanValue f b then .eq
  else if isNanValue f a then .gt
  else if isNanValue f b then .lt
  else compareFloat f a b

/-- `compare_byte_array` (statistics.c:102-108). -/
def compareByteArray (a : Bytes) (aLen : Nat) (b : Bytes) (bLen : Nat) : Ordering :=
  (ByteOrder.memcmp (min aLen bLen) a b).then (compare aLen bLen)

/-! ## The builder -/

/-- `sizeof(min_value)`. -/
def statBufferSize : Nat := 256

/-- `carquet_statistics_builder_t` (statistics.c:22-41); a bound is `none` where its flag is not
set, and the first `min_len` or `max_len` bytes of its buffer where it is. -/
structure StatisticsBuilder where
  type : PhysicalType
  typeLength : Int32
  minValue : Option Bytes
  maxValue : Option Bytes
  nullCount : Int64
  distinctCount : Int64
  numValues : Int64
  deriving DecidableEq, Repr

namespace StatisticsBuilder

/-- `carquet_statistics_builder_create` (statistics.c:118-130). -/
def create (type : PhysicalType) (typeLength : Int32) : StatisticsBuilder :=
  ⟨type, typeLength, none, none, 0, 0, 0⟩

/-- `get_value_size` (statistics.c:159-170). -/
def getValueSize (type : PhysicalType) (typeLength : Int32) : Nat :=
  match type with
  | .boolean => 1
  | .int32 => 4
  | .int64 => 8
  | .int96 => 12
  | .float => 4
  | .double => 8
  | .fixedLenByteArray => (typeLength.toInt % 18446744073709551616).toNat
  | .byteArray => 0

/-- The switches of `carquet_statistics_add_values` (statistics.c:211-267). -/
def compareValue (type : PhysicalType) (valueSize : Nat) : Bytes → Bytes → Ordering :=
  match type with
  | .boolean => compareBoolean
  | .int32 => compareInt 4 false
  | .int64 => compareInt 8 false
  | .int96 => compareInt96
  | .float => compareNanLast .single
  | .double => compareNanLast .double
  | .fixedLenByteArray => fun a b => compareByteArray a valueSize b valueSize
  | .byteArray => fun _ _ => .eq

/-- A turn of the loops: the value is copied where there is no bound yet or it lies beyond it. -/
def update (cmp : Bytes → Bytes → Ordering) (b : StatisticsBuilder) (val : Value) :
    StatisticsBuilder :=
  { b with
    minValue := some (keepLo cmp b.minValue val)
    maxValue := some (keepHi cmp b.maxValue val) }

/-- `carquet_statistics_add_nulls` (statistics.c:180-187). -/
def addNulls (b : StatisticsBuilder) (count : Int64) : StatisticsBuilder :=
  { b with nullCount := b.nullCount + count }

/-- `carquet_statistics_add_values` (statistics.c:192-285); `none` when a value does not fit the
buffers it is copied to. -/
def addValues (b : StatisticsBuilder) (values : List Value) :
    Option (Status × StatisticsBuilder) :=
  let valueSize := getValueSize b.type b.typeLength
  if values = [] then some (.invalidArgument, b)
  else if valueSize = 0 then some (.invalidArgument, b)
  else if statBufferSize < valueSize then none
  else
    let b := values.foldl (update (compareValue b.type valueSize)) b
    some (.ok, { b with numValues := b.numValues + Int64.ofNat values.length })

/-- The loop of `carquet_statistics_add_byte_arrays` (statistics.c:303-339). -/
def addByteArray (b : StatisticsBuilder) (val : Value) : StatisticsBuilder :=
  if statBufferSize < val.length then b
  else b.update (fun v bound => compareByteArray v v.length bound bound.length) val

/-- `carquet_statistics_add_byte_arrays` (statistics.c:290-344). -/
def addByteArrays (b : StatisticsBuilder) (values : List Value) : Status × StatisticsBuilder :=
  if values = [] then (.invalidArgument, b)
  else if b.type ≠ .byteArray then (.invalidArgument, b)
  else
    let b := values.foldl addByteArray b
    (.ok, { b with numValues := b.numValues + Int64.ofNat values.length })

/-- `carquet_statistics_build` (statistics.c:358-417). -/
def build (b : StatisticsBuilder) : Parquet.Statistics :=
  let minValue := b.minValue.filter fun v => 0 < v.length
  let maxValue := b.maxValue.filter fun v => 0 < v.length
  { Parquet.Statistics.zero with
    nullCount := some b.nullCount
    distinctCount := if 0 < b.distinctCount then some b.distinctCount else none
    minValue := minValue
    isMinValueExact := minValue.map fun _ => true
    maxValue := maxValue
    isMaxValueExact := maxValue.map fun _ => true }

end StatisticsBuilder

/-! ## The test for a range -/

/-- The switches of `carquet_statistics_range_overlaps` (statistics.c:551-596): the end of a range
against a bound. -/
def compareEnd (type : PhysicalType) (value : Value) (valueLen : Nat) (bound : Bytes) : Ordering :=
  match type with
  | .int32 => compareInt 4 false value bound
  | .int64 => compareInt 8 false value bound
  | .float => compareNanLast .single value bound
  | .double => compareNanLast .double value bound
  | _ => compareByteArray value valueLen bound bound.length

/-- Whether the end of a range compares with the bound as `outcome` says, where there are both. -/
def endIs (outcome : Ordering) (type : PhysicalType) (value : Option Value) (valueLen : Nat)
    (bound : Option Bytes) : Bool :=
  match value, bound.filter fun v => 0 < v.length with
  | some v, some b => compareEnd type v valueLen b = outcome
  | _, _ => false

/-- `carquet_statistics_range_overlaps` (statistics.c:533-602); `none` is a null pointer. -/
def rangeOverlaps (stats : Parquet.Statistics) (type : PhysicalType)
    (minValue maxValue : Option Value) (valueLen : Nat) : Bool :=
  if endIs .lt type maxValue valueLen stats.minValue then false
  else if endIs .gt type minValue valueLen stats.maxValue then false
  else true

end Carquet
