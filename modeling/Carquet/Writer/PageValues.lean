import Carquet.Encoding.DeltaStrings
import Carquet.Encoding.RleEncode
import Carquet.Writer.ColumnWriter
import Carquet.Writer.PageFinalize
import Carquet.Writer.PageIndex

/-!
# The page being written

* `encodeLevels` — `encode_levels` (page_writer.c:329-377).
* `encodeValues` — the switch of `carquet_page_writer_add_values` (page_writer.c:1099-1248) and the
  encoders it calls (page_writer.c:705-1016).
* `PageAccumulator.addValues`, `PageAccumulator.addDictionaryIndices` — their namesakes
  (page_writer.c:1026-1284, 1941-1982).

Whether the memory that a buffer needs is there is said by `ChunkEnv.grow`. Pointers to values are
not `NULL`, and a bound is shorter than 2 GiB.
-/

namespace Carquet

open LittleEndian

/-- What a page writer and its column writer are created and configured with
(column_writer.c:225-300, 1201-1330). -/
structure ChunkSettings where
  options : ColumnWriterOptions
  logicalType : LogicalType
  encoding : Encoding
  compression : Compression
  dataPageV2 : Bool
  writeCrc : Bool
  writeStatistics : Bool
  dictionaryPageSizeLimit : Nat
  /-- The bytes of the filter made from `bloom_ndv` and `bloom_fpp`. -/
  bloomFilterBytes : Option Nat
  pageIndexEnabled : Bool
  deriving DecidableEq, Repr

namespace ChunkSettings

def column (c : ChunkSettings) : Column := c.options.column

def kind (c : ChunkSettings) : StatKind :=
  statKind c.column.type c.column.typeLength.toNat c.logicalType

/-- `write_statistics` of the page writer (page_writer.c:2044-2049). -/
def collects (c : ChunkSettings) : Bool :=
  c.writeStatistics && statsOrderDefinedForLogical c.logicalType

/-- `geo_enabled` (page_writer.c:258-262), where it is looked at. -/
def geoEnabled (c : ChunkSettings) : Bool :=
  (c.logicalType = .geometry || c.logicalType = .geography)

end ChunkSettings

/-- `carquet_encoding_t` (types.h). -/
def Encoding.code : Encoding → Int32
  | .plain => 0
  | .plainDictionary => 2
  | .rle => 3
  | .bitPacked => 4
  | .deltaBinaryPacked => 5
  | .deltaLengthByteArray => 6
  | .deltaByteArray => 7
  | .rleDictionary => 8
  | .byteStreamSplit => 9
  | .unknown => -1

/-- What writing a chunk calls: the codecs, the output buffer, and whether a buffer can grow by so
many bytes. -/
structure ChunkEnv extends PageEnv where
  grow : Nat → Except Status Unit
  /-- Nothing needs no memory (buffer.c:186-189). -/
  grow_zero : grow 0 = .ok ()

/-- `carquet_geo_stats_init` and `carquet_geo_stats_add_wkb` (geo_wkb.c:10-12, 145-150). -/
structure GeoWalker (γ : Type) where
  init : γ
  addWkb : γ → Value → γ

/-! ## Encoding -/

/-- `encode_levels` (page_writer.c:329-377); without levels every one is the highest. -/
def encodeLevels (levels : Option (List Int)) (count : Nat) (maxLevel : Int) (withPrefix : Bool) :
    Except Status Bytes :=
  if maxLevel = 0 then .ok []
  else
    let bitWidth := bitWidthForMax maxLevel
    let encoded :=
      match levels with
      | some levels => rleEncodeLevels bitWidth (levels.take count)
      | none => rleEncodeOps bitWidth [.putRepeat (toU32 maxLevel) count]
    if 4294967295 < encoded.length then .error .outOfMemory
    else .ok ((if withPrefix then leBytes 4 encoded.length else []) ++ encoded)

/-- A store behind `carquet_buffer_advance` (buffer.c:265-284), which gives `NULL` for no bytes. -/
def advance (bytes : Bytes) : Except Status Bytes :=
  if bytes = [] then .error .outOfMemory else .ok bytes

/-- `encode_int32_values` and `encode_int64_values` (page_writer.c:907-990), and
`encode_plain_i32_with_stats` and `encode_plain_i64_with_stats` (page_writer.c:705-769). -/
def encodeIntValues (width : Nat) (collects : Bool) (encoding : Encoding) (values : List Value) :
    Except Status Bytes :=
  if encoding ≠ .plain then
    if values = [] ∧ encoding ≠ .deltaBinaryPacked then .ok []
    else if encoding = .byteStreamSplit then advance (byteStreamSplitEncode width values)
    else if encoding = .deltaBinaryPacked then
      deltaEncode (values.map (intOf width false)) (values.length * width + values.length + 512)
    else .ok (encodePlainFixed values)
  else if collects then advance (encodePlainFixed values)
  else .ok (encodePlainFixed values)

/-- `encode_float_values` and `encode_double_values` (page_writer.c:850-905), and
`encode_plain_float_with_stats` and `encode_plain_double_with_stats` (page_writer.c:770-848). -/
def encodeFloatValues (width : Nat) (collects : Bool) (encoding : Encoding)
    (values : List Value) : Except Status Bytes :=
  if encoding = .byteStreamSplit ∨ collects = false then
    if values = [] then .ok []
    else if encoding = .byteStreamSplit then advance (byteStreamSplitEncode width values)
    else .ok (encodePlainFixed values)
  else advance (encodePlainFixed values)

/-- `encode_byte_array_values` (page_writer.c:993-1018). -/
def encodeByteArrayValues (encoding : Encoding) (values : List Value) : Except Status Bytes :=
  if encoding = .deltaLengthByteArray then deltaLengthEncode values
  else if encoding = .deltaByteArray then deltaStringsEncode values
  else .ok (encodePlainByteArray values)

/-- The FIXED_LEN_BYTE_ARRAY case (page_writer.c:1185-1232). -/
def encodeFixedLenValues (typeLength : Int) (encoding : Encoding) (values : List Value) :
    Except Status Bytes :=
  if encoding = .byteStreamSplit then advance (byteStreamSplitEncode typeLength.toNat values)
  else if encoding = .deltaByteArray then
    if values = [] then .ok [] else deltaStringsEncode values
  else if typeLength ≤ 0 then .error .invalidArgument
  else .ok (encodePlainFixed values)

/-- The switch of `carquet_page_writer_add_values` (page_writer.c:1099-1248). -/
def encodeValues (column : Column) (collects : Bool) (encoding : Encoding) (values : List Value) :
    Except Status Bytes :=
  match column.type with
  | .boolean => advance (encodePlainBoolean values)
  | .int32 => encodeIntValues 4 collects encoding values
  | .int64 => encodeIntValues 8 collects encoding values
  | .float => encodeFloatValues 4 collects encoding values
  | .double => encodeFloatValues 8 collects encoding values
  | .byteArray => encodeByteArrayValues encoding values
  | .fixedLenByteArray => encodeFixedLenValues column.typeLength encoding values
  | .int96 => .ok (encodePlainFixed values)

/-! ## The page -/

/-- `carquet_page_writer_t` (page_writer.c:112-170) but for its settings. `encoding` is the page's,
which the column writer sets. -/
structure PageAccumulator (γ : Type) where
  valuesBuffer : Bytes
  defLevelsBuffer : Bytes
  repLevelsBuffer : Bytes
  encoding : Encoding
  numValues : Nat
  numNulls : Nat
  numRows : Nat
  stats : PageStats
  geoStats : γ
  deriving DecidableEq, Repr

/-- `present`, `def_levels` and `rep_levels` of a call as the buffers get them. -/
structure EncodedCall where
  values : Bytes
  defLevels : Bytes
  repLevels : Bytes
  deriving DecidableEq, Repr

/-- The present values of a call. -/
def ChunkArgs.present (args : ChunkArgs Value) (maxDefLevel : Int) : List Value :=
  args.values.take (numNonNull maxDefLevel args)

/-- The definition levels of a call (page_writer.c:1072-1079, 1954-1959). -/
def encodeDefLevels (env : ChunkEnv) (c : ChunkSettings) (args : ChunkArgs Value) :
    Except Status Bytes := do
  if 0 < c.column.maxDefLevel then
    let levels ← encodeLevels args.defLevels args.numValues c.column.maxDefLevel (!c.dataPageV2)
    env.grow levels.length
    return levels
  else return []

/-- The repetition levels of a call (page_writer.c:1082-1089, 1960-1965). -/
def encodeRepLevels (env : ChunkEnv) (c : ChunkSettings) (args : ChunkArgs Value) :
    Except Status Bytes := do
  if 0 < c.column.maxRepLevel ∧ args.repLevels.isSome then
    let levels ← encodeLevels args.repLevels args.numValues c.column.maxRepLevel (!c.dataPageV2)
    env.grow levels.length
    return levels
  else return []

/-- What a call of `carquet_page_writer_add_values` appends, if it is taken. -/
def encodeCall (env : ChunkEnv) (c : ChunkSettings) (encoding : Encoding)
    (args : ChunkArgs Value) : Except Status EncodedCall := do
  let defLevels ← encodeDefLevels env c args
  let repLevels ← encodeRepLevels env c args
  let values ← encodeValues c.column c.collects encoding (args.present c.column.maxDefLevel)
  env.grow values.length
  return ⟨values, defLevels, repLevels⟩

/-- `num_rows` of a call; the first version of data pages does not count rows
(page_writer.c:1256-1265, 1974-1982). -/
def rowsOfCall (c : ChunkSettings) (args : ChunkArgs Value) : Nat :=
  if c.dataPageV2 then
    match args.repLevels with
    | some levels =>
      if 0 < c.column.maxRepLevel then (levels.take args.numValues).countP (· == 0)
      else args.numValues
    | none => args.numValues
  else 0

/-- Whether the statistics look at the values as the PLAIN encoders do. -/
def isPlainFor (type : PhysicalType) (encoding : Encoding) : Bool :=
  match type with
  | .float | .double => encoding ≠ .byteStreamSplit
  | _ => encoding = .plain

variable {γ : Type}

namespace PageAccumulator

/-- `carquet_page_writer_create` (page_writer.c:236-282). -/
def create (geo : GeoWalker γ) (encoding : Encoding) : PageAccumulator γ :=
  ⟨[], [], [], encoding, 0, 0, 0, .reset, geo.init⟩

/-- `carquet_page_writer_reset` (page_writer.c:292-306). -/
def reset (p : PageAccumulator γ) : PageAccumulator γ :=
  { p with
    valuesBuffer := [], defLevelsBuffer := [], repLevelsBuffer := []
    numValues := 0, numNulls := 0, numRows := 0, stats := .reset }

/-- `carquet_page_writer_estimated_size` (page_writer.c:2016-2021). -/
def estimatedSize (p : PageAccumulator γ) : Nat :=
  p.valuesBuffer.length + p.defLevelsBuffer.length + p.repLevelsBuffer.length + 64

/-- The statistics after a call. -/
def statsAfter (c : ChunkSettings) (p : PageAccumulator γ) (call : AddCall) : PageStats :=
  if c.collects then p.stats.add c.kind (isPlainFor c.column.type p.encoding) call else p.stats

/-- The geospatial statistics after a call that was taken (page_writer.c:1170-1180). -/
def geoAfter (geo : GeoWalker γ) (c : ChunkSettings) (p : PageAccumulator γ)
    (present : List Value) : γ :=
  if c.geoEnabled = true ∧ c.column.type = .byteArray then present.foldl geo.addWkb p.geoStats
  else p.geoStats

/-- `carquet_page_writer_add_values` (page_writer.c:1026-1284). A call that fails takes back what it
appended. -/
def addValues (geo : GeoWalker γ) (env : ChunkEnv) (c : ChunkSettings) (p : PageAccumulator γ)
    (args : ChunkArgs Value) : Except Status Unit × PageAccumulator γ :=
  let present := args.present c.column.maxDefLevel
  match encodeCall env c p.encoding args with
  | .error e => (.error e, { p with stats := p.statsAfter c .refused })
  | .ok call =>
    (.ok (), { p with
      valuesBuffer := p.valuesBuffer ++ call.values
      defLevelsBuffer := p.defLevelsBuffer ++ call.defLevels
      repLevelsBuffer := p.repLevelsBuffer ++ call.repLevels
      numValues := p.numValues + args.numValues
      numNulls := p.numNulls + (args.numValues - numNonNull c.column.maxDefLevel args)
      numRows := p.numRows + rowsOfCall c args
      stats := p.statsAfter c (.accepted (present.map some))
      geoStats := p.geoAfter geo c present })

/-- `carquet_page_writer_add_dictionary_indices` (page_writer.c:1941-1982). What was appended when it
fails stays. -/
def addDictionaryIndices (env : ChunkEnv) (c : ChunkSettings) (p : PageAccumulator γ)
    (indices : Bytes) (args : ChunkArgs Value) (numNulls : Nat) :
    Except Status Unit × PageAccumulator γ :=
  match encodeDefLevels env c args with
  | .error e => (.error e, p)
  | .ok defLevels =>
    let p := { p with defLevelsBuffer := p.defLevelsBuffer ++ defLevels }
    match encodeRepLevels env c args with
    | .error e => (.error e, p)
    | .ok repLevels =>
      let p := { p with repLevelsBuffer := p.repLevelsBuffer ++ repLevels }
      match env.grow indices.length with
      | .error e => (.error e, p)
      | .ok () =>
        (.ok (), { p with
          valuesBuffer := p.valuesBuffer ++ indices
          numValues := args.numValues
          numNulls := numNulls
          numRows := p.numRows + rowsOfCall c args })

/-- `carquet_page_writer_set_encoding` (page_writer.c:1984-1987). -/
def setEncoding (p : PageAccumulator γ) (encoding : Encoding) : PageAccumulator γ :=
  { p with encoding := encoding }

/-- `carquet_page_writer_set_min_max` (page_writer.c:1993-2009). -/
def setMinMax (c : ChunkSettings) (p : PageAccumulator γ) (minMax : MinMax) : PageAccumulator γ :=
  match Carquet.setMinMax minMax with
  | some b => if c.collects then { p with stats := { p.stats with minMax := some b } } else p
  | none => p

/-- A bound with its length in an `int32_t`. -/
def statBytes (v : Bytes) : Option StatBytes :=
  if h : v.length < 2147483648 then some ⟨v, h⟩ else none

/-- The page as finalizing looks at it. -/
def buffers (c : ChunkSettings) (p : PageAccumulator γ) : PageBuffers where
  repLevelsBuffer := p.repLevelsBuffer
  defLevelsBuffer := p.defLevelsBuffer
  valuesBuffer := p.valuesBuffer
  encoding := p.encoding.code
  compression := c.compression
  numValues := Int64.ofNat p.numValues
  numNulls := Int64.ofNat p.numNulls
  numRows := Int64.ofNat p.numRows
  dataPageV2 := c.dataPageV2
  writeCrc := c.writeCrc
  writeStatistics := c.collects
  minMax := p.stats.minMax.bind fun b => (statBytes b.1).bind fun lo => (statBytes b.2).map (lo, ·)

end PageAccumulator

end Carquet
