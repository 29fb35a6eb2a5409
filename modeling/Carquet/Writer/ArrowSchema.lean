import Carquet.Thrift.ParquetTypes

/-!
# The Arrow schema of a file

`src/writer/arrow_schema.c`: a FlatBuffer builder that writes back to front, the schema message of a
flat schema built with it, and its base64.

* `Fbb` — the builder. Its buffer grows at the front; `live` is `buf[head .. cap)`, of what lies in
  front of it nothing is read. Offsets are counted from the end.
* `buildArrowType` — `build_arrow_type`, over the elements of a schema.
* `buildArrowSchemaB64` — `carquet_build_arrow_schema_b64`.

Allocation does not fail; sizes are those of objects, so `size_t` does not overflow.
-/

namespace Carquet

open LittleEndian

/-! ## The builder -/

/-- `fbb` (arrow_schema.c:33-43). -/
structure Fbb where
  cap : Nat
  live : Bytes
  minalign : Nat
  vtable : List Int
  objectEnd : Nat
  fits : live.length ≤ cap
  nonempty : 0 < cap

namespace Fbb

/-- `fbb_init` (arrow_schema.c:45-55). -/
def init : Fbb := ⟨1024, [], 1, [], 0, Nat.zero_le _, by decide⟩

def head (b : Fbb) : Nat := b.cap - b.live.length

/-- `fbb_offset` (arrow_schema.c:62). -/
def offset (b : Fbb) : Nat := b.live.length

/-- `fbb_grow` (arrow_schema.c:65-77). -/
def grow (b : Fbb) : Fbb :=
  { b with
    cap := b.cap * 2
    fits := Nat.le_trans b.fits (Nat.le_mul_of_pos_right _ (by decide))
    nonempty := Nat.mul_pos b.nonempty (by decide) }

/-- `while (b->head < need) fbb_grow(b)`; every turn adds to the head, so `need` are enough. -/
def growTo (need : Nat) : Nat → Fbb → Fbb
  | 0, b => b
  | fuel + 1, b => if b.head < need then growTo need fuel b.grow else b

def makeRoom (b : Fbb) (need : Nat) : Fbb := growTo need need b

theorem head_grow (b : Fbb) : b.grow.head = b.head + b.cap := by
  have hfits := b.fits
  show b.cap * 2 - b.live.length = b.cap - b.live.length + b.cap
  omega

theorem le_head_growTo (need fuel : Nat) (b : Fbb) (h : need ≤ b.head + fuel) :
    need ≤ (growTo need fuel b).head := by
  induction fuel generalizing b with
  | zero => exact h
  | succ fuel ih =>
    rw [growTo]
    split
    · refine ih b.grow ?_
      have hcap := b.nonempty
      rw [head_grow]
      omega
    · omega

/-- **Room is made**: what is stored next lies in the buffer. -/
theorem le_head_makeRoom (b : Fbb) (need : Nat) : need ≤ (b.makeRoom need).head :=
  le_head_growTo need need b (Nat.le_add_left ..)

/-- Bytes in front of the live ones, where there is room. -/
def push (b : Fbb) (bs : Bytes) (h : bs.length ≤ b.head) : Fbb :=
  { b with
    live := bs ++ b.live
    fits := by
      have hfits := b.fits
      rw [List.length_append]
      unfold head at h
      omega }

/-- `fbb_put` (arrow_schema.c:97-101). -/
def put (b : Fbb) (bs : Bytes) : Fbb := (b.makeRoom bs.length).push bs (b.le_head_makeRoom _)

/-- `fbb_pad` (arrow_schema.c:79-84). -/
def pad : Nat → Fbb → Fbb
  | 0, b => b
  | n + 1, b => pad n (b.put [0])

/-- `((~buf_used) + 1) & (size - 1)`. -/
def alignSize (used size : Nat) : Nat := (2 ^ 64 - used % 2 ^ 64) &&& (size - 1)

/-- `fbb_prep` (arrow_schema.c:86-94). -/
def prep (b : Fbb) (size additional : Nat) : Fbb :=
  let b := if b.minalign < size then { b with minalign := size } else b
  let align := alignSize (b.offset + additional) size
  pad align (b.makeRoom (align + size + additional))

def placeU8 (b : Fbb) (v : Nat) : Fbb := b.put (leBytes 1 v)

def placeU16 (b : Fbb) (v : Nat) : Fbb := b.put (leBytes 2 v)

def placeU32 (b : Fbb) (v : Nat) : Fbb := b.put (leBytes 4 v)

/-- `fbb_prepend_uoffset` (arrow_schema.c:115-119). -/
def prependUoffset (b : Fbb) (off : Nat) : Fbb :=
  let b := b.prep 4 0
  b.placeU32 (b.offset - off + 4)

/-- `fbb_create_string` (arrow_schema.c:122-129): the offset of the string comes with it. -/
def createString (b : Fbb) (s : Bytes) : Nat × Fbb :=
  let b := (((b.prep 4 (s.length + 1)).placeU8 0).put s).placeU32 s.length
  (b.offset, b)

/-- `fbb_start_vector` (arrow_schema.c:131-134). -/
def startVector (b : Fbb) (elemSize n align : Nat) : Fbb :=
  (b.prep 4 (elemSize * n)).prep align (elemSize * n)

/-- `fbb_end_vector` (arrow_schema.c:135-138). -/
def endVector (b : Fbb) (n : Nat) : Nat × Fbb :=
  let b := b.placeU32 n
  (b.offset, b)

/-- `fbb_start_table` (arrow_schema.c:141-148). -/
def startTable (b : Fbb) (numfields : Nat) : Fbb :=
  { b with vtable := List.replicate numfields 0, objectEnd := b.offset }

/-- `fbb_slot` (arrow_schema.c:149). -/
def slot (b : Fbb) (i : Nat) : Fbb := { b with vtable := b.vtable.set i (toI32 b.offset) }

def addUoffset (b : Fbb) (i off : Nat) : Fbb := (b.prependUoffset off).slot i

def addU8 (b : Fbb) (i v : Nat) : Fbb := ((b.prep 1 0).placeU8 v).slot i

def addI16 (b : Fbb) (i : Nat) (v : Int) : Fbb :=
  ((b.prep 2 0).placeU16 (v % 2 ^ 16).toNat).slot i

def addI32 (b : Fbb) (i : Nat) (v : Int) : Fbb :=
  ((b.prep 4 0).placeU32 (v % 2 ^ 32).toNat).slot i

/-- `while (trimmed > 0 && b->vtable[trimmed - 1] == 0) trimmed--`. -/
def trimmed (vtable : List Int) : Nat → Nat
  | 0 => 0
  | n + 1 => if vtable.getD n 0 = 0 then trimmed vtable n else n + 1

/-- The entries of the vtable, from the last one on (arrow_schema.c:173-177). -/
def placeEntries (objectOffset : Nat) : Nat → Fbb → Fbb
  | 0, b => b
  | i + 1, b =>
    let v := b.vtable.getD i 0
    let off := if v ≠ 0 then (((objectOffset : Int) - v) % 2 ^ 16).toNat else 0
    placeEntries objectOffset i ((b.prep 2 0).placeU16 off)

/-- Bytes stored over those from an index on. -/
def storeFrom : Nat → Bytes → Bytes → Bytes
  | _, [], live => live
  | i, v :: vs, live => storeFrom (i + 1) vs (live.set i v)

theorem length_storeFrom (i : Nat) (vs live : Bytes) :
    (storeFrom i vs live).length = live.length := by
  induction vs generalizing i live with
  | nil => rfl
  | cons v vs ih => rw [storeFrom, ih, List.length_set]

/-- The bytes at `cap - off` are stored over. -/
def patch (b : Fbb) (off : Nat) (vs : Bytes) : Fbb :=
  { b with
    live := storeFrom (b.live.length - off) vs b.live
    fits := by
      rw [length_storeFrom]
      exact b.fits }

/-- `fbb_end_table` (arrow_schema.c:166-197). -/
def endTable (b : Fbb) : Nat × Fbb :=
  let b := (b.prep 4 0).placeU32 0
  let objectOffset := b.offset
  let kept := trimmed b.vtable b.vtable.length
  let b := placeEntries objectOffset kept b
  let b := (b.prep 2 0).placeU16 (objectOffset - b.objectEnd)
  let b := (b.prep 2 0).placeU16 ((kept + 2) * 2)
  let soffset := b.offset - objectOffset
  (objectOffset, { b.patch objectOffset (leBytes 4 soffset) with vtable := [] })

/-- `fbb_finish` (arrow_schema.c:199-202). -/
def finish (b : Fbb) (root : Nat) : Fbb := (b.prep b.minalign 4).prependUoffset root

end Fbb

/-! ## Types -/

/-- `carquet_physical_type_t` of an element (types.h). -/
def physicalBoolean : Int32 := 0
def physicalInt32 : Int32 := 1
def physicalInt64 : Int32 := 2
def physicalInt96 : Int32 := 3
def physicalFloat : Int32 := 4
def physicalDouble : Int32 := 5
def physicalByteArray : Int32 := 6
def physicalFixedLenByteArray : Int32 := 7

/-- The tags of the type union (arrow_schema.c:21-25). -/
def atInt : Nat := 2
def atFloat : Nat := 3
def atBinary : Nat := 4
def atUtf8 : Nat := 5
def atBool : Nat := 6
def atDecimal : Nat := 7
def atDate : Nat := 8
def atTime : Nat := 9
def atTimestamp : Nat := 10
def atFixedSizeBinary : Nat := 15

/-- The unit of a TIME or a TIMESTAMP (arrow_schema.c:237-240). -/
def arrowTimeUnit : Parquet.TimeUnit → Int
  | .millis => 1
  | .micros => 2
  | .nanos => 3

/-- A table that was built, and what its tag is. -/
abbrev BuiltType : Type := Nat × Nat × Fbb

def tagged (tag : Nat) (r : Nat × Fbb) : BuiltType := (tag, r)

/-- A decimal (arrow_schema.c:262-268, 307-313). -/
def buildDecimal (b : Fbb) (e : Parquet.SchemaElement) : BuiltType :=
  tagged atDecimal ((((b.startTable 3).addI32 0 e.precision.toInt).addI32 1 e.scale.toInt).addI32 2
    128).endTable

/-- The width and the sign of an integer (arrow_schema.c:270-281). -/
def integerParams (e : Parquet.SchemaElement) (is64 : Bool) : Int × Bool :=
  match e.logicalType with
  | some lt =>
    if lt.id = .integer then (lt.integer.bitWidth.toInt, lt.integer.isSigned)
    else convertedParams
  | none => convertedParams
where
  /-- `cbw` (arrow_schema.c:278). -/
  widths : List Int := [8, 16, 32, 64, 8, 16, 32, 64]
  convertedParams : Int × Bool :=
    match e.convertedType with
    | some ct =>
      if 11 ≤ ct ∧ ct ≤ 18 then (widths.getD (ct - 11).toInt.toNat 0, decide (15 ≤ ct))
      else (if is64 then 64 else 32, true)
    | none => (if is64 then 64 else 32, true)

/-- INT32 and INT64 (arrow_schema.c:229-287). -/
def buildIntType (b : Fbb) (e : Parquet.SchemaElement) (is64 : Bool) : BuiltType :=
  match e.logicalType.map Parquet.LogicalType.id, e.logicalType with
  | some .timestamp, some lt => if is64 then timestamp lt else integer
  | some .date, some _ => if is64 then integer else tagged atDate (b.startTable 1).endTable
  | some .time, some lt =>
    tagged atTime (((b.startTable 2).addI16 0 (arrowTimeUnit lt.time.unit)).addI32 1
      (if is64 then 64 else 32)).endTable
  | some .decimal, some _ => buildDecimal b e
  | _, _ => integer
where
  timestamp (lt : Parquet.LogicalType) : BuiltType :=
    let unit := arrowTimeUnit lt.timestamp.unit
    if lt.timestamp.isAdjustedToUtc then
      let (tz, b) := b.createString [0x55, 0x54, 0x43]
      tagged atTimestamp (((b.startTable 2).addI16 0 unit).addUoffset 1 tz).endTable
    else tagged atTimestamp ((b.startTable 2).addI16 0 unit).endTable
  integer : BuiltType :=
    let (bw, isSigned) := integerParams e is64
    let b := (b.startTable 2).addI32 0 bw
    tagged atInt (if isSigned then b.addU8 1 1 else b).endTable

/-- A byte array that holds text (arrow_schema.c:296-300). -/
def isText (e : Parquet.SchemaElement) : Bool :=
  (match e.logicalType with
    | some lt => lt.id = .string || lt.id = .json || lt.id = .enum
    | none => false) ||
  match e.convertedType with
  | some ct => ct = 0 || ct = 19 || ct = 4
  | none => false

def isDecimal (e : Parquet.SchemaElement) : Bool :=
  match e.logicalType with
  | some lt => lt.id = .decimal
  | none => false

/-- `build_arrow_type` (arrow_schema.c:210-320): the tag, the place of the table and the builder. -/
def buildArrowType (b : Fbb) (e : Parquet.SchemaElement) (type : Int32) : Option BuiltType :=
  if type = physicalBoolean then some (tagged atBool (b.startTable 0).endTable)
  else if type = physicalFloat then
    some (tagged atFloat ((b.startTable 1).addI16 0 1).endTable)
  else if type = physicalDouble then
    some (tagged atFloat ((b.startTable 1).addI16 0 2).endTable)
  else if type = physicalInt32 then some (buildIntType b e false)
  else if type = physicalInt64 then some (buildIntType b e true)
  else if type = physicalInt96 then
    some (tagged atTimestamp ((b.startTable 2).addI16 0 3).endTable)
  else if type = physicalByteArray then
    if isText e then some (tagged atUtf8 (b.startTable 0).endTable)
    else if isDecimal e then none
    else some (tagged atBinary (b.startTable 0).endTable)
  else if type = physicalFixedLenByteArray then
    if isDecimal e then some (buildDecimal b e)
    else some (tagged atFixedSizeBinary ((b.startTable 1).addI32 0 e.typeLength.toInt).endTable)
  else none

/-! ## Base64 -/

/-- `T` (arrow_schema.c:326-327). -/
def base64Table : Bytes :=
  "ABCDEFGHIJKLMNOPQRSTUVWXYZabcdefghijklmnopqrstuvwxyz0123456789+/".toList.map fun c =>
    UInt8.ofNat c.toNat

/-- A digit of `v`, `shift` bits up. -/
def base64Digit (v shift : Nat) : UInt8 := base64Table.getD ((v >>> shift) &&& 0x3F) 0

/-- `base64` (arrow_schema.c:325-343), without the terminator. -/
def base64 : Bytes → Bytes
  | [] => []
  | [x] =>
    let v := x.toNat <<< 16
    [base64Digit v 18, base64Digit v 12, 0x3D, 0x3D]
  | [x, y] =>
    let v := x.toNat <<< 16 ||| y.toNat <<< 8
    [base64Digit v 18, base64Digit v 12, base64Digit v 6, 0x3D]
  | x :: y :: z :: rest =>
    let v := x.toNat <<< 16 ||| y.toNat <<< 8 ||| z.toNat
    [base64Digit v 18, base64Digit v 12, base64Digit v 6, base64Digit v 0] ++ base64 rest

/-! ## The message -/

/-- An element that may be a field (arrow_schema.c:359-364). -/
def isLeaf (e : Parquet.SchemaElement) : Bool :=
  e.type.isSome && e.numChildren = 0 && e.name.isSome && !(e.repetitionType = some 2)

/-- One turn of the loop over the fields (arrow_schema.c:374-393). -/
def buildField (b : Fbb) (e : Parquet.SchemaElement) : Option (Nat × Fbb) := do
  let type ← e.type
  let name ← e.name
  let (tag, typeOff, b) ← buildArrowType b e type
  let (nameOff, b) := b.createString name.val
  let nullable := !(e.repetitionType = some 0)
  let b := (b.startTable 7).addUoffset 0 nameOff
  let b := if nullable then b.addU8 1 1 else b
  some ((b.addU8 2 tag).addUoffset 3 typeOff).endTable

/-- The loop (arrow_schema.c:374-394): the offsets of the fields. -/
def buildFields : Fbb → List Parquet.SchemaElement → Option (List Nat × Fbb)
  | b, [] => some ([], b)
  | b, e :: es => do
    let (off, b) ← buildField b e
    let (offs, b) ← buildFields b es
    some (off :: offs, b)

/-- What comes behind the fields (arrow_schema.c:397-416). -/
def buildMessage (b : Fbb) (fieldOffs : List Nat) : Fbb :=
  let b := b.startVector 4 fieldOffs.length 4
  let b := fieldOffs.reverse.foldl Fbb.prependUoffset b
  let (fieldsVec, b) := b.endVector fieldOffs.length
  let (schemaOff, b) := ((b.startTable 4).addUoffset 1 fieldsVec).endTable
  let (msgOff, b) := ((((b.startTable 5).addI16 0 4).addU8 1 1).addUoffset 2 schemaOff).endTable
  b.finish msgOff

/-- The encapsulated message (arrow_schema.c:421-433). -/
def encapsulate (fb : Bytes) : Bytes :=
  let padded := (fb.length + 7) / 8 * 8
  leBytes 4 0xFFFFFFFF ++ leBytes 4 padded ++ fb ++ List.replicate (padded - fb.length) 0

/-- `carquet_build_arrow_schema_b64` (arrow_schema.c:350-437). -/
def buildArrowSchemaB64 (schema : List Parquet.SchemaElement) : Option Bytes :=
  if schema.length < 2 then none
  else if !(schema.drop 1).all isLeaf then none
  else do
    let (fieldOffs, b) ← buildFields .init (schema.drop 1)
    some (base64 (encapsulate (buildMessage b fieldOffs).live))

end Carquet
