import Carquet.Lib.FlatBuffer
import Carquet.Lib.Base64
import Carquet.Writer.ArrowSchema

/-!
# Reading an Arrow schema message

What is under the key `ARROW:schema` for a reader of the format: base64 of an encapsulated message,
whose FlatBuffer is a `Message` with a `Schema` with fields. And what the fields of a flat schema
are (`arrowFieldOf`): their names, whether they are nullable, their types with the parameters the
schema gives.

A scalar that a table leaves out has the default of its field. The definition of the Arrow tables is
not part of the source; the defaults in it that are not zero are a parameter (`ArrowDefaults`).
-/

namespace Carquet

open LittleEndian FlatBuffer

/-- A type, with its parameters. -/
inductive ArrowType where
  | int (bitWidth : Int) (isSigned : Bool)
  | floatingPoint (precision : Int)
  | binary
  | utf8
  | bool
  | decimal (precision scale bitWidth : Int)
  | date (unit : Int)
  | time (unit bitWidth : Int)
  | timestamp (unit : Int) (timezone : Option Bytes)
  | fixedSizeBinary (byteWidth : Int)
  deriving DecidableEq, Repr

structure ArrowField where
  name : Bytes
  nullable : Bool
  type : ArrowType
  deriving DecidableEq, Repr

namespace ArrowType

def tag : ArrowType → Nat
  | int _ _ => atInt
  | floatingPoint _ => atFloat
  | binary => atBinary
  | utf8 => atUtf8
  | bool => atBool
  | decimal _ _ _ => atDecimal
  | date _ => atDate
  | time _ _ => atTime
  | timestamp _ _ => atTimestamp
  | fixedSizeBinary _ => atFixedSizeBinary

end ArrowType

/-! ## Reading -/

/-- What is meant where a unit or a width is left out. -/
structure ArrowDefaults where
  dateUnit : Int
  timeUnit : Int
  timeBitWidth : Int
  decimalBitWidth : Int

section Reader

variable (d : ArrowDefaults) (buf : Bytes)

def readI32 (t : Table) (i : Nat) (default : Int) : Option Int := do
  match ← t.scalar buf i 4 with
  | none => some default
  | some v => some (toI32 v)

def readI16 (t : Table) (i : Nat) (default : Int) : Option Int := do
  match ← t.scalar buf i 2 with
  | none => some default
  | some v => some (toI16 v)

def readU8 (t : Table) (i : Nat) : Option Nat := do
  match ← t.scalar buf i 1 with
  | none => some 0
  | some v => some v

def readFlag (t : Table) (i : Nat) : Option Bool := (readU8 buf t i).map fun v => decide (v ≠ 0)

/-- A string that need not be there. -/
def readString (t : Table) (i : Nat) : Option (Option Bytes) := do
  match ← t.ref buf i with
  | none => some none
  | some pos => (stringAt buf pos).map some

/-- An object that has to be there. -/
def readRef (t : Table) (i : Nat) : Option Nat := do
  match ← t.ref buf i with
  | none => none
  | some pos => some pos

/-- A type whose tag is known. -/
def readArrowType (tag pos : Nat) : Option ArrowType := do
  let t ← tableAt buf pos
  if tag = atInt then do
    let bitWidth ← readI32 buf t 0 0
    let isSigned ← readFlag buf t 1
    some (.int bitWidth isSigned)
  else if tag = atFloat then (readI16 buf t 0 0).map .floatingPoint
  else if tag = atBinary then some .binary
  else if tag = atUtf8 then some .utf8
  else if tag = atBool then some .bool
  else if tag = atDecimal then do
    let precision ← readI32 buf t 0 0
    let scale ← readI32 buf t 1 0
    let bitWidth ← readI32 buf t 2 d.decimalBitWidth
    some (.decimal precision scale bitWidth)
  else if tag = atDate then (readI16 buf t 0 d.dateUnit).map .date
  else if tag = atTime then do
    let unit ← readI16 buf t 0 d.timeUnit
    let bitWidth ← readI32 buf t 1 d.timeBitWidth
    some (.time unit bitWidth)
  else if tag = atTimestamp then do
    let unit ← readI16 buf t 0 0
    let timezone ← readString buf t 1
    some (.timestamp unit timezone)
  else if tag = atFixedSizeBinary then (readI32 buf t 0 0).map .fixedSizeBinary
  else none

def readArrowField (pos : Nat) : Option ArrowField := do
  let t ← tableAt buf pos
  let name ← stringAt buf (← readRef buf t 0)
  let nullable ← readFlag buf t 1
  let type ← readArrowType d buf (← readU8 buf t 2) (← readRef buf t 3)
  some ⟨name, nullable, type⟩

/-- A message of the version 5 whose header is a little-endian schema: its fields. -/
def readArrowMessage : Option (List ArrowField) := do
  let message ← tableAt buf (← follow buf 0)
  if (← readI16 buf message 0 0) = 4 ∧ (← readU8 buf message 1) = 1 then do
    let schema ← tableAt buf (← readRef buf message 2)
    if (← readI16 buf schema 0 0) = 0 then do
      let refs ← refsAt buf (← readRef buf schema 1)
      refs.mapM (readArrowField d buf)
    else none
  else none

end Reader

/-- The metadata of an encapsulated message, behind a marker and a signed length: a multiple of 8
bytes. -/
def readEncapsulated (bs : Bytes) : Option Bytes :=
  if 8 ≤ bs.length ∧ bs.take 4 = leBytes 4 0xFFFFFFFF ∧
      toI32 (leNat ((bs.drop 4).take 4)) = (bs.length - 8 : Nat) ∧ (bs.length - 8) % 8 = 0 then
    some (bs.drop 8)
  else none

def readArrowSchemaB64 (d : ArrowDefaults) (text : Bytes) : Option (List ArrowField) := do
  let bs ← Base64.decode text
  readArrowMessage d (← readEncapsulated bs)

/-! ## What the schema says -/

/-- A decimal with the parameters of the logical type. -/
def arrowDecimal (lt : Parquet.LogicalType) : ArrowType :=
  .decimal lt.decimal.precision.toInt lt.decimal.scale.toInt 128

/-- INT32 and INT64. The unit of a date is 0, which is DAY. -/
def arrowIntType (e : Parquet.SchemaElement) (is64 : Bool) : ArrowType :=
  match e.logicalType.map Parquet.LogicalType.id, e.logicalType with
  | some .timestamp, some lt =>
    if is64 then .timestamp (arrowTimeUnit lt.timestamp.unit)
      (if lt.timestamp.isAdjustedToUtc then some [0x55, 0x54, 0x43] else none)
    else integer
  | some .date, some _ => if is64 then integer else .date 0
  | some .time, some lt => .time (arrowTimeUnit lt.time.unit) (if is64 then 64 else 32)
  | some .decimal, some lt => arrowDecimal lt
  | _, _ => integer
where
  integer : ArrowType := .int (integerParams e is64).1 (integerParams e is64).2

/-- A fixed length of bytes. -/
def arrowFixedType (e : Parquet.SchemaElement) : ArrowType :=
  match e.logicalType with
  | some lt => if lt.id = .decimal then arrowDecimal lt else .fixedSizeBinary e.typeLength.toInt
  | none => .fixedSizeBinary e.typeLength.toInt

/-- The type of an element, if there is one for it. -/
def arrowTypeOf (e : Parquet.SchemaElement) (type : Int32) : Option ArrowType :=
  if type = physicalBoolean then some .bool
  else if type = physicalFloat then some (.floatingPoint 1)
  else if type = physicalDouble then some (.floatingPoint 2)
  else if type = physicalInt32 then some (arrowIntType e false)
  else if type = physicalInt64 then some (arrowIntType e true)
  else if type = physicalInt96 then some (.timestamp 3 none)
  else if type = physicalByteArray then
    if isText e then some .utf8
    else if isDecimal e then none
    else some .binary
  else if type = physicalFixedLenByteArray then some (arrowFixedType e)
  else none

/-- The field of an element. -/
def arrowFieldOf (e : Parquet.SchemaElement) : Option ArrowField := do
  let type ← e.type
  let name ← e.name
  let arrowType ← arrowTypeOf e type
  some ⟨name.val, !(e.repetitionType = some 0), arrowType⟩

/-- The fields of a flat schema, behind its root. -/
def arrowFieldsOf (schema : List Parquet.SchemaElement) : Option (List ArrowField) :=
  (schema.drop 1).mapM arrowFieldOf

end Carquet
