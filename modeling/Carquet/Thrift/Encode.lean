import Carquet.Thrift.Decode

/-!
# The encoder of the Thrift compact protocol

`src/thrift/thrift_encode.c`. The bytes that a write appends are a function of their own
(`varintBytes`, `fieldHeaderBytes`, …); the encoder adds them to its buffer and keeps the last
field id of each struct it is in, innermost first.
-/

namespace Carquet

open LittleEndian Leb128

/-- `THRIFT_ENCODER_MAX_NESTING` (thrift_encode.h:27). -/
def thriftEncoderMaxNesting : Nat := 32

/-- `thrift_encoder_t` (thrift_encode.h:30-40), its buffer from where it began. -/
structure Encoder where
  buffer : Bytes
  lastFieldId : List Int
  status : Status
  deriving DecidableEq, Repr

/-- `thrift_encoder_init` (thrift_encode.c:27-32). -/
def Encoder.init : Encoder := ⟨[], [], .ok⟩

/-- `set_error` (thrift_encode.c:17-21). -/
def Encoder.setError (e : Encoder) (status : Status) : Encoder :=
  if e.status = .ok then { e with status := status } else e

def Encoder.append (e : Encoder) (bytes : Bytes) : Encoder :=
  { e with buffer := e.buffer ++ bytes }

/-! ## Bytes of each write -/

/-- `thrift_write_varint` (thrift_encode.c:39-52). -/
def varintBytes (value : Nat) : Bytes := writeUleb 9 value

/-- `thrift_write_zigzag` (thrift_encode.c:54-57); also `thrift_write_i16`, `thrift_write_i32` and
`thrift_write_i64` (thrift_encode.c:70-80). -/
def zigzagBytes (value : Int) : Bytes := varintBytes (zigzagEncode64 value)

/-- `thrift_write_bool` (thrift_encode.c:88-91). -/
def boolBytes (value : Bool) : Bytes := [if value then 1 else 0]

/-- `thrift_write_binary` (thrift_encode.c:93-101). -/
def binaryBytes (data : Bytes) : Bytes := varintBytes data.length ++ data

/-- `thrift_write_field_header` (thrift_encode.c:140-162), `lastId` the struct's last field. -/
def fieldHeaderBytes (lastId : Int) (type : ThriftType) (fieldId : Int) : Bytes :=
  let delta := toI16 (fieldId - lastId)
  if 0 < delta ∧ delta ≤ 15 then [UInt8.ofNat (delta.toNat * 16 + type.code % 16)]
  else UInt8.ofNat (type.code % 16) :: zigzagBytes fieldId

/-- `thrift_write_list_begin` (thrift_encode.c:173-184). -/
def listBeginBytes (elemType : ThriftType) (count : Nat) : Bytes :=
  if count < 15 then [UInt8.ofNat (count * 16 + elemType.code % 16)]
  else UInt8.ofNat (15 * 16 + elemType.code % 16) :: varintBytes count

/-- `thrift_write_map_begin` (thrift_encode.c:191-202). -/
def mapBeginBytes (keyType valueType : ThriftType) (count : Nat) : Bytes :=
  if count = 0 then [0]
  else varintBytes count ++ [UInt8.ofNat (keyType.code % 16 * 16 + valueType.code % 16)]

/-! ## The encoder -/

/-- `thrift_write_struct_begin` (thrift_encode.c:122-130). -/
def Encoder.writeStructBegin (e : Encoder) : Encoder :=
  if thriftEncoderMaxNesting ≤ e.lastFieldId.length then e.setError .thriftEncode
  else { e with lastFieldId := 0 :: e.lastFieldId }

/-- `thrift_write_struct_end` (thrift_encode.c:132-138). -/
def Encoder.writeStructEnd (e : Encoder) : Encoder :=
  { e.append [0] with lastFieldId := e.lastFieldId.tail }

/-- `thrift_write_field_header` (thrift_encode.c:140-162). -/
def Encoder.writeFieldHeader (e : Encoder) (type : ThriftType) (fieldId : Int) : Encoder :=
  let next := e.append (fieldHeaderBytes (e.lastFieldId.headD 0) type fieldId)
  match e.lastFieldId with
  | [] => next
  | _ :: ids => { next with lastFieldId := fieldId :: ids }

/-- `thrift_write_i32` and `thrift_write_i64` (thrift_encode.c:74-80). -/
def Encoder.writeInt (e : Encoder) (value : Int) : Encoder := e.append (zigzagBytes value)

/-- `thrift_write_binary` (thrift_encode.c:93-101). -/
def Encoder.writeBinary (e : Encoder) (data : Bytes) : Encoder := e.append (binaryBytes data)

end Carquet
