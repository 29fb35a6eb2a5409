import Carquet.Thrift.Encode

/-!
# Values of the compact protocol

A `Shape` is a type of the protocol, a struct's fields by their ids included; `Val s` are its
values and `encode s` the bytes that a writer makes of one, each write that of
`src/thrift/thrift_encode.c`. A boolean that is a field is in the field's header and has no bytes
of its own; as an element of a container it has one.
-/

namespace Carquet

mutual

/-- A type: booleans, integers, doubles, UUIDs, binaries, containers and structs. -/
inductive Shape where
  | bool | byte | i16 | i32 | i64 | double | binary | uuid
  | list (elem : Shape)
  | set (elem : Shape)
  | map (key value : Shape)
  | struct (fields : Fields)

/-- The fields that a struct is written with, in their order. -/
inductive Fields where
  | nil
  | cons (id : Int16) (type : Shape) (rest : Fields)

end

mutual

/-- The values of a type. -/
def Val : Shape → Type
  | .bool => Bool
  | .byte => UInt8
  | .i16 => Int16
  | .i32 => Int32
  | .i64 => Int64
  | .double => Vector UInt8 8
  | .binary => { data : Bytes // data.length < 2147483648 }
  | .uuid => Vector UInt8 16
  | .list elem => { vs : List (Val elem) // vs.length < 2147483648 }
  | .set elem => { vs : List (Val elem) // vs.length < 2147483648 }
  | .map key value => { es : List (Val key × Val value) // es.length < 2147483648 }
  | .struct fields => FieldVals fields

def FieldVals : Fields → Type
  | .nil => Unit
  | .cons _ type rest => Val type × FieldVals rest

end

/-- The type's code, of an element as of a field that is no boolean. -/
def Shape.wireType : Shape → ThriftType
  | .bool => .boolTrue
  | .byte => .byte
  | .i16 => .i16
  | .i32 => .i32
  | .i64 => .i64
  | .double => .double
  | .binary => .binary
  | .uuid => .uuid
  | .list _ => .list
  | .set _ => .set
  | .map _ _ => .map
  | .struct _ => .struct

/-- The type's code in the header of a field. -/
def Shape.fieldType : (s : Shape) → Val s → ThriftType
  | .bool, (v : Bool) => if v then .boolTrue else .boolFalse
  | s, _ => s.wireType

/-- An element of a container: one byte for a boolean. -/
def elemBytes : (s : Shape) → (Val s → Bytes) → Val s → Bytes
  | .bool, _ => fun (v : Bool) => boolBytes v
  | _, enc => enc

mutual

/-- The encoding of a value. -/
def encode : (s : Shape) → Val s → Bytes
  | .bool => fun _ => []
  | .byte => fun (b : UInt8) => [b]
  | .i16 => fun (n : Int16) => zigzagBytes n.toInt
  | .i32 => fun (n : Int32) => zigzagBytes n.toInt
  | .i64 => fun (n : Int64) => zigzagBytes n.toInt
  | .double => fun (v : Vector UInt8 8) => v.toList
  | .binary => fun (v : { data : Bytes // data.length < 2147483648 }) => binaryBytes v.1
  | .uuid => fun (v : Vector UInt8 16) => v.toList
  | .list elem => fun (vs : { vs : List (Val elem) // vs.length < 2147483648 }) =>
    listBeginBytes elem.wireType vs.1.length ++ vs.1.flatMap (elemBytes elem (encode elem))
  | .set elem => fun (vs : { vs : List (Val elem) // vs.length < 2147483648 }) =>
    listBeginBytes elem.wireType vs.1.length ++ vs.1.flatMap (elemBytes elem (encode elem))
  | .map key value =>
    fun (es : { es : List (Val key × Val value) // es.length < 2147483648 }) =>
    mapBeginBytes key.wireType value.wireType es.1.length ++
      es.1.flatMap fun e => elemBytes key (encode key) e.1 ++ elemBytes value (encode value) e.2
  | .struct fields => fun (vs : FieldVals fields) => encodeFields fields 0 vs

/-- The fields after one with the id `last`, and the stop. -/
def encodeFields : (fields : Fields) → Int → FieldVals fields → Bytes
  | .nil => fun _ _ => [0]
  | .cons id type rest => fun last (vs : Val type × FieldVals rest) =>
    fieldHeaderBytes last (type.fieldType vs.1) id.toInt ++ encode type vs.1 ++
      encodeFields rest id.toInt vs.2

end

mutual

/-- How deep structs are nested in a type. -/
def Shape.depth : Shape → Nat
  | .list elem => elem.depth
  | .set elem => elem.depth
  | .map key value => max key.depth value.depth
  | .struct fields => fields.depth + 1
  | _ => 0

def Fields.depth : Fields → Nat
  | .nil => 0
  | .cons _ type rest => max type.depth rest.depth

end

def Shape.isBool : Shape → Bool
  | .bool => true
  | _ => false

end Carquet
