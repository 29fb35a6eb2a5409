import Carquet.Encoding.Delta

/-!
# The decoder of the Thrift compact protocol

`src/thrift/thrift_decode.c`. A decoder holds what its reader has not passed yet
(`reader.data + reader.pos` up to its size) and the last field id of each struct it is in,
innermost first; `nesting_level` is their number. An error is sticky (`Decoder.setError`), but
only `readFieldBegin` and `skip` look at it: other reads go on.

`skip` and the loop over a struct's fields are given fuel; `none` means that it ran out
(`skip_isSome`, in `Carquet.Thrift.Skip`).
-/

namespace Carquet

open LittleEndian Leb128

/-- `thrift_type_t` (thrift_decode.h:35-50); `unknown` are the codes 14 and 15. -/
inductive ThriftType where
  | stop | boolTrue | boolFalse | byte | i16 | i32 | i64 | double | binary
  | list | set | map | struct | uuid | unknown (code : Nat)
  deriving DecidableEq, Repr

/-- The type of the code in four bits. -/
def ThriftType.ofCode : Nat → ThriftType
  | 0 => .stop
  | 1 => .boolTrue
  | 2 => .boolFalse
  | 3 => .byte
  | 4 => .i16
  | 5 => .i32
  | 6 => .i64
  | 7 => .double
  | 8 => .binary
  | 9 => .list
  | 10 => .set
  | 11 => .map
  | 12 => .struct
  | 13 => .uuid
  | code => .unknown code

def ThriftType.code : ThriftType → Nat
  | .stop => 0
  | .boolTrue => 1
  | .boolFalse => 2
  | .byte => 3
  | .i16 => 4
  | .i32 => 5
  | .i64 => 6
  | .double => 7
  | .binary => 8
  | .list => 9
  | .set => 10
  | .map => 11
  | .struct => 12
  | .uuid => 13
  | .unknown code => code

/-- `THRIFT_MAX_NESTING` (thrift_decode.h:60). -/
def thriftMaxNesting : Nat := 32

/-- `thrift_decoder_t` (thrift_decode.h:65-80). -/
structure Decoder where
  rest : Bytes
  lastFieldId : List Int
  boolPending : Bool
  boolValue : Bool
  status : Status
  deriving DecidableEq, Repr

/-- `thrift_decoder_init` (thrift_decode.c:46-52). -/
def Decoder.init (data : Bytes) : Decoder := ⟨data, [], false, false, .ok⟩

/-- `set_error` (thrift_decode.c:17-25): the first error stays. -/
def Decoder.setError (d : Decoder) (status : Status) : Decoder :=
  if d.status = .ok then { d with status := status } else d

/-- `carquet_buffer_reader_skip` (buffer.c:332-340), its status dropped. -/
def Decoder.readerSkip (d : Decoder) (n : Nat) : Decoder :=
  if n ≤ d.rest.length then { d with rest := d.rest.drop n } else d

/-- `read_byte_raw` (thrift_decode.c:31-39). -/
def Decoder.readByteRaw (d : Decoder) : UInt8 × Decoder :=
  match d.rest with
  | [] => (0, d.setError .thriftTruncated)
  | b :: rest => (b, { d with rest := rest })

/-- `thrift_read_varint` (thrift_decode.c:68-90). -/
def Decoder.readVarint (d : Decoder) : Nat × Decoder :=
  match readUleb 64 10 0 0 d.rest with
  | some (v, rest) => (v, { d with rest := rest })
  | none =>
    if d.rest.length < 10 then
      (0, { d with rest := [] }.setError .thriftTruncated)
    else (0, { d with rest := d.rest.drop 10 }.setError .thriftDecode)

/-- `thrift_read_zigzag` (thrift_decode.c:92-95). -/
def Decoder.readZigzag (d : Decoder) : Int × Decoder :=
  let r := d.readVarint
  (zigzagDecode64 r.1, r.2)

/-- `thrift_read_byte` (thrift_decode.c:102-104). -/
def Decoder.readByte (d : Decoder) : Int × Decoder :=
  let r := d.readByteRaw
  (if r.1.toNat < 128 then r.1.toNat else (r.1.toNat : Int) - 256, r.2)

/-- `thrift_read_i16` (thrift_decode.c:106-108). -/
def Decoder.readI16 (d : Decoder) : Int × Decoder :=
  let r := d.readZigzag
  (toI16 r.1, r.2)

/-- `thrift_read_i32` (thrift_decode.c:110-112). -/
def Decoder.readI32 (d : Decoder) : Int × Decoder :=
  let r := d.readZigzag
  (toI32 r.1, r.2)

/-- `thrift_read_i64` (thrift_decode.c:114-116). -/
def Decoder.readI64 (d : Decoder) : Int × Decoder := d.readZigzag

/-- `thrift_read_double` (thrift_decode.c:118-129), the number as its eight bytes. -/
def Decoder.readDouble (d : Decoder) : Bytes × Decoder :=
  if d.rest.length < 8 then (List.replicate 8 0, d.setError .thriftTruncated)
  else (d.rest.take 8, { d with rest := d.rest.drop 8 })

/-- `thrift_read_bool` (thrift_decode.c:131-140). -/
def Decoder.readBool (d : Decoder) : Bool × Decoder :=
  if d.boolPending then (d.boolValue, { d with boolPending := false })
  else
    let r := d.readByteRaw
    (r.1 == 1, r.2)

/-- `thrift_read_binary` (thrift_decode.c:142-162); `none` is a null pointer. -/
def Decoder.readBinary (d : Decoder) : Option Bytes × Decoder :=
  let r := d.readVarint
  let len := toI32 r.1
  if len < 0 then (none, r.2.setError .thriftDecode)
  else if r.2.rest.length < len.toNat then (none, r.2.setError .thriftTruncated)
  else (some (r.2.rest.take len.toNat), { r.2 with rest := r.2.rest.drop len.toNat })

/-! ## Structs -/

/-- `thrift_read_struct_begin` (thrift_decode.c:205-213). -/
def Decoder.readStructBegin (d : Decoder) : Decoder :=
  if thriftMaxNesting ≤ d.lastFieldId.length then d.setError .thriftDecode
  else { d with lastFieldId := 0 :: d.lastFieldId }

/-- `thrift_read_struct_end` (thrift_decode.c:215-219). -/
def Decoder.readStructEnd (d : Decoder) : Decoder := { d with lastFieldId := d.lastFieldId.tail }

/-- Where the id of the struct's last field is kept. -/
def Decoder.setLastFieldId (d : Decoder) (id : Int) : Decoder :=
  match d.lastFieldId with
  | [] => d
  | _ :: ids => { d with lastFieldId := id :: ids }

/-- `thrift_read_field_begin` (thrift_decode.c:221-275); `none` when it returns `false`. -/
def Decoder.readFieldBegin (d : Decoder) : Option (ThriftType × Int) × Decoder :=
  if d.status ≠ .ok then (none, d)
  else
    let r := d.readByteRaw
    let header := r.1.toNat
    if header = 0 then (none, r.2)
    else
      let type := ThriftType.ofCode (header % 16)
      let delta := header / 16
      let f :=
        if delta = 0 then r.2.readI16
        else (toI16 (d.lastFieldId.headD 0 + delta), r.2)
      let next := f.2.setLastFieldId f.1
      match type with
      | .boolTrue => (some (type, f.1), { next with boolPending := true, boolValue := true })
      | .boolFalse => (some (type, f.1), { next with boolPending := true, boolValue := false })
      | _ => (some (type, f.1), next)

/-- `while (thrift_read_field_begin(..)) { .. }`: the loop over the fields of a struct, `handle`
its body. Each turn takes a byte, so as many turns as bytes are left are enough. -/
def Decoder.readFields {σ : Type} (handle : Int → ThriftType → σ → Decoder → Option (σ × Decoder)) :
    Nat → σ → Decoder → Option (σ × Decoder)
  | 0, _, _ => none
  | fuel + 1, s, d =>
    match d.readFieldBegin with
    | (none, d) => some (s, d)
    | (some (type, id), d) =>
      match handle id type s d with
      | none => none
      | some (s, d) => d.readFields handle fuel s

/-! ## Containers -/

/-- `thrift_read_list_begin` (thrift_decode.c:286-318). -/
def Decoder.readListBegin (d : Decoder) : (ThriftType × Nat) × Decoder :=
  let r := d.readByteRaw
  let elemType := ThriftType.ofCode (r.1.toNat % 16)
  let sized :=
    if r.1.toNat / 16 = 15 then
      let v := r.2.readVarint
      (toI32 v.1, v.2)
    else ((r.1.toNat / 16 : Nat), r.2)
  if sized.1 < 0 then ((elemType, 0), sized.2.setError .thriftDecode)
  else if sized.2.rest.length < sized.1.toNat then
    ((elemType, 0), sized.2.setError .thriftDecode)
  else ((elemType, sized.1.toNat), sized.2)

/-- `thrift_read_map_begin` (thrift_decode.c:327-365). -/
def Decoder.readMapBegin (d : Decoder) : (ThriftType × ThriftType × Nat) × Decoder :=
  let v := d.readVarint
  let count := toI32 v.1
  if count < 0 then ((.stop, .stop, 0), v.2.setError .thriftDecode)
  else if count = 0 then ((.stop, .stop, 0), v.2)
  else if v.2.rest.length < count.toNat then ((.stop, .stop, 0), v.2.setError .thriftDecode)
  else
    let r := v.2.readByteRaw
    ((.ofCode (r.1.toNat / 16), .ofCode (r.1.toNat % 16), count.toNat), r.2)

/-! ## Skipping -/

/-- `for (i = 0; i < count && dec->status == CARQUET_OK; i++) { .. }`. -/
def Decoder.repeatWhileOk (body : Decoder → Option Decoder) : Nat → Decoder → Option Decoder
  | 0, d => some d
  | n + 1, d =>
    if d.status = .ok then
      match body d with
      | none => none
      | some d => d.repeatWhileOk body n
    else some d

/-- `thrift_skip` (thrift_decode.c:371-451). -/
def Decoder.skip : Nat → ThriftType → Decoder → Option Decoder
  | 0, _, _ => none
  | fuel + 1, type, d =>
    if d.status ≠ .ok then some d
    else
      match type with
      | .stop => some (d.setError .thriftDecode)
      | .boolTrue | .boolFalse => some { d with boolPending := false }
      | .byte => some (d.readerSkip 1)
      | .i16 | .i32 | .i64 => some d.readVarint.2
      | .double => some (d.readerSkip 8)
      | .binary => some d.readBinary.2
      | .list | .set =>
        let l := d.readListBegin
        l.2.repeatWhileOk (Decoder.skip fuel l.1.1) l.1.2
      | .map =>
        let m := d.readMapBegin
        m.2.repeatWhileOk
          (fun d => (Decoder.skip fuel m.1.1 d).bind (Decoder.skip fuel m.1.2.1)) m.1.2.2
      | .struct =>
        let s := d.readStructBegin
        (s.readFields (fun _ type _ d => (Decoder.skip fuel type d).map fun d => ((), d))
          (s.rest.length + 1) ()).map fun r => r.2.readStructEnd
      | .uuid => some (d.readerSkip 16)
      | .unknown _ => some (d.setError .thriftInvalidType)

/-- `thrift_skip` with fuel for every level that the bytes at hand can open. -/
def Decoder.thriftSkip (d : Decoder) (type : ThriftType) : Option Decoder :=
  d.skip (d.rest.length + 1) type

end Carquet
