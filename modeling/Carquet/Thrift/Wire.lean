import Carquet.Encoding.DeltaSpec
import Carquet.Lib.Cut
import Carquet.Thrift.Encode

/-!
# Reading back what was written

Each read of the decoder on the bytes of the matching write, and on those bytes cut short. A
decoder is written out as `⟨rest, lastFieldId, boolPending, boolValue, status⟩`.
-/

namespace Carquet

open LittleEndian Leb128

variable {ids : List Int} {pending value : Bool}

/-! ## Types -/

theorem code_lt (type : ThriftType) (h : ∀ code, type ≠ .unknown code) : type.code < 14 := by
  cases type with
  | unknown code => exact absurd rfl (h code)
  | _ => decide

theorem ofCode_code {type : ThriftType} (h : ∀ code, type ≠ .unknown code) :
    ThriftType.ofCode type.code = type := by
  cases type with
  | unknown code => exact absurd rfl (h code)
  | _ => rfl

/-! ## Errors -/

@[simp] theorem setError_status (d : Decoder) (status : Status) :
    (d.setError status).status = if d.status = .ok then status else d.status := by
  unfold Decoder.setError
  split <;> rfl

@[simp] theorem setError_rest (d : Decoder) (status : Status) :
    (d.setError status).rest = d.rest := by
  unfold Decoder.setError
  split <;> rfl

/-! ## Integers -/

theorem length_varintBytes (v : Nat) : (varintBytes v).length ≤ 10 := length_writeUleb 9 v

theorem varintBytes_ne_nil (v : Nat) : varintBytes v ≠ [] := writeUleb_ne_nil 9 v

theorem varintBytes_of_lt {v : Nat} (h : v < 128) : varintBytes v = [UInt8.ofNat v] := by
  simp only [varintBytes, writeUleb, if_neg (Nat.not_le.mpr h)]

theorem readVarint_bytes {v : Nat} (h : v < 18446744073709551616) (rest : Bytes)
    (status : Status) :
    (⟨varintBytes v ++ rest, ids, pending, value, status⟩ : Decoder).readVarint =
      (v, ⟨rest, ids, pending, value, status⟩) := by
  have hread : readUleb 64 10 0 0 (varintBytes v ++ rest) = some (v, rest) :=
    readUleb_writeUleb (Nat.lt_of_lt_of_le h (by decide)) (Nat.lt_of_lt_of_le h (by decide)) rest
  simp only [Decoder.readVarint, hread]

/-- A varint cut short is an error. -/
theorem readVarint_cut {v : Nat} {pre : Bytes} (h : Cut pre (varintBytes v)) :
    (⟨pre, ids, pending, value, .ok⟩ : Decoder).readVarint =
      (0, ⟨[], ids, pending, value, .thriftTruncated⟩) := by
  have hlen : pre.length < 10 := Nat.lt_of_lt_of_le h.length_lt (length_varintBytes v)
  have hread : readUleb 64 10 0 0 pre = none := readUleb_prefix 0 0 h.1 h.2
  simp only [Decoder.readVarint, hread, if_pos hlen]
  rfl

theorem readZigzag_bytes {n : Int} (h1 : -9223372036854775808 ≤ n)
    (h2 : n < 9223372036854775808) (rest : Bytes) (status : Status) :
    (⟨zigzagBytes n ++ rest, ids, pending, value, status⟩ : Decoder).readZigzag =
      (n, ⟨rest, ids, pending, value, status⟩) := by
  simp only [Decoder.readZigzag, zigzagBytes, readVarint_bytes (zigzagEncode64_lt h1 h2),
    zigzagDecode64_encode]

theorem readI16_bytes {n : Int} (h1 : -32768 ≤ n) (h2 : n < 32768) (rest : Bytes)
    (status : Status) :
    (⟨zigzagBytes n ++ rest, ids, pending, value, status⟩ : Decoder).readI16 =
      (n, ⟨rest, ids, pending, value, status⟩) := by
  simp only [Decoder.readI16]
  rw [readZigzag_bytes (by omega) (by omega), toI16_of_range h1 h2]

theorem readI32_bytes {n : Int} (h1 : -2147483648 ≤ n) (h2 : n < 2147483648) (rest : Bytes)
    (status : Status) :
    (⟨zigzagBytes n ++ rest, ids, pending, value, status⟩ : Decoder).readI32 =
      (n, ⟨rest, ids, pending, value, status⟩) := by
  simp only [Decoder.readI32]
  rw [readZigzag_bytes (by omega) (by omega), toI32_of_range h1 h2]

/-! ## Bytes -/

theorem readBinary_bytes {data : Bytes} (h : data.length < 2147483648) (rest : Bytes)
    (status : Status) :
    (⟨binaryBytes data ++ rest, ids, pending, value, status⟩ : Decoder).readBinary =
      (some data, ⟨rest, ids, pending, value, status⟩) := by
  have hlen : toI32 (data.length : Nat) = data.length := toI32_of_range (by omega) (by omega)
  simp only [Decoder.readBinary, binaryBytes, List.append_assoc]
  rw [readVarint_bytes (by omega)]
  simp only [hlen, Int.toNat_natCast, List.length_append, List.take_left, List.drop_left]
  rw [if_neg (by omega), if_neg (by omega)]

/-- Binary data cut short is an error. -/
theorem readBinary_cut {data pre : Bytes} (h : data.length < 2147483648)
    (hcut : Cut pre (binaryBytes data)) :
    (⟨pre, ids, pending, value, .ok⟩ : Decoder).readBinary.2.status ≠ .ok := by
  have hlen : toI32 (data.length : Nat) = data.length := toI32_of_range (by omega) (by omega)
  have hzero : toI32 0 = 0 := by decide
  rcases hcut.append_cases with hvar | ⟨pre', rfl, hdata⟩
  · simp [Decoder.readBinary, readVarint_cut hvar, hzero]
  · have hlt := hdata.length_lt
    simp only [Decoder.readBinary]
    rw [readVarint_bytes (by omega)]
    simp only [hlen, Int.toNat_natCast]
    rw [if_neg (by omega), if_pos hlt]
    simp

/-! ## Fields -/

/-- What `readFieldBegin` leaves of the flags: a boolean is in the header. -/
def pendingAfter (type : ThriftType) (pending : Bool) : Bool :=
  match type with
  | .boolTrue | .boolFalse => true
  | _ => pending

def valueAfter (type : ThriftType) (value : Bool) : Bool :=
  match type with
  | .boolTrue => true
  | .boolFalse => false
  | _ => value

theorem ofCode_header {type : ThriftType} (h : ∀ code, type ≠ .unknown code) (k : Nat) :
    ThriftType.ofCode ((k * 16 + type.code % 16) % 16) = type := by
  have := code_lt type h
  rw [Nat.mul_add_mod', Nat.mod_mod, Nat.mod_eq_of_lt (by omega), ofCode_code h]

/-- **A field header reads back.** -/
theorem readFieldBegin_bytes {type : ThriftType} {lastId id : Int}
    (htype : ∀ code, type ≠ .unknown code) (hstop : type ≠ .stop)
    (h1 : -32768 ≤ id) (h2 : id < 32768) (rest : Bytes) :
    (⟨fieldHeaderBytes lastId type id ++ rest, lastId :: ids, pending, value, .ok⟩ :
        Decoder).readFieldBegin =
      (some (type, id),
        ⟨rest, id :: ids, pendingAfter type pending, valueAfter type value, .ok⟩) := by
  have hcode := code_lt type htype
  have hpos : 0 < type.code := by
    cases type with
    | stop => exact absurd rfl hstop
    | unknown code => exact absurd rfl (htype code)
    | _ => decide
  have hmod : type.code % 16 = type.code := Nat.mod_eq_of_lt (by omega)
  have hend (header : Nat) (hheader : header % 16 = type.code) (hne : header ≠ 0) (more : Bytes)
      (hfield : (if header / 16 = 0 then
          (⟨more, lastId :: ids, pending, value, .ok⟩ : Decoder).readI16
        else (toI16 (lastId + (header / 16 : Nat)), ⟨more, lastId :: ids, pending, value, .ok⟩)) =
          (id, ⟨rest, lastId :: ids, pending, value, .ok⟩)) (hlt : header < 256) :
      (⟨UInt8.ofNat header :: more, lastId :: ids, pending, value, .ok⟩ : Decoder).readFieldBegin =
        (some (type, id),
          ⟨rest, id :: ids, pendingAfter type pending, valueAfter type value, .ok⟩) := by
    have hbyte : (UInt8.ofNat header).toNat = header := by
      rw [UInt8.toNat_ofNat', Nat.mod_eq_of_lt hlt]
    have htypeOf : ThriftType.ofCode (header % 16) = type := by rw [hheader, ofCode_code htype]
    unfold Decoder.readFieldBegin
    simp only [ne_eq, not_true_eq_false, if_false, Decoder.readByteRaw, hbyte, hne, htypeOf,
      List.headD_cons, hfield, Decoder.setLastFieldId]
    cases type <;> rfl
  unfold fieldHeaderBytes
  simp only [hmod]
  split
  · rename_i hdelta
    have hnat : ((toI16 (id - lastId)).toNat : Int) = toI16 (id - lastId) :=
      Int.toNat_of_nonneg (by omega)
    have hdiv : ((toI16 (id - lastId)).toNat * 16 + type.code) / 16 = (toI16 (id - lastId)).toNat := by
      omega
    refine hend _ (by omega) (by omega) rest ?_ (by omega)
    rw [hdiv, if_neg (by omega), hnat]
    have hid : toI16 (lastId + toI16 (id - lastId)) = id := by
      unfold toI16
      omega
    rw [hid]
  · refine hend _ (by omega) (by omega) _ ?_ (by omega)
    rw [if_pos (by omega)]
    exact readI16_bytes h1 h2 rest .ok

/-- The loop over fields goes on to a header's field. -/
theorem readFields_bytes {σ : Type} {handle : Int → ThriftType → σ → Decoder → Option (σ × Decoder)}
    {type : ThriftType} {lastId id : Int} (htype : ∀ code, type ≠ .unknown code)
    (hstop : type ≠ .stop) (h1 : -32768 ≤ id) (h2 : id < 32768) (rest : Bytes) (turns : Nat)
    (s : σ) :
    (⟨fieldHeaderBytes lastId type id ++ rest, lastId :: ids, pending, value, .ok⟩ :
        Decoder).readFields handle (turns + 1) s =
      (handle id type s
        ⟨rest, id :: ids, pendingAfter type pending, valueAfter type value, .ok⟩).bind
        fun r => r.2.readFields handle turns r.1 := by
  simp only [Decoder.readFields, readFieldBegin_bytes htype hstop h1 h2]
  cases handle id type s
    ⟨rest, id :: ids, pendingAfter type pending, valueAfter type value, .ok⟩ <;> rfl

/-- A field header cut short is an error. -/
theorem readFieldBegin_cut {type : ThriftType} {lastId id : Int} {pre : Bytes}
    (htype : ∀ code, type ≠ .unknown code) (hstop : type ≠ .stop)
    (hcut : Cut pre (fieldHeaderBytes lastId type id)) :
    (⟨pre, lastId :: ids, pending, value, .ok⟩ : Decoder).readFieldBegin.2.status ≠ .ok := by
  have hcode := code_lt type htype
  have hpos : 0 < type.code := by
    cases type with
    | stop => exact absurd rfl hstop
    | unknown code => exact absurd rfl (htype code)
    | _ => decide
  have hnil : pre = [] →
      (⟨pre, lastId :: ids, pending, value, .ok⟩ : Decoder).readFieldBegin.2.status ≠ .ok := by
    rintro rfl
    simp [Decoder.readFieldBegin, Decoder.readByteRaw]
  have hmod : type.code % 16 = type.code := by omega
  unfold fieldHeaderBytes at hcut
  simp only [hmod] at hcut
  split at hcut
  · rcases hcut.cons_cases with h | ⟨pre', -, h⟩
    · exact hnil h
    · exact absurd h Cut.not_nil
  · rcases hcut.cons_cases with h | ⟨pre', rfl, h⟩
    · exact hnil h
    · have hbyte : (UInt8.ofNat type.code).toNat = type.code := by
        rw [UInt8.toNat_ofNat']
        omega
      have hdiv : type.code / 16 = 0 := by omega
      have hne : type.code ≠ 0 := by omega
      simp only [Decoder.readFieldBegin, ne_eq, not_true_eq_false, if_false, Decoder.readByteRaw,
        hbyte, hdiv, hne, if_true, hmod, ofCode_code htype, Decoder.readI16, Decoder.readZigzag,
        readVarint_cut h, Decoder.setLastFieldId]
      cases type <;> simp

/-! ## Containers -/

theorem readListBegin_bytes {elemType : ThriftType} {count : Nat}
    (htype : ∀ code, elemType ≠ .unknown code) (hcount : count < 2147483648) {rest : Bytes}
    (hrest : count ≤ rest.length) :
    (⟨listBeginBytes elemType count ++ rest, ids, pending, value, .ok⟩ : Decoder).readListBegin =
      ((elemType, count), ⟨rest, ids, pending, value, .ok⟩) := by
  have hcode := code_lt elemType htype
  have hint : toI32 (count : Nat) = count := toI32_of_range (by omega) (by omega)
  unfold listBeginBytes
  split
  · have hbyte : (UInt8.ofNat (count * 16 + elemType.code % 16)).toNat =
        count * 16 + elemType.code % 16 := by
      rw [UInt8.toNat_ofNat']
      omega
    have hdiv : (count * 16 + elemType.code % 16) / 16 = count := by omega
    simp only [Decoder.readListBegin, List.cons_append, List.nil_append, Decoder.readByteRaw, hbyte,
      ofCode_header htype, hdiv]
    rw [if_neg (show count ≠ 15 by omega)]
    simp only [Int.toNat_natCast]
    rw [if_neg (by omega), if_neg (by omega)]
  · have hbyte : (UInt8.ofNat (15 * 16 + elemType.code % 16)).toNat =
        15 * 16 + elemType.code % 16 := by
      rw [UInt8.toNat_ofNat']
      omega
    have hdiv : (15 * 16 + elemType.code % 16) / 16 = 15 := by omega
    simp only [Decoder.readListBegin, List.cons_append, Decoder.readByteRaw, hbyte,
      ofCode_header htype, hdiv, if_true]
    rw [readVarint_bytes (by omega)]
    simp only [hint, Int.toNat_natCast]
    rw [if_neg (by omega), if_neg (by omega)]

/-- A list that is cut short in its header, or so much that its elements cannot fit, is an error. -/
theorem readListBegin_cut {elemType : ThriftType} {count : Nat} {pre : Bytes}
    (htype : ∀ code, elemType ≠ .unknown code) (hcount : count < 2147483648)
    (hpre : Cut pre (listBeginBytes elemType count) ∨
      ∃ pre', pre = listBeginBytes elemType count ++ pre' ∧ pre'.length < count) :
    ∃ d t, (⟨pre, ids, pending, value, .ok⟩ : Decoder).readListBegin = ((t, 0), d) ∧
      d.status ≠ .ok := by
  have hcode := code_lt elemType htype
  have hint : toI32 (count : Nat) = count := toI32_of_range (by omega) (by omega)
  have hzero : toI32 0 = 0 := by decide
  have hnil : ∃ d t, (⟨[], ids, pending, value, .ok⟩ : Decoder).readListBegin = ((t, 0), d) ∧
      d.status ≠ .ok :=
    ⟨⟨[], ids, pending, value, .thriftTruncated⟩, .stop,
      by simp [Decoder.readListBegin, Decoder.readByteRaw, Decoder.setError, ThriftType.ofCode],
      by simp⟩
  unfold listBeginBytes at hpre
  split at hpre
  · have hbyte : (UInt8.ofNat (count * 16 + elemType.code % 16)).toNat =
        count * 16 + elemType.code % 16 := by
      rw [UInt8.toNat_ofNat']
      omega
    have hdiv : (count * 16 + elemType.code % 16) / 16 = count := by omega
    rcases hpre with hcut | ⟨pre', rfl, hlt⟩
    · rcases hcut.cons_cases with rfl | ⟨pre', -, h⟩
      · exact hnil
      · exact absurd h Cut.not_nil
    · simp only [Decoder.readListBegin, List.cons_append, List.nil_append, Decoder.readByteRaw,
        hbyte, ofCode_header htype, hdiv]
      rw [if_neg (show count ≠ 15 by omega)]
      simp only [Int.toNat_natCast]
      rw [if_neg (by omega), if_pos hlt]
      exact ⟨_, _, rfl, by simp⟩
  · have hbyte : (UInt8.ofNat (15 * 16 + elemType.code % 16)).toNat =
        15 * 16 + elemType.code % 16 := by
      rw [UInt8.toNat_ofNat']
      omega
    have hdiv : (15 * 16 + elemType.code % 16) / 16 = 15 := by omega
    rcases hpre with hcut | ⟨pre', rfl, hlt⟩
    · rcases hcut.cons_cases with rfl | ⟨pre', rfl, h⟩
      · exact hnil
      · simp only [Decoder.readListBegin, Decoder.readByteRaw, hbyte, hdiv, if_true,
          readVarint_cut h]
        exact ⟨⟨[], ids, pending, value, .thriftTruncated⟩, _, by simp [toI32]; rfl, by simp⟩
    · simp only [Decoder.readListBegin, List.cons_append, Decoder.readByteRaw, hbyte,
        ofCode_header htype, hdiv, if_true]
      rw [readVarint_bytes (by omega)]
      simp only [hint, Int.toNat_natCast]
      rw [if_neg (by omega), if_pos hlt]
      exact ⟨_, _, rfl, by simp⟩

theorem readMapBegin_bytes {keyType valueType : ThriftType} {count : Nat}
    (hkey : ∀ code, keyType ≠ .unknown code) (hvalue : ∀ code, valueType ≠ .unknown code)
    (hcount : count < 2147483648) {rest : Bytes} (hrest : count ≤ rest.length + 1) :
    ∃ k v, (⟨mapBeginBytes keyType valueType count ++ rest, ids, pending, value, .ok⟩ :
        Decoder).readMapBegin = ((k, v, count), ⟨rest, ids, pending, value, .ok⟩) ∧
      (count ≠ 0 → k = keyType ∧ v = valueType) := by
  have hk := code_lt keyType hkey
  have hv := code_lt valueType hvalue
  have hint : toI32 (count : Nat) = count := toI32_of_range (by omega) (by omega)
  unfold mapBeginBytes
  split
  · rename_i hzero
    subst hzero
    have hbytes : ([0] : Bytes) = varintBytes 0 := by decide
    refine ⟨.stop, .stop, ?_, fun h => absurd rfl h⟩
    simp only [Decoder.readMapBegin, hbytes]
    rw [readVarint_bytes (by omega)]
    simp [toI32]
  · rename_i hne
    have hbyte : (UInt8.ofNat (keyType.code % 16 * 16 + valueType.code % 16)).toNat =
        keyType.code * 16 + valueType.code := by
      rw [UInt8.toNat_ofNat']
      omega
    have hdiv : (keyType.code * 16 + valueType.code) / 16 = keyType.code := by omega
    have hmod : (keyType.code * 16 + valueType.code) % 16 = valueType.code := by omega
    refine ⟨keyType, valueType, ?_, fun _ => ⟨rfl, rfl⟩⟩
    simp only [Decoder.readMapBegin, List.append_assoc, List.cons_append, List.nil_append]
    rw [readVarint_bytes (by omega)]
    simp only [hint, Int.toNat_natCast, List.length_cons, Decoder.readByteRaw, hbyte, hdiv, hmod,
      ofCode_code hkey, ofCode_code hvalue]
    rw [if_neg (by omega), if_neg (by omega), if_neg (by omega)]

/-- A map is an error where fewer bytes are left than it has entries. -/
theorem readMapBegin_short {keyType valueType : ThriftType} {count : Nat} {pre : Bytes}
    (hcount : count < 2147483648) (hpre : pre.length + 1 < count) :
    ∃ d t, (⟨mapBeginBytes keyType valueType count ++ pre, ids, pending, value, .ok⟩ :
        Decoder).readMapBegin = ((t, t, 0), d) ∧ d.status ≠ .ok := by
  have hint : toI32 (count : Nat) = count := toI32_of_range (by omega) (by omega)
  unfold mapBeginBytes
  rw [if_neg (by omega)]
  simp only [Decoder.readMapBegin, List.append_assoc, List.cons_append, List.nil_append]
  rw [readVarint_bytes (by omega)]
  simp only [hint, Int.toNat_natCast, List.length_cons]
  rw [if_neg (by omega), if_neg (by omega), if_pos (by omega)]
  exact ⟨_, _, rfl, by simp⟩

/-- A map that is cut short in its header is an error. -/
theorem readMapBegin_cut {keyType valueType : ThriftType} {count : Nat} {pre : Bytes}
    (hcount : count < 2147483648) (hcut : Cut pre (mapBeginBytes keyType valueType count)) :
    ∃ d t, (⟨pre, ids, pending, value, .ok⟩ : Decoder).readMapBegin = ((t, t, 0), d) ∧
      d.status ≠ .ok := by
  have hint : toI32 (count : Nat) = count := toI32_of_range (by omega) (by omega)
  have hvar {v : Nat} (h : Cut pre (varintBytes v)) :
      ∃ d t, (⟨pre, ids, pending, value, .ok⟩ : Decoder).readMapBegin = ((t, t, 0), d) ∧
        d.status ≠ .ok := by
    simp only [Decoder.readMapBegin, readVarint_cut h]
    exact ⟨⟨[], ids, pending, value, .thriftTruncated⟩, .stop, by simp [toI32], by simp⟩
  unfold mapBeginBytes at hcut
  split at hcut
  · exact hvar (v := 0) hcut
  · rcases hcut.append_cases with h | ⟨pre', rfl, h⟩
    · exact hvar h
    · rcases h.cons_cases with rfl | ⟨pre'', -, h⟩
      · simp only [Decoder.readMapBegin]
        rw [readVarint_bytes (by omega)]
        simp only [hint, Int.toNat_natCast, List.length_nil]
        rw [if_neg (by omega), if_neg (by omega), if_pos (by omega)]
        exact ⟨_, _, rfl, by simp⟩
      · exact absurd h Cut.not_nil

end Carquet
