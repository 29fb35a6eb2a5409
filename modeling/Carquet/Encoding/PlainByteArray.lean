import Carquet.Encoding.Plain

/-!
# PLAIN BYTE_ARRAY over the bytes of a page (`src/encoding/plain.c`)

`carquet_decode_plain_byte_array` with its cursor, which reports views into the input and the
bytes it consumed, and `carquet_encode_plain_byte_array` over the structs it is handed. The
decoder takes exactly the inputs that begin with the asked number of entries, where an entry is a
4-byte length and its bytes and the length is read as an `int32_t`: an entry of 2 GiB or more is
refused although all its bytes are there.
-/

namespace Carquet

open LittleEndian

/-- An input buffer: no object has more than `PTRDIFF_MAX` bytes. -/
structure InputBuffer where
  bytes : Bytes
  size_lt : bytes.length < 9223372036854775808

/-- A sum of two `size_t`. -/
def addSize (a b : Nat) : Nat := (a + b) % 18446744073709551616

theorem addSize_of_lt {a b : Nat} (h : a + b < 18446744073709551616) : addSize a b = a + b :=
  Nat.mod_eq_of_lt h

/-! ## The decoder -/

/-- The loop of `carquet_decode_plain_byte_array` (plain.c:181-197) from position `pos`: the
`(data, length)` of every output, `data` as an offset into the input, and the last position. -/
def decodePlainByteArrayLoop (input : Bytes) : Nat → Nat → Option (List (Nat × Int) × Nat)
  | 0, pos => some ([], pos)
  | count + 1, pos =>
    if addSize pos 4 > input.length then none
    else
      let len := toI32 (leNat ((input.drop pos).take 4))
      let pos := addSize pos 4
      if len < 0 ∨ addSize pos len.toNat > input.length then none
      else
        match decodePlainByteArrayLoop input count (addSize pos len.toNat) with
        | none => none
        | some (output, last) => some ((pos, len) :: output, last)

/-- `carquet_decode_plain_byte_array` (plain.c:169-200). -/
def decodePlainByteArrayViews (input : InputBuffer) (count : Int) :
    Option (List (Nat × Int) × Nat) :=
  if count < 0 then none else decodePlainByteArrayLoop input.bytes count.toNat 0

/-- The bytes a `carquet_byte_array_t` of the output points to. -/
def viewedBytes (input : Bytes) (view : Nat × Int) : Value :=
  (input.drop view.1).take view.2.toNat

/-- The decoded values and the number of bytes consumed. -/
def decodedByteArrays (input : InputBuffer) (count : Int) : Option (List Value × Nat) :=
  (decodePlainByteArrayViews input count).map fun (output, consumed) =>
    (output.map (viewedBytes input.bytes), consumed)

/-! ## The encoder -/

/-- A `carquet_byte_array_t` (types.h:234-237) that stands for a byte string: `data` is what its
pointer points to, `none` for NULL. -/
structure ByteArrayRef where
  data : Option Bytes
  length : Int
  valid : length = 0 ∨ ∃ bytes, data = some bytes ∧ (bytes.length : Int) = length
  length_lt : length < 2147483648

/-- The byte string it stands for. -/
def ByteArrayRef.contents (array : ByteArrayRef) : Value :=
  (array.data.getD []).take array.length.toNat

/-- `carquet_encode_plain_byte_array` (plain.c:354-374), the appends going through. -/
def encodePlainByteArrayRefs : List ByteArrayRef → Bytes → Bytes
  | [], output => output
  | array :: input, output =>
    let output := output ++ leBytes 4 (toU32 array.length)
    match array.data with
    | some data =>
      if array.length > 0 then
        encodePlainByteArrayRefs input (output ++ data.take array.length.toNat)
      else encodePlainByteArrayRefs input output
    | none => encodePlainByteArrayRefs input output

theorem ByteArrayRef.length_contents (array : ByteArrayRef) :
    (array.contents.length : Int) = array.length := by
  rcases array.valid with h0 | ⟨bytes, hdata, hlen⟩
  · simp [contents, h0]
  · simp [contents, hdata, ← hlen]

theorem encodePlainByteArrayRefs_eq (input : List ByteArrayRef) (output : Bytes) :
    encodePlainByteArrayRefs input output =
      output ++ encodePlainByteArray (input.map ByteArrayRef.contents) := by
  induction input generalizing output with
  | nil => simp [encodePlainByteArrayRefs, encodePlainByteArray]
  | cons array input ih =>
    have hlen := array.length_contents
    have hlt := array.length_lt
    have hu32 : toU32 array.length = array.contents.length := by
      unfold toU32
      omega
    have hcons : encodePlainByteArray ((array :: input).map ByteArrayRef.contents) =
        leBytes 4 array.contents.length ++ (array.contents ++
          encodePlainByteArray (input.map ByteArrayRef.contents)) := by
      simp [encodePlainByteArray]
    rw [encodePlainByteArrayRefs, hcons, hu32]
    cases hdata : array.data with
    | none =>
      have hnil : array.contents = [] := by simp [ByteArrayRef.contents, hdata]
      rw [ih, hnil]
      simp
    | some data =>
      have hcontents : array.contents = data.take array.length.toNat := by
        simp [ByteArrayRef.contents, hdata]
      by_cases hpos : array.length > 0
      · simp only [if_pos hpos]
        rw [ih, ← hcontents]
        simp
      · have hnil : array.contents = [] := List.eq_nil_of_length_eq_zero (by omega)
        simp only [if_neg hpos]
        rw [ih, hnil]
        simp

/-! ## What the decoder accepts -/

theorem encodePlainByteArray_cons (v : Value) (vs : List Value) :
    encodePlainByteArray (v :: vs) = leBytes 4 v.length ++ v ++ encodePlainByteArray vs := by
  simp [encodePlainByteArray]

/-- An entry at `pos`, read off its four length bytes. -/
theorem take_drop_entry {input : Bytes} {pos : Nat} (h : pos + 4 ≤ input.length) :
    (input.drop pos).take 4 = leBytes 4 (leNat ((input.drop pos).take 4)) := by
  have hlen : ((input.drop pos).take 4).length = 4 := by
    rw [List.length_take, List.length_drop]
    omega
  have h := leBytes_leNat ((input.drop pos).take 4)
  rw [hlen] at h
  exact h.symm

theorem leNat_take_drop_lt (input : Bytes) (pos : Nat) :
    leNat ((input.drop pos).take 4) < 4294967296 := by
  have hlt := leNat_lt ((input.drop pos).take 4)
  have hle : ((input.drop pos).take 4).length ≤ 4 := List.length_take_le _ _
  calc leNat ((input.drop pos).take 4) < 256 ^ ((input.drop pos).take 4).length := hlt
    _ ≤ 256 ^ 4 := Nat.pow_le_pow_right (by decide) hle
    _ = 4294967296 := by decide

/-- What is accepted from `pos` on is the encoding of the values viewed. -/
theorem decodePlainByteArrayLoop_sound {input : Bytes} (hsize : input.length < 9223372036854775808)
    {count pos last : Nat} {output : List (Nat × Int)} (hpos : pos ≤ input.length)
    (h : decodePlainByteArrayLoop input count pos = some (output, last)) :
    output.length = count ∧ last ≤ input.length ∧
      (∀ v ∈ output.map (viewedBytes input), v.length < 2147483648) ∧
      last = pos + (encodePlainByteArray (output.map (viewedBytes input))).length ∧
      ∃ rest, input.drop pos =
        encodePlainByteArray (output.map (viewedBytes input)) ++ rest := by
  induction count generalizing pos output with
  | zero =>
    simp only [decodePlainByteArrayLoop, Option.some.injEq, Prod.mk.injEq] at h
    obtain ⟨rfl, rfl⟩ := h
    exact ⟨rfl, hpos, by simp, rfl, input.drop pos, rfl⟩
  | succ count ih =>
    rw [decodePlainByteArrayLoop] at h
    split at h
    · cases h
    next h4 =>
      rw [addSize_of_lt (by omega)] at h4 h
      generalize hlen : leNat ((input.drop pos).take 4) = len at h
      simp only at h
      have hlenLt : len < 4294967296 := hlen ▸ leNat_take_drop_lt input pos
      split at h
      · cases h
      next hin =>
        rw [not_or] at hin
        obtain ⟨hneg, hin⟩ := hin
        have hsmall : len < 2147483648 := by
          unfold toI32 at hneg
          omega
        have hval : toI32 (len : Int) = len := toI32_of_range (by omega) (by omega)
        rw [hval, Int.toNat_natCast, addSize_of_lt (by omega)] at hin h
        split at h
        · cases h
        next rest' last' hrest =>
          simp only [Option.some.injEq, Prod.mk.injEq] at h
          obtain ⟨rfl, rfl⟩ := h
          obtain ⟨hc, hlast, hvs, hsum, rest, hrestEq⟩ := ih (by omega) hrest
          have hview : viewedBytes input (pos + 4, (len : Int)) = (input.drop (pos + 4)).take len :=
            rfl
          have hviewLen : ((input.drop (pos + 4)).take len).length = len := by
            rw [List.length_take, List.length_drop]
            omega
          have hentry := @take_drop_entry input pos (by omega)
          rw [hlen] at hentry
          refine ⟨by rw [List.length_cons, hc], hlast, ?_, ?_, rest, ?_⟩
          · intro v hv
            rw [List.map_cons, List.mem_cons] at hv
            rcases hv with rfl | hv
            · rw [hview, hviewLen]
              exact hsmall
            · exact hvs v hv
          · rw [List.map_cons, encodePlainByteArray_cons, hview, List.length_append,
              List.length_append, length_leBytes, hviewLen, hsum]
            omega
          · have hdrop4 : input.drop (pos + 4) = (input.drop pos).drop 4 := by
              rw [List.drop_drop]
            have hdropLen : input.drop (pos + 4 + len) = (input.drop (pos + 4)).drop len := by
              rw [List.drop_drop]
            rw [List.map_cons, encodePlainByteArray_cons, hview, hviewLen, ← hentry,
              List.append_assoc, List.append_assoc, ← hrestEq, hdropLen, List.take_append_drop,
              hdrop4, List.take_append_drop]

/-- Entries are accepted wherever they stand, and their contents are what is viewed. -/
theorem decodePlainByteArrayLoop_complete {input : Bytes}
    (hsize : input.length < 9223372036854775808) {values : List Value} {pos : Nat} {rest : Bytes}
    (hv : ∀ v ∈ values, v.length < 2147483648) (hpos : pos ≤ input.length)
    (h : input.drop pos = encodePlainByteArray values ++ rest) :
    ∃ output, decodePlainByteArrayLoop input values.length pos =
        some (output, pos + (encodePlainByteArray values).length) ∧
      output.map (viewedBytes input) = values := by
  induction values generalizing pos with
  | nil => exact ⟨[], rfl, rfl⟩
  | cons v vs ih =>
    have hlt : v.length < 2147483648 := hv v (by simp)
    rw [encodePlainByteArray_cons, List.append_assoc, List.append_assoc] at h
    have htotal := congrArg List.length h
    simp only [List.length_drop, List.length_append, length_leBytes] at htotal
    have htake : (input.drop pos).take 4 = leBytes 4 v.length := by
      rw [h, List.take_append_of_le_length (by simp), List.take_of_length_le (by simp)]
    have hread : leNat ((input.drop pos).take 4) = v.length := by
      rw [htake]
      exact leNat_leBytes_of_lt (by omega)
    have hval : toI32 (v.length : Int) = v.length := toI32_of_range (by omega) (by omega)
    have hdrop4 : input.drop (pos + 4) = v ++ (encodePlainByteArray vs ++ rest) := by
      rw [← List.drop_drop, h, List.drop_append_of_le_length (by simp),
        List.drop_of_length_le (by simp), List.nil_append]
    have hdrop : input.drop (pos + 4 + v.length) = encodePlainByteArray vs ++ rest := by
      rw [← List.drop_drop, hdrop4, List.drop_left]
    obtain ⟨output, hrun, hout⟩ :=
      ih (fun u hu => hv u (List.mem_cons_of_mem _ hu)) (by omega) hdrop
    refine ⟨(pos + 4, (v.length : Int)) :: output, ?_, ?_⟩
    · rw [List.length_cons, decodePlainByteArrayLoop, addSize_of_lt (by omega),
        if_neg (by omega), hread]
      simp only [hval, Int.toNat_natCast]
      rw [addSize_of_lt (by omega), if_neg (by omega), hrun, encodePlainByteArray_cons]
      simp only [List.length_append, length_leBytes, Option.some.injEq, Prod.mk.injEq, true_and]
      omega
    · rw [List.map_cons, hout, viewedBytes, hdrop4, Int.toNat_natCast, List.take_left]

/-- The page reader's decoder, which drops what it has read, returns the values viewed. -/
theorem decodePlainByteArray_eq_loop {input : Bytes}
    (hsize : input.length < 9223372036854775808) {count pos : Nat} (hpos : pos ≤ input.length) :
    decodePlainByteArray count (input.drop pos) =
      (decodePlainByteArrayLoop input count pos).map
        fun result => result.1.map (viewedBytes input) := by
  induction count generalizing pos with
  | zero => rfl
  | succ count ih =>
    rw [decodePlainByteArray, decodePlainByteArrayLoop, List.length_drop]
    by_cases h4 : pos + 4 ≤ input.length
    · rw [if_neg (show ¬ input.length - pos < 4 by omega), addSize_of_lt (by omega),
        if_neg (show ¬ pos + 4 > input.length by omega)]
      have hlt : toI32 (leNat ((input.drop pos).take 4)) < 2147483648 := by
        unfold toI32
        omega
      generalize toI32 (leNat ((input.drop pos).take 4)) = len at hlt ⊢
      simp only [List.drop_drop, List.length_drop]
      by_cases hbad : len < 0 ∨ pos + 4 + len.toNat > input.length
      · rw [addSize_of_lt (by omega), if_pos hbad, if_pos (by omega)]
        rfl
      · rw [addSize_of_lt (by omega), if_neg hbad, if_neg (by omega), ih (by omega)]
        cases decodePlainByteArrayLoop input count (pos + 4 + len.toNat) <;> rfl
    · rw [if_pos (show input.length - pos < 4 by omega), addSize_of_lt (by omega),
        if_pos (show pos + 4 > input.length by omega)]
      rfl

/-! ## Main results -/

/-- **PLAIN BYTE_ARRAY decoding accepts the encodings.** The decoder returns some values and a
number of consumed bytes exactly when these are the entries the input begins with, as many as
asked for and each shorter than 2 GiB, and their encoded size; and from what the encoder appended
to an empty buffer it returns the byte strings it was given. -/
theorem decodedByteArrays_iff :
    (∀ (input : InputBuffer) (count : Int) (values : List Value) (consumed : Nat),
      decodedByteArrays input count = some (values, consumed) ↔
        (values.length : Int) = count ∧ (∀ v ∈ values, v.length < 2147483648) ∧
        consumed = (encodePlainByteArray values).length ∧
        ∃ rest, input.bytes = encodePlainByteArray values ++ rest) ∧
    ∀ (arrays : List ByteArrayRef) (input : InputBuffer),
      input.bytes = encodePlainByteArrayRefs arrays [] →
      decodedByteArrays input arrays.length =
        some (arrays.map ByteArrayRef.contents, input.bytes.length) := by
  have hiff : ∀ (input : InputBuffer) (count : Int) (values : List Value) (consumed : Nat),
      decodedByteArrays input count = some (values, consumed) ↔
        (values.length : Int) = count ∧ (∀ v ∈ values, v.length < 2147483648) ∧
        consumed = (encodePlainByteArray values).length ∧
        ∃ rest, input.bytes = encodePlainByteArray values ++ rest := by
    intro input count values consumed
    rw [decodedByteArrays, decodePlainByteArrayViews]
    constructor
    · intro h
      obtain ⟨⟨output, last⟩, hrun, heq⟩ := Option.map_eq_some_iff.1 h
      simp only [Prod.mk.injEq] at heq
      obtain ⟨rfl, rfl⟩ := heq
      split at hrun
      · cases hrun
      next hcount =>
        obtain ⟨hc, -, hvs, hsum, rest, hrest⟩ :=
          decodePlainByteArrayLoop_sound input.size_lt (Nat.zero_le _) hrun
        refine ⟨?_, hvs, by rw [hsum, Nat.zero_add], rest, by rw [← hrest, List.drop_zero]⟩
        rw [List.length_map, hc]
        omega
    · rintro ⟨hcount, hvs, rfl, rest, hrest⟩
      obtain ⟨output, hrun, hout⟩ := decodePlainByteArrayLoop_complete input.size_lt hvs
        (Nat.zero_le _) (show input.bytes.drop 0 = _ from hrest)
      rw [if_neg (by omega), ← hcount, Int.toNat_natCast, hrun, Option.map_some]
      simp only [hout, Nat.zero_add]
  refine ⟨hiff, fun arrays input hinput => ?_⟩
  rw [encodePlainByteArrayRefs_eq, List.nil_append] at hinput
  refine (hiff input arrays.length _ _).2 ⟨by simp, ?_, by rw [hinput], [], by simp [hinput]⟩
  intro v hv
  obtain ⟨array, -, rfl⟩ := List.mem_map.1 hv
  have hlen := array.length_contents
  have hlt := array.length_lt
  omega

/-- The byte string `"ab"` and an empty one behind a NULL pointer. -/
def sampleArrays : List ByteArrayRef :=
  [⟨some [97, 98], 2, .inr ⟨[97, 98], rfl, rfl⟩, by decide⟩, ⟨none, 0, .inl rfl, by decide⟩]

theorem decodedByteArrays_iff_sample :
    decodedByteArrays ⟨[2, 0, 0, 0, 97, 98, 0, 0, 0, 0], by decide⟩ 2 =
      some (sampleArrays.map ByteArrayRef.contents, 10) :=
  decodedByteArrays_iff.2 sampleArrays ⟨[2, 0, 0, 0, 97, 98, 0, 0, 0, 0], by decide⟩ (by decide)

/-- An entry whose length has bit 31 set is refused, with all its bytes there. -/
theorem decodePlainByteArrayLoop_long {v : Value} (h1 : 2147483648 ≤ v.length)
    (h2 : v.length < 4294967296) (rest : Bytes) (count : Nat) :
    decodePlainByteArrayLoop (encodePlainByteArray [v] ++ rest) (count + 1) 0 = none := by
  have hcons : encodePlainByteArray [v] ++ rest = leBytes 4 v.length ++ (v ++ rest) := by
    simp [encodePlainByteArray]
  have htake : ((encodePlainByteArray [v] ++ rest).drop 0).take 4 = leBytes 4 v.length := by
    rw [List.drop_zero, hcons, List.take_append_of_le_length (by simp),
      List.take_of_length_le (by simp)]
  have hread : leNat (leBytes 4 v.length) = v.length := leNat_leBytes_of_lt (by omega)
  have hneg : toI32 (v.length : Int) < 0 := by
    unfold toI32
    omega
  rw [decodePlainByteArrayLoop, htake, hread]
  split
  · rfl
  · exact if_pos (.inl hneg)

/-- An entry of 2 GiB exists as an object. -/
theorem exists_longValue : ∃ v : Value, v.length = 2147483648 :=
  ⟨List.replicate 2147483648 0, List.length_replicate⟩

/-- The decoder does not take every input that begins with the entries asked for, if a length is
any 32-bit number: not one entry of 2 GiB. -/
theorem longEntry_refused :
    ¬ ∀ (input : InputBuffer) (count : Int), (decodedByteArrays input count).isSome ↔
      ∃ values : List Value, (values.length : Int) = count ∧
        (∀ v ∈ values, v.length < 4294967296) ∧
        ∃ rest, input.bytes = encodePlainByteArray values ++ rest := by
  intro h
  obtain ⟨v, hv⟩ := exists_longValue
  have hnone := decodePlainByteArrayLoop_long (v := v) (by omega) (by omega) [] 0
  have hsize : (encodePlainByteArray [v] ++ []).length < 9223372036854775808 := by
    simp [encodePlainByteArray, hv]
  have hsome := (h ⟨encodePlainByteArray [v] ++ [], hsize⟩ 1).2
    ⟨[v], by simp, by simp [hv], [], rfl⟩
  rw [decodedByteArrays, decodePlainByteArrayViews, if_neg (by decide),
    show (1 : Int).toNat = 0 + 1 from rfl, hnone] at hsome
  cases hsome

end Carquet
