import Carquet.Compression.SnappyCopy
import Carquet.Lib.Leb128

/-!
# The Snappy format

A stream is the length of the output and a sequence of elements: literals, and copies of what is out
already. `Encoded` gives the bytes of an element in every form of the format.

`decodeElement_encoded` and `decodeElement_shape`: the decoder (snappy.c:492-585) takes an element
off the input just if it has one of these forms, with one exception: the length of a literal is counted in
32 bits, so the five bytes of a literal of `2^32` bytes pass for an element that adds nothing.
-/

namespace Carquet

open LittleEndian BackReference Leb128

/-- A literal, or a copy of `length` bytes from `offset` bytes ago. -/
inductive SnappyElement where
  | literal (bytes : Bytes)
  | copy (offset length : Nat)
  deriving DecidableEq

namespace SnappyElement

/-- How many bytes it adds to the output. -/
def size : SnappyElement → Nat
  | literal bytes => bytes.length
  | copy _ length => length

/-- What it makes of the output. -/
def apply : SnappyElement → Bytes → Bytes
  | literal bytes, out => out ++ bytes
  | copy offset length, out => repeatBack offset length out

/-- A copy reaches back into the `op` bytes that are out. -/
def Reaches (op : Nat) : SnappyElement → Prop
  | literal _ => True
  | copy offset _ => 0 < offset ∧ offset ≤ op

/-- Whether the decoder stores the element without reading ahead. -/
def Safe (opEnd op : Nat) : SnappyElement → Prop
  | literal _ => True
  | copy offset length => ¬ ReadsAhead offset length op opEnd

/-- The bytes of an element. -/
inductive Encoded : SnappyElement → Bytes → Prop
  | short {bytes : Bytes} (h0 : bytes ≠ []) (h : bytes.length ≤ 60) :
      Encoded (literal bytes) (UInt8.ofNat ((bytes.length - 1) * 4) :: bytes)
  | long {bytes : Bytes} {count : Nat} (h1 : 1 ≤ count) (h4 : count ≤ 4) (h0 : bytes ≠ [])
      (h : bytes.length ≤ 256 ^ count) :
      Encoded (literal bytes)
        (UInt8.ofNat ((59 + count) * 4) :: (leBytes count (bytes.length - 1) ++ bytes))
  | copy1 {offset length : Nat} (h4 : 4 ≤ length) (h11 : length ≤ 11) (h : offset < 2048) :
      Encoded (copy offset length)
        [UInt8.ofNat ((length - 4) * 4 + 1 + offset / 256 * 32), UInt8.ofNat (offset % 256)]
  | copy2 {offset length : Nat} (h1 : 1 ≤ length) (h64 : length ≤ 64) (h : offset < 65536) :
      Encoded (copy offset length)
        [UInt8.ofNat ((length - 1) * 4 + 2), UInt8.ofNat (offset % 256), UInt8.ofNat (offset / 256)]
  | copy4 {offset length : Nat} (h1 : 1 ≤ length) (h64 : length ≤ 64) (h : offset < 4294967296) :
      Encoded (copy offset length) (UInt8.ofNat ((length - 1) * 4 + 3) :: leBytes 4 offset)

/-- The tag and the length of a literal of `2^32` bytes. -/
def wrappedHeader : Bytes := [252, 255, 255, 255, 255]

/-- An element as the decoder takes it: the header of a literal of `2^32` bytes is one of none. -/
def Taken (e : SnappyElement) (piece : Bytes) : Prop :=
  e.Encoded piece ∨ e = literal [] ∧ piece = wrappedHeader

theorem length_apply {e : SnappyElement} {out : Bytes} (h : e.Reaches out.length) :
    (e.apply out).length = out.length + e.size := by
  cases e with
  | literal bytes => exact List.length_append
  | copy offset length => exact length_repeatBack h.1 length h.2

theorem Encoded.size_pos {e : SnappyElement} {piece : Bytes} (h : e.Encoded piece) : 0 < e.size := by
  cases h with
  | short h0 | long _ _ h0 => exact List.length_pos_of_ne_nil h0
  | copy1 h4 => exact Nat.lt_of_lt_of_le (by decide) h4
  | copy2 h1 | copy4 h1 => exact h1

end SnappyElement

/-- The elements lead from one output to the other. -/
def Decodes : Bytes → List SnappyElement → Bytes → Prop
  | out, [], out' => out = out'
  | out, e :: es, out' => e.Reaches out.length ∧ Decodes (e.apply out) es out'

/-- No element of the stream reads ahead; the output is `opEnd` bytes long. -/
def StreamSafe (opEnd : Nat) : Nat → List SnappyElement → Prop
  | _, [] => True
  | op, e :: es => e.Safe opEnd op ∧ StreamSafe opEnd (op + e.size) es

/-! ## The length -/

/-- The length of the output in front of a stream. -/
structure Preamble (bytes : Bytes) (length : Nat) : Prop where
  numeral : Numeral bytes length
  bytes_le : bytes.length ≤ 5
  length_lt : length < 4294967296

theorem snappyReadVarint_numeral {n shift result value : Nat} {bytes : Bytes}
    (h : Numeral bytes value) (hlen : bytes.length ≤ n + 1) (hvalue : value < 2 ^ (7 * n + 4))
    (rest : Bytes) :
    snappyReadVarint n shift result (bytes ++ rest) = some (result + value * 2 ^ shift, rest) := by
  induction h generalizing n shift result with
  | @last b hb =>
    cases n with
    | zero =>
      have h16 : b.toNat < 16 := hvalue
      rw [List.singleton_append, snappyReadVarint, if_pos h16, Nat.mod_eq_of_lt hb]
    | succ n => rw [List.singleton_append, snappyReadVarint, if_pos hb, Nat.mod_eq_of_lt hb]
  | @more b bs v hb hv ih =>
    have hpos := List.length_pos_of_ne_nil hv.ne_nil
    rw [List.length_cons] at hlen
    obtain ⟨n, rfl⟩ : ∃ k, n = k + 1 := ⟨n - 1, by omega⟩
    have hnext : v < 2 ^ (7 * n + 4) := by
      rw [show 7 * (n + 1) + 4 = 7 * n + 4 + 7 by omega, Nat.pow_add] at hvalue
      omega
    rw [List.cons_append, snappyReadVarint, if_neg (by omega), ih (by omega) hnext, Nat.pow_add]
    congr 2
    ring

theorem snappyReadVarint_ok {n shift result value : Nat} {src rest : Bytes}
    (h : snappyReadVarint n shift result src = some (value, rest)) :
    ∃ bytes number, src = bytes ++ rest ∧ Numeral bytes number ∧ bytes.length ≤ n + 1 ∧
      number < 2 ^ (7 * n + 4) ∧ value = result + number * 2 ^ shift := by
  induction n generalizing shift result src with
  | zero =>
    cases src with
    | nil => cases h
    | cons b src =>
      rw [snappyReadVarint] at h
      split at h
      · rename_i h16
        obtain ⟨rfl, rfl⟩ := Prod.mk.inj (Option.some.inj h)
        exact ⟨[b], b.toNat, rfl, .last (by omega), Nat.le_refl 1, h16,
          by rw [Nat.mod_eq_of_lt (by omega)]⟩
      · cases h
  | succ n ih =>
    cases src with
    | nil => cases h
    | cons b src =>
      rw [snappyReadVarint] at h
      split at h
      · rename_i hlast
        obtain ⟨rfl, rfl⟩ := Prod.mk.inj (Option.some.inj h)
        refine ⟨[b], b.toNat, rfl, .last hlast, by simp, ?_, by rw [Nat.mod_eq_of_lt hlast]⟩
        calc b.toNat < 2 ^ 7 := hlast
          _ ≤ 2 ^ (7 * (n + 1) + 4) := Nat.pow_le_pow_right (by decide) (by omega)
      · rename_i hmore
        obtain ⟨bytes, number, rfl, hnumeral, hlen, hlt, rfl⟩ := ih h
        refine ⟨b :: bytes, b.toNat % 128 + 128 * number, rfl, .more (by omega) hnumeral,
          Nat.succ_le_succ hlen, ?_, ?_⟩
        · rw [show 7 * (n + 1) + 4 = 7 * n + 4 + 7 by omega, Nat.pow_add]
          omega
        · rw [Nat.pow_add]
          ring

/-- **The preamble** is what the decoder reads in front. -/
theorem snappyReadVarint_iff {src rest : Bytes} {length : Nat} :
    snappyReadVarint 4 0 0 src = some (length, rest) ↔
      ∃ bytes, src = bytes ++ rest ∧ Preamble bytes length := by
  constructor
  · intro h
    obtain ⟨bytes, number, hsrc, hnumeral, hlen, hlt, hvalue⟩ := snappyReadVarint_ok h
    obtain rfl : length = number := by omega
    exact ⟨bytes, hsrc, hnumeral, hlen, hlt⟩
  · rintro ⟨bytes, rfl, hnumeral, hlen, hlt⟩
    have h : snappyReadVarint 4 0 0 (bytes ++ rest) = some (0 + length * 2 ^ 0, rest) :=
      snappyReadVarint_numeral hnumeral hlen hlt rest
    rwa [Nat.zero_add, Nat.pow_zero, Nat.mul_one] at h

/-! ## Literals -/

/-- The bytes of a literal, once its length is known (snappy.c:513-528). -/
theorem decodeLiteral_store {opEnd tag op : Nat} (header : Bytes) {literal rest : Bytes} {m : Memory}
    (hroom : op + literal.length ≤ opEnd)
    (hlen : (if 61 ≤ tag / 4 + 1 then
        (leNat ((header ++ (literal ++ rest)).take (tag / 4 + 1 - 60)) + 1) % 4294967296
      else tag / 4 + 1) = literal.length)
    (hheader : header.length = tag / 4 + 1 - 60) :
    ∃ m', decodeLiteral opEnd tag ⟨header ++ (literal ++ rest), op, m⟩ =
        .ok ⟨rest, op + literal.length, m'⟩ ∧
      cells m' (op + literal.length) = cells m op ++ literal := by
  have hdrop : (if 61 ≤ tag / 4 + 1 then (header ++ (literal ++ rest)).drop (tag / 4 + 1 - 60)
      else header ++ (literal ++ rest)) = literal ++ rest := by
    split
    · rw [← hheader, List.drop_left]
    · rw [List.eq_nil_of_length_eq_zero (l := header) (by omega), List.nil_append]
  unfold decodeLiteral
  dsimp only
  rw [hlen, hdrop, if_neg (by rw [← hheader]; simp)]
  split
  next h =>
    refine ⟨_, by rw [List.drop_left], ?_⟩
    rw [cells_writeBytes (by simp; omega), List.take_take, Nat.min_eq_left h.1, List.take_left]
  next =>
    rw [if_neg (by simp; omega)]
    refine ⟨_, by rw [List.drop_left], ?_⟩
    rw [List.take_left, cells_writeBytes (Nat.le_refl _), List.take_length]

/-- A literal that was taken: its length behind the tag, and its bytes. -/
theorem decodeLiteral_ok {opEnd tag : Nat} {s s' : SnappyState}
    (h : decodeLiteral opEnd tag s = .ok s') :
    ∃ header literal : Bytes, s.rest = header ++ (literal ++ s'.rest) ∧
      header.length = tag / 4 + 1 - 60 ∧
      literal.length = (if 61 ≤ tag / 4 + 1 then (leNat header + 1) % 4294967296
        else tag / 4 + 1) ∧
      s.op + literal.length ≤ opEnd ∧ s'.op = s.op + literal.length := by
  have hdrop : (if 61 ≤ tag / 4 + 1 then s.rest.drop (tag / 4 + 1 - 60) else s.rest) =
      s.rest.drop (tag / 4 + 1 - 60) := by
    split
    · rfl
    · rw [show tag / 4 + 1 - 60 = 0 by omega, List.drop_zero]
  unfold decodeLiteral at h
  simp only [hdrop] at h
  split at h
  · cases h
  · rename_i hheader
    generalize hlen : (if 61 ≤ tag / 4 + 1 then
      (leNat (s.rest.take (tag / 4 + 1 - 60)) + 1) % 4294967296 else tag / 4 + 1) = len at h
    have hrest : ∀ m : Memory, len ≤ (s.rest.drop (tag / 4 + 1 - 60)).length →
        s.op + len ≤ opEnd →
        ∃ header literal : Bytes, s.rest = header ++ (literal ++
            (s.rest.drop (tag / 4 + 1 - 60)).drop len) ∧
          header.length = tag / 4 + 1 - 60 ∧
          literal.length = (if 61 ≤ tag / 4 + 1 then (leNat header + 1) % 4294967296
            else tag / 4 + 1) ∧
          s.op + literal.length ≤ opEnd ∧ s.op + len = s.op + literal.length := by
      intro _ hle hroom
      have hliteral : ((s.rest.drop (tag / 4 + 1 - 60)).take len).length = len := by
        rw [List.length_take, Nat.min_eq_left hle]
      refine ⟨s.rest.take (tag / 4 + 1 - 60), (s.rest.drop (tag / 4 + 1 - 60)).take len, ?_, ?_,
        hliteral.trans hlen.symm, by omega, by omega⟩
      · rw [List.take_append_drop, List.take_append_drop]
      · rw [List.length_take]
        omega
    split at h
    · rename_i hfast
      obtain rfl := Except.ok.inj h
      exact hrest s.memory (by omega) (by omega)
    · split at h
      · cases h
      · rename_i hroom
        obtain rfl := Except.ok.inj h
        exact hrest s.memory (by omega) (by omega)

/-- The forms of a literal. -/
theorem taken_literal {tag : UInt8} (htag : tag.toNat % 4 = 0) {header literal : Bytes}
    (hheader : header.length = tag.toNat / 4 + 1 - 60)
    (hlen : literal.length = (if 61 ≤ tag.toNat / 4 + 1 then (leNat header + 1) % 4294967296
      else tag.toNat / 4 + 1)) :
    (SnappyElement.literal literal).Taken (tag :: (header ++ literal)) := by
  have hbyte := tag.toNat_lt
  by_cases hshort : 61 ≤ tag.toNat / 4 + 1
  · rw [if_pos hshort] at hlen
    obtain ⟨count, hcount⟩ : ∃ count, count = tag.toNat / 4 + 1 - 60 := ⟨_, rfl⟩
    have htagOf : tag = UInt8.ofNat ((59 + count) * 4) := by
      rw [← UInt8.ofNat_toNat (x := tag)]
      congr 1
      omega
    have hlt := leNat_lt header
    have hheader' : header = leBytes count (leNat header) := by
      rw [hcount, ← hheader, leBytes_leNat]
    rw [hheader, ← hcount] at hlt
    by_cases hwrap : leNat header + 1 = 4294967296
    · have h4 : count = 4 := by
        have : count ≤ 4 := by omega
        rcases Nat.lt_or_ge count 4 with hlt4 | hge
        · have : 256 ^ count ≤ 256 ^ 3 := Nat.pow_le_pow_right (by decide) (by omega)
          omega
        · omega
      right
      have hnil : literal = [] := List.eq_nil_of_length_eq_zero (by rw [hlen, hwrap])
      subst hnil
      refine ⟨rfl, ?_⟩
      rw [hheader', show leNat header = 4294967295 by omega, htagOf, h4]
      decide
    · have hpow : 256 ^ count ≤ 4294967296 :=
        Nat.pow_le_pow_right (by decide : 0 < 256) (by omega : count ≤ 4)
      have hlength : literal.length = leNat header + 1 := by
        rw [hlen, Nat.mod_eq_of_lt (by omega)]
      left
      have hlong := @SnappyElement.Encoded.long literal count (by omega)
        (by omega) (List.ne_nil_of_length_pos (by omega)) (by omega)
      rwa [hlength, Nat.add_sub_cancel, ← hheader', ← htagOf] at hlong
  · rw [if_neg hshort] at hlen
    have hnil : header = [] := List.eq_nil_of_length_eq_zero (by omega)
    subst hnil
    left
    have hs := @SnappyElement.Encoded.short literal
      (List.ne_nil_of_length_pos (by omega)) (by omega)
    have htagOf : UInt8.ofNat ((literal.length - 1) * 4) = tag := by
      rw [← UInt8.ofNat_toNat (x := tag)]
      congr 1
      omega
    rwa [htagOf] at hs

/-! ## Copies -/

theorem copyLength_of_copy1 : ∀ tag < 256, tag % 4 = 1 → copyLength tag = tag / 4 % 8 + 4 := by
  decide +kernel

theorem copyLength_of_copy2 : ∀ tag < 256, tag % 4 = 2 → copyLength tag = tag / 4 + 1 := by
  decide +kernel

theorem decodeCopy_ok {opEnd offset length : Nat} {copy : Memory → Memory} {rest : Bytes}
    {s s' : SnappyState} (h : decodeCopy opEnd offset length copy rest s = .ok s') :
    0 < offset ∧ offset ≤ s.op ∧ s.op + length ≤ opEnd ∧ s' = ⟨rest, s.op + length, copy s.memory⟩ := by
  unfold decodeCopy at h
  split at h
  · cases h
  · split at h
    · cases h
    · obtain rfl := Except.ok.inj h
      exact ⟨by omega, by omega, by omega, rfl⟩

theorem decodeCopy_of_reaches {opEnd offset length op : Nat} (copy : Memory → Memory)
    (rest bytes : Bytes) (m : Memory) (hpos : 0 < offset) (hle : offset ≤ op)
    (hroom : op + length ≤ opEnd) :
    decodeCopy opEnd offset length copy rest ⟨bytes, op, m⟩ = .ok ⟨rest, op + length, copy m⟩ := by
  unfold decodeCopy
  rw [if_neg (by simp only; omega), if_neg (by simp only; omega)]

/-- A byte that holds a number. -/
theorem toNat_ofNat_of_lt {n : Nat} (h : n < 256) : (UInt8.ofNat n).toNat = n := by
  rw [UInt8.toNat_ofNat', Nat.mod_eq_of_lt h]

theorem ofNat_eq_of_toNat {b : UInt8} {n : Nat} (h : b.toNat = n) : UInt8.ofNat n = b := by
  rw [← h, UInt8.ofNat_toNat]

/-! ## Elements -/

/-- **What the decoder takes off the input** is an element that fits. -/
theorem decodeElement_shape {v : Bool} {opEnd : Nat} {tag : UInt8} {s s' : SnappyState}
    (h : decodeElement v opEnd tag.toNat s = .ok s') :
    ∃ (e : SnappyElement) (piece : Bytes), e.Taken piece ∧ tag :: s.rest = piece ++ s'.rest ∧
      e.Reaches s.op ∧ s.op + e.size ≤ opEnd ∧ s'.op = s.op + e.size := by
  have hbyte := tag.toNat_lt
  unfold decodeElement at h
  split at h
  · -- a literal
    rename_i h0
    obtain ⟨header, literal, hrest, hheader, hlen, hroom, hop⟩ := decodeLiteral_ok h
    refine ⟨.literal literal, tag :: (header ++ literal), taken_literal h0 hheader hlen, ?_,
      trivial, hroom, hop⟩
    rw [hrest]
    simp
  · split at h
    · -- a copy with a one-byte offset
      rename_i h1
      split at h
      · rename_i b rest hrest
        obtain ⟨hpos, hle, hroom, rfl⟩ := decodeCopy_ok h
        have hlength := copyLength_of_copy1 tag.toNat hbyte h1
        have hb := b.toNat_lt
        refine ⟨.copy (tag.toNat / 32 * 256 + b.toNat) (copyLength tag.toNat), [tag, b], .inl ?_,
          by rw [hrest]; rfl, ⟨hpos, hle⟩, hroom, rfl⟩
        have henc := @SnappyElement.Encoded.copy1 (tag.toNat / 32 * 256 + b.toNat)
          (copyLength tag.toNat) (by omega) (by omega) (by omega)
        rwa [ofNat_eq_of_toNat (b := tag) (by omega), ofNat_eq_of_toNat (b := b) (by omega)] at henc
      · cases h
    · split at h
      · -- a copy with a two-byte offset
        rename_i h2
        split at h
        · rename_i b₀ b₁ rest hrest
          obtain ⟨hpos, hle, hroom, rfl⟩ := decodeCopy_ok h
          have hlength := copyLength_of_copy2 tag.toNat hbyte h2
          have hb₀ := b₀.toNat_lt
          have hb₁ := b₁.toNat_lt
          refine ⟨.copy (b₀.toNat + b₁.toNat * 256) (copyLength tag.toNat), [tag, b₀, b₁], .inl ?_,
            by rw [hrest]; rfl, ⟨hpos, hle⟩, hroom, rfl⟩
          have henc := @SnappyElement.Encoded.copy2 (b₀.toNat + b₁.toNat * 256)
            (copyLength tag.toNat) (by omega) (by omega) (by omega)
          rwa [ofNat_eq_of_toNat (b := tag) (by omega), ofNat_eq_of_toNat (b := b₀) (by omega),
            ofNat_eq_of_toNat (b := b₁) (by omega)] at henc
        · cases h
      · -- a copy with a four-byte offset
        split at h
        · cases h
        · rename_i hlong
          obtain ⟨hpos, hle, hroom, rfl⟩ := decodeCopy_ok h
          have h4 : (s.rest.take 4).length = 4 := by
            rw [List.length_take]
            omega
          have hlt := leNat_lt (s.rest.take 4)
          rw [h4] at hlt
          refine ⟨.copy (leNat (s.rest.take 4)) (tag.toNat / 4 % 64 + 1), tag :: s.rest.take 4,
            .inl ?_, by rw [List.cons_append, List.take_append_drop], ⟨hpos, hle⟩, hroom, rfl⟩
          have henc := @SnappyElement.Encoded.copy4 (leNat (s.rest.take 4))
            (tag.toNat / 4 % 64 + 1) (by omega) (by omega) hlt
          have hback := leBytes_leNat (s.rest.take 4)
          rw [h4] at hback
          rwa [ofNat_eq_of_toNat (b := tag) (by omega), hback] at henc

/-- **An element that fits** is taken off the input, and what it adds is stored. -/
theorem decodeElement_encoded (v : Bool) {opEnd op : Nat} {e : SnappyElement} {piece : Bytes}
    (rest : Bytes) (m : Memory) (hend : opEnd < 4294967296) (henc : e.Encoded piece)
    (hreach : e.Reaches op) (hroom : op + e.size ≤ opEnd) (hsafe : v = true ∨ e.Safe opEnd op) :
    ∃ tag tail, piece = tag :: tail ∧
      ∃ m', decodeElement v opEnd tag.toNat ⟨tail ++ rest, op, m⟩ = .ok ⟨rest, op + e.size, m'⟩ ∧
        cells m' (op + e.size) = e.apply (cells m op) := by
  cases henc with
  | @short bytes h0 h =>
    have hpos := List.length_pos_of_ne_nil h0
    refine ⟨_, _, rfl, ?_⟩
    rw [toNat_ofNat_of_lt (by omega)]
    unfold decodeElement
    rw [if_pos (by omega)]
    exact decodeLiteral_store [] hroom (by rw [if_neg (by omega)]; omega) (by simp; omega)
  | @long bytes count h1 h4 h0 h =>
    have hpos := List.length_pos_of_ne_nil h0
    have hsize : op + bytes.length ≤ opEnd := hroom
    refine ⟨_, _, rfl, ?_⟩
    rw [toNat_ofNat_of_lt (by omega)]
    unfold decodeElement
    rw [if_pos (by omega), List.append_assoc]
    refine decodeLiteral_store _ hroom ?_ (by rw [length_leBytes]; omega)
    rw [if_pos (by omega), show (59 + count) * 4 / 4 + 1 - 60 = count by omega,
      List.take_left' (length_leBytes ..), leNat_leBytes_of_lt (by omega), Nat.mod_eq_of_lt (by omega)]
    omega
  | @copy1 offset length h4 h11 h =>
    refine ⟨_, _, rfl, _, ?_, copyMatch_cells v m hreach.1 hreach.2 (show length ≤ 64 by omega) hsafe⟩
    rw [toNat_ofNat_of_lt (by omega)]
    unfold decodeElement
    rw [if_neg (by omega), if_pos (by omega)]
    simp only [List.cons_append, List.nil_append]
    rw [toNat_ofNat_of_lt (by omega), copyLength_of_copy1 _ (by omega) (by omega),
      show ((length - 4) * 4 + 1 + offset / 256 * 32) / 32 * 256 + offset % 256 = offset by omega,
      show ((length - 4) * 4 + 1 + offset / 256 * 32) / 4 % 8 + 4 = length by omega]
    exact decodeCopy_of_reaches _ _ _ m hreach.1 hreach.2 hroom
  | @copy2 offset length h1 h64 h =>
    refine ⟨_, _, rfl, _, ?_, copyMatch_cells v m hreach.1 hreach.2 h64 hsafe⟩
    rw [toNat_ofNat_of_lt (by omega)]
    unfold decodeElement
    rw [if_neg (by omega), if_neg (by omega), if_pos (by omega)]
    simp only [List.cons_append, List.nil_append]
    rw [toNat_ofNat_of_lt (by omega), toNat_ofNat_of_lt (by omega),
      copyLength_of_copy2 _ (by omega) (by omega),
      show offset % 256 + offset / 256 * 256 = offset by omega,
      show ((length - 1) * 4 + 2) / 4 + 1 = length by omega]
    exact decodeCopy_of_reaches _ _ _ m hreach.1 hreach.2 hroom
  | @copy4 offset length h1 h64 h =>
    refine ⟨_, _, rfl, _, ?_, incrementalCopy_cells v m hreach.1 hreach.2 h64 hsafe⟩
    rw [toNat_ofNat_of_lt (by omega)]
    unfold decodeElement
    have h4 := length_leBytes 4 offset
    rw [if_neg (by omega), if_neg (by omega), if_neg (by omega),
      if_neg (by rw [List.length_append]; omega)]
    simp only
    rw [List.take_left' h4, List.drop_left' h4, leNat_leBytes_of_lt (by omega),
      show ((length - 1) * 4 + 3) / 4 % 64 + 1 = length by omega]
    exact decodeCopy_of_reaches _ _ _ m hreach.1 hreach.2 hroom

/-! ## Streams -/

/-- Elements that follow one another in the `opEnd` bytes of the output. -/
def Fits (opEnd : Nat) : Nat → List SnappyElement → Prop
  | _, [] => True
  | op, e :: es => e.Reaches op ∧ op + e.size ≤ opEnd ∧ Fits opEnd (op + e.size) es

/-- The bytes that elements add. -/
def addedBytes (es : List SnappyElement) : Nat := (es.map SnappyElement.size).sum

theorem addedBytes_cons (e : SnappyElement) (es : List SnappyElement) :
    addedBytes (e :: es) = e.size + addedBytes es := rfl

theorem decodes_length {es : List SnappyElement} {out out' : Bytes} (h : Decodes out es out') :
    out'.length = out.length + addedBytes es := by
  induction es generalizing out with
  | nil =>
    obtain rfl : out = out' := h
    rfl
  | cons e es ih =>
    rw [ih h.2, SnappyElement.length_apply h.1, addedBytes_cons]
    omega

theorem decodes_fits {es : List SnappyElement} {out out' : Bytes} {opEnd : Nat}
    (h : Decodes out es out') (hle : out'.length ≤ opEnd) : Fits opEnd out.length es := by
  induction es generalizing out with
  | nil => trivial
  | cons e es ih =>
    have hlen := decodes_length h.2
    have hfits := ih h.2
    rw [SnappyElement.length_apply h.1] at hlen hfits
    exact ⟨h.1, by omega, hfits⟩

theorem exists_decodes {es : List SnappyElement} {out : Bytes} {opEnd : Nat}
    (h : Fits opEnd out.length es) : ∃ out', Decodes out es out' := by
  induction es generalizing out with
  | nil => exact ⟨out, rfl⟩
  | cons e es ih =>
    obtain ⟨hreach, -, hfits⟩ := h
    rw [← SnappyElement.length_apply hreach] at hfits
    obtain ⟨out', hout⟩ := ih hfits
    exact ⟨out', hreach, hout⟩

/-- The elements the loop takes. -/
theorem decodeElements_shape {v : Bool} {opEnd fuel : Nat} {s s' : SnappyState}
    (h : decodeElements v opEnd fuel s = .ok s') :
    ∃ (es : List SnappyElement) (pieces : List Bytes), s.rest = pieces.flatten ++ s'.rest ∧
      List.Forall₂ SnappyElement.Taken es pieces ∧ Fits opEnd s.op es ∧
      s'.op = s.op + addedBytes es := by
  induction fuel generalizing s with
  | zero =>
    obtain rfl := Except.ok.inj h
    exact ⟨[], [], rfl, .nil, trivial, rfl⟩
  | succ fuel ih =>
    have hstop : s = s' → ∃ (es : List SnappyElement) (pieces : List Bytes),
        s.rest = pieces.flatten ++ s'.rest ∧ List.Forall₂ SnappyElement.Taken es pieces ∧
        Fits opEnd s.op es ∧ s'.op = s.op + addedBytes es := by
      rintro rfl
      exact ⟨[], [], rfl, .nil, trivial, rfl⟩
    unfold decodeElements at h
    split at h
    · exact hstop (Except.ok.inj h)
    · rename_i tag rest hrest
      split at h
      · obtain ⟨s₁, hone, hmore⟩ := bind_eq_ok.mp h
        obtain ⟨e, piece, htaken, hsplit, hreach, hroom, hop⟩ := decodeElement_shape hone
        obtain ⟨es, pieces, hrest', htakens, hfits, hop'⟩ := ih hmore
        refine ⟨e :: es, piece :: pieces, ?_, .cons htaken htakens,
          ⟨hreach, hroom, hop ▸ hfits⟩, ?_⟩
        · rw [hrest, List.flatten_cons, List.append_assoc, ← hrest']
          exact hsplit
        · have hstart : s₁.op = s.op + e.size := hop
          rw [hop', hstart, addedBytes_cons, Nat.add_assoc]
      · exact hstop (Except.ok.inj h)

/-- **The decoder does what the elements mean**, and leaves the bytes behind them. -/
theorem decodeElements_encoded (v : Bool) {opEnd : Nat} (hend : opEnd < 4294967296)
    {es : List SnappyElement} {pieces : List Bytes}
    (henc : List.Forall₂ SnappyElement.Encoded es pieces) (fuel : Nat) {op : Nat} {m : Memory}
    {out' : Bytes} (h : Decodes (cells m op) es out') (hroom : out'.length ≤ opEnd)
    (hfuel : pieces.flatten.length ≤ fuel) (hsafe : v = true ∨ StreamSafe opEnd op es) :
    ∃ m', decodeElements v opEnd fuel ⟨pieces.flatten, op, m⟩ = .ok ⟨[], out'.length, m'⟩ ∧
      cells m' out'.length = out' := by
  induction henc generalizing fuel op m with
  | nil =>
    obtain rfl : cells m op = out' := h
    rw [length_cells]
    refine ⟨m, ?_, rfl⟩
    cases fuel <;> rfl
  | @cons e piece es pieces hone hmore ih =>
    have hfits := decodes_fits h hroom
    obtain ⟨hreach, hnext⟩ := h
    rw [length_cells] at hreach hfits
    obtain ⟨-, hsize, -⟩ := hfits
    have hpos := hone.size_pos
    obtain ⟨tag, tail, rfl, m₁, hdecode, hcells⟩ := decodeElement_encoded v pieces.flatten m hend
      hone hreach hsize (hsafe.imp_right And.left)
    rw [List.flatten_cons, List.cons_append] at hfuel ⊢
    rw [List.length_cons, List.length_append] at hfuel
    obtain ⟨fuel, rfl⟩ : ∃ k, fuel = k + 1 := ⟨fuel - 1, by omega⟩
    obtain ⟨m', hrest, hcells'⟩ := ih fuel
      (show Decodes (cells m₁ (op + e.size)) es out' by rwa [hcells]) (by omega)
      (hsafe.imp_right And.right)
    refine ⟨m', ?_, hcells'⟩
    unfold decodeElements
    dsimp only
    rw [if_pos (by omega), hdecode]
    exact hrest

end Carquet
