import Carquet.Lib.LittleEndian

/-!
# Base64

Reading base64 in the standard alphabet: groups of four digits, of which only the last group may be
padded, and then the bits that are left over have to be zero. `decode` refuses everything else, so
no bytes have two texts.
-/

namespace Base64

/-- The digit `=` that pads. -/
def pad : UInt8 := 0x3D

/-- What a digit stands for. -/
def value (c : UInt8) : Option Nat :=
  if 0x41 ≤ c ∧ c ≤ 0x5A then some (c.toNat - 0x41)
  else if 0x61 ≤ c ∧ c ≤ 0x7A then some (c.toNat - 0x61 + 26)
  else if 0x30 ≤ c ∧ c ≤ 0x39 then some (c.toNat - 0x30 + 52)
  else if c = 0x2B then some 62
  else if c = 0x2F then some 63
  else none

theorem value_pad : value pad = none := by decide

/-- The three bytes of four digits. -/
def byte₁ (a b : Nat) : UInt8 := UInt8.ofNat (a * 4 + b / 16)
def byte₂ (b c : Nat) : UInt8 := UInt8.ofNat (b % 16 * 16 + c / 4)
def byte₃ (c d : Nat) : UInt8 := UInt8.ofNat (c % 4 * 64 + d)

/-- The bytes of a text. -/
def decode : List UInt8 → Option (List UInt8)
  | [] => some []
  | a :: b :: c :: d :: rest => do
    let a ← value a
    let b ← value b
    if c = pad ∧ d = pad ∧ rest = [] then
      if b % 16 = 0 then some [byte₁ a b] else none
    else do
      let c ← value c
      if d = pad ∧ rest = [] then
        if c % 4 = 0 then some [byte₁ a b, byte₂ b c] else none
      else do
        let d ← value d
        let tail ← decode rest
        some (byte₁ a b :: byte₂ b c :: byte₃ c d :: tail)
  | _ => none

section Groups

variable {a b c d : UInt8} {va vb vc vd : Nat}

theorem ne_pad_of_value (h : value a = some va) : a ≠ pad := by
  rintro rfl
  rw [value_pad] at h
  cases h

/-- Four digits, with more behind them or not. -/
theorem decode_group (ha : value a = some va) (hb : value b = some vb) (hc : value c = some vc)
    (hd : value d = some vd) {rest tail : List UInt8} (hrest : decode rest = some tail) :
    decode (a :: b :: c :: d :: rest) =
      some (byte₁ va vb :: byte₂ vb vc :: byte₃ vc vd :: tail) := by
  have hcpad := ne_pad_of_value hc
  have hdpad := ne_pad_of_value hd
  simp only [decode, ha, hb, hc, hd, hrest, Option.bind_eq_bind, Option.bind_some, hcpad, hdpad,
    false_and, if_false]

theorem decode_three (ha : value a = some va) (hb : value b = some vb) (hc : value c = some vc)
    (hzero : vc % 4 = 0) : decode [a, b, c, pad] = some [byte₁ va vb, byte₂ vb vc] := by
  have hcpad := ne_pad_of_value hc
  simp only [decode, ha, hb, hc, hzero, Option.bind_eq_bind, Option.bind_some, hcpad, false_and,
    true_and, if_false, if_true]

theorem decode_two (ha : value a = some va) (hb : value b = some vb) (hzero : vb % 16 = 0) :
    decode [a, b, pad, pad] = some [byte₁ va vb] := by
  simp only [decode, ha, hb, hzero, Option.bind_eq_bind, Option.bind_some, true_and, if_true]

end Groups

end Base64
