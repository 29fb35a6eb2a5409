import Mathlib.Data.Nat.Bitwise
import Mathlib.Tactic.Ring

/-!
# Base-128 numerals

Seven payload bits a byte, least significant group first, bit 7 set on every byte but the
last. `readUleb bits fuel` reads at most `fuel` bytes into an accumulator of `bits` bits;
what a payload would put beyond it is lost. `readUleb_writeUleb` is the round trip.
-/

namespace Leb128

/-- At most `fuel + 1` bytes are written. -/
def writeUleb : Nat → Nat → List UInt8
  | 0, v => [UInt8.ofNat v]
  | fuel + 1, v =>
    if 128 ≤ v then UInt8.ofNat (v % 128 + 128) :: writeUleb fuel (v / 128)
    else [UInt8.ofNat v]

/-- `none` when the bytes end, or `fuel` bytes are read, before a last byte is seen. -/
def readUleb (bits : Nat) : Nat → Nat → Nat → List UInt8 → Option (Nat × List UInt8)
  | 0, _, _, _ => none
  | _ + 1, _, _, [] => none
  | fuel + 1, shift, result, b :: rest =>
    let result := result ||| ((b.toNat % 128) <<< shift) % 2 ^ bits
    if b.toNat < 128 then some (result, rest)
    else readUleb bits fuel (shift + 7) result rest

theorem length_writeUleb (fuel v : Nat) : (writeUleb fuel v).length ≤ fuel + 1 := by
  induction fuel generalizing v with
  | zero => simp [writeUleb]
  | succ fuel ih =>
    rw [writeUleb]
    split
    · have := ih (v / 128)
      simp only [List.length_cons]
      omega
    · simp

/-- A value of `n + 1` groups takes at most as many bytes. -/
theorem length_writeUleb_le (fuel : Nat) {n v : Nat} (h : v < 128 ^ (n + 1)) :
    (writeUleb fuel v).length ≤ n + 1 := by
  induction fuel generalizing n v with
  | zero => exact Nat.succ_le_succ (Nat.zero_le n)
  | succ fuel ih =>
    rw [writeUleb]
    split
    next hmore =>
      obtain ⟨n, rfl⟩ : ∃ k, n = k + 1 :=
        ⟨n - 1, by rcases n with _ | n <;> [simp at h; rfl]; omega⟩
      rw [List.length_cons]
      exact Nat.succ_le_succ (ih (Nat.div_lt_of_lt_mul (by rwa [Nat.pow_succ'] at h)))
    next => exact Nat.succ_le_succ (Nat.zero_le n)

theorem writeUleb_ne_nil (fuel v : Nat) : writeUleb fuel v ≠ [] := by
  cases fuel with
  | zero => simp [writeUleb]
  | succ fuel =>
    rw [writeUleb]
    split <;> simp

/-- A read consumes at least one byte. -/
theorem length_readUleb {bits fuel shift result : Nat} {bs rest : List UInt8} {v : Nat}
    (h : readUleb bits fuel shift result bs = some (v, rest)) : rest.length < bs.length := by
  induction fuel generalizing shift result bs with
  | zero => simp [readUleb] at h
  | succ fuel ih =>
    cases bs with
    | nil => simp [readUleb] at h
    | cons b bs =>
      simp only [readUleb] at h
      split at h
      · simp only [Option.some.injEq, Prod.mk.injEq] at h
        simp [h.2]
      · have := ih h
        simp only [List.length_cons]
        omega

/-- What is left of a read is the end of what it was given. -/
theorem readUleb_suffix {bits fuel shift result : Nat} {bs rest : List UInt8} {v : Nat}
    (h : readUleb bits fuel shift result bs = some (v, rest)) : rest <:+ bs := by
  induction fuel generalizing shift result bs with
  | zero => simp [readUleb] at h
  | succ fuel ih =>
    cases bs with
    | nil => simp [readUleb] at h
    | cons b bs =>
      simp only [readUleb] at h
      split at h
      · simp only [Option.some.injEq, Prod.mk.injEq] at h
        exact h.2 ▸ List.suffix_cons b bs
      · exact (ih h).trans (List.suffix_cons b bs)

/-- A numeral that was read is read, whatever follows. -/
theorem readUleb_append {bits fuel shift result v : Nat} {bs rest : List UInt8}
    (more : List UInt8) (h : readUleb bits fuel shift result bs = some (v, rest)) :
    readUleb bits fuel shift result (bs ++ more) = some (v, rest ++ more) := by
  induction fuel generalizing shift result bs with
  | zero => cases h
  | succ fuel ih =>
    cases bs with
    | nil => cases h
    | cons b bs =>
      rw [readUleb] at h
      rw [List.cons_append, readUleb]
      by_cases hlast : b.toNat < 128
      · rw [if_pos hlast] at h ⊢
        cases h
        rfl
      · rw [if_neg hlast] at h ⊢
        exact ih h

/-- A numeral that has not ended in `fuel` bytes does not end. -/
theorem readUleb_append_none {bits fuel shift result : Nat} {bs : List UInt8}
    (more : List UInt8) (h : readUleb bits fuel shift result bs = none)
    (hlen : fuel ≤ bs.length) : readUleb bits fuel shift result (bs ++ more) = none := by
  induction fuel generalizing shift result bs with
  | zero => rfl
  | succ fuel ih =>
    cases bs with
    | nil => simp at hlen
    | cons b bs =>
      rw [readUleb] at h
      rw [List.cons_append, readUleb]
      by_cases hlast : b.toNat < 128
      · rw [if_pos hlast] at h
        cases h
      · rw [if_neg hlast] at h ⊢
        exact ih h (by simpa using hlen)

theorem readUleb_lt {bits fuel shift result : Nat} {bs rest : List UInt8} {v : Nat}
    (hr : result < 2 ^ bits) (h : readUleb bits fuel shift result bs = some (v, rest)) :
    v < 2 ^ bits := by
  induction fuel generalizing shift result bs with
  | zero => simp [readUleb] at h
  | succ fuel ih =>
    cases bs with
    | nil => simp [readUleb] at h
    | cons b bs =>
      have hnext : result ||| ((b.toNat % 128) <<< shift) % 2 ^ bits < 2 ^ bits :=
        Nat.or_lt_two_pow hr (Nat.mod_lt _ (Nat.two_pow_pos bits))
      simp only [readUleb] at h
      split at h
      · simp only [Option.some.injEq, Prod.mk.injEq] at h
        rw [← h.1]
        exact hnext
      · exact ih hnext h

/-- The first payload and the rest of a value, in place. -/
theorem shiftLeft_split (v shift : Nat) :
    v <<< shift = (v % 128) <<< shift ||| (v / 128) <<< (shift + 7) := by
  have h128 : (128 : Nat) = 2 ^ 7 := rfl
  apply Nat.eq_of_testBit_eq
  intro i
  rw [h128, ← Nat.shiftRight_eq_div_pow]
  simp only [Nat.testBit_or, Nat.testBit_shiftLeft, Nat.testBit_mod_two_pow,
    Nat.testBit_shiftRight]
  by_cases h1 : shift + 7 ≤ i
  · have h2 : shift ≤ i := by omega
    have h3 : ¬ i - shift < 7 := by omega
    have h4 : 7 + (i - (shift + 7)) = i - shift := by omega
    simp [h1, h2, h3, h4]
  · by_cases h2 : shift ≤ i
    · have h3 : i - shift < 7 := by omega
      simp [h1, h2, h3]
    · simp [h1, h2]

theorem readUleb_writeUleb_aux {bits fuel v : Nat} (hv : v < 128 ^ (fuel + 1))
    (shift result : Nat) (rest : List UInt8) :
    readUleb bits (fuel + 1) shift result (writeUleb fuel v ++ rest) =
      some (result ||| (v <<< shift) % 2 ^ bits, rest) := by
  induction fuel generalizing v shift result with
  | zero =>
    have hv' : v < 128 := by simpa using hv
    have hb : (UInt8.ofNat v).toNat = v := by
      rw [UInt8.toNat_ofNat']
      omega
    simp only [writeUleb, List.cons_append, List.nil_append, readUleb, hb]
    rw [if_pos hv', Nat.mod_eq_of_lt hv']
  | succ fuel ih =>
    rw [writeUleb]
    split
    · have hb : (UInt8.ofNat (v % 128 + 128)).toNat = v % 128 + 128 := by
        rw [UInt8.toNat_ofNat']
        omega
      have hm : (v % 128 + 128) % 128 = v % 128 := by omega
      have hq : v / 128 < 128 ^ (fuel + 1) := by
        rw [Nat.div_lt_iff_lt_mul (by norm_num), ← Nat.pow_succ]
        exact hv
      simp only [List.cons_append, readUleb, hb, hm]
      rw [if_neg (by omega), ih hq, shiftLeft_split v shift, Nat.or_mod_two_pow, Nat.or_assoc]
    · rename_i hlt
      have hv' : v < 128 := by omega
      have hb : (UInt8.ofNat v).toNat = v := by
        rw [UInt8.toNat_ofNat']
        omega
      simp only [List.cons_append, List.nil_append, readUleb, hb]
      rw [if_pos hv', Nat.mod_eq_of_lt hv']

/-- A value that fits the accumulator and the number of bytes reads back. -/
theorem readUleb_writeUleb {bits fuel v : Nat} (hv : v < 128 ^ (fuel + 1)) (hb : v < 2 ^ bits)
    (rest : List UInt8) :
    readUleb bits (fuel + 1) 0 0 (writeUleb fuel v ++ rest) = some (v, rest) := by
  rw [readUleb_writeUleb_aux hv, Nat.shiftLeft_zero, Nat.mod_eq_of_lt hb, Nat.zero_or]

/-- The numerals of a number: groups of seven bits, least significant group first, bit 7 set on
every byte but the last. Groups of zeros may stand behind the others. -/
inductive Numeral : List UInt8 → Nat → Prop
  | last {b : UInt8} (h : b.toNat < 128) : Numeral [b] b.toNat
  | more {b : UInt8} {bs : List UInt8} {v : Nat} (h : 128 ≤ b.toNat) (hv : Numeral bs v) :
      Numeral (b :: bs) (b.toNat % 128 + 128 * v)

theorem Numeral.ne_nil {bs : List UInt8} {v : Nat} (h : Numeral bs v) : bs ≠ [] := by
  cases h <;> exact List.cons_ne_nil _ _

theorem readUleb_numeral_aux {bits fuel v : Nat} {bs : List UInt8} (h : Numeral bs v)
    (hlen : bs.length ≤ fuel) (shift result : Nat) (rest : List UInt8) :
    readUleb bits fuel shift result (bs ++ rest) =
      some (result ||| (v <<< shift) % 2 ^ bits, rest) := by
  induction h generalizing fuel shift result with
  | last hb =>
    obtain ⟨fuel, rfl⟩ : ∃ k, fuel = k + 1 := ⟨fuel - 1, by rw [List.length_singleton] at hlen; omega⟩
    rw [List.cons_append, List.nil_append, readUleb, if_pos hb, Nat.mod_eq_of_lt hb]
  | @more b bs v hb hv ih =>
    rw [List.length_cons] at hlen
    obtain ⟨fuel, rfl⟩ : ∃ k, fuel = k + 1 := ⟨fuel - 1, by omega⟩
    have hmod : (b.toNat % 128 + 128 * v) % 128 = b.toNat % 128 := by omega
    have hdiv : (b.toNat % 128 + 128 * v) / 128 = v := by omega
    rw [List.cons_append, readUleb, if_neg (by omega), ih (by omega), shiftLeft_split (b.toNat % 128 + 128 * v) shift, hmod,
      hdiv, Nat.or_mod_two_pow, Nat.or_assoc]

/-- Every numeral that fits is read, whatever follows it. -/
theorem readUleb_numeral {bits fuel v : Nat} {bs : List UInt8} (h : Numeral bs v)
    (hlen : bs.length ≤ fuel) (hv : v < 2 ^ bits) (rest : List UInt8) :
    readUleb bits fuel 0 0 (bs ++ rest) = some (v, rest) := by
  rw [readUleb_numeral_aux h hlen, Nat.shiftLeft_zero, Nat.mod_eq_of_lt hv, Nat.zero_or]

theorem numeral_writeUleb {fuel v : Nat} (hv : v < 128 ^ (fuel + 1)) :
    Numeral (writeUleb fuel v) v := by
  induction fuel generalizing v with
  | zero =>
    have hv' : v < 128 := by simpa using hv
    have hb : (UInt8.ofNat v).toNat = v := by
      rw [UInt8.toNat_ofNat']
      omega
    have hlast := Numeral.last (b := UInt8.ofNat v) (by omega)
    rwa [hb] at hlast
  | succ fuel ih =>
    rw [writeUleb]
    split
    · have hb : (UInt8.ofNat (v % 128 + 128)).toNat = v % 128 + 128 := by
        rw [UInt8.toNat_ofNat']
        omega
      have hq : v / 128 < 128 ^ (fuel + 1) := by
        rw [Nat.div_lt_iff_lt_mul (by norm_num), ← Nat.pow_succ]
        exact hv
      have hmore := Numeral.more (b := UInt8.ofNat (v % 128 + 128)) (by omega) (ih hq)
      rwa [hb, show (v % 128 + 128) % 128 + 128 * (v / 128) = v by omega] at hmore
    · rename_i hlt
      have hb : (UInt8.ofNat v).toNat = v := by
        rw [UInt8.toNat_ofNat']
        omega
      have hlast := Numeral.last (b := UInt8.ofNat v) (by omega)
      rwa [hb] at hlast

/-- Signed numbers, those near zero first: 0, -1, 1, -2, ... -/
def zigzag (n : Int) : Nat := if 0 ≤ n then (2 * n).toNat else (-2 * n - 1).toNat

/-- A numeral cut short is not read. -/
theorem readUleb_prefix {bits fuel v : Nat} {pre : List UInt8} (shift result : Nat)
    (hpre : pre <+: writeUleb fuel v) (hne : pre ≠ writeUleb fuel v) :
    readUleb bits (fuel + 1) shift result pre = none := by
  induction fuel generalizing v shift result pre with
  | zero =>
    cases pre with
    | nil => rfl
    | cons b pre =>
      rw [writeUleb, List.cons_prefix_cons] at hpre
      obtain ⟨rfl, htail⟩ := hpre
      exact absurd (by rw [List.prefix_nil.mp htail, writeUleb]) hne
  | succ fuel ih =>
    cases pre with
    | nil => rfl
    | cons b pre =>
      rw [writeUleb] at hpre hne
      split at hpre
      · rename_i hge
        rw [if_pos hge] at hne
        obtain ⟨rfl, htail⟩ := List.cons_prefix_cons.mp hpre
        have hb : (UInt8.ofNat (v % 128 + 128)).toNat = v % 128 + 128 := by
          rw [UInt8.toNat_ofNat']
          omega
        rw [readUleb]
        simp only [hb]
        rw [if_neg (by omega)]
        exact ih _ _ htail fun h => hne (by rw [h])
      · rename_i hlt
        rw [if_neg hlt] at hne
        obtain ⟨rfl, htail⟩ := List.cons_prefix_cons.mp hpre
        exact absurd (by rw [List.prefix_nil.mp htail]) hne

end Leb128
