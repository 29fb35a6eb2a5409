import Mathlib.Data.Nat.Bitwise
import Mathlib.Tactic.Ring

/-!
# Little-endian numerals

A byte string read as a number, least significant byte first, and the fixed-width byte
string of a number. `leNat` and `leBytes` are inverse on their ranges; the bit lemmas say
where a bit of the number sits in the bytes, which is what packing several short numbers
into one byte string needs.
-/

namespace LittleEndian

/-- The number a byte string denotes, least significant byte first. -/
def leNat : List UInt8 → Nat
  | [] => 0
  | b :: bs => b.toNat + 256 * leNat bs

/-- The `n` low bytes of `v`, least significant first. -/
def leBytes : Nat → Nat → List UInt8
  | 0, _ => []
  | n + 1, v => UInt8.ofNat (v % 256) :: leBytes n (v / 256)

@[simp] theorem leNat_nil : leNat [] = 0 := rfl

@[simp] theorem leBytes_zero (v : Nat) : leBytes 0 v = [] := rfl

@[simp] theorem length_leBytes (n v : Nat) : (leBytes n v).length = n := by
  induction n generalizing v with
  | zero => rfl
  | succ n ih => simp [leBytes, ih]

theorem leNat_lt (bs : List UInt8) : leNat bs < 256 ^ bs.length := by
  induction bs with
  | nil => simp
  | cons b bs ih =>
    have hb := b.toNat_lt
    simp only [leNat, List.length_cons, Nat.pow_succ]
    omega

theorem leNat_append (as bs : List UInt8) :
    leNat (as ++ bs) = leNat as + 256 ^ as.length * leNat bs := by
  induction as with
  | nil => simp
  | cons a as ih =>
    simp only [List.cons_append, leNat, ih, List.length_cons, Nat.pow_succ]
    ring

/-- Reading back what was written keeps the value modulo the width. -/
theorem leNat_leBytes (n v : Nat) : leNat (leBytes n v) = v % 256 ^ n := by
  induction n generalizing v with
  | zero => simp [Nat.mod_one]
  | succ n ih =>
    have hb : (UInt8.ofNat (v % 256)).toNat = v % 256 := by
      rw [UInt8.toNat_ofNat']
      omega
    simp only [leBytes, leNat, ih, hb, Nat.pow_succ']
    rw [Nat.mod_mul]

theorem leNat_leBytes_of_lt {n v : Nat} (h : v < 256 ^ n) : leNat (leBytes n v) = v := by
  rw [leNat_leBytes, Nat.mod_eq_of_lt h]

/-- Writing back what was read gives the bytes themselves. -/
theorem leBytes_leNat (bs : List UInt8) : leBytes bs.length (leNat bs) = bs := by
  induction bs with
  | nil => rfl
  | cons b bs ih =>
    have hb := b.toNat_lt
    have h1 : (b.toNat + 256 * leNat bs) % 256 = b.toNat := by omega
    have h2 : (b.toNat + 256 * leNat bs) / 256 = leNat bs := by omega
    simp only [List.length_cons, leNat, leBytes, h1, h2, ih]
    simp

theorem leNat_injective {as bs : List UInt8} (hl : as.length = bs.length)
    (h : leNat as = leNat bs) : as = bs := by
  rw [← leBytes_leNat as, ← leBytes_leNat bs, hl, h]

/-! ## Bits -/

/-- Bit `8 * k + j` of the number is bit `j` of byte `k`. -/
theorem testBit_leNat (bs : List UInt8) (k j : Nat) (hj : j < 8) :
    (leNat bs).testBit (8 * k + j) = (bs.getD k 0).toNat.testBit j := by
  induction bs generalizing k with
  | nil => simp
  | cons b bs ih =>
    have hb : b.toNat < 2 ^ 8 := b.toNat_lt
    have hrw : leNat (b :: bs) = 2 ^ 8 * leNat bs + b.toNat := by
      simp only [leNat]
      omega
    rw [hrw, Nat.testBit_two_pow_mul_add _ hb]
    cases k with
    | zero => simp [hj]
    | succ k =>
      have h1 : ¬ 8 * (k + 1) + j < 8 := by omega
      have h2 : 8 * (k + 1) + j - 8 = 8 * k + j := by omega
      rw [if_neg h1, h2, ih k]
      simp

/-- Every bit of a number at or above `8 * length` is clear. -/
theorem testBit_leNat_of_le (bs : List UInt8) (i : Nat) (h : 8 * bs.length ≤ i) :
    (leNat bs).testBit i = false := by
  apply Nat.testBit_lt_two_pow
  calc leNat bs < 256 ^ bs.length := leNat_lt bs
    _ = 2 ^ (8 * bs.length) := by rw [show (256 : Nat) = 2 ^ 8 from rfl, ← Nat.pow_mul]
    _ ≤ 2 ^ i := Nat.pow_le_pow_right (by omega) h

/-- A number's bit, read off the byte it lies in. -/
theorem testBit_leNat_div (bs : List UInt8) (i : Nat) :
    (leNat bs).testBit i = (bs.getD (i / 8) 0).toNat.testBit (i % 8) := by
  have h := testBit_leNat bs (i / 8) (i % 8) (Nat.mod_lt _ (by omega))
  rwa [Nat.div_add_mod] at h

/-- The bits of two byte strings, one behind the other. -/
theorem testBit_leNat_append (as bs : List UInt8) (n : Nat) :
    (leNat (as ++ bs)).testBit n =
      if n < 8 * as.length then (leNat as).testBit n
      else (leNat bs).testBit (n - 8 * as.length) := by
  have hpow : (256 : Nat) ^ as.length = 2 ^ (8 * as.length) := by
    rw [show (256 : Nat) = 2 ^ 8 from rfl, ← Nat.pow_mul]
  have hlt := leNat_lt as
  rw [hpow] at hlt
  rw [leNat_append, hpow, Nat.add_comm, Nat.testBit_two_pow_mul_add _ hlt]

theorem leNat_take_mod (bs : List UInt8) (k : Nat) :
    leNat (bs.take k) = leNat bs % 256 ^ k := by
  induction k generalizing bs with
  | zero => simp [Nat.mod_one]
  | succ k ih =>
    cases bs with
    | nil => simp
    | cons b bs =>
      have hb := b.toNat_lt
      simp only [List.take_succ_cons, leNat, ih bs, Nat.pow_succ']
      rw [Nat.mod_mul]
      congr 1
      · omega
      · congr 2
        omega

end LittleEndian
