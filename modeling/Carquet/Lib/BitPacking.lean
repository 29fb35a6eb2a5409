import Carquet.Lib.LittleEndian

/-!
# Numbers packed into bits

`packBits w vs` stores the numbers `vs` in exactly `w` bits each, the least significant bit first,
one after the other without gaps; the last byte is filled with zeros. Whole bytes can be cut off
(`packBits_append`), and in a width of whole bytes each number has its own (`packBits_bytes`).
-/

namespace BitPacking

open LittleEndian

/-- The packed numbers as one number. -/
def packNat (w : Nat) : List Nat → Nat
  | [] => 0
  | v :: vs => v % 2 ^ w + 2 ^ w * packNat w vs

def packBits (w : Nat) (vs : List Nat) : List UInt8 :=
  leBytes ((w * vs.length + 7) / 8) (packNat w vs)

@[simp] theorem length_packBits (w : Nat) (vs : List Nat) :
    (packBits w vs).length = (w * vs.length + 7) / 8 := length_leBytes ..

theorem packNat_lt (w : Nat) (vs : List Nat) : packNat w vs < 2 ^ (w * vs.length) := by
  induction vs with
  | nil => simp [packNat]
  | cons v vs ih =>
    have hv : v % 2 ^ w < 2 ^ w := Nat.mod_lt _ (Nat.two_pow_pos w)
    rw [packNat, List.length_cons, Nat.mul_succ, Nat.add_comm (w * vs.length), Nat.pow_add]
    calc v % 2 ^ w + 2 ^ w * packNat w vs < 2 ^ w + 2 ^ w * packNat w vs := by omega
      _ = 2 ^ w * (packNat w vs + 1) := by ring
      _ ≤ 2 ^ w * 2 ^ (w * vs.length) := Nat.mul_le_mul_left _ ih

theorem packNat_append (w : Nat) (xs ys : List Nat) :
    packNat w (xs ++ ys) = packNat w xs + 2 ^ (w * xs.length) * packNat w ys := by
  induction xs with
  | nil => simp [packNat]
  | cons x xs ih =>
    rw [List.cons_append, packNat, ih, packNat, List.length_cons, Nat.mul_succ,
      Nat.add_comm (w * xs.length), Nat.pow_add]
    ring

/-- Bit `j` of number `i`. -/
theorem testBit_packNat {w : Nat} (vs : List Nat) {i j : Nat} (hj : j < w) :
    (packNat w vs).testBit (i * w + j) = (vs.getD i 0).testBit j := by
  induction vs generalizing i with
  | nil => simp [packNat]
  | cons v vs ih =>
    rw [packNat, Nat.add_comm, Nat.testBit_two_pow_mul_add _ (Nat.mod_lt _ (Nat.two_pow_pos w))]
    cases i with
    | zero =>
      rw [Nat.zero_mul, Nat.zero_add, if_pos hj, Nat.testBit_mod_two_pow]
      simp [hj]
    | succ i =>
      rw [Nat.succ_mul, if_neg (by omega), show i * w + w + j - w = i * w + j by omega, ih]
      rfl

theorem leBytes_add (m n x y : Nat) (hx : x < 256 ^ m) :
    leBytes (m + n) (x + 256 ^ m * y) = leBytes m x ++ leBytes n y := by
  induction m generalizing x with
  | zero =>
    rw [Nat.pow_zero, Nat.lt_one_iff] at hx
    simp [hx]
  | succ m ih =>
    have hmod : (x + 256 ^ (m + 1) * y) % 256 = x % 256 := by
      rw [Nat.pow_succ, Nat.mul_comm (256 ^ m), Nat.mul_assoc, Nat.add_mul_mod_self_left]
    have hdiv : (x + 256 ^ (m + 1) * y) / 256 = x / 256 + 256 ^ m * y := by
      rw [Nat.pow_succ, Nat.mul_comm (256 ^ m), Nat.mul_assoc, Nat.add_mul_div_left _ _ (by decide)]
    have hlt : x / 256 < 256 ^ m := Nat.div_lt_of_lt_mul (by rwa [Nat.pow_succ'] at hx)
    rw [Nat.add_right_comm, leBytes, leBytes, hmod, hdiv, ih _ hlt, List.cons_append]

/-- Numbers that fill whole bytes, and others behind them. -/
theorem packBits_append {w : Nat} {xs : List Nat} (h : 8 ∣ w * xs.length) (ys : List Nat) :
    packBits w (xs ++ ys) = packBits w xs ++ packBits w ys := by
  obtain ⟨m, hm⟩ := h
  have hlt := packNat_lt w xs
  rw [hm] at hlt
  have hpow : 2 ^ (8 * m) = 256 ^ m := by rw [show (256 : Nat) = 2 ^ 8 from rfl, ← Nat.pow_mul]
  rw [hpow] at hlt
  have hsize : (w * (xs ++ ys).length + 7) / 8 = m + (w * ys.length + 7) / 8 := by
    rw [List.length_append, Nat.mul_add, hm]
    omega
  unfold packBits
  rw [hsize, packNat_append, hm, hpow, leBytes_add _ _ _ _ hlt, show (8 * m + 7) / 8 = m by omega]

/-- In a width of whole bytes each number has its own. -/
theorem packBits_bytes (b : Nat) {vs : List Nat} (h : ∀ v ∈ vs, v < 2 ^ (8 * b)) :
    packBits (8 * b) vs = (vs.map fun v => leBytes b v).flatten := by
  induction vs with
  | nil => simp [packBits]
  | cons v vs ih =>
    obtain ⟨hv, hvs⟩ := List.forall_mem_cons.mp h
    have hone : packBits (8 * b) [v] = leBytes b v := by
      unfold packBits packNat packNat
      rw [List.length_singleton, show (8 * b * 1 + 7) / 8 = b by omega, Nat.mod_eq_of_lt hv,
        Nat.mul_zero, Nat.add_zero]
    rw [← List.singleton_append, packBits_append ⟨b, by rw [List.length_singleton, Nat.mul_one]⟩,
      hone, ih hvs]
    rfl

end BitPacking
