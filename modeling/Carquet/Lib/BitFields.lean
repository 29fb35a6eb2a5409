import Mathlib.Algebra.Order.Group.Nat
import Mathlib.Algebra.BigOperators.Group.List.Basic
import Mathlib.Tactic.Ring

/-!
# Fields of any widths in one number

`pack` puts numbers behind each other, each in its own number of bits, the least significant bit
first; `unpack` cuts a number into fields of given widths. A field keeps its value modulo
`2 ^ width` (`unpack_pack`).
-/

namespace BitFields

/-- Values and their widths, as one number. -/
def pack : List (Nat × Nat) → Nat
  | [] => 0
  | f :: fs => f.1 % 2 ^ f.2 + 2 ^ f.2 * pack fs

/-- The bits that fields take up. -/
def width (fs : List (Nat × Nat)) : Nat := (fs.map Prod.snd).sum

/-- The fields of a number, whose widths are given. -/
def unpack : List Nat → Nat → List Nat
  | [], _ => []
  | w :: ws, n => n % 2 ^ w :: unpack ws (n / 2 ^ w)

@[simp] theorem width_nil : width [] = 0 := rfl

@[simp] theorem width_append (fs gs : List (Nat × Nat)) : width (fs ++ gs) = width fs + width gs := by
  simp [width]

@[simp] theorem width_cons (f : Nat × Nat) (fs : List (Nat × Nat)) :
    width (f :: fs) = f.2 + width fs := by
  simp [width]

theorem pack_append (fs gs : List (Nat × Nat)) :
    pack (fs ++ gs) = pack fs + 2 ^ width fs * pack gs := by
  induction fs with
  | nil => simp [pack]
  | cons f fs ih =>
    rw [List.cons_append, pack, ih, pack, width_cons, Nat.pow_add]
    ring

theorem unpack_pack (fs : List (Nat × Nat)) :
    unpack (fs.map Prod.snd) (pack fs) = fs.map fun f => f.1 % 2 ^ f.2 := by
  induction fs with
  | nil => rfl
  | cons f fs ih =>
    have hmod : pack (f :: fs) % 2 ^ f.2 = f.1 % 2 ^ f.2 := by
      rw [pack, Nat.add_mul_mod_self_left, Nat.mod_mod]
    have hdiv : pack (f :: fs) / 2 ^ f.2 = pack fs := by
      rw [pack, Nat.add_mul_div_left _ _ (Nat.two_pow_pos _),
        Nat.div_eq_of_lt (Nat.mod_lt _ (Nat.two_pow_pos _)), Nat.zero_add]
    rw [List.map_cons, List.map_cons, unpack, hmod, hdiv, ih]

/-- A word of `m` bits, `p` of them taken: of a value put behind them stays what fits. -/
theorem or_shiftLeft_mod {buffer p m : Nat} (h : buffer < 2 ^ p) (hp : p ≤ m) (x : Nat) :
    buffer ||| (x <<< p) % 2 ^ m = buffer + 2 ^ p * (x % 2 ^ (m - p)) := by
  have hm : 2 ^ m = 2 ^ (m - p) * 2 ^ p := by rw [← Nat.pow_add, Nat.sub_add_cancel hp]
  rw [Nat.shiftLeft_eq, hm, Nat.mul_mod_mul_right, Nat.mul_comm _ (2 ^ p), Nat.or_comm,
    ← Nat.two_pow_add_eq_or_of_lt h, Nat.add_comm]

end BitFields
