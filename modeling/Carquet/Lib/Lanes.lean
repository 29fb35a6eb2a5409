import Carquet.Lib.LittleEndian

/-!
# Vector lanes

A vector register as the list of its bytes, the lowest first, and the operations on its lanes that
take packed numbers apart: masks, comparisons, shifts, shuffles, interleaving and widening.
-/

namespace Lanes

open LittleEndian

variable {α β : Type}

/-- A register of `n` bytes that all are `b`. -/
def splat (n : Nat) (b : UInt8) : List UInt8 := List.replicate n b

def both (a b : List UInt8) : List UInt8 := List.zipWith (· &&& ·) a b

/-- Ones where the bytes agree, zero elsewhere. -/
def equal (a b : List UInt8) : List UInt8 := List.zipWith (fun x y => if x = y then 255 else 0) a b

def least (a b : List UInt8) : List UInt8 := List.zipWith min a b

/-- Each byte shifted right. -/
def shiftBytes (n : UInt8) (v : List UInt8) : List UInt8 := v.map (· >>> n)

/-- Each pair of bytes shifted right as one number. -/
def shiftPairs (n : Nat) : List UInt8 → List UInt8
  | lo :: hi :: rest =>
    UInt8.ofNat ((lo.toNat + 256 * hi.toNat) >>> n) ::
      UInt8.ofNat ((lo.toNat + 256 * hi.toNat) >>> n / 256) :: shiftPairs n rest
  | rest => rest

/-- The bytes at the given places. -/
def shuffle (v : List UInt8) (places : List Nat) : List UInt8 := places.map fun i => v.getD i 0

/-- Elements of two vectors by turns. -/
def interleave : List α → List α → List α
  | a :: as, b :: bs => a :: b :: interleave as bs
  | _, _ => []

/-- Pairs of elements by turns. -/
def interleavePairs : List α → List α → List α
  | a :: a' :: as, b :: b' :: bs => a :: a' :: b :: b' :: interleavePairs as bs
  | _, _ => []

/-- The bytes as numbers of their own. -/
def widenBytes (v : List UInt8) : List Nat := v.map UInt8.toNat

/-- The pairs of bytes as numbers of their own. -/
def widenPairs : List UInt8 → List Nat
  | lo :: hi :: rest => (lo.toNat + 256 * hi.toNat) :: widenPairs rest
  | _ => []

/-- The 32-bit lanes of a register. -/
def words : List UInt8 → List Nat
  | a :: b :: c :: d :: rest => leNat [a, b, c, d] :: words rest
  | _ => []

theorem widenBytes_append (a b : List UInt8) : widenBytes (a ++ b) = widenBytes a ++ widenBytes b :=
  List.map_append

theorem interleave_map (f g : α → β) (xs : List α) :
    interleave (xs.map f) (xs.map g) = xs.flatMap fun x => [f x, g x] := by
  induction xs with
  | nil => rfl
  | cons x xs ih => rw [List.map_cons, List.map_cons, interleave, ih, List.flatMap_cons]; rfl

theorem interleave_append {a b : List α} (h : a.length = b.length) (as bs : List α) :
    interleave (a ++ as) (b ++ bs) = interleave a b ++ interleave as bs := by
  induction a generalizing b with
  | nil =>
    obtain rfl : b = [] := List.length_eq_zero_iff.mp h.symm
    rfl
  | cons x a ih =>
    cases b with
    | nil => cases h
    | cons y b =>
      rw [List.cons_append, List.cons_append, interleave, interleave, ih (Nat.succ.inj h)]
      rfl

theorem both_splat (v : List UInt8) (b : UInt8) : both v (splat v.length b) = v.map (· &&& b) := by
  induction v with
  | nil => rfl
  | cons x v ih =>
    rw [both, splat, List.length_cons, List.replicate_succ, List.zipWith_cons_cons, List.map_cons,
      ← ih]
    rfl

theorem toNat_and_15 (b : UInt8) : (b &&& 15).toNat = b.toNat % 16 := by
  rw [UInt8.toNat_and, show (15 : UInt8).toNat = 2 ^ 4 - 1 from rfl, Nat.and_two_pow_sub_one_eq_mod]

/-- Of a shifted pair, the low nibbles are the high nibbles of the two bytes. -/
theorem both_shiftPairs {v : List UInt8} (h : v.length % 2 = 0) :
    both (shiftPairs 4 v) (splat v.length 15) = shiftBytes 4 v := by
  induction v using shiftPairs.induct with
  | case1 lo hi rest ih =>
    have hlo := lo.toNat_lt
    have hhi := hi.toNat_lt
    have hrest := ih (by rw [List.length_cons, List.length_cons] at h; omega)
    rw [both, splat] at hrest
    rw [shiftPairs, both, splat, List.length_cons, List.length_cons, List.replicate_succ,
      List.replicate_succ, List.zipWith_cons_cons, List.zipWith_cons_cons, hrest, shiftBytes,
      shiftBytes, List.map_cons, List.map_cons]
    have h4 : ∀ b : UInt8, (b >>> 4).toNat = b.toNat / 16 := fun b => by
      rw [UInt8.toNat_shiftRight, Nat.shiftRight_eq_div_pow]
      rfl
    congr 1
    · apply UInt8.toNat_inj.mp
      rw [toNat_and_15, h4, UInt8.toNat_ofNat', Nat.shiftRight_eq_div_pow]
      omega
    · congr 1
      apply UInt8.toNat_inj.mp
      rw [toNat_and_15, h4, UInt8.toNat_ofNat', Nat.shiftRight_eq_div_pow]
      omega
  | case2 rest hrest =>
    match rest, hrest, h with
    | [], _, _ => rfl
    | [_], _, h => simp at h
    | a :: b :: rest, hrest, _ => exact absurd rfl (hrest a b rest)

end Lanes
