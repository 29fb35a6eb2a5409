import Mathlib.Data.List.Basic
import Mathlib.Order.Compare

/-!
# The lexicographic order of byte strings

`compare` on `List UInt8` against the ways programs compute it, and against cutting a string to a
prefix: a prefix is no greater, and a prefix whose last byte below 255 is raised is greater.
-/

namespace ByteOrder

/-- `memcmp`: the first `n` bytes of both. -/
def memcmp : Nat → List UInt8 → List UInt8 → Ordering
  | n + 1, a :: as, b :: bs => (compare a b).then (memcmp n as bs)
  | _, _, _ => .eq

/-- A common prefix by `memcmp`, then the lengths. -/
def lexCompare (a b : List UInt8) : Ordering :=
  (memcmp (min a.length b.length) a b).then (compare a.length b.length)

theorem lexCompare_eq (a b : List UInt8) : lexCompare a b = compare a b := by
  induction a generalizing b with
  | nil => cases b <;> rfl
  | cons x a ih =>
    cases b with
    | nil => rfl
    | cons y b =>
      have hlen : compare (x :: a).length (y :: b).length = compare a.length b.length := by
        simp only [List.length_cons, Nat.compare_eq_ite_lt, Nat.add_lt_add_iff_right]
      rw [lexCompare, hlen, List.length_cons, List.length_cons, Nat.succ_min_succ, memcmp,
        Ordering.then_assoc]
      change (compare x y).then (lexCompare a b) = List.compareLex compare (x :: a) (y :: b)
      rw [ih, List.compareLex_cons_cons]
      rfl

theorem memcmp_eq {n : Nat} {a b : List UInt8} (ha : a.length = n) (hb : b.length = n) :
    memcmp n a b = compare a b := by
  have hlen : compare a.length b.length = .eq := by rw [ha, hb]; exact Nat.compare_eq_eq.mpr rfl
  rw [← lexCompare_eq, lexCompare, hlen, ha, hb, Nat.min_self, Ordering.then_eq]

theorem compare_append_left (p a b : List UInt8) : compare (p ++ a) (p ++ b) = compare a b := by
  induction p with
  | nil => rfl
  | cons x p ih =>
    change List.compareLex compare (x :: (p ++ a)) (x :: (p ++ b)) = _
    rw [List.compareLex_cons_cons, @Std.ReflCmp.compare_self _ compare _ _]
    exact ih

/-- A prefix is no greater. -/
theorem take_le (n : Nat) (a : List UInt8) : (compare (a.take n) a).isLE := by
  have h : compare (a.take n ++ []) (a.take n ++ a.drop n) = compare [] (a.drop n) :=
    compare_append_left _ _ _
  rw [List.append_nil, List.take_append_drop] at h
  rw [h]
  cases a.drop n <;> rfl

/-- Prefixes of one length keep the order. -/
theorem take_mono (n : Nat) {a b : List UInt8} (h : (compare a b).isLE) :
    (compare (a.take n) (b.take n)).isLE := by
  induction n generalizing a b with
  | zero => simp
  | succ n ih =>
    cases a with
    | nil => cases b <;> rfl
    | cons x a =>
      cases b with
      | nil => exact Bool.noConfusion h
      | cons y b =>
        change (List.compareLex compare (x :: a) (y :: b)).isLE at h
        change (List.compareLex compare (x :: a.take n) (y :: b.take n)).isLE
        rw [List.compareLex_cons_cons] at h ⊢
        cases hxy : compare x y with
        | lt => rfl
        | eq =>
          rw [hxy] at h
          exact ih h
        | gt =>
          rw [hxy] at h
          exact Bool.noConfusion h

/-- Only the empty string is no greater than the empty string. -/
theorem compare_nil (a : List UInt8) (h : a ≠ []) : compare [] a = .lt := by
  cases a with
  | nil => exact absurd rfl h
  | cons x a => rfl

/-- The last byte that is not 255 is raised and what follows it dropped; the string is given
from its end. -/
def bump : List UInt8 → Option (List UInt8)
  | [] => none
  | b :: rest => if b + 1 = 0 then bump rest else some ((b + 1) :: rest)

/-- `bump` on a string in its usual order. -/
def raise (a : List UInt8) : Option (List UInt8) := (bump a.reverse).map List.reverse

theorem add_one_eq_zero_iff {b : UInt8} : b + 1 = 0 ↔ b = 255 := by
  constructor
  · intro h
    have := congrArg UInt8.toNat h
    apply UInt8.toNat_inj.mp
    have hb := b.toNat_lt
    simp only [UInt8.toNat_add] at this
    change (b.toNat + 1) % 256 = 0 at this
    change b.toNat = 255
    omega
  · rintro rfl
    rfl

theorem compare_add_one {b : UInt8} (h : b ≠ 255) : compare b (b + 1) = .lt := by
  have hne : b.toNat ≠ 255 := fun hn => h (UInt8.toNat_inj.mp hn)
  have hb := b.toNat_lt
  have hlt : b < b + 1 := by
    rw [UInt8.lt_iff_toNat_lt, UInt8.toNat_add]
    change b.toNat < (b.toNat + 1) % 256
    omega
  simp only [compare, compareOfLessAndEq, hlt, if_true]

theorem bump_eq_none_iff {r : List UInt8} : bump r = none ↔ ∀ b ∈ r, b = 255 := by
  induction r with
  | nil => simp [bump]
  | cons b r ih =>
    rw [bump, List.forall_mem_cons]
    split
    · rename_i h
      rw [ih, add_one_eq_zero_iff.mp h]
      simp
    · rename_i h
      rw [add_one_eq_zero_iff] at h
      simp [h]

theorem raise_eq_none_iff {a : List UInt8} : raise a = none ↔ ∀ b ∈ a, b = 255 := by
  rw [raise, Option.map_eq_none_iff, bump_eq_none_iff]
  simp

theorem bump_eq_some {r q : List UInt8} (h : bump r = some q) :
    ∃ pre b rest, r = pre ++ b :: rest ∧ b ≠ 255 ∧ q = (b + 1) :: rest := by
  induction r with
  | nil => simp [bump] at h
  | cons b r ih =>
    rw [bump] at h
    split at h
    · obtain ⟨pre, b', rest, hr, hb, hq⟩ := ih h
      exact ⟨b :: pre, b', rest, by rw [hr]; rfl, hb, hq⟩
    · rename_i hb
      rw [add_one_eq_zero_iff] at hb
      exact ⟨[], b, r, rfl, hb, (Option.some.inj h).symm⟩

/-- **A raised prefix is greater than every string it is a prefix of.** -/
theorem lt_raise {a q : List UInt8} (h : raise a = some q) (more : List UInt8) :
    compare (a ++ more) q = .lt := by
  obtain ⟨q', hq', rfl⟩ := Option.map_eq_some_iff.mp h
  obtain ⟨pre, b, rest, hr, hb, rfl⟩ := bump_eq_some hq'
  have ha : a = rest.reverse ++ b :: pre.reverse := by
    rw [← List.reverse_reverse a, hr]
    simp
  have hq : ((b + 1) :: rest).reverse = rest.reverse ++ [b + 1] := List.reverse_cons
  rw [ha, hq, List.append_assoc, compare_append_left]
  change List.compareLex compare (b :: (pre.reverse ++ more)) [b + 1] = .lt
  rw [List.compareLex_cons_cons, compare_add_one hb]
  rfl

theorem raise_ne_nil {a q : List UInt8} (h : raise a = some q) : q ≠ [] := by
  obtain ⟨q', hq', rfl⟩ := Option.map_eq_some_iff.mp h
  obtain ⟨pre, b, rest, -, -, rfl⟩ := bump_eq_some hq'
  simp

end ByteOrder
