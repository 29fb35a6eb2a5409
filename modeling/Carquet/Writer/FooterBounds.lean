import Carquet.Core.Types
import Carquet.Lib.ByteOrder
import Mathlib.Data.Multiset.Basic

/-!
# Bounds cut to 32 bytes

The bounds of a column chunk as `build_file_metadata` puts them into the footer
(file_writer.c:1469-1547). A minimum is cut; a maximum is cut and its last byte raised, a carry
running towards its front, where the bytes that wrapped are dropped with it. The loop is
`ByteOrder.raise` (`cutMax_eq`), which is greater than all that begins with what is cut.
-/

namespace Carquet

/-- `TRUNC` (file_writer.c:1476). -/
def boundLength : Nat := 32

/-- `max_buf[i]++`. -/
def incrementAt (buf : Bytes) (i : Nat) : Bytes := buf.set i (buf.getD i 0 + 1)

/-- The loop over the carry (file_writer.c:1512-1515). -/
def carry : Nat → Bytes → Nat × Bytes
  | 0, buf => (0, buf)
  | newLen + 1, buf =>
    if buf.getD newLen 0 = 0 then
      carry newLen (if 0 < newLen then incrementAt buf (newLen - 1) else buf)
    else (newLen + 1, buf)

/-- `new_len` bytes of the buffer; no maximum where none is left (file_writer.c:1516-1520). -/
def carried (r : Nat × Bytes) : Option Bytes := if r.1 = 0 then none else some (r.2.take r.1)

/-- A maximum that is longer than `TRUNC` (file_writer.c:1503-1520). -/
def cutMax (maxBuf : Bytes) : Option Bytes :=
  carried (carry boundLength (incrementAt maxBuf (boundLength - 1)))

/-- The bounds of `parquet_statistics_t`. -/
structure FooterBounds where
  minValue : Bytes
  isMinValueExact : Bool
  maxValue : Option Bytes
  isMaxValueExact : Option Bool
  minDeprecated : Option Bytes
  maxDeprecated : Option Bytes
  deriving DecidableEq, Repr

/-- The bounds in the footer (file_writer.c:1469-1547) of a chunk with the bounds `minV` and `maxV`;
`variableLen` is a BYTE_ARRAY, `deprecatedOk` is `deprecated_stats_are_compatible`. -/
def footerBounds (variableLen deprecatedOk : Bool) (minV maxV : Bytes) : Option FooterBounds :=
  if 0 < minV.length ∧ 0 < maxV.length then
    let cutsMin := variableLen && decide (boundLength < minV.length)
    let cutsMax := variableLen && decide (boundLength < maxV.length)
    let min := if cutsMin then minV.take boundLength else minV
    let max := if cutsMax then cutMax maxV else some maxV
    some
      { minValue := min
        isMinValueExact := !cutsMin
        maxValue := max
        isMaxValueExact := max.map fun _ => !cutsMax
        minDeprecated := if deprecatedOk && !cutsMin then some min else none
        maxDeprecated := if deprecatedOk && !cutsMax then max else none }
  else none

/-! ## The carry -/

theorem raise_concat (a : Bytes) (b : UInt8) :
    ByteOrder.raise (a ++ [b]) =
      if b + 1 = 0 then ByteOrder.raise a else some (a ++ [b + 1]) := by
  rw [ByteOrder.raise, List.reverse_append, List.reverse_singleton, List.singleton_append,
    ByteOrder.bump]
  split
  · rfl
  · simp

theorem take_incrementAt (buf : Bytes) {i n : Nat} (h : n ≤ i) :
    (incrementAt buf i).take n = buf.take n := List.take_set_of_le h

theorem take_succ_incrementAt (buf : Bytes) {i : Nat} (h : i < buf.length) :
    (incrementAt buf i).take (i + 1) = buf.take i ++ [buf.getD i 0 + 1] := by
  rw [incrementAt, List.take_add_one, List.take_set_of_le (Nat.le_refl i), List.getElem?_set_self h]
  rfl

theorem take_succ_getD (buf : Bytes) {i : Nat} (h : i < buf.length) :
    buf.take (i + 1) = buf.take i ++ [buf.getD i 0] := by
  rw [List.take_add_one, List.getElem?_eq_getElem h, List.getD_eq_getElem _ _ h]
  rfl

theorem getD_incrementAt (buf : Bytes) {i : Nat} (h : i < buf.length) :
    (incrementAt buf i).getD i 0 = buf.getD i 0 + 1 := by
  rw [incrementAt, List.getD_eq_getElem?_getD, List.getElem?_set_self h]
  rfl

/-- **The loop raises the bytes it is given.** -/
theorem carried_carry {n : Nat} {buf : Bytes} (h : n < buf.length) :
    carried (carry (n + 1) (incrementAt buf n)) = ByteOrder.raise (buf.take (n + 1)) := by
  induction n generalizing buf with
  | zero =>
    rw [carry, getD_incrementAt buf h, take_succ_getD buf h, raise_concat]
    split
    · rfl
    · rw [carried, if_neg (by omega), take_succ_incrementAt buf h]
  | succ n ih =>
    rw [carry, getD_incrementAt buf h, take_succ_getD buf h, raise_concat]
    split
    · have hlen : n < (incrementAt buf (n + 1)).length := by
        rw [incrementAt, List.length_set]
        omega
      rw [if_pos (by omega), Nat.add_sub_cancel, ih hlen,
        take_incrementAt buf (Nat.le_refl (n + 1))]
    · rw [carried, if_neg (by omega), take_succ_incrementAt buf h]

theorem cutMax_eq {maxV : Bytes} (h : boundLength < maxV.length) :
    cutMax maxV = ByteOrder.raise (maxV.take boundLength) :=
  carried_carry (Nat.lt_of_succ_lt h)

/-! ## The bounds -/

/-- `lo` and `hi` are the least and the greatest of the values, in the unsigned lexicographic
order. -/
structure TrueBounds (values : Multiset Bytes) (lo hi : Bytes) : Prop where
  lo_mem : lo ∈ values
  hi_mem : hi ∈ values
  lo_le : ∀ v ∈ values, (compare lo v).isLE
  le_hi : ∀ v ∈ values, (compare v hi).isLE

variable {values : Multiset Bytes} {lo hi : Bytes}

/-- A cut minimum is no greater than the minimum. -/
theorem TrueBounds.cut_le (h : TrueBounds values lo hi) (cuts : Bool) {v : Bytes}
    (hv : v ∈ values) :
    (compare (if cuts then lo.take boundLength else lo) v).isLE := by
  cases cuts with
  | true => exact Std.TransCmp.isLE_trans (ByteOrder.take_le boundLength lo) (h.lo_le v hv)
  | false => exact h.lo_le v hv

/-- A raised maximum is greater than the maximum. -/
theorem TrueBounds.le_cut (h : TrueBounds values lo hi) {cuts : Bool}
    (hcuts : cuts = true → boundLength < hi.length) {q : Bytes}
    (hq : (if cuts then cutMax hi else some hi) = some q) {v : Bytes} (hv : v ∈ values) :
    (compare v q).isLE := by
  cases cuts with
  | true =>
    have hraise : ByteOrder.raise (hi.take boundLength) = some q := by
      rw [← cutMax_eq (hcuts rfl)]
      exact hq
    have hlt := ByteOrder.lt_raise hraise (hi.drop boundLength)
    rw [List.take_append_drop] at hlt
    exact Std.TransCmp.isLE_trans (h.le_hi v hv) (by rw [hlt]; rfl)
  | false =>
    cases hq
    exact h.le_hi v hv

/-- **The footer's bounds bound every value**; a maximum is left out only where the 32 bytes that
would be kept are all 0xFF, and what is called exact is the true bound. -/
theorem footerBounds_bound (h : TrueBounds values lo hi) (variableLen deprecatedOk : Bool)
    {b : FooterBounds} (hb : footerBounds variableLen deprecatedOk lo hi = some b) :
    (∀ v ∈ values, (compare b.minValue v).isLE) ∧
      (∀ q, b.maxValue = some q → ∀ v ∈ values, (compare v q).isLE) ∧
      (b.maxValue = none → boundLength < hi.length ∧ ∀ x ∈ hi.take boundLength, x = 255) ∧
      (b.isMinValueExact = true → b.minValue = lo) ∧
      (b.isMaxValueExact = some true → b.maxValue = some hi) ∧
      (∀ q, b.minDeprecated = some q → q = lo) ∧ ∀ q, b.maxDeprecated = some q → q = hi := by
  unfold footerBounds at hb
  split at hb
  swap
  · cases hb
  have hcuts : (variableLen && decide (boundLength < hi.length)) = true →
      boundLength < hi.length := by simp
  generalize (variableLen && decide (boundLength < lo.length)) = cutsMin at hb
  generalize (variableLen && decide (boundLength < hi.length)) = cutsMax at hb hcuts
  cases hb
  refine ⟨fun v hv => h.cut_le cutsMin hv, fun q hq v hv => h.le_cut hcuts hq hv, fun hnone => ?_,
    fun hexact => ?_, fun hexact => ?_, fun q hq => ?_, fun q hq => ?_⟩
  · cases cutsMax with
    | true =>
      have hlong := hcuts rfl
      exact ⟨hlong, ByteOrder.raise_eq_none_iff.1 (cutMax_eq hlong ▸ hnone)⟩
    | false => cases hnone
  · cases cutsMin with
    | true => cases hexact
    | false => rfl
  · cases cutsMax with
    | true => simp at hexact
    | false => rfl
  · cases cutsMin with
    | true => simp at hq
    | false => simp_all
  · cases cutsMax with
    | true => simp at hq
    | false => simp_all

/-- Forty bytes 0xFF, whose prefix cannot be raised. -/
def allOnes : Bytes := List.replicate 40 255

/-- Such a maximum is left out; behind another byte it is that byte raised. -/
theorem footerBounds_bound_ones :
    (∀ v ∈ ({[1], allOnes} : Multiset Bytes), (compare [1] v).isLE) ∧
      footerBounds true true [1] allOnes = some ⟨[1], true, none, none, some [1], none⟩ ∧
      footerBounds true true [1] (65 :: allOnes) =
        some ⟨[1], true, some [66], some false, some [1], none⟩ :=
  ⟨(@footerBounds_bound {[1], allOnes} [1] allOnes ⟨by decide, by decide, by decide, by decide⟩
    true true ⟨[1], true, none, none, some [1], none⟩ (by decide)).1, by decide, by decide⟩

end Carquet
