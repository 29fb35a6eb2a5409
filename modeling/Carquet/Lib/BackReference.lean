import Mathlib.Data.List.Basic
import Mathlib.Data.Nat.ModEq

/-!
# Back references

A back reference says "the `len` cells from `off` cells ago, once more", and may reach into
itself: with `off < len` it repeats the last `off` cells. `repeatBack` is what it means for a list.

A memory is a function from addresses to cells. `copyBlock` moves a block at once, as one load and
one store do: what it reads is what was there before. Copying a back reference block by block is
right as long as each block was there before it is read (`Repeats.extend`).
-/

namespace BackReference

variable {α : Type}

/-- The last `off` cells over and over, `len` cells in all. -/
def repeatBack (off : Nat) : Nat → List α → List α
  | 0, xs => xs
  | len + 1, xs => repeatBack off len (xs ++ (xs[xs.length - off]?).toList)

theorem length_repeatBack {off : Nat} (hpos : 0 < off) (len : Nat) {xs : List α}
    (hoff : off ≤ xs.length) : (repeatBack off len xs).length = xs.length + len := by
  induction len generalizing xs with
  | zero => rfl
  | succ len ih =>
    have hlt : xs.length - off < xs.length := by omega
    rw [repeatBack, List.getElem?_eq_getElem hlt, Option.toList_some, ih (by simp; omega),
      List.length_append, List.length_singleton]
    omega

/-- A part that occurs `off` cells earlier, too, is a back reference. -/
theorem repeatBack_take (pre : List α) {block : List α} {off len i : Nat} (hpos : 0 < off)
    (hoff : off ≤ i) (hlen : i + len ≤ block.length)
    (h : ∀ k < len, block[i + k]? = block[i + k - off]?) :
    repeatBack off len (pre ++ block.take i) = pre ++ block.take (i + len) := by
  induction len generalizing i with
  | zero => rfl
  | succ len ih =>
    have hi : i < block.length := by omega
    have hcell : (pre ++ block.take i)[(pre ++ block.take i).length - off]? = some block[i] := by
      have hlength : (pre ++ block.take i).length = pre.length + i := by
        rw [List.length_append, List.length_take, Nat.min_eq_left (by omega)]
      rw [hlength, List.getElem?_append_right (by omega),
        show pre.length + i - off - pre.length = i - off by omega,
        List.getElem?_take_of_lt (by omega)]
      have := h 0 (by omega)
      rw [Nat.add_zero] at this
      rw [← this, List.getElem?_eq_getElem hi]
    rw [repeatBack, hcell, Option.toList_some, List.append_assoc,
      List.take_append_getElem hi, ih (by omega) (by omega) fun k hk => ?_]
    · rw [Nat.add_right_comm, Nat.add_assoc]
    · have := h (k + 1) (by omega)
      rwa [show i + (k + 1) = i + 1 + k by omega] at this

/-! ## Memories -/

/-- The first `n` cells. -/
def cells (m : Nat → α) (n : Nat) : List α := (List.range n).map m

@[simp] theorem length_cells (m : Nat → α) (n : Nat) : (cells m n).length = n := by
  simp [cells]

theorem cells_succ (m : Nat → α) (n : Nat) : cells m (n + 1) = cells m n ++ [m n] := by
  simp [cells, List.range_succ]

theorem cells_congr {m m' : Nat → α} {n : Nat} (h : ∀ j < n, m' j = m j) :
    cells m' n = cells m n :=
  List.map_congr_left fun j hj => h j (List.mem_range.mp hj)

theorem cell_eq_of_cells {m m' : Nat → α} {n j : Nat} (h : cells m' n = cells m n) (hj : j < n) :
    m' j = m j := by
  have hget := congrArg (·[j]?) h
  simp only [cells, List.getElem?_map, List.getElem?_range hj, Option.map_some] at hget
  exact Option.some.inj hget

/-- What is written from `dst` on; the rest of the memory stays. -/
def writeBytes (bytes : List α) (dst : Nat) (m : Nat → α) : Nat → α := fun j =>
  if dst ≤ j then bytes.getD (j - dst) (m j) else m j

/-- One load of `n` cells at `src` and one store at `dst`. -/
def copyBlock (n src dst : Nat) (m : Nat → α) : Nat → α := fun j =>
  if dst ≤ j ∧ j < dst + n then m (src + (j - dst)) else m j

theorem writeBytes_of_lt {bytes : List α} {dst j : Nat} {m : Nat → α} (h : j < dst) :
    writeBytes bytes dst m j = m j := if_neg (Nat.not_le.mpr h)

theorem copyBlock_of_lt {n src dst j : Nat} {m : Nat → α} (h : j < dst) :
    copyBlock n src dst m j = m j := if_neg (by omega)

theorem cells_writeBytes {bytes : List α} {dst : Nat} {m : Nat → α} {n : Nat}
    (h : n ≤ bytes.length) :
    cells (writeBytes bytes dst m) (dst + n) = cells m dst ++ bytes.take n := by
  induction n with
  | zero =>
    rw [Nat.add_zero, cells_congr fun j hj => writeBytes_of_lt hj]
    simp
  | succ n ih =>
    have hn : n < bytes.length := by omega
    have hcell : writeBytes bytes dst m (dst + n) = bytes[n] := by
      simp [writeBytes, hn]
    rw [← Nat.add_assoc, cells_succ, ih (by omega), hcell, List.append_assoc,
      List.take_append_getElem hn]

/-- From `base` on, `len` cells have the period `p`. -/
def Repeats (m : Nat → α) (base p len : Nat) : Prop :=
  ∀ k < len, m (base + k) = m (base + k % p)

theorem Repeats.of_le (m : Nat → α) (base p : Nat) : Repeats m base p p :=
  fun _ hk => by rw [Nat.mod_eq_of_lt hk]

theorem Repeats.mono {m : Nat → α} {base p len len' : Nat} (h : Repeats m base p len)
    (hle : len' ≤ len) : Repeats m base p len' := fun k hk => h k (Nat.lt_of_lt_of_le hk hle)

/-- What lies beyond the cells does not matter. -/
theorem Repeats.congr {m m' : Nat → α} {base p len : Nat} (h : Repeats m base p len)
    (hagree : ∀ j < base + len, m' j = m j) : Repeats m' base p len := by
  intro k hk
  have := Nat.mod_le k p
  rw [hagree _ (by omega), hagree _ (by omega), h k hk]

/-- **One more block**: of the `N` cells that are copied, those are right that were there before.
The gap is a multiple of the period. -/
theorem Repeats.extend {m : Nat → α} {base p len gap n N : Nat} (h : Repeats m base p len)
    (hp : 0 < p) (hple : p ≤ len) (hgap : p ∣ gap) (hle : gap ≤ len) (hn : n ≤ gap) (hN : n ≤ N) :
    Repeats (copyBlock N (base + len - gap) (base + len) m) base p (len + n) := by
  intro k hk
  have hmod := Nat.mod_lt k hp
  rw [copyBlock_of_lt (j := base + k % p) (by omega)]
  by_cases hlt : k < len
  · rw [copyBlock_of_lt (by omega), h k hlt]
  · obtain ⟨q, rfl⟩ := hgap
    have hcell : copyBlock N (base + len - p * q) (base + len) m (base + k) =
        m (base + (k - p * q)) := by
      unfold copyBlock
      rw [if_pos (by omega)]
      congr 1
      omega
    rw [hcell, h _ (by omega)]
    congr 2
    rw [Nat.sub_mul_mod (by omega)]

/-- **A back reference that was copied.** -/
theorem Repeats.cells_eq {m m' : Nat → α} {base off len : Nat} (h : Repeats m' base off (off + len))
    (hoff : 0 < off) (hagree : ∀ j < base + off, m' j = m j) :
    cells m' (base + off + len) = repeatBack off len (cells m (base + off)) := by
  rw [← cells_congr hagree]
  have hstep : ∀ n ≤ len, repeatBack off len (cells m' (base + off)) =
      repeatBack off (len - n) (cells m' (base + off + n)) := by
    intro n hn
    induction n with
    | zero => rfl
    | succ n ih =>
      rw [ih (by omega), show len - n = len - (n + 1) + 1 by omega, repeatBack]
      have hcell : (cells m' (base + off + n))[
          (cells m' (base + off + n)).length - off]? =
            some (m' (base + off + n)) := by
        have hback : m' (base + off + n) = m' (base + n) := by
          rw [Nat.add_assoc, h (off + n) (by omega), h n (by omega), Nat.add_mod_left]
        rw [length_cells, show base + off + n - off = base + n by omega, hback]
        simp only [cells, List.getElem?_map]
        rw [List.getElem?_range (by omega)]
        rfl
      rw [hcell, Option.toList_some, ← cells_succ]
      rfl
  have := hstep len (Nat.le_refl len)
  rw [Nat.sub_self] at this
  exact this.symm

/-! ## A copy under way -/

/-- A back reference of offset `off` is copied to `base + off`: what was there before the copy
stays, and from `base` on `len` cells have the period. -/
structure Copied (m : Nat → α) (base off len : Nat) (m' : Nat → α) : Prop where
  before : ∀ j < base + off, m' j = m j
  repeats : Repeats m' base off len

namespace Copied

variable {m m' m'' : Nat → α} {base off len : Nat}

theorem start (m : Nat → α) (base off : Nat) : Copied m base off off m where
  before _ _ := rfl
  repeats := Repeats.of_le m base off

theorem mono (h : Copied m base off len m') {len' : Nat} (hle : len' ≤ len) :
    Copied m base off len' m' where
  before := h.before
  repeats := h.repeats.mono hle

/-- What is stored beyond the cells that are right does no harm. -/
theorem beyond (h : Copied m base off len m') (hle : off ≤ len)
    (hagree : ∀ j < base + len, m'' j = m' j) : Copied m base off len m'' where
  before j hj := by rw [hagree j (by omega), h.before j hj]
  repeats := h.repeats.congr hagree

/-- **One more block**, copied over a gap that is a multiple of the period. -/
theorem block (h : Copied m base off len m') (hoff : 0 < off) (hle : off ≤ len)
    {gap n N src op : Nat} (hsrc : src + gap = op) (hop : op = base + len) (hdvd : off ∣ gap)
    (hgap : gap ≤ len) (hn : n ≤ gap) (hN : n ≤ N) :
    Copied m base off (len + n) (copyBlock N src op m') := by
  obtain rfl : src = base + len - gap := by omega
  subst hop
  exact
    { before := fun j hj => by rw [copyBlock_of_lt (by omega), h.before j hj]
      repeats := h.repeats.extend hoff hle hdvd hgap hn hN }

/-- One more piece of the period, stored as it is. -/
theorem bytes (h : Copied m base off len m') (hoff : 0 < off) (hle : off ≤ len)
    (bytes : List α) {op : Nat} (hop : op = base + len)
    (hbytes : ∀ k (hk : k < bytes.length), bytes[k] = m (base + (len + k) % off)) :
    Copied m base off (len + bytes.length) (writeBytes bytes op m') := by
  subst hop
  refine ⟨fun j hj => by rw [writeBytes_of_lt (by omega), h.before j hj], fun k hk => ?_⟩
  have hmod := Nat.mod_lt k hoff
  rw [writeBytes_of_lt (j := base + k % off) (by omega)]
  by_cases hlt : k < len
  · rw [writeBytes_of_lt (by omega), h.repeats k hlt]
  · have hk' : k - len < bytes.length := by omega
    have hcell : writeBytes bytes (base + len) m' (base + k) = bytes[k - len] := by
      simp [writeBytes, show base + len ≤ base + k by omega,
        show base + k - (base + len) = k - len by omega, hk']
    rw [hcell, hbytes _ hk', h.before _ (by omega)]
    congr 3
    omega

/-- **The back reference, when it was copied.** -/
theorem cells_eq (h : Copied m base off (off + len) m') (hoff : 0 < off) :
    cells m' (base + off + len) = repeatBack off len (cells m (base + off)) :=
  h.repeats.cells_eq hoff h.before

end Copied

end BackReference
