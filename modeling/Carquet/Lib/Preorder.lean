import Mathlib.Algebra.BigOperators.Group.Finset.Piecewise
import Mathlib.Algebra.Order.BigOperators.Group.Finset
import Mathlib.Data.Nat.Count

/-!
# Trees listed in preorder

A rooted tree on `0, …, n - 1` is given by the parent `p k` of every node `0 < k`, with
`p k < k`: nodes are numbered in some order in which parents come first. A list of child counts
read as a depth-first traversal also gives a tree: each node goes under the latest one that still
lacks children (`Reads`). `reads_iff_depthFirst` says for which numberings the two agree, and
`exists_leaf_deeper` that otherwise some leaf lies deeper in the tree read than in the one meant.
-/

namespace Preorder

variable {n : Nat} {c : Nat → Nat} {p q : Nat → Nat}

/-- The children of `j` among the nodes below `k`. -/
def used (q : Nat → Nat) (j k : Nat) : Nat := Nat.count (fun m => 0 < m ∧ q m = j) k

/-- When node `k` is placed, `j` still lacks a child. -/
def Open (c q : Nat → Nat) (j k : Nat) : Prop := j < k ∧ used q j k < c j

/-- `q` is the tree that a depth-first reading of the child counts `c` yields. -/
def Reads (n : Nat) (c q : Nat → Nat) : Prop :=
  ∀ k, 0 < k → k < n → Open c q (q k) k ∧ ∀ j, Open c q j k → j ≤ q k

/-- Once a node was placed under an earlier one, no node in between gets a further child. -/
def DepthFirst (n : Nat) (p : Nat → Nat) : Prop :=
  ∀ k l, 0 < k → k < l → l < n → p l < k → p l ≤ p k

/-- Parents come first, and `c` counts the children. -/
structure Tree (n : Nat) (c p : Nat → Nat) : Prop where
  lt : ∀ k, 0 < k → p k < k
  count : ∀ j, j < n → c j = used p j n

theorem used_congr {j k : Nat} (h : ∀ m, 0 < m → m < k → p m = q m) : used p j k = used q j k := by
  unfold used
  induction k with
  | zero => rfl
  | succ k ih =>
    rw [Nat.count_succ, Nat.count_succ, ih fun m h0 hm => h m h0 (Nat.lt_succ_of_lt hm)]
    rcases Nat.eq_zero_or_pos k with rfl | hk
    · simp
    · rw [h k hk (Nat.lt_succ_self k)]

theorem used_mono (q : Nat → Nat) (j : Nat) {k l : Nat} (h : k ≤ l) : used q j k ≤ used q j l :=
  Nat.count_monotone _ h

/-- A node placed later leaves its parent open before. -/
theorem used_lt {j k l m : Nat} (hm : 0 < m) (hk : k ≤ m) (hl : m < l) (hq : q m = j) :
    used q j k < used q j l := by
  have hstep : used q j (m + 1) = used q j m + 1 := by
    unfold used
    rw [Nat.count_succ, if_pos ⟨hm, hq⟩]
  have h1 := used_mono q j hk
  have h2 := used_mono q j (show m + 1 ≤ l from hl)
  omega

/-- An open node gets its missing child later. -/
theorem exists_child {j k l : Nat} (h : used q j k < used q j l) :
    ∃ m, k ≤ m ∧ m < l ∧ 0 < m ∧ q m = j := by
  induction l with
  | zero => exact absurd h (by simp [used])
  | succ l ih =>
    by_cases hl : 0 < l ∧ q l = j
    · rcases Nat.lt_or_ge l k with hk | hk
      · have := used_mono q j (show l + 1 ≤ k from hk)
        omega
      · exact ⟨l, hk, Nat.lt_succ_self l, hl.1, hl.2⟩
    · have heq : used q j (l + 1) = used q j l := by
        unfold used
        rw [Nat.count_succ, if_neg hl, Nat.add_zero]
      obtain ⟨m, h1, h2, h3⟩ := ih (heq ▸ h)
      exact ⟨m, h1, Nat.lt_succ_of_lt h2, h3⟩

/-- The tree read is determined by the counts. -/
theorem Reads.unique (hp : Reads n c p) (hq : Reads n c q) {k : Nat} (hk : 0 < k) (hn : k < n) :
    p k = q k := by
  induction k using Nat.strong_induction_on with
  | _ k ih =>
    have hcongr (j : Nat) : used p j k = used q j k :=
      used_congr fun m h0 hm => ih m hm h0 (by omega)
    obtain ⟨⟨hp1, hp2⟩, hp3⟩ := hp k hk hn
    obtain ⟨⟨hq1, hq2⟩, hq3⟩ := hq k hk hn
    refine Nat.le_antisymm (hq3 _ ⟨hp1, ?_⟩) (hp3 _ ⟨hq1, ?_⟩)
    · rwa [← hcongr]
    · rwa [hcongr]

/-- **A tree is read as it was meant exactly when it is numbered depth first.** -/
theorem reads_iff_depthFirst (h : Tree n c p) : Reads n c p ↔ DepthFirst n p := by
  constructor
  · intro hr k l hk hkl hl hpl
    refine (hr k hk (by omega)).2 _ ⟨hpl, ?_⟩
    rw [h.count _ (by omega)]
    exact used_lt (by omega) (Nat.le_of_lt hkl) hl rfl
  · intro hd k hk hn
    have hlt := h.lt k hk
    refine ⟨⟨hlt, ?_⟩, ?_⟩
    · rw [h.count _ (by omega)]
      exact used_lt hk (Nat.le_refl k) hn rfl
    · rintro j ⟨hj, hopen⟩
      rw [h.count j (by omega)] at hopen
      obtain ⟨m, hkm, hmn, hm, rfl⟩ := exists_child hopen
      rcases Nat.eq_or_lt_of_le hkm with rfl | hkm
      · exact Nat.le_refl _
      · exact hd k m hk hkm hmn hj

/-- Counted by their parents, the nodes below `l` with a parent below `i`. -/
theorem sum_used (q : Nat → Nat) (i l : Nat) :
    ∑ j ∈ Finset.range i, used q j l = Nat.count (fun m => 0 < m ∧ q m < i) l := by
  induction l with
  | zero => simp [used]
  | succ l ih =>
    have hstep (j : Nat) : used q j (l + 1) = used q j l + if 0 < l ∧ q l = j then 1 else 0 :=
      Nat.count_succ _ _
    simp only [hstep, Finset.sum_add_distrib, ih, Nat.count_succ]
    congr 1
    by_cases hl : 0 < l
    · simp [hl, Finset.sum_ite_eq]
    · simp [hl]

/-- While nodes are left to be placed, some earlier one is open. -/
theorem exists_open (hp : Tree n c p) (hq : ∀ k, 0 < k → q k < k) {i : Nat} (hi : 0 < i)
    (hn : i < n) : ∃ j, Open c q j i := by
  by_contra hnone
  have hfull : ∀ j ∈ Finset.range i, used p j n ≤ used q j i := by
    intro j hj
    have hj := Finset.mem_range.mp hj
    rw [← hp.count j (by omega)]
    exact Nat.le_of_not_lt fun h => hnone ⟨j, hj, h⟩
  have hsum := Finset.sum_le_sum hfull
  rw [sum_used, sum_used] at hsum
  have hall (r : Nat → Nat) (hr : ∀ k, 0 < k → r k < k) (l : Nat) (hl : l ≤ i) :
      Nat.count (fun m => 0 < m ∧ r m < i) (l + 1) = l := by
    induction l with
    | zero => simp [Nat.count_succ]
    | succ l ih =>
      have := hr (l + 1) (by omega)
      rw [Nat.count_succ, ih (by omega), if_pos ⟨by omega, by omega⟩]
  have h1 := hall p hp.lt i (Nat.le_refl i)
  have h2 := hall q hq (i - 1) (Nat.sub_le i 1)
  rw [Nat.sub_add_cancel hi] at h2
  have h3 := Nat.count_monotone (fun m => 0 < m ∧ p m < i) (show i + 1 ≤ n from hn)
  omega

/-! ## Paths to the root -/

/-- The nodes from `i` up to, and without, the root; `i` steps suffice. -/
def pathUp (q : Nat → Nat) : Nat → Nat → List Nat
  | 0, _ => []
  | fuel + 1, i => if i = 0 then [] else i :: pathUp q fuel (q i)

def depth (q : Nat → Nat) (i : Nat) : Nat := (pathUp q i i).length

theorem pathUp_fuel (hq : ∀ k, 0 < k → q k < k) {fuel i : Nat} (h : i ≤ fuel) :
    pathUp q fuel i = pathUp q i i := by
  induction fuel using Nat.strong_induction_on generalizing i with
  | _ fuel ih =>
    rcases Nat.eq_zero_or_pos i with rfl | hi
    · cases fuel <;> simp [pathUp]
    · obtain ⟨f, rfl⟩ : ∃ f, fuel = f + 1 := ⟨fuel - 1, by omega⟩
      obtain ⟨i', rfl⟩ : ∃ i', i = i' + 1 := ⟨i - 1, by omega⟩
      have hlt := hq (i' + 1) hi
      rw [pathUp, pathUp, if_neg (by omega), if_neg (by omega),
        ih f (Nat.lt_succ_self f) (i := q (i' + 1)) (by omega)]
      rcases Nat.eq_or_lt_of_le (show i' ≤ f by omega) with rfl | hf
      · rw [ih i' (Nat.lt_succ_self i') (i := q (i' + 1)) (by omega)]
      · rw [ih i' (by omega) (i := q (i' + 1)) (by omega)]

theorem pathUp_pos (hq : ∀ k, 0 < k → q k < k) {i : Nat} (hi : 0 < i) :
    pathUp q i i = i :: pathUp q (q i) (q i) := by
  obtain ⟨i', rfl⟩ : ∃ i', i = i' + 1 := ⟨i - 1, by omega⟩
  have hlt := hq (i' + 1) hi
  rw [pathUp, if_neg (by omega), pathUp_fuel hq (by omega)]

theorem depth_pos (hq : ∀ k, 0 < k → q k < k) {i : Nat} (hi : 0 < i) :
    depth q i = depth q (q i) + 1 := by
  rw [depth, pathUp_pos hq hi, List.length_cons, depth]

theorem pathUp_congr (hp : ∀ k, 0 < k → p k < k) (hq : ∀ k, 0 < k → q k < k) {k i : Nat}
    (h : ∀ m, 0 < m → m < k → p m = q m) (hi : i < k) : pathUp p i i = pathUp q i i := by
  induction i using Nat.strong_induction_on with
  | _ i ih =>
    rcases Nat.eq_zero_or_pos i with rfl | hpos
    · rfl
    · have hlt := hq i hpos
      rw [pathUp_pos hp hpos, pathUp_pos hq hpos, h i hpos hi, ih _ hlt (by omega)]

theorem depth_congr (hp : ∀ k, 0 < k → p k < k) (hq : ∀ k, 0 < k → q k < k) {k i : Nat}
    (h : ∀ m, 0 < m → m < k → p m = q m) (hi : i < k) : depth p i = depth q i := by
  rw [depth, depth, pathUp_congr hp hq h hi]

/-! ## A tree read differently -/

/-- Of two open nodes the later one lies deeper. -/
theorem depth_lt_of_open (hq : Reads n c q) (hlt : ∀ k, 0 < k → q k < k) {i j k : Nat}
    (hk : k ≤ n) (hi : Open c q i k) (hj : Open c q j k) (hij : i < j) :
    depth q i < depth q j := by
  induction j using Nat.strong_induction_on generalizing k with
  | _ j ih =>
    have hpos : 0 < j := by omega
    have hjn : j < n := by have := hj.1; omega
    have hopen : Open c q i j := ⟨hij, Nat.lt_of_le_of_lt (used_mono q i (Nat.le_of_lt hj.1)) hi.2⟩
    obtain ⟨hpar, hmax⟩ := hq j hpos hjn
    have hle := hmax i hopen
    rw [depth_pos hlt hpos]
    rcases Nat.eq_or_lt_of_le hle with heq | hilt
    · rw [← heq]
      omega
    · have := ih (q j) (hlt j hpos) (Nat.le_of_lt hjn) hopen hpar hilt
      omega

/-- Only later nodes are children. -/
theorem used_self (hlt : ∀ k, 0 < k → q k < k) (i : Nat) : used q i (i + 1) = 0 := by
  by_contra hne
  have h0 : used q i 0 = 0 := by simp [used]
  obtain ⟨m, -, hm, hpos, hq⟩ := exists_child (show used q i 0 < used q i (i + 1) by omega)
  have := hlt m hpos
  omega

/-- The parent of the node meant is open for the reader too as long as they agreed. -/
theorem Tree.open_of_agree (hp : Tree n c p) {k l : Nat} (hk : k ≤ l) (hl : l < n) (hl0 : 0 < l)
    (hagree : ∀ m, 0 < m → m < k → p m = q m) (hpl : p l < k) : Open c q (p l) k := by
  refine ⟨hpl, ?_⟩
  rw [← used_congr hagree, hp.count _ (by omega)]
  exact used_lt hl0 hk hl rfl

/-- From the first difference on, as long as no leaf is met, the reader goes down one level a
node, while the tree meant stays above. -/
theorem depths_after_difference (hp : Tree n c p) (hq : Reads n c q)
    (hlt : ∀ k, 0 < k → q k < k) {k : Nat} (hk : 0 < k)
    (hagree : ∀ m, 0 < m → m < k → p m = q m) (hne : p k ≠ q k) {i : Nat} (hki : k ≤ i)
    (hin : i < n) (hgroups : ∀ m, k ≤ m → m < i → c m ≠ 0) :
    depth q i = depth q (q k) + 1 + (i - k) ∧ depth p i ≤ depth q (q k) + (i - k) := by
  -- parents from before the difference are no deeper than the reader's
  have hshallow : ∀ l, k ≤ l → l < n → p l < k → depth p (p l) ≤ depth q (q k) := by
    intro l hkl hln hpl
    have hopen := hp.open_of_agree hkl hln (by omega) hagree hpl
    rw [depth_congr hp.lt hlt hagree hpl]
    obtain ⟨hread, hmax⟩ := hq k hk (by omega)
    rcases Nat.eq_or_lt_of_le (hmax _ hopen) with heq | hless
    · rw [heq]
    · exact Nat.le_of_lt (depth_lt_of_open hq hlt (by omega) hopen hread hless)
  induction i using Nat.strong_induction_on with
  | _ i ih =>
    rcases Nat.eq_or_lt_of_le hki with rfl | hlti
    · refine ⟨by rw [depth_pos hlt hk]; omega, ?_⟩
      have hopen := hp.open_of_agree (Nat.le_refl k) hin hk hagree (hp.lt k hk)
      obtain ⟨hread, hmax⟩ := hq k hk hin
      have hless := Nat.lt_of_le_of_ne (hmax _ hopen) hne
      have hd := depth_lt_of_open hq hlt (Nat.le_of_lt hin) hopen hread hless
      rw [depth_pos hp.lt hk, depth_congr hp.lt hlt hagree (hp.lt k hk)]
      omega
    · obtain ⟨i, rfl⟩ : ∃ i', i = i' + 1 := ⟨i - 1, by omega⟩
      have hprev := ih i (Nat.lt_succ_self i) (by omega) (by omega)
        fun m h1 h2 => hgroups m h1 (by omega)
      have hq' : q (i + 1) = i := by
        have hopen : Open c q i (i + 1) := by
          refine ⟨Nat.lt_succ_self i, ?_⟩
          rw [used_self hlt]
          exact Nat.pos_of_ne_zero (hgroups i (by omega) (Nat.lt_succ_self i))
        have h1 := (hq (i + 1) (by omega) hin).2 i hopen
        have h2 := hlt (i + 1) (by omega)
        omega
      refine ⟨by rw [depth_pos hlt (by omega), hq', hprev.1]; omega, ?_⟩
      rw [depth_pos hp.lt (by omega)]
      have hpi := hp.lt (i + 1) (by omega)
      rcases Nat.lt_or_ge (p (i + 1)) k with hbefore | hafter
      · have := hshallow (i + 1) (by omega) hin hbefore
        omega
      · have := (ih (p (i + 1)) hpi hafter (by omega) fun m h1 h2 => hgroups m h1 (by omega)).2
        omega

/-- **A tree that is not read as it was meant has a leaf that is read too deep.** -/
theorem exists_leaf_deeper (hp : Tree n c p) (hq : Reads n c q) (hlt : ∀ k, 0 < k → q k < k)
    (hne : ∃ k, 0 < k ∧ k < n ∧ p k ≠ q k) :
    ∃ j, 0 < j ∧ j < n ∧ c j = 0 ∧ depth p j < depth q j := by
  classical
  obtain ⟨hk, hkn, hdiff⟩ := Nat.find_spec hne
  have hfirst : ∀ m, 0 < m → m < Nat.find hne → p m = q m := fun m h0 hm => by
    by_contra hm'
    exact Nat.find_min hne hm ⟨h0, by omega, hm'⟩
  generalize Nat.find hne = k at hk hkn hdiff hfirst
  -- the last node is a leaf, so there is a first one from the difference on
  have hlast : ∃ j, k ≤ j ∧ j < n ∧ c j = 0 := by
    refine ⟨n - 1, by omega, by omega, ?_⟩
    have h0 := used_self hp.lt (n - 1)
    rwa [Nat.sub_add_cancel (by omega), ← hp.count _ (by omega)] at h0
  obtain ⟨hkj, hjn, hleaf⟩ := Nat.find_spec hlast
  have hgroups : ∀ m, k ≤ m → m < Nat.find hlast → c m ≠ 0 := fun m h1 h2 h0 =>
    Nat.find_min hlast h2 ⟨h1, by omega, h0⟩
  have hd := depths_after_difference hp hq hlt hk hfirst hdiff hkj hjn hgroups
  exact ⟨Nat.find hlast, by omega, hjn, hleaf, by omega⟩

end Preorder
