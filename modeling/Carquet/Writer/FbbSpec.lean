import Carquet.Lib.FlatBuffer
import Carquet.Writer.ArrowSchema

/-!
# What the FlatBuffer builder builds

The builder of src/writer/arrow_schema.c:33-202 against the wire rules. Every operation puts bytes
in front of the live ones, whatever the buffer has room for (`puts_put`, `puts_prep`): growing it
changes nothing that can be seen. So an object stays where it is from the end, and a string, a table
or a vector is one of the wire rules (`createString_spec`, `isTable_buildTable`, `vector_spec`).
-/

namespace Carquet

open LittleEndian FlatBuffer

namespace Fbb

/-! ## Growth is not seen -/

section Growth

variable (b : Fbb)

@[simp] theorem live_growTo (need fuel : Nat) : (growTo need fuel b).live = b.live := by
  induction fuel generalizing b with
  | zero => rfl
  | succ fuel ih =>
    rw [growTo]
    split
    · exact ih b.grow
    · rfl

@[simp] theorem live_makeRoom (need : Nat) : (b.makeRoom need).live = b.live := live_growTo ..

@[simp] theorem live_put (bs : Bytes) : (b.put bs).live = bs ++ b.live := by
  show bs ++ (b.makeRoom bs.length).live = _
  rw [live_makeRoom]

end Growth

/-- Bytes were put in front, at an alignment of `align`; nothing else changed. -/
structure Puts (b b' : Fbb) (front : Bytes) (align : Nat) : Prop where
  live : b'.live = front ++ b.live
  vtable : b'.vtable = b.vtable
  objectEnd : b'.objectEnd = b.objectEnd
  minalign : b'.minalign = max b.minalign align

theorem Puts.trans {b b' b'' : Fbb} {front front' : Bytes} {align align' : Nat}
    (h : Puts b b' front align) (h' : Puts b' b'' front' align') :
    Puts b b'' (front' ++ front) (max align align') where
  live := by rw [h'.live, h.live, List.append_assoc]
  vtable := h'.vtable.trans h.vtable
  objectEnd := h'.objectEnd.trans h.objectEnd
  minalign := by rw [h'.minalign, h.minalign, Nat.max_assoc]

theorem puts_makeRoom (b : Fbb) (need : Nat) : Puts b (b.makeRoom need) [] 0 := by
  have hgrow : ∀ (fuel : Nat) (b : Fbb), (growTo need fuel b).vtable = b.vtable ∧
      (growTo need fuel b).objectEnd = b.objectEnd ∧
      (growTo need fuel b).minalign = b.minalign := by
    intro fuel
    induction fuel with
    | zero => exact fun b => ⟨rfl, rfl, rfl⟩
    | succ fuel ih =>
      intro b
      rw [growTo]
      split
      · exact ih b.grow
      · exact ⟨rfl, rfl, rfl⟩
  obtain ⟨hvtable, hend, hmin⟩ := hgrow need b
  exact ⟨live_makeRoom b need, hvtable, hend, hmin.trans (Nat.max_zero _).symm⟩

theorem puts_put (b : Fbb) (bs : Bytes) : Puts b (b.put bs) bs 0 := by
  have h := puts_makeRoom b bs.length
  exact ⟨live_put b bs, h.vtable, h.objectEnd, h.minalign⟩

theorem puts_pad (n : Nat) (b : Fbb) : Puts b (pad n b) (List.replicate n 0) 0 := by
  induction n generalizing b with
  | zero => exact ⟨rfl, rfl, rfl, (Nat.max_zero _).symm⟩
  | succ n ih =>
    have h := (puts_put b [0]).trans (ih (b.put [0]))
    rwa [← List.replicate_succ'] at h

/-! ## Alignment -/

/-- The sizes that are aligned to. -/
def Size (size : Nat) : Prop := size = 1 ∨ size = 2 ∨ size = 4

theorem alignSize_spec (used : Nat) {size : Nat} (h : Size size) :
    size ∣ used + alignSize used size ∧ alignSize used size < size := by
  have hmod : ∀ k, size = 2 ^ k → (2 ^ 64 - used % 2 ^ 64) &&& (size - 1) =
      (2 ^ 64 - used % 2 ^ 64) % size := by
    intro k hk
    rw [hk, Nat.and_two_pow_sub_one_eq_mod]
  unfold alignSize
  rcases h with rfl | rfl | rfl
  · rw [hmod 0 rfl]
    omega
  · rw [hmod 1 rfl]
    omega
  · rw [hmod 2 rfl]
    omega

theorem puts_prep (b : Fbb) (size additional : Nat) :
    Puts b (b.prep size additional)
      (List.replicate (alignSize (b.live.length + additional) size) 0) size := by
  have haligned : ∀ (b' : Fbb) (need n : Nat),
      Puts b' (pad n (b'.makeRoom need)) (List.replicate n 0) 0 := by
    intro b' need n
    have h := (puts_makeRoom b' need).trans (puts_pad n (b'.makeRoom need))
    rwa [List.append_nil] at h
  unfold prep
  by_cases hmin : b.minalign < size
  · have h := haligned { b with minalign := size }
      (alignSize (b.live.length + additional) size + size + additional)
      (alignSize (b.live.length + additional) size)
    rw [if_pos hmin]
    refine ⟨h.live, h.vtable, h.objectEnd, h.minalign.trans ?_⟩
    rw [Nat.max_zero, Nat.max_eq_right (Nat.le_of_lt hmin)]
  · have h := haligned b (alignSize (b.live.length + additional) size + size + additional)
      (alignSize (b.live.length + additional) size)
    rw [if_neg hmin]
    refine ⟨h.live, h.vtable, h.objectEnd, h.minalign.trans ?_⟩
    rw [Nat.max_zero, Nat.max_eq_left (Nat.le_of_not_lt hmin)]

/-- **Preparing pads** until what is put next ends up aligned. -/
theorem prep_spec (b : Fbb) {size : Nat} (additional : Nat) (h : Size size) :
    ∃ n, n < size ∧ size ∣ b.live.length + n + additional ∧
      Puts b (b.prep size additional) (List.replicate n 0) size := by
  obtain ⟨hdvd, hlt⟩ := alignSize_spec (b.live.length + additional) h
  refine ⟨_, hlt, ?_, puts_prep b size additional⟩
  rwa [Nat.add_right_comm]

/-- A scalar, aligned to its width. -/
theorem scalar_spec (b : Fbb) {width : Nat} (v : Nat) (h : Size width) :
    ∃ n, n < width ∧ width ∣ ((b.prep width 0).put (leBytes width v)).live.length ∧
      Puts b ((b.prep width 0).put (leBytes width v)) (leBytes width v ++ List.replicate n 0)
        width := by
  obtain ⟨n, hn, hdvd, hprep⟩ := b.prep_spec 0 h
  have hputs := hprep.trans (puts_put (b.prep width 0) (leBytes width v))
  rw [Nat.max_zero] at hputs
  refine ⟨n, hn, ?_, hputs⟩
  rw [hputs.live]
  simp only [List.length_append, length_leBytes, List.length_replicate]
  rw [show width + n + b.live.length = b.live.length + n + 0 + width by omega]
  exact Nat.dvd_add hdvd (Nat.dvd_refl _)

/-! ## Strings and references -/

theorem createString_spec (b : Fbb) (s : Bytes) :
    ∃ front, Puts b (b.createString s).2 front 4 ∧
      IsString (b.createString s).2.live (b.createString s).1 s ∧
      (b.createString s).1 = (b.createString s).2.live.length := by
  obtain ⟨n, hn, hdvd, hprep⟩ := b.prep_spec (s.length + 1) (.inr (.inr rfl))
  have hputs := ((hprep.trans (puts_put _ (leBytes 1 0))).trans (puts_put _ s)).trans
    (puts_put _ (leBytes 4 s.length))
  have hlive : (b.createString s).2.live =
      (leBytes 4 s.length ++ (s ++ [0])) ++ (List.replicate n 0 ++ b.live) := by
    rw [show (b.createString s).2.live = _ from hputs.live, show leBytes 1 0 = [0] from rfl]
    simp only [List.append_assoc]
  have hat := at_append (leBytes 4 s.length ++ (s ++ [0])) (List.replicate n 0 ++ b.live)
  rw [← hlive] at hat
  have hlength : (b.createString s).2.live.length =
      (leBytes 4 s.length ++ (s ++ [0])).length + (List.replicate n 0 ++ b.live).length := by
    rw [hlive, List.length_append]
  refine ⟨_, hputs, ⟨?_, ?_⟩, rfl⟩
  · rw [← hlength] at hat
    exact hat
  · show 4 ∣ (b.createString s).2.live.length
    rw [hlength]
    simp only [List.length_append, length_leBytes, List.length_replicate, List.length_singleton]
    omega

theorem length_createString (b : Fbb) (s : Bytes) :
    4 ∣ (b.createString s).2.live.length ∧
      b.live.length + s.length + 5 ≤ (b.createString s).2.live.length ∧
      (b.createString s).2.live.length < b.live.length + s.length + 9 := by
  obtain ⟨n, hn, hdvd, hprep⟩ := b.prep_spec (s.length + 1) (.inr (.inr rfl))
  have hputs := ((hprep.trans (puts_put _ (leBytes 1 0))).trans (puts_put _ s)).trans
    (puts_put _ (leBytes 4 s.length))
  have hlength : (b.createString s).2.live.length = n + b.live.length + 1 + s.length + 4 := by
    rw [show (b.createString s).2.live = _ from hputs.live]
    simp only [List.length_append, length_leBytes, List.length_replicate]
    omega
  refine ⟨?_, ?_, ?_⟩
  · rw [hlength]
    omega
  · omega
  · omega

theorem prependUoffset_spec (b : Fbb) {off : Nat} (hoff : off ≤ b.live.length) :
    ∃ n, n < 4 ∧ 4 ∣ (b.prependUoffset off).live.length ∧
      Puts b (b.prependUoffset off)
        (leBytes 4 ((b.prependUoffset off).live.length - off) ++ List.replicate n 0) 4 := by
  obtain ⟨n, hn, hdvd, hprep⟩ := b.prep_spec 0 (.inr (.inr rfl))
  have hlen : (b.prep 4 0).live.length = n + b.live.length := by
    rw [hprep.live, List.length_append, List.length_replicate]
  have hputs := hprep.trans (puts_put (b.prep 4 0) (leBytes 4 ((b.prep 4 0).offset - off + 4)))
  have hlength : (b.prependUoffset off).live.length = 4 + n + b.live.length := by
    rw [show (b.prependUoffset off).live = _ from hputs.live]
    simp only [List.length_append, length_leBytes, List.length_replicate]
  have hvalue : (b.prep 4 0).offset - off + 4 = (b.prependUoffset off).live.length - off := by
    rw [hlength, show (b.prep 4 0).offset = (b.prep 4 0).live.length from rfl, hlen]
    omega
  refine ⟨n, hn, ?_, ?_⟩
  · rw [hlength]
    omega
  · rw [← hvalue]
    exact hputs

/-! ## Tables -/

/-- A field that was put behind the start of a table. -/
def Placed (live : Bytes) (base f : Nat) : Slot → Prop
  | .absent => f = 0
  | .bytes width value => At live f (leBytes width value) ∧ 0 < width ∧ width ∣ 4 ∧ width ∣ f ∧
      value < 256 ^ width ∧ base + width ≤ f
  | .ref target => At live f (leBytes 4 (f - target)) ∧ 4 ∣ f ∧ target < f ∧ base + 4 ≤ f

theorem Placed.prepend {live : Bytes} {base f : Nat} {s : Slot} (h : Placed live base f s)
    (front : Bytes) : Placed (front ++ live) base f s := by
  cases s with
  | absent => exact h
  | bytes width value => exact ⟨h.1.prepend front, h.2⟩
  | ref target => exact ⟨h.1.prepend front, h.2⟩

theorem Placed.le {live : Bytes} {base f : Nat} {s : Slot} (h : Placed live base f s) :
    f ≤ live.length := by
  cases s with
  | absent => exact Nat.le_trans (Nat.le_of_eq h) (Nat.zero_le _)
  | bytes width value => exact h.1.le
  | ref target => exact h.1.le

/-- A table that was started at `base` and has its fields at `offs`, in `used` bytes. -/
structure Building (base : Nat) (b : Fbb) (offs : List Nat) (slots : List Slot) (used : Nat) :
    Prop where
  objectEnd : b.objectEnd = base
  base_le : base ≤ b.live.length
  small : b.live.length ≤ base + used
  vtable : b.vtable = offs.map Int.ofNat
  length : offs.length = slots.length
  placed : ∀ i (h : i < slots.length), Placed b.live base (offs.getD i 0) slots[i]

theorem building_startTable (b : Fbb) (n : Nat) :
    Building b.live.length (b.startTable n) (List.replicate n 0) (List.replicate n .absent) 0 where
  objectEnd := rfl
  base_le := Nat.le_refl _
  small := Nat.le_refl _
  vtable := by rw [List.map_replicate]; rfl
  length := by rw [List.length_replicate, List.length_replicate]
  placed := by
    intro i hi
    rw [List.getElem_replicate]
    show (List.replicate n 0).getD i 0 = 0
    rw [List.length_replicate] at hi
    simp [hi]

/-- Bytes are put in front, and the last of them are the field `i`. -/
theorem Building.slot {base : Nat} {b b' : Fbb} {offs : List Nat} {slots : List Slot} {used : Nat}
    (h : Building base b offs slots used) {front : Bytes} {align i : Nat} {s : Slot}
    (hputs : Puts b b' front align) (hfront : front.length ≤ 7)
    (hs : Placed b'.live base b'.live.length s) (hlt : b'.live.length < 2 ^ 31) :
    Building base (b'.slot i) (offs.set i b'.live.length) (slots.set i s) (used + 7) where
  objectEnd := hputs.objectEnd.trans h.objectEnd
  base_le := by
    show base ≤ b'.live.length
    have := h.base_le
    rw [hputs.live, List.length_append]
    omega
  small := by
    show b'.live.length ≤ base + (used + 7)
    have := h.small
    rw [hputs.live, List.length_append]
    omega
  vtable := by
    show b'.vtable.set i (toI32 b'.live.length) = _
    rw [toI32_of_range (by omega) (by omega), hputs.vtable, h.vtable, List.map_set]
    rfl
  length := by rw [List.length_set, List.length_set, h.length]
  placed := by
    intro j hj
    rw [List.length_set] at hj
    by_cases hij : i = j
    · subst hij
      rw [List.getElem_set_self, List.getD_eq_getElem?_getD,
        List.getElem?_set_self (by rw [h.length]; exact hj)]
      exact hs
    · rw [List.getElem_set_ne hij, List.getD_eq_getElem?_getD, List.getElem?_set_ne hij,
        ← List.getD_eq_getElem?_getD]
      have hold := (h.placed j hj).prepend front
      rw [← hputs.live] at hold
      exact hold

/-- Bytes in front, and an alignment that is kept to at most 4. -/
structure Extends (b b' : Fbb) : Prop where
  live : ∃ front, b'.live = front ++ b.live
  le : b.minalign ≤ b'.minalign
  le_four : b.minalign ≤ 4 → b'.minalign ≤ 4

theorem Extends.refl (b : Fbb) : Extends b b := ⟨⟨[], rfl⟩, Nat.le_refl _, fun h => h⟩

theorem Extends.trans {b b' b'' : Fbb} (h : Extends b b') (h' : Extends b' b'') :
    Extends b b'' := by
  obtain ⟨front, hlive⟩ := h.live
  obtain ⟨front', hlive'⟩ := h'.live
  refine ⟨⟨front' ++ front, ?_⟩, Nat.le_trans h.le h'.le, fun hmin => h'.le_four (h.le_four hmin)⟩
  rw [hlive', hlive, List.append_assoc]

theorem Extends.length_le {b b' : Fbb} (h : Extends b b') : b.live.length ≤ b'.live.length := by
  obtain ⟨front, hlive⟩ := h.live
  rw [hlive, List.length_append]
  exact Nat.le_add_left ..

theorem Puts.extends {b b' : Fbb} {front : Bytes} {align : Nat} (h : Puts b b' front align)
    (halign : align ≤ 4) : Extends b b' where
  live := ⟨front, h.live⟩
  le := by rw [h.minalign]; exact Nat.le_max_left ..
  le_four := fun hmin => by rw [h.minalign]; exact Nat.max_le.mpr ⟨hmin, halign⟩

theorem extends_slot {b b' : Fbb} (h : Extends b b') (i : Nat) : Extends b (b'.slot i) :=
  ⟨h.live, h.le, h.le_four⟩

section Add

variable {base : Nat} {b : Fbb} {offs : List Nat} {slots : List Slot} {used : Nat}

/-- **A scalar field.** -/
theorem Building.addScalar (h : Building base b offs slots used) {width v : Nat} (i : Nat)
    (hw : Size width) (hv : v < 256 ^ width)
    (hlt : ((b.prep width 0).put (leBytes width v)).live.length < 2 ^ 31) :
    ∃ offs', Building base (((b.prep width 0).put (leBytes width v)).slot i) offs'
      (slots.set i (.bytes width v)) (used + 7) := by
  obtain ⟨n, hn, hdvd, hputs⟩ := b.scalar_spec v hw
  have hwidth : 0 < width ∧ width ∣ 4 ∧ width ≤ 4 := by
    rcases hw with rfl | rfl | rfl <;> decide
  have hbase := h.base_le
  refine ⟨_, h.slot hputs ?_ ?_ hlt⟩
  · rw [List.length_append, length_leBytes, List.length_replicate]
    omega
  · have hat := at_append (leBytes width v) (List.replicate n 0 ++ b.live)
    rw [← List.append_assoc, ← hputs.live, length_leBytes] at hat
    have hlength : ((b.prep width 0).put (leBytes width v)).live.length =
        width + (List.replicate n 0 ++ b.live).length := by
      rw [hputs.live, List.append_assoc, List.length_append, length_leBytes]
    rw [← hlength] at hat
    refine ⟨hat, hwidth.1, hwidth.2.1, hdvd, hv, ?_⟩
    rw [hlength, List.length_append]
    omega

/-- **A field that refers to an object.** -/
theorem Building.addUoffset (h : Building base b offs slots used) (i : Nat) {off : Nat}
    (hoff : off ≤ base) (hlt : (b.prependUoffset off).live.length < 2 ^ 31) :
    ∃ offs', Building base (b.addUoffset i off) offs' (slots.set i (.ref off)) (used + 7) := by
  have hbase := h.base_le
  obtain ⟨n, hn, hdvd, hputs⟩ := b.prependUoffset_spec (show off ≤ b.live.length by omega)
  refine ⟨_, h.slot hputs ?_ ?_ hlt⟩
  · rw [List.length_append, length_leBytes, List.length_replicate]
    omega
  · have hat := at_append (leBytes 4 ((b.prependUoffset off).live.length - off))
      (List.replicate n 0 ++ b.live)
    rw [← List.append_assoc, ← hputs.live, length_leBytes] at hat
    have hlength : (b.prependUoffset off).live.length =
        4 + (List.replicate n 0 ++ b.live).length := by
      conv_lhs => rw [hputs.live, List.append_assoc, List.length_append, length_leBytes]
    rw [← hlength] at hat
    refine ⟨hat, hdvd, ?_, ?_⟩
    · rw [hlength, List.length_append]
      omega
    · rw [hlength, List.length_append]
      omega

end Add

/-! ## The end of a table -/

theorem storeFrom_append (xs old ys new : Bytes) (h : old.length = new.length) :
    storeFrom xs.length new (xs ++ (old ++ ys)) = xs ++ (new ++ ys) := by
  induction new generalizing xs old with
  | nil =>
    obtain rfl := List.eq_nil_of_length_eq_zero h
    rfl
  | cons v vs ih =>
    obtain ⟨w, ws, rfl⟩ := List.exists_cons_of_length_eq_add_one h
    have hrest := ih (xs ++ [v]) ws (by simpa using h)
    rw [storeFrom, List.cons_append, List.set_append_right _ _ (Nat.le_refl _), Nat.sub_self,
      List.set_cons_zero]
    simpa using hrest

/-- What is trimmed are zeros. -/
theorem getD_take_trimmed (offs : List Nat) (n : Nat) (h : ∀ i, n ≤ i → offs.getD i 0 = 0)
    (i : Nat) :
    (offs.take (trimmed (offs.map Int.ofNat) n)).getD i 0 = offs.getD i 0 := by
  induction n with
  | zero =>
    rw [trimmed, List.take_zero, h i (Nat.zero_le i)]
    rfl
  | succ n ih =>
    rw [trimmed]
    split
    · rename_i hzero
      have hn : offs.getD n 0 = 0 := by
        simp only [List.getD_eq_getElem?_getD, List.getElem?_map] at hzero ⊢
        cases hget : offs[n]? with
        | none => rfl
        | some v =>
          rw [hget] at hzero
          exact Int.ofNat.inj hzero
      refine ih fun j hj => ?_
      rcases Nat.eq_or_lt_of_le hj with rfl | hlt
      · exact hn
      · exact h j hlt
    · by_cases hi : i < n + 1
      · rw [List.getD_eq_getElem?_getD, List.getD_eq_getElem?_getD, List.getElem?_take_of_lt hi]
      · rw [h i (by omega), List.getD_eq_getElem?_getD,
          List.getElem?_eq_none (by rw [List.length_take]; omega)]
        rfl

theorem trimmed_le (vtable : List Int) (n : Nat) : trimmed vtable n ≤ n := by
  induction n with
  | zero => exact Nat.le_refl _
  | succ n ih =>
    rw [trimmed]
    split
    · exact Nat.le_succ_of_le ih
    · exact Nat.le_refl _

/-- A scalar of two bytes at an even place. -/
theorem puts_u16 (b : Fbb) (v : Nat) (heven : 2 ∣ b.live.length) (hmin : 2 ≤ b.minalign) :
    Puts b ((b.prep 2 0).placeU16 v) (leBytes 2 v) 0 := by
  obtain ⟨n, hn, hdvd, hprep⟩ := b.prep_spec 0 (.inr (.inl rfl))
  have hzero : n = 0 := by omega
  subst hzero
  have h := hprep.trans (puts_put (b.prep 2 0) (leBytes 2 v))
  rw [List.replicate_zero, List.append_nil] at h
  refine ⟨h.live, h.vtable, h.objectEnd, h.minalign.trans ?_⟩
  omega

/-- The entries. -/
theorem puts_placeEntries {o : Nat} {offs : List Nat} (hle : ∀ f ∈ offs, f ≤ o)
    (hsmall : ∀ f ∈ offs, f ≠ 0 → o - f < 2 ^ 16) {n : Nat} (hn : n ≤ offs.length) {b : Fbb}
    (hvtable : b.vtable = offs.map Int.ofNat) (heven : 2 ∣ b.live.length) (hmin : 2 ≤ b.minalign) :
    Puts b (placeEntries o n b) ((offs.take n).flatMap fun f => leBytes 2 (entry o f)) 0 := by
  induction n generalizing b with
  | zero => exact ⟨rfl, rfl, rfl, (Nat.max_zero _).symm⟩
  | succ n ih =>
    have hlt : n < offs.length := hn
    have hmem : offs[n] ∈ offs := List.getElem_mem hlt
    have hget : b.vtable.getD n 0 = (offs[n] : Int) := by
      rw [hvtable, List.getD_eq_getElem?_getD, List.getElem?_map, List.getElem?_eq_getElem hlt]
      rfl
    have hentry : (if b.vtable.getD n 0 ≠ 0 then
        (((o : Int) - b.vtable.getD n 0) % 2 ^ 16).toNat else 0) = entry o offs[n] := by
      have hle := hle _ hmem
      have hsmall := hsmall _ hmem
      rw [hget, entry]
      by_cases hzero : offs[n] = 0
      · rw [if_neg (by simp [hzero]), if_pos hzero]
      · rw [if_pos (by exact_mod_cast hzero), if_neg hzero]
        have := hsmall hzero
        omega
    have hput := b.puts_u16 (entry o offs[n]) heven hmin
    have hrest := ih (Nat.le_of_lt hlt) (hput.vtable.trans hvtable)
      (by rw [hput.live, List.length_append, length_leBytes]; omega)
      (by rw [hput.minalign]; omega)
    have hboth := hput.trans hrest
    rw [← List.flatMap_singleton (fun f => leBytes 2 (entry o f)) offs[n], ← List.flatMap_append,
      ← List.take_succ_eq_append_getElem hlt] at hboth
    rw [placeEntries, hentry]
    exact hboth

/-- What is put between the offset of a table and its patching: the vtable. -/
def placeVtable (objectOffset : Nat) (b : Fbb) : Fbb :=
  let kept := trimmed b.vtable b.vtable.length
  let b := placeEntries objectOffset kept b
  let b := (b.prep 2 0).placeU16 (objectOffset - b.objectEnd)
  (b.prep 2 0).placeU16 ((kept + 2) * 2)

/-- Whatever the fields are. -/
theorem puts_placeEntries_any (o n : Nat) (b : Fbb) :
    ∃ front align, align ≤ 2 ∧ Puts b (placeEntries o n b) front align := by
  induction n generalizing b with
  | zero => exact ⟨[], 0, by decide, rfl, rfl, rfl, (Nat.max_zero _).symm⟩
  | succ n ih =>
    rw [placeEntries]
    obtain ⟨m, -, -, hput⟩ := b.scalar_spec
      (if b.vtable.getD n 0 ≠ 0 then (((o : Int) - b.vtable.getD n 0) % 2 ^ 16).toNat else 0)
      (.inr (.inl rfl))
    obtain ⟨front, align, halign, hrest⟩ := ih ((b.prep 2 0).put (leBytes 2
      (if b.vtable.getD n 0 ≠ 0 then (((o : Int) - b.vtable.getD n 0) % 2 ^ 16).toNat else 0)))
    exact ⟨_, _, Nat.max_le.mpr ⟨Nat.le_refl 2, halign⟩, hput.trans hrest⟩

theorem puts_placeVtable_any (o : Nat) (b : Fbb) :
    ∃ front align, align ≤ 2 ∧ Puts b (placeVtable o b) front align := by
  obtain ⟨front, align, halign, hentries⟩ :=
    puts_placeEntries_any o (trimmed b.vtable b.vtable.length) b
  obtain ⟨_, -, -, hsize⟩ := (placeEntries o (trimmed b.vtable b.vtable.length) b).scalar_spec
    (o - (placeEntries o (trimmed b.vtable b.vtable.length) b).objectEnd) (.inr (.inl rfl))
  obtain ⟨_, -, -, hvsize⟩ := scalar_spec _
    ((trimmed b.vtable b.vtable.length + 2) * 2) (.inr (.inl rfl))
  exact ⟨_, _, Nat.max_le.mpr ⟨Nat.max_le.mpr ⟨halign, Nat.le_refl 2⟩, Nat.le_refl 2⟩,
    (hentries.trans hsize).trans hvsize⟩

/-- **The end of a table**: the vtable, the offset back to it and padding come in front. -/
theorem endTable_spec (b : Fbb) :
    ∃ n, n < 4 ∧ 4 ∣ b.endTable.1 ∧ b.endTable.1 = 4 + n + b.live.length ∧
      ∃ b₀, Puts b b₀ (leBytes 4 0 ++ List.replicate n 0) 4 ∧
      b₀.live.length = b.endTable.1 ∧
      ∀ front align, Puts b₀ (placeVtable b.endTable.1 b₀) front align →
        b.endTable.2.live =
          front ++ (leBytes 4 front.length ++ (List.replicate n 0 ++ b.live)) ∧
        b.endTable.2.minalign = max (max b.minalign 4) align := by
  obtain ⟨n, hn, hdvd, hobject⟩ := b.scalar_spec 0 (.inr (.inr rfl))
  have hlength : ((b.prep 4 0).put (leBytes 4 0)).live.length = 4 + n + b.live.length := by
    rw [hobject.live]
    simp only [List.length_append, length_leBytes, List.length_replicate]
  refine ⟨n, hn, hdvd, hlength, _, hobject, rfl, fun front align hfront => ?_⟩
  have hsoffset : (placeVtable b.endTable.1 ((b.prep 4 0).put (leBytes 4 0))).offset -
      b.endTable.1 = front.length := by
    rw [offset, hfront.live, List.length_append]
    exact Nat.add_sub_cancel ..
  have hstored := storeFrom_append front (leBytes 4 0) (List.replicate n 0 ++ b.live)
    (leBytes 4 front.length) (by simp only [length_leBytes])
  have hlive : (placeVtable b.endTable.1 ((b.prep 4 0).put (leBytes 4 0))).live =
      front ++ (leBytes 4 0 ++ (List.replicate n 0 ++ b.live)) := by
    rw [hfront.live, hobject.live, List.append_assoc]
  refine ⟨?_, ?_⟩
  · have hpatch : b.endTable.2.live =
        storeFrom ((placeVtable b.endTable.1 ((b.prep 4 0).put (leBytes 4 0))).offset -
            b.endTable.1)
          (leBytes 4 ((placeVtable b.endTable.1 ((b.prep 4 0).put (leBytes 4 0))).offset -
            b.endTable.1))
          (placeVtable b.endTable.1 ((b.prep 4 0).put (leBytes 4 0))).live := rfl
    rw [hpatch, hsoffset, hlive, hstored]
  · show (placeVtable b.endTable.1 ((b.prep 4 0).put (leBytes 4 0))).minalign = _
    rw [hfront.minalign, hobject.minalign]

theorem extends_endTable (b : Fbb) : Extends b b.endTable.2 := by
  obtain ⟨n, -, -, -, b₀, -, -, hend⟩ := b.endTable_spec
  obtain ⟨front, align, halign, hvtable⟩ := puts_placeVtable_any b.endTable.1 b₀
  obtain ⟨hlive, hmin⟩ := hend front align hvtable
  refine ⟨⟨front ++ (leBytes 4 front.length ++ List.replicate n 0), ?_⟩, by omega, by omega⟩
  rw [hlive]
  simp only [List.append_assoc]

theorem four_le_endTable (b : Fbb) : 4 ≤ b.endTable.2.minalign := by
  obtain ⟨n, -, -, -, b₀, -, -, hend⟩ := b.endTable_spec
  obtain ⟨front, align, -, hvtable⟩ := puts_placeVtable_any b.endTable.1 b₀
  have hmin := (hend front align hvtable).2
  omega

theorem endTable_le (b : Fbb) : b.endTable.1 ≤ b.endTable.2.live.length := by
  obtain ⟨n, -, -, ho, b₀, -, -, hend⟩ := b.endTable_spec
  obtain ⟨front, align, -, hvtable⟩ := puts_placeVtable_any b.endTable.1 b₀
  rw [(hend front align hvtable).1]
  simp only [List.length_append, length_leBytes, List.length_replicate]
  omega

/-- Which entries of a vtable are not zero. -/
def mark : Slot → Int
  | .absent => 0
  | _ => 1

/-- How many entries the vtable of a table has. -/
def entries (slots : List Slot) : Nat := trimmed (slots.map mark) slots.length

theorem trimmed_congr {xs ys : List Int} (h : ∀ i, xs.getD i 0 = 0 ↔ ys.getD i 0 = 0) (n : Nat) :
    trimmed xs n = trimmed ys n := by
  induction n with
  | zero => rfl
  | succ n ih =>
    rw [trimmed, trimmed, ih]
    simp only [h n]

theorem Placed.eq_zero_iff {live : Bytes} {base f : Nat} {s : Slot} (h : Placed live base f s) :
    f = 0 ↔ mark s = 0 := by
  cases s with
  | absent => exact ⟨fun _ => rfl, fun _ => h⟩
  | bytes width value =>
    have hwidth := h.2.1
    have hbase := h.2.2.2.2.2
    exact ⟨fun hzero => by omega, fun hmark => absurd hmark Int.one_ne_zero⟩
  | ref target =>
    have hlt := h.2.2.1
    exact ⟨fun hzero => by omega, fun hmark => absurd hmark Int.one_ne_zero⟩

theorem Placed.base_lt {live : Bytes} {base f : Nat} {s : Slot} (h : Placed live base f s)
    (hf : f ≠ 0) : base < f := by
  cases s with
  | absent => exact absurd h hf
  | bytes width value =>
    have hwidth := h.2.1
    have hbase := h.2.2.2.2.2
    omega
  | ref target =>
    have hbase := h.2.2.2
    omega

section EndTable

variable {base : Nat} {b : Fbb} {offs : List Nat} {slots : List Slot} {used : Nat}

/-- The vtable has the entries that the fields call for. -/
theorem Building.trimmed_eq (h : Building base b offs slots used) :
    trimmed (offs.map Int.ofNat) offs.length = entries slots := by
  rw [entries, ← h.length]
  refine trimmed_congr (fun i => ?_) _
  by_cases hi : i < slots.length
  · have hplaced := (h.placed i hi).eq_zero_iff
    have hi' : i < offs.length := h.length ▸ hi
    rw [List.getD_eq_getElem _ _ (by simpa using hi'), List.getD_eq_getElem _ _ (by simpa using hi),
      List.getElem_map, List.getElem_map, ← hplaced, List.getD_eq_getElem _ _ hi']
    exact Int.ofNat_eq_zero
  · rw [List.getD_eq_default _ _ (by rw [List.length_map, h.length]; omega),
      List.getD_eq_default _ _ (by rw [List.length_map]; omega)]

theorem Building.mem_offs (h : Building base b offs slots used) {f : Nat} (hf : f ∈ offs) :
    f ≤ b.live.length ∧ (f ≠ 0 → base < f) := by
  obtain ⟨i, hi, rfl⟩ := List.getElem_of_mem hf
  have hplaced := h.placed i (h.length ▸ hi)
  rw [List.getD_eq_getElem _ _ hi] at hplaced
  exact ⟨hplaced.le, hplaced.base_lt⟩

theorem length_u16s {α : Type} (g : α → Nat) (xs : List α) :
    (xs.flatMap fun x => leBytes 2 (g x)).length = 2 * xs.length := by
  induction xs with
  | nil => rfl
  | cons x xs ih =>
    rw [List.flatMap_cons, List.length_append, ih, length_leBytes, List.length_cons]
    omega

/-- The vtable, where all of it is in 16 bits. -/
theorem Building.puts_placeVtable {b₀ : Fbb} {o : Nat} (h : Building base b offs slots used)
    (hvtable : b₀.vtable = b.vtable) (hobjectEnd : b₀.objectEnd = b.objectEnd)
    (hlive : 2 ∣ b₀.live.length) (hmin : 2 ≤ b₀.minalign) (ho : b.live.length ≤ o)
    (hlt : o < base + 2 ^ 16) :
    Puts b₀ (placeVtable o b₀) (leBytes 2 (4 + 2 * entries slots) ++ (leBytes 2 (o - base) ++
      (offs.take (entries slots)).flatMap fun f => leBytes 2 (entry o f))) 0 := by
  have hvtable := hvtable.trans h.vtable
  have hkept : trimmed b₀.vtable b₀.vtable.length = entries slots := by
    rw [hvtable, List.length_map, h.trimmed_eq]
  have hle : entries slots ≤ offs.length := by
    rw [← h.trimmed_eq]
    exact trimmed_le _ _
  have hentries := puts_placeEntries (o := o) (fun f hf => Nat.le_trans (h.mem_offs hf).1 ho)
    (fun f hf hzero => by have := (h.mem_offs hf).2 hzero; omega) hle hvtable hlive hmin
  have heven : 2 ∣ (placeEntries o (entries slots) b₀).live.length := by
    rw [hentries.live, List.length_append]
    refine Nat.dvd_add ?_ hlive
    rw [length_u16s]
    exact Nat.dvd_mul_right ..
  have hsize := puts_u16 _ (o - base) heven (by rw [hentries.minalign]; omega)
  have hsizeEven : 2 ∣ (((placeEntries o (entries slots) b₀).prep 2 0).placeU16
      (o - base)).live.length := by
    rw [hsize.live, List.length_append, length_leBytes]
    omega
  have hvsize := puts_u16 _ (4 + 2 * entries slots) hsizeEven
    (by rw [hsize.minalign, hentries.minalign]; omega)
  have hall := (hentries.trans hsize).trans hvsize
  have hend : (placeEntries o (entries slots) b₀).objectEnd = base :=
    hentries.objectEnd.trans (hobjectEnd.trans h.objectEnd)
  rw [placeVtable, hkept, hend, show (entries slots + 2) * 2 = 4 + 2 * entries slots by omega]
  exact hall

theorem Placed.holds {live : Bytes} {base f o : Nat} {s : Slot} (h : Placed live base f s)
    (hfo : f + 4 ≤ o) (hbase : base ≤ o) : s.Holds live o (o - base) f := by
  cases s with
  | absent => exact h
  | bytes width value =>
    obtain ⟨hat, hpos, hdvd, hf, hv, hle⟩ := h
    exact ⟨hat, hpos, hdvd, hf, hv, hfo, by omega⟩
  | ref target =>
    obtain ⟨hat, hf, htarget, hle⟩ := h
    exact ⟨hat, hf, htarget, hfo, by omega⟩

/-- **A table that is ended is one.** -/
theorem Building.isTable (h : Building base b offs slots used) (hused : used ≤ 1000)
    (hslots : slots.length ≤ 1000) :
    (∃ size offs', IsTable b.endTable.2.live b.endTable.1 size offs' slots) ∧
      b.endTable.2.live.length = b.endTable.1 + (4 + 2 * entries slots) := by
  obtain ⟨n, hn, hdvd, ho, b₀, hput, hlength, hend⟩ := b.endTable_spec
  have hsmall := h.small
  have hbase := h.base_le
  have hle : entries slots ≤ offs.length := by
    rw [← h.trimmed_eq]
    exact trimmed_le _ _
  have hvtable := h.puts_placeVtable hput.vtable hput.objectEnd (by omega)
    (by rw [hput.minalign]; omega) (o := b.endTable.1) (by omega) (by omega)
  obtain ⟨hlive, -⟩ := hend _ _ hvtable
  have hkept : (offs.take (entries slots)).length = entries slots := by
    rw [List.length_take, Nat.min_eq_left hle]
  have hfront : (leBytes 2 (4 + 2 * entries slots) ++ (leBytes 2 (b.endTable.1 - base) ++
      (offs.take (entries slots)).flatMap fun f => leBytes 2 (entry b.endTable.1 f))).length =
      4 + 2 * entries slots := by
    rw [List.length_append, List.length_append, length_u16s, length_leBytes, length_leBytes, hkept]
    omega
  rw [hfront] at hlive
  generalize hF : leBytes 2 (4 + 2 * entries slots) ++ (leBytes 2 (b.endTable.1 - base) ++
      (offs.take (entries slots)).flatMap fun f => leBytes 2 (entry b.endTable.1 f)) = vt
    at hlive hfront
  have hsoffset := (at_append (leBytes 4 (4 + 2 * entries slots))
    (List.replicate n 0 ++ b.live)).prepend vt
  have hrest : (leBytes 4 (4 + 2 * entries slots)).length +
      (List.replicate n (0 : UInt8) ++ b.live).length = b.endTable.1 := by
    simp only [List.length_append, length_leBytes, List.length_replicate]
    omega
  have hfirst := at_append vt (leBytes 4 (4 + 2 * entries slots) ++ (List.replicate n 0 ++ b.live))
  rw [List.length_append, hrest, hfront, Nat.add_comm _ b.endTable.1] at hfirst
  rw [hrest, ← hlive] at hsoffset
  rw [← hlive] at hfirst
  refine ⟨⟨b.endTable.1 - base, offs.take (entries slots), ?_⟩, ?_⟩
  · refine ⟨hdvd, ?_, ?_, ?_, ?_, ?_, ?_, ?_, ?_⟩
    · rw [hkept]
      exact hsoffset
    · rw [hkept, hF]
      exact hfirst
    · omega
    · omega
    · omega
    · rw [hkept]
      have := h.length
      omega
    · rw [hkept]
      exact Nat.le_trans hle (Nat.le_of_eq h.length)
    · intro i hi
      have htake := getD_take_trimmed offs offs.length
        (fun j hj => List.getD_eq_default _ _ hj) i
      rw [h.trimmed_eq] at htake
      rw [htake]
      have hplaced := h.placed i hi
      have hf := hplaced.le
      have hheld := (hplaced.prepend (vt ++ (leBytes 4 (4 + 2 * entries slots) ++
        List.replicate n 0))).holds (o := b.endTable.1) (by omega) (by omega)
      rw [List.append_assoc, List.append_assoc, ← hlive] at hheld
      exact hheld
  · rw [hlive, List.length_append, hfront, List.length_append, hrest]
    omega

end EndTable

/-! ## Tables, field by field -/

/-- A field that is put into a table. -/
inductive Add where
  | scalar (i width value : Nat)
  | ref (i target : Nat)

namespace Add

def index : Add → Nat
  | scalar i _ _ => i
  | ref i _ => i

def width : Add → Nat
  | scalar _ width _ => width
  | ref _ _ => 4

def slot : Add → Slot
  | scalar _ width value => .bytes width value
  | ref _ target => .ref target

/-- It has a width, and what it refers to was built. -/
def Ok (base : Nat) : Add → Prop
  | scalar _ width value => Size width ∧ value < 256 ^ width
  | ref _ target => target ≤ base

theorem Ok.size {base : Nat} {a : Add} (h : a.Ok base) : Size a.width := by
  cases a with
  | scalar i width value => exact h.1
  | ref i target => exact .inr (.inr rfl)

end Add

def add (b : Fbb) : Add → Fbb
  | .scalar i width value => ((b.prep width 0).put (leBytes width value)).slot i
  | .ref i target => b.addUoffset i target

def buildTable (b : Fbb) (n : Nat) (adds : List Add) : Nat × Fbb :=
  (adds.foldl add (b.startTable n)).endTable

/-- The next multiple. -/
def roundUp (n size : Nat) : Nat := (n + (size - 1)) / size * size

/-- How far the fields reach. -/
def filledTo (n : Nat) (adds : List Add) : Nat :=
  adds.foldl (fun n a => roundUp n a.width + a.width) n

def slotsOf (n : Nat) (adds : List Add) : List Slot :=
  adds.foldl (fun slots a => slots.set a.index a.slot) (List.replicate n .absent)

/-- How far a table reaches that is built behind `len` bytes. -/
def tableEnd (len n : Nat) (adds : List Add) : Nat :=
  roundUp (filledTo len adds) 4 + 4 + (4 + 2 * entries (slotsOf n adds))

section BuildTable

variable {b : Fbb}

theorem puts_add {a : Add} {base : Nat} (h : a.Ok base) (hbase : base ≤ b.live.length) :
    Extends b (b.add a) ∧ (b.add a).live.length = roundUp b.live.length a.width + a.width := by
  cases a with
  | scalar i width value =>
    obtain ⟨n, hn, hdvd, hputs⟩ := b.scalar_spec value h.1
    have hlength := congrArg List.length hputs.live
    simp only [List.length_append, length_leBytes, List.length_replicate] at hlength
    refine ⟨extends_slot (hputs.extends ?_) i, ?_⟩
    · rcases h.1 with rfl | rfl | rfl <;> decide
    · show ((b.prep width 0).put (leBytes width value)).live.length =
        roundUp b.live.length width + width
      rw [hlength] at hdvd ⊢
      unfold roundUp
      rcases h.1 with rfl | rfl | rfl <;> omega
  | ref i target =>
    obtain ⟨n, hn, hdvd, hputs⟩ := b.prependUoffset_spec (Nat.le_trans h hbase)
    have hlength := congrArg List.length hputs.live
    simp only [List.length_append, length_leBytes, List.length_replicate] at hlength
    refine ⟨extends_slot (hputs.extends (Nat.le_refl 4)) i, ?_⟩
    show (b.prependUoffset target).live.length = roundUp b.live.length 4 + 4
    rw [hlength] at hdvd ⊢
    unfold roundUp
    omega

theorem puts_adds {adds : List Add} {base : Nat} (h : ∀ a ∈ adds, a.Ok base)
    (hbase : base ≤ b.live.length) :
    Extends b (adds.foldl add b) ∧
      (adds.foldl add b).live.length = filledTo b.live.length adds := by
  induction adds generalizing b with
  | nil => exact ⟨Extends.refl b, rfl⟩
  | cons a adds ih =>
    obtain ⟨hextends, hlength⟩ := puts_add (b := b) (h a List.mem_cons_self) hbase
    have hle := hextends.length_le
    obtain ⟨hextends', hlength'⟩ := ih (b := b.add a)
      (fun x hx => h x (List.mem_cons_of_mem a hx)) (by omega)
    exact ⟨hextends.trans hextends', hlength'.trans (by rw [hlength]; rfl)⟩

/-- **Every field gets its slot.** -/
theorem Building.adds {base : Nat} {offs : List Nat} {slots : List Slot} {used : Nat}
    (h : Building base b offs slots used) {adds : List Add} (hok : ∀ a ∈ adds, a.Ok base)
    (hlt : (adds.foldl add b).live.length < 2 ^ 31) :
    ∃ offs', Building base (adds.foldl add b) offs'
      (adds.foldl (fun slots a => slots.set a.index a.slot) slots) (used + 7 * adds.length) := by
  induction adds generalizing b offs slots used with
  | nil => exact ⟨offs, h⟩
  | cons a adds ih =>
    have ha := hok a List.mem_cons_self
    have hrest : ∀ x ∈ adds, x.Ok base := fun x hx => hok x (List.mem_cons_of_mem a hx)
    obtain ⟨hextends, -⟩ := puts_add (b := b) ha h.base_le
    have hbase := h.base_le
    have hle := hextends.length_le
    have hlt' := (puts_adds (b := b.add a) hrest (by omega)).1.length_le
    have hlt : ((adds.foldl add (b.add a))).live.length < 2 ^ 31 := hlt
    have hadd : ∃ offs', Building base (b.add a) offs' (slots.set a.index a.slot) (used + 7) := by
      cases a with
      | scalar i width value => exact h.addScalar i ha.1 ha.2 (Nat.lt_of_le_of_lt hlt' hlt)
      | ref i target => exact h.addUoffset i ha (Nat.lt_of_le_of_lt hlt' hlt)
    obtain ⟨offs', hadd⟩ := hadd
    obtain ⟨offs'', hall⟩ := ih hadd hrest hlt
    rw [show used + 7 + 7 * adds.length = used + 7 * (a :: adds).length by
      rw [List.length_cons]; omega] at hall
    exact ⟨offs'', hall⟩

theorem length_slotsOf (n : Nat) (adds : List Add) : (slotsOf n adds).length = n := by
  have hset : ∀ slots : List Slot,
      (adds.foldl (fun slots a => slots.set a.index a.slot) slots).length = slots.length := by
    induction adds with
    | nil => exact fun _ => rfl
    | cons a adds ih => exact fun slots => (ih _).trans (List.length_set ..)
  exact (hset _).trans List.length_replicate

theorem extends_buildTable (b : Fbb) {n : Nat} {adds : List Add}
    (h : ∀ a ∈ adds, a.Ok b.live.length) : Extends b (b.buildTable n adds).2 := by
  have hstart : Extends b (b.startTable n) := ⟨⟨[], rfl⟩, Nat.le_refl _, fun hmin => hmin⟩
  exact (hstart.trans (puts_adds (b := b.startTable n) h (Nat.le_refl _)).1).trans
    (extends_endTable _)

/-- **A table that is built is one**, and reaches as far as its fields say. -/
theorem isTable_buildTable (b : Fbb) {n : Nat} {adds : List Add}
    (h : ∀ a ∈ adds, a.Ok b.live.length) (hn : n ≤ 100) (hadds : adds.length ≤ 100)
    (hlt : (b.buildTable n adds).2.live.length < 2 ^ 31 ∨ tableEnd b.live.length n adds < 2 ^ 31) :
    (b.buildTable n adds).2.live.length = tableEnd b.live.length n adds ∧
      ∃ size offs, IsTable (b.buildTable n adds).2.live (b.buildTable n adds).1 size offs
        (slotsOf n adds) := by
  obtain ⟨hextends, hfilled⟩ := puts_adds (b := b.startTable n) h (Nat.le_refl _)
  have hfilled : (adds.foldl add (b.startTable n)).live.length = filledTo b.live.length adds :=
    hfilled
  have hle : b.live.length ≤ (adds.foldl add (b.startTable n)).live.length := hextends.length_le
  obtain ⟨m, hm, hdvd, hobject, -⟩ := (adds.foldl add (b.startTable n)).endTable_spec
  have ho : (b.buildTable n adds).1 = roundUp (filledTo b.live.length adds) 4 + 4 := by
    show (adds.foldl add (b.startTable n)).endTable.1 = _
    unfold roundUp
    omega
  have hole : (b.buildTable n adds).1 ≤ (b.buildTable n adds).2.live.length := endTable_le _
  have hsmall : (adds.foldl add (b.startTable n)).live.length < 2 ^ 31 := by
    have hobject' : (b.buildTable n adds).1 =
      4 + m + (adds.foldl add (b.startTable n)).live.length := hobject
    rcases hlt with hlt | hlt
    · omega
    · unfold tableEnd at hlt
      omega
  obtain ⟨offs, hbuilding⟩ := (building_startTable b n).adds h hsmall
  have hslots : (slotsOf n adds).length ≤ 1000 := by
    rw [length_slotsOf]
    omega
  obtain ⟨htable, hlength⟩ := hbuilding.isTable (by omega) hslots
  refine ⟨?_, htable⟩
  rw [tableEnd, ← ho]
  exact hlength

end BuildTable

/-! ## Vectors and the root -/

/-- References in front of each other. -/
theorem prependUoffsets_spec (b : Fbb) {targets : List Nat} (hlive : 4 ∣ b.live.length)
    (h : ∀ t ∈ targets, t ≤ b.live.length) :
    Extends b (targets.foldr (fun t b => b.prependUoffset t) b) ∧
      (targets.foldr (fun t b => b.prependUoffset t) b).live.length =
        b.live.length + 4 * targets.length ∧
      ∀ i (hi : i < targets.length),
        At (targets.foldr (fun t b => b.prependUoffset t) b).live
          (b.live.length + 4 * targets.length - 4 * i)
          (leBytes 4 (b.live.length + 4 * targets.length - 4 * i - targets[i])) := by
  induction targets with
  | nil => exact ⟨Extends.refl b, rfl, fun i hi => absurd hi (Nat.not_lt_zero i)⟩
  | cons t targets ih =>
    obtain ⟨hextends, hlength, hrefs⟩ := ih fun x hx => h x (List.mem_cons_of_mem t hx)
    have ht := h t List.mem_cons_self
    rw [List.foldr_cons]
    generalize targets.foldr (fun t b => b.prependUoffset t) b = r at hextends hlength hrefs
    obtain ⟨n, hn, hdvd, hputs⟩ := r.prependUoffset_spec (show t ≤ r.live.length by omega)
    have hlength' := congrArg List.length hputs.live
    simp only [List.length_append, length_leBytes, List.length_replicate] at hlength'
    obtain rfl : n = 0 := by omega
    have hlen : (r.prependUoffset t).live.length = b.live.length + 4 * (targets.length + 1) := by
      omega
    refine ⟨hextends.trans (hputs.extends (Nat.le_refl 4)), hlen, fun i hi => ?_⟩
    rw [List.length_cons] at hi ⊢
    cases i with
    | zero =>
      have hat := at_append (leBytes 4 ((r.prependUoffset t).live.length - t)) r.live
      have hfront := hputs.live
      rw [List.replicate_zero, List.append_nil] at hfront
      rw [← hfront, length_leBytes, hlen, hlength] at hat
      rw [Nat.mul_zero, Nat.sub_zero, List.getElem_cons_zero]
      rwa [show 4 + (b.live.length + 4 * targets.length) =
        b.live.length + 4 * (targets.length + 1) by omega] at hat
    | succ i =>
      have hat := (hrefs i (Nat.lt_of_succ_lt_succ hi)).prepend
        (leBytes 4 ((r.prependUoffset t).live.length - t) ++ List.replicate 0 0)
      rw [← hputs.live] at hat
      rw [List.getElem_cons_succ]
      rwa [show b.live.length + 4 * (targets.length + 1) - 4 * (i + 1) =
        b.live.length + 4 * targets.length - 4 * i by omega]

/-- **A vector of references.** -/
theorem vector_spec (b : Fbb) {targets : List Nat} (h : ∀ t ∈ targets, t ≤ b.live.length) :
    let v := (targets.reverse.foldl prependUoffset (b.startVector 4 targets.length 4)).endVector
      targets.length
    Extends b v.2 ∧ v.1 = v.2.live.length ∧
      v.2.live.length = roundUp b.live.length 4 + 4 * targets.length + 4 ∧
      IsVector v.2.live v.1 targets := by
  obtain ⟨n, hn, hdvd, hstart⟩ := b.prep_spec (4 * targets.length) (.inr (.inr rfl))
  obtain ⟨n', hn', hdvd', hstart'⟩ :=
    (b.prep 4 (4 * targets.length)).prep_spec (4 * targets.length) (.inr (.inr rfl))
  have hstarted := hstart.trans hstart'
  have hlength := congrArg List.length hstart.live
  have hlength' := congrArg List.length hstart'.live
  simp only [List.length_append, List.length_replicate] at hlength hlength'
  obtain ⟨hextends, hlen, hrefs⟩ := @prependUoffsets_spec
    (b.startVector 4 targets.length 4) targets (show 4 ∣ ((b.prep 4 (4 * targets.length)).prep 4
      (4 * targets.length)).live.length by omega)
    (fun t ht => Nat.le_trans (h t ht) (hstarted.extends (by decide)).length_le)
  have hround : (b.startVector 4 targets.length 4).live.length = roundUp b.live.length 4 := by
    show ((b.prep 4 (4 * targets.length)).prep 4 (4 * targets.length)).live.length = _
    unfold roundUp
    omega
  have hbase : b.live.length ≤ roundUp b.live.length 4 := by
    unfold roundUp
    omega
  have hfour : 4 ∣ roundUp b.live.length 4 := Nat.dvd_mul_left ..
  intro v
  have hv : v = (targets.foldr (fun t b => b.prependUoffset t)
      (b.startVector 4 targets.length 4)).endVector targets.length := by
    show (targets.reverse.foldl prependUoffset _).endVector _ = _
    rw [List.foldl_reverse]
  rw [hv]
  have hput := puts_put (targets.foldr (fun t b => b.prependUoffset t)
    (b.startVector 4 targets.length 4)) (leBytes 4 targets.length)
  rw [hround] at hlen hrefs
  have hend : ((targets.foldr (fun t b => b.prependUoffset t)
      (b.startVector 4 targets.length 4)).endVector targets.length).2.live.length =
      roundUp b.live.length 4 + 4 * targets.length + 4 := by
    show ((targets.foldr (fun t b => b.prependUoffset t)
      (b.startVector 4 targets.length 4)).put (leBytes 4 targets.length)).live.length = _
    rw [hput.live, List.length_append, length_leBytes, hlen]
    omega
  have ho : ((targets.foldr (fun t b => b.prependUoffset t)
      (b.startVector 4 targets.length 4)).endVector targets.length).1 =
      roundUp b.live.length 4 + 4 * targets.length + 4 := hend
  refine ⟨((hstarted.extends (by decide)).trans hextends).trans (hput.extends (by decide)), rfl,
    hend, ?_⟩
  rw [ho]
  refine ⟨?_, fun i hi => ⟨?_, ?_⟩, by omega⟩
  · have hat := at_append (leBytes 4 targets.length) (targets.foldr (fun t b => b.prependUoffset t)
      (b.startVector 4 targets.length 4)).live
    rw [← hput.live, length_leBytes, hlen, Nat.add_comm] at hat
    exact hat
  · have ht := h _ (List.getElem_mem hi)
    omega
  · have hat := (hrefs i hi).prepend (leBytes 4 targets.length)
    rw [← hput.live] at hat
    rwa [show roundUp b.live.length 4 + 4 * targets.length + 4 - 4 - 4 * i =
      roundUp b.live.length 4 + 4 * targets.length - 4 * i by omega]

/-- **The root**, where the whole buffer begins. -/
theorem finish_spec (b : Fbb) {root : Nat} (hmin : b.minalign = 4) (hroot : root ≤ b.live.length) :
    (∃ front, (b.finish root).live = front ++ b.live) ∧
      (b.finish root).live.length = roundUp b.live.length 4 + 4 ∧
      At (b.finish root).live (b.finish root).live.length
        (leBytes 4 ((b.finish root).live.length - root)) := by
  obtain ⟨n, hn, hdvd, hprep⟩ := b.prep_spec 4 (show Size b.minalign from .inr (.inr hmin))
  have hlength := congrArg List.length hprep.live
  simp only [List.length_append, List.length_replicate] at hlength
  obtain ⟨m, hm, hdvd', hputs⟩ := (b.prep b.minalign 4).prependUoffset_spec
    (show root ≤ (b.prep b.minalign 4).live.length by omega)
  have hlength' := congrArg List.length hputs.live
  simp only [List.length_append, length_leBytes, List.length_replicate] at hlength'
  rw [hmin] at hn hdvd
  have hat := at_append (leBytes 4 (((b.prep b.minalign 4).prependUoffset root).live.length - root))
    (List.replicate m 0 ++ (b.prep b.minalign 4).live)
  rw [← List.append_assoc, ← hputs.live, List.length_append, length_leBytes,
    List.length_replicate, ← Nat.add_assoc, ← hlength'] at hat
  refine ⟨⟨_, hputs.live.trans (by rw [hprep.live, ← List.append_assoc])⟩, ?_, hat⟩
  show ((b.prep b.minalign 4).prependUoffset root).live.length = _
  unfold roundUp
  omega

end Fbb

end Carquet
