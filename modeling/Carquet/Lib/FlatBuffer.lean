import Carquet.Lib.LittleEndian

/-!
# FlatBuffers

Reading a buffer by the wire rules: scalars are aligned and little-endian, a reference is an offset
forward, a table starts with the signed offset back to its vtable, a vtable says where the fields
are. Whatever is not in the buffer, not aligned or not in its table is refused.

A builder that grows a buffer to the front knows its objects by their distance from the end: `At`
says which bytes are at a distance, `IsString`, `IsTable` and `IsVector` what an object is made of.
None of them minds what comes to stand in front (`At.prepend`), and each is read back as what it is
(`IsString.read`, `IsTable.scalar`, `IsTable.ref`, `IsVector.read`), whatever stands behind the end.
-/

namespace FlatBuffer

open LittleEndian

/-! ## Reading -/

section Reader

variable (buf : List UInt8)

/-- An aligned scalar of `n` bytes. -/
def scalarAt (n pos : Nat) : Option Nat :=
  if pos % n = 0 ∧ pos + n ≤ buf.length then some (leNat ((buf.drop pos).take n)) else none

/-- An offset back, which is signed: where it leads. -/
def soffsetAt (pos : Nat) : Option Nat := do
  let off ← scalarAt buf 4 pos
  if off < 2 ^ 31 then
    if off ≤ pos then some (pos - off) else none
  else some (pos + (2 ^ 32 - off))

/-- A reference: where it leads. -/
def follow (pos : Nat) : Option Nat := do
  let off ← scalarAt buf 4 pos
  some (pos + off)

structure Table where
  pos : Nat
  vtable : Nat
  vtableSize : Nat
  size : Nat
  deriving DecidableEq, Repr

def tableAt (pos : Nat) : Option Table := do
  let vtable ← soffsetAt buf pos
  let vtableSize ← scalarAt buf 2 vtable
  let size ← scalarAt buf 2 (vtable + 2)
  if vtableSize < 4 ∨ vtableSize % 2 ≠ 0 ∨ buf.length < vtable + vtableSize ∨ size < 4 ∨
    buf.length < pos + size then none
  else some ⟨pos, vtable, vtableSize, size⟩

/-- Where a field of `n` bytes is, if the table has it. -/
def Table.fieldAt (t : Table) (i n : Nat) : Option (Option Nat) :=
  if t.vtableSize < 4 + 2 * i + 2 then some none
  else do
    let off ← scalarAt buf 2 (t.vtable + (4 + 2 * i))
    if off = 0 then some none
    else if off < 4 ∨ t.size < off + n then none
    else some (some (t.pos + off))

/-- A scalar field. -/
def Table.scalar (t : Table) (i n : Nat) : Option (Option Nat) := do
  match ← t.fieldAt buf i n with
  | none => some none
  | some pos => (scalarAt buf n pos).map some

/-- A field that refers to an object: where it is. -/
def Table.ref (t : Table) (i : Nat) : Option (Option Nat) := do
  match ← t.fieldAt buf i 4 with
  | none => some none
  | some pos => (follow buf pos).map some

/-- A string, with the terminator it has to have. -/
def stringAt (pos : Nat) : Option (List UInt8) := do
  let len ← scalarAt buf 4 pos
  if buf[pos + 4 + len]? = some 0 then some ((buf.drop (pos + 4)).take len) else none

/-- A vector of references. -/
def refsAt (pos : Nat) : Option (List Nat) := do
  let n ← scalarAt buf 4 pos
  (List.range n).mapM fun i => follow buf (pos + 4 + 4 * i)

end Reader

/-! ## Bytes at a distance from the end -/

/-- The bytes at the distance `o`. -/
def At (buf : List UInt8) (o : Nat) (bs : List UInt8) : Prop :=
  ∃ before after, buf = before ++ (bs ++ after) ∧ o = bs.length + after.length

section Images

variable {buf : List UInt8} {o : Nat} {bs cs : List UInt8}

theorem at_append (bs buf : List UInt8) : At (bs ++ buf) (bs.length + buf.length) bs :=
  ⟨[], buf, rfl, rfl⟩

/-- **What comes to stand in front does not matter.** -/
theorem At.prepend (h : At buf o bs) (front : List UInt8) : At (front ++ buf) o bs := by
  obtain ⟨before, after, rfl, ho⟩ := h
  exact ⟨front ++ before, after, (List.append_assoc ..).symm, ho⟩

theorem At.left (h : At buf o (bs ++ cs)) : At buf o bs := by
  obtain ⟨before, after, rfl, rfl⟩ := h
  refine ⟨before, cs ++ after, ?_, ?_⟩
  · rw [List.append_assoc bs]
  · rw [List.length_append, List.length_append, Nat.add_assoc]

theorem At.right (h : At buf o (bs ++ cs)) : At buf (o - bs.length) cs := by
  obtain ⟨before, after, rfl, rfl⟩ := h
  refine ⟨before ++ bs, after, ?_, ?_⟩
  · simp only [List.append_assoc]
  · rw [List.length_append]
    omega

theorem At.le (h : At buf o bs) : o ≤ buf.length := by
  obtain ⟨before, after, rfl, rfl⟩ := h
  simp only [List.length_append]
  omega

theorem At.length_le (h : At buf o bs) : bs.length ≤ o := by
  obtain ⟨before, after, rfl, rfl⟩ := h
  exact Nat.le_add_right _ _

theorem At.take_drop (h : At buf o bs) (back : List UInt8) :
    ((buf ++ back).drop (buf.length - o)).take bs.length = bs := by
  obtain ⟨before, after, rfl, rfl⟩ := h
  have hfront : (before ++ (bs ++ after)).length - (bs.length + after.length) = before.length := by
    simp only [List.length_append]
    omega
  rw [hfront, List.append_assoc, List.append_assoc, List.drop_left' rfl, List.take_left' rfl]

/-- A scalar at a distance is read. -/
theorem At.scalarAt {n v : Nat} (h : At buf o (leBytes n v)) (back : List UInt8)
    (hv : v < 256 ^ n) (ho : n ∣ o) (hbuf : n ∣ buf.length) :
    scalarAt (buf ++ back) n (buf.length - o) = some v := by
  have hle := h.le
  have hlen := h.length_le
  have htake := h.take_drop back
  rw [length_leBytes] at hlen htake
  have halign : (buf.length - o) % n = 0 := Nat.mod_eq_zero_of_dvd (Nat.dvd_sub hbuf ho)
  have hin : buf.length - o + n ≤ (buf ++ back).length := by
    rw [List.length_append]
    omega
  rw [FlatBuffer.scalarAt, if_pos ⟨halign, hin⟩, htake, leNat_leBytes_of_lt hv]

/-- A string, its length in front and a terminator behind it. -/
structure IsString (buf : List UInt8) (o : Nat) (s : List UInt8) : Prop where
  image : At buf o (leBytes 4 s.length ++ (s ++ [0]))
  aligned : 4 ∣ o

/-- A vector of references to the objects at the distances `targets`. -/
structure IsVector (buf : List UInt8) (o : Nat) (targets : List Nat) : Prop where
  count : At buf o (leBytes 4 targets.length)
  refs : ∀ i (h : i < targets.length), targets[i] < o - 4 - 4 * i ∧
    At buf (o - 4 - 4 * i) (leBytes 4 (o - 4 - 4 * i - targets[i]))
  aligned : 4 ∣ o

/-- What a field of a table holds. -/
inductive Slot where
  | absent
  | bytes (width value : Nat)
  | ref (target : Nat)

/-- A field at the distance `f`, of a table at the distance `o`; 0 is no field. -/
def Slot.Holds (buf : List UInt8) (o size f : Nat) : Slot → Prop
  | absent => f = 0
  | bytes width value => At buf f (leBytes width value) ∧ 0 < width ∧ width ∣ 4 ∧ width ∣ f ∧
      value < 256 ^ width ∧ f + 4 ≤ o ∧ o + width ≤ f + size
  | ref target => At buf f (leBytes 4 (f - target)) ∧ 4 ∣ f ∧ target < f ∧ f + 4 ≤ o ∧
      o + 4 ≤ f + size

/-- The entry of a vtable. -/
def entry (o f : Nat) : Nat := if f = 0 then 0 else o - f

/-- A table. Its vtable stands in front of it and has no entries for the last fields that are
absent. -/
structure IsTable (buf : List UInt8) (o size : Nat) (offs : List Nat) (slots : List Slot) :
    Prop where
  aligned : 4 ∣ o
  soffset : At buf o (leBytes 4 (4 + 2 * offs.length))
  vtable : At buf (o + (4 + 2 * offs.length))
    (leBytes 2 (4 + 2 * offs.length) ++ (leBytes 2 size ++
      offs.flatMap fun f => leBytes 2 (entry o f)))
  size_ge : 4 ≤ size
  size_le : size ≤ o
  size_lt : size < 2 ^ 16
  vtable_lt : 4 + 2 * offs.length < 2 ^ 16
  short : offs.length ≤ slots.length
  held : ∀ i (h : i < slots.length), slots[i].Holds buf o size (offs.getD i 0)

section Stable

variable {buf : List UInt8} {o : Nat} (front : List UInt8)

theorem IsString.prepend {s : List UInt8} (h : IsString buf o s) : IsString (front ++ buf) o s :=
  ⟨h.image.prepend front, h.aligned⟩

theorem IsVector.prepend {targets : List Nat} (h : IsVector buf o targets) :
    IsVector (front ++ buf) o targets :=
  ⟨h.count.prepend front, fun i hi => ⟨(h.refs i hi).1, (h.refs i hi).2.prepend front⟩, h.aligned⟩

theorem Slot.Holds.prepend {size f : Nat} {s : Slot} (h : s.Holds buf o size f) :
    s.Holds (front ++ buf) o size f := by
  cases s with
  | absent => exact h
  | bytes width value => exact ⟨h.1.prepend front, h.2⟩
  | ref target => exact ⟨h.1.prepend front, h.2⟩

theorem IsTable.prepend {size : Nat} {offs : List Nat} {slots : List Slot}
    (h : IsTable buf o size offs slots) : IsTable (front ++ buf) o size offs slots :=
  { h with
    soffset := h.soffset.prepend front
    vtable := h.vtable.prepend front
    held := fun i hi => (h.held i hi).prepend front }

end Stable

/-! ## Objects are read back -/

section ReadBack

variable {buf : List UInt8} {o : Nat} (back : List UInt8)

/-- A reference is followed. -/
theorem At.follow {f target : Nat} (h : At buf f (leBytes 4 (f - target))) (hf : 4 ∣ f)
    (ht : target < f) (hbuf : 4 ∣ buf.length) (hlt : buf.length < 2 ^ 31) :
    follow (buf ++ back) (buf.length - f) = some (buf.length - target) := by
  have hle := h.le
  have hread := h.scalarAt back (by omega) hf hbuf
  rw [FlatBuffer.follow, hread]
  show some (buf.length - f + (f - target)) = _
  rw [show buf.length - f + (f - target) = buf.length - target by omega]

theorem IsString.read {s : List UInt8} (h : IsString buf o s) (hbuf : 4 ∣ buf.length)
    (hlt : buf.length < 2 ^ 31) : stringAt (buf ++ back) (buf.length - o) = some s := by
  have hle := h.image.le
  have hlen := h.image.length_le
  simp only [List.length_append, length_leBytes, List.length_singleton] at hlen
  have hlength := h.image.left.scalarAt back (by omega) h.aligned hbuf
  have hbody := h.image.right
  rw [length_leBytes] at hbody
  have hs := hbody.left.take_drop back
  have hend := hbody.right.take_drop back
  have hpos : buf.length - o + 4 = buf.length - (o - 4) := by omega
  have hend' : (buf ++ back)[buf.length - o + 4 + s.length]? = some 0 := by
    rw [show buf.length - (o - 4 - s.length) = buf.length - o + 4 + s.length by omega] at hend
    have hget := congrArg (·[0]?) hend
    rwa [List.length_singleton, List.getElem?_take_of_lt Nat.zero_lt_one,
      List.getElem?_drop] at hget
  rw [stringAt, hlength]
  show (if (buf ++ back)[buf.length - o + 4 + s.length]? = some 0 then _ else _) = _
  rw [if_pos hend', hpos, hs]

theorem mapM_eq_map {α β : Type} {f : α → Option β} {g : α → β} {xs : List α}
    (h : ∀ x ∈ xs, f x = some (g x)) : xs.mapM f = some (xs.map g) := by
  induction xs with
  | nil => rfl
  | cons x xs ih =>
    rw [List.mapM_cons, h x List.mem_cons_self, ih fun y hy => h y (List.mem_cons_of_mem x hy)]
    rfl

/-- The references are in the buffer. -/
theorem IsVector.length_le {targets : List Nat} (h : IsVector buf o targets) :
    4 * targets.length ≤ buf.length := by
  have hle := h.count.le
  rcases Nat.eq_zero_or_pos targets.length with hzero | hpos
  · omega
  · have hlast := (h.refs (targets.length - 1) (by omega)).1
    omega

theorem IsVector.read {targets : List Nat} (h : IsVector buf o targets) (hbuf : 4 ∣ buf.length)
    (hlt : buf.length < 2 ^ 31) (hcount : targets.length < 2 ^ 32) :
    refsAt (buf ++ back) (buf.length - o) = some (targets.map fun t => buf.length - t) := by
  have hle := h.count.le
  have hn := h.count.scalarAt back hcount h.aligned hbuf
  have hrefs : ∀ i ∈ List.range targets.length,
      follow (buf ++ back) (buf.length - o + 4 + 4 * i) = some (buf.length - targets.getD i 0) := by
    intro i hi
    have hi := List.mem_range.mp hi
    obtain ⟨hlt', hat⟩ := h.refs i hi
    have halign : 4 ∣ o - 4 - 4 * i := by
      have := h.aligned
      omega
    rw [show buf.length - o + 4 + 4 * i = buf.length - (o - 4 - 4 * i) by omega,
      hat.follow back halign hlt' hbuf hlt, List.getD_eq_getElem _ _ hi]
  have hmap : (List.range targets.length).map (fun i => buf.length - targets.getD i 0) =
      targets.map fun t => buf.length - t := by
    apply List.ext_getElem
    · simp
    · intro i h₁ h₂
      simp at h₁
      simp [h₁]
  rw [refsAt, hn]
  show (List.range targets.length).mapM _ = _
  rw [mapM_eq_map hrefs, hmap]

/-- One of many scalars of two bytes. -/
theorem At.flatMap {α : Type} {g : α → Nat} {xs : List α}
    (h : At buf o (xs.flatMap fun x => leBytes 2 (g x))) {i : Nat} (hi : i < xs.length) :
    At buf (o - 2 * i) (leBytes 2 (g xs[i])) := by
  induction xs generalizing o i with
  | nil => exact absurd hi (Nat.not_lt_zero i)
  | cons x xs ih =>
    rw [List.flatMap_cons] at h
    cases i with
    | zero => exact h.left
    | succ i =>
      have hrest := h.right
      rw [length_leBytes] at hrest
      have hat := ih hrest (Nat.lt_of_succ_lt_succ hi)
      rwa [Nat.sub_sub, Nat.add_comm 2, ← Nat.mul_succ] at hat

/-- The table that is read. -/
def tableOf (buf : List UInt8) (o size : Nat) (offs : List Nat) : Table where
  pos := buf.length - o
  vtable := buf.length - (o + (4 + 2 * offs.length))
  vtableSize := 4 + 2 * offs.length
  size := size

section Tables

variable {size : Nat} {offs : List Nat} {slots : List Slot}

theorem IsTable.read (h : IsTable buf o size offs slots) (hbuf : 4 ∣ buf.length) :
    tableAt (buf ++ back) (buf.length - o) = some (tableOf buf o size offs) := by
  have hle := h.vtable.le
  have heven : 2 ∣ buf.length := Nat.dvd_trans (by decide) hbuf
  have ho : 2 ∣ o := Nat.dvd_trans (by decide) h.aligned
  have hvlt := h.vtable_lt
  have hback := h.soffset.scalarAt back (by omega) h.aligned hbuf
  have hvsize := h.vtable.left.scalarAt back h.vtable_lt (by omega) heven
  have hsize := h.vtable.right.left
  rw [length_leBytes] at hsize
  have hsize := hsize.scalarAt back h.size_lt (by omega) heven
  have hvtable : buf.length - o - (4 + 2 * offs.length) =
      buf.length - (o + (4 + 2 * offs.length)) := by omega
  have hsoffset : soffsetAt (buf ++ back) (buf.length - o) =
      some (buf.length - (o + (4 + 2 * offs.length))) := by
    rw [soffsetAt, hback]
    show (if 4 + 2 * offs.length < 2 ^ 31 then
      if 4 + 2 * offs.length ≤ buf.length - o then some (buf.length - o - (4 + 2 * offs.length))
      else none else _) = _
    rw [if_pos (by omega), if_pos (by omega), hvtable]
  rw [show buf.length - (o + (4 + 2 * offs.length) - 2) =
    buf.length - (o + (4 + 2 * offs.length)) + 2 by omega] at hsize
  have hge := h.size_ge
  have hsle := h.size_le
  rw [tableAt, hsoffset]
  show (scalarAt (buf ++ back) 2 (buf.length - (o + (4 + 2 * offs.length))) >>= _) = _
  rw [hvsize]
  show (scalarAt (buf ++ back) 2 (buf.length - (o + (4 + 2 * offs.length)) + 2) >>= _) = _
  rw [hsize]
  exact if_neg (by rw [List.length_append]; omega)

/-- A field that is there has an entry. -/
theorem lt_length_of_getD {i f : Nat} (hf : offs.getD i 0 = f) (hpos : 0 < f) :
    i < offs.length := by
  by_contra hlt
  rw [List.getD_eq_default _ _ (by omega)] at hf
  omega

theorem IsTable.entry (h : IsTable buf o size offs slots) (hbuf : 4 ∣ buf.length) {i : Nat}
    (hi : i < offs.length) (hsmall : entry o offs[i] < 2 ^ 16) :
    scalarAt (buf ++ back) 2 ((tableOf buf o size offs).vtable + (4 + 2 * i)) =
      some (entry o offs[i]) := by
  have hle := h.vtable.le
  have ho : 2 ∣ o := Nat.dvd_trans (by decide) h.aligned
  have hentries := h.vtable.right.right
  rw [length_leBytes, length_leBytes] at hentries
  have hread := (hentries.flatMap hi).scalarAt back hsmall (by omega)
    (Nat.dvd_trans (by decide) hbuf)
  rw [show buf.length - (o + (4 + 2 * offs.length) - 2 - 2 - 2 * i) =
    buf.length - (o + (4 + 2 * offs.length)) + (4 + 2 * i) by omega] at hread
  exact hread

theorem IsTable.fieldAt_absent (h : IsTable buf o size offs slots) (hbuf : 4 ∣ buf.length)
    {i : Nat} (hf : offs.getD i 0 = 0) (n : Nat) :
    (tableOf buf o size offs).fieldAt (buf ++ back) i n = some none := by
  by_cases hi : i < offs.length
  · rw [List.getD_eq_getElem _ _ hi] at hf
    have hzero : FlatBuffer.entry o offs[i] = 0 := if_pos hf
    have hread := h.entry back hbuf hi (by rw [hzero]; decide)
    rw [hzero] at hread
    rw [Table.fieldAt, if_neg (by show ¬ 4 + 2 * offs.length < _; omega), hread]
    rfl
  · exact if_pos (by show 4 + 2 * offs.length < _; omega)

theorem IsTable.fieldAt_present (h : IsTable buf o size offs slots) (hbuf : 4 ∣ buf.length)
    {i f n : Nat} (hf : offs.getD i 0 = f) (hpos : 0 < f) (hfo : f + 4 ≤ o)
    (hsize : o + n ≤ f + size) :
    (tableOf buf o size offs).fieldAt (buf ++ back) i n = some (some (buf.length - f)) := by
  have hi := lt_length_of_getD hf hpos
  have hle := h.soffset.le
  rw [List.getD_eq_getElem _ _ hi] at hf
  have hentry : FlatBuffer.entry o offs[i] = o - f := by
    rw [FlatBuffer.entry, if_neg (by omega), hf]
  have hslt := h.size_lt
  have hread := h.entry back hbuf hi (by rw [hentry]; omega)
  rw [hentry] at hread
  rw [Table.fieldAt, if_neg (by show ¬ 4 + 2 * offs.length < _; omega), hread]
  show (if o - f = 0 then some none else
    if o - f < 4 ∨ size < o - f + n then none else some (some (buf.length - o + (o - f)))) = _
  rw [if_neg (by omega), if_neg (by omega), show buf.length - o + (o - f) = buf.length - f by omega]

theorem IsTable.scalar (h : IsTable buf o size offs slots) (hbuf : 4 ∣ buf.length) {i w v : Nat}
    (hs : slots[i]? = some (.bytes w v)) :
    (tableOf buf o size offs).scalar (buf ++ back) i w = some (some v) := by
  obtain ⟨hi, hslot⟩ := List.getElem?_eq_some_iff.mp hs
  have hheld := h.held i hi
  rw [hslot] at hheld
  obtain ⟨hat, hw, hw4, hwf, hv, hfo, hsize⟩ := hheld
  have hpos : 0 < offs.getD i 0 := by
    have hlen := hat.length_le
    rw [length_leBytes] at hlen
    omega
  have hfield := h.fieldAt_present back hbuf rfl hpos hfo hsize
  rw [Table.scalar, hfield]
  show (scalarAt (buf ++ back) w (buf.length - offs.getD i 0)).map some = _
  rw [hat.scalarAt back hv hwf (Nat.dvd_trans hw4 hbuf)]
  rfl

theorem IsTable.ref (h : IsTable buf o size offs slots) (hbuf : 4 ∣ buf.length)
    (hlt : buf.length < 2 ^ 31) {i target : Nat} (hs : slots[i]? = some (.ref target)) :
    (tableOf buf o size offs).ref (buf ++ back) i = some (some (buf.length - target)) := by
  obtain ⟨hi, hslot⟩ := List.getElem?_eq_some_iff.mp hs
  have hheld := h.held i hi
  rw [hslot] at hheld
  obtain ⟨hat, hf, htarget, hfo, hsize⟩ := hheld
  have hfield := h.fieldAt_present back hbuf rfl (by omega) hfo hsize
  rw [Table.ref, hfield]
  show (follow (buf ++ back) (buf.length - offs.getD i 0)).map some = _
  rw [hat.follow back hf htarget hbuf hlt]
  rfl

/-- A field that is not there. -/
theorem IsTable.offset_absent (h : IsTable buf o size offs slots) {i : Nat}
    (hs : slots.getD i .absent = .absent) : offs.getD i 0 = 0 := by
  by_cases hi : i < slots.length
  · rw [List.getD_eq_getElem _ _ hi] at hs
    have hheld := h.held i hi
    rw [hs] at hheld
    exact hheld
  · have hshort := h.short
    exact List.getD_eq_default _ _ (by omega)

theorem IsTable.scalar_absent (h : IsTable buf o size offs slots) (hbuf : 4 ∣ buf.length) {i : Nat}
    (hs : slots.getD i .absent = .absent) (n : Nat) :
    (tableOf buf o size offs).scalar (buf ++ back) i n = some none := by
  rw [Table.scalar, h.fieldAt_absent back hbuf (h.offset_absent hs)]
  rfl

theorem IsTable.ref_absent (h : IsTable buf o size offs slots) (hbuf : 4 ∣ buf.length) {i : Nat}
    (hs : slots.getD i .absent = .absent) :
    (tableOf buf o size offs).ref (buf ++ back) i = some none := by
  rw [Table.ref, h.fieldAt_absent back hbuf (h.offset_absent hs)]
  rfl

end Tables

end ReadBack

end Images

end FlatBuffer
