import Mathlib.Data.List.Basic

/-!
# Checked accesses

A program over arrays of fixed sizes: a read or a store at an index outside has no value, it is the
fault `outside`. `settle` is a run without accesses, seen as one with them; a run that is `settle`
of something never leaves its arrays (`settle_ne_outside`).
-/

namespace Access

variable {ε α β : Type}

/-- How a run ends early: the program refuses, or it leaves an array. -/
inductive Fault (ε : Type) where
  | refused (e : ε)
  | outside
  deriving DecidableEq, Repr

/-- A run that accesses nothing. -/
def settle : Except ε α → Except (Fault ε) α
  | .ok a => .ok a
  | .error e => .error (.refused e)

@[simp] theorem settle_ok (a : α) : settle (.ok a : Except ε α) = .ok a := rfl

@[simp] theorem settle_error (e : ε) : settle (.error e : Except ε α) = .error (.refused e) := rfl

theorem settle_ok_bind (a : α) (f : α → Except (Fault ε) β) :
    (settle (.ok a : Except ε α) >>= f) = f a := rfl

theorem settle_ne_outside (x : Except ε α) : settle x ≠ .error .outside := by
  cases x <;> simp

theorem settle_eq_ok {x : Except ε α} {a : α} : settle x = .ok a ↔ x = .ok a := by
  cases x <;> simp

/-- `array[i]`. -/
def readAt (array : List α) (i : Nat) : Except (Fault ε) α :=
  match array[i]? with
  | some a => .ok a
  | none => .error .outside

theorem readAt_of_lt {array : List α} {i : Nat} (h : i < array.length) :
    readAt (ε := ε) array i = .ok array[i] := by
  rw [readAt, List.getElem?_eq_getElem h]

/-- `n` elements from `pos` on. -/
def sliceAt (array : List α) (pos n : Nat) : Except (Fault ε) (List α) :=
  if pos + n ≤ array.length then .ok ((array.drop pos).take n) else .error .outside

theorem sliceAt_of_le {array : List α} {pos n : Nat} (h : pos + n ≤ array.length) :
    sliceAt (ε := ε) array pos n = .ok ((array.drop pos).take n) := if_pos h

/-- `array[i] = a`. -/
def storeAt (array : List α) (i : Nat) (a : α) : Except (Fault ε) (List α) :=
  if i < array.length then .ok (array.set i a) else .error .outside

theorem storeAt_of_lt {array : List α} {i : Nat} (h : i < array.length) (a : α) :
    storeAt (ε := ε) array i a = .ok (array.set i a) := if_pos h

/-- The elements of `new`, stored from `pos` on. -/
def copyAt (array : List α) (pos : Nat) (new : List α) : Except (Fault ε) (List α) :=
  if pos + new.length ≤ array.length then
    .ok (array.take pos ++ new ++ array.drop (pos + new.length))
  else .error .outside

theorem copyAt_of_le {array : List α} {pos : Nat} {new : List α}
    (h : pos + new.length ≤ array.length) :
    copyAt (ε := ε) array pos new =
      .ok (array.take pos ++ new ++ array.drop (pos + new.length)) := if_pos h

/-- The next cell behind those that are filled. -/
theorem storeAt_append {done more : List α} {old : α} (a : α) :
    storeAt (ε := ε) (done ++ old :: more) done.length a = .ok (done ++ a :: more) := by
  rw [storeAt_of_lt (by simp), List.set_append_right _ _ (Nat.le_refl _), Nat.sub_self]
  rfl

theorem readAt_append {done more : List α} {a : α} :
    readAt (ε := ε) (done ++ a :: more) done.length = .ok a := by
  rw [readAt_of_lt (by simp)]
  simp

/-- Behind those that are filled. -/
theorem copyAt_append {done old more new : List α} (h : old.length = new.length) :
    copyAt (ε := ε) (done ++ (old ++ more)) done.length new = .ok (done ++ (new ++ more)) := by
  rw [copyAt_of_le (by simp [h]), List.take_left' rfl, ← h, List.append_assoc,
    ← List.drop_drop, List.drop_left' rfl, List.drop_left' rfl]

end Access
