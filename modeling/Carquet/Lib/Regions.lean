import Mathlib.Data.List.Basic

/-!
# Regions of a sequence

What is appended to a file is found again by where it began and how long it is. A `Region` names a
window of a sequence; it `Holds` a piece where the sequence has the piece there. `place` gives the
regions of pieces that are appended one behind the other: they hold the pieces
(`forall₂_holds_place`), without a gap between them, and go on holding them whatever is appended
(`Holds.append`).
-/

namespace Regions

variable {α : Type*}

/-- `length` elements from `offset` on. -/
structure Region where
  offset : Nat
  length : Nat
  deriving DecidableEq, Repr

namespace Region

/-- The first element behind the region. -/
def stop (r : Region) : Nat := r.offset + r.length

/-- What a reader finds in the region. -/
def read (r : Region) (l : List α) : List α := (l.drop r.offset).take r.length

/-- The region is in the sequence, and has this piece in it. -/
def Holds (r : Region) (l piece : List α) : Prop :=
  ∃ front back, l = front ++ (piece ++ back) ∧ r = ⟨front.length, piece.length⟩

/-! ## Holding a piece -/

theorem Holds.read_eq {r : Region} {l piece : List α} (h : r.Holds l piece) : r.read l = piece := by
  obtain ⟨front, back, rfl, rfl⟩ := h
  rw [Region.read, List.drop_left' rfl, List.take_left' rfl]

theorem Holds.stop_le {r : Region} {l piece : List α} (h : r.Holds l piece) : r.stop ≤ l.length := by
  obtain ⟨front, back, rfl, rfl⟩ := h
  simp only [Region.stop, List.length_append]
  omega

theorem Holds.length_eq {r : Region} {l piece : List α} (h : r.Holds l piece) :
    r.length = piece.length := by
  obtain ⟨front, back, -, rfl⟩ := h
  rfl

/-- What is appended does not change it. -/
theorem Holds.append {r : Region} {l piece : List α} (h : r.Holds l piece) (more : List α) :
    r.Holds (l ++ more) piece := by
  obtain ⟨front, back, rfl, rfl⟩ := h
  exact ⟨front, back ++ more, by simp only [List.append_assoc], rfl⟩

/-- A region where there is a piece, and none where there is not. -/
def HoldsOption (l : List α) (r : Option Region) (piece : Option (List α)) : Prop :=
  Option.Rel (fun r piece => Region.Holds r l piece) r piece

theorem HoldsOption.append {r : Option Region} {l : List α} {piece : Option (List α)}
    (h : HoldsOption l r piece) (more : List α) : HoldsOption (l ++ more) r piece := by
  cases h with
  | none => exact .none
  | some h => exact .some (h.append more)

theorem HoldsOption.eq_none {r : Option Region} {l : List α} (h : HoldsOption l r none) :
    r = none := by
  cases h
  rfl

theorem HoldsOption.exists_of_some {r : Option Region} {l piece : List α}
    (h : HoldsOption l r (some piece)) : ∃ q, r = some q ∧ q.Holds l piece := by
  cases h with
  | some h => exact ⟨_, rfl, h⟩

end Region

/-! ## Pieces in a row -/

/-- The regions of pieces that are appended from `offset` on. -/
def place (offset : Nat) : List (List α) → List Region
  | [] => []
  | piece :: pieces => ⟨offset, piece.length⟩ :: place (offset + piece.length) pieces

@[simp] theorem place_nil (offset : Nat) : place offset ([] : List (List α)) = [] := rfl

theorem place_cons (offset : Nat) (piece : List α) (pieces : List (List α)) :
    place offset (piece :: pieces) =
      ⟨offset, piece.length⟩ :: place (offset + piece.length) pieces := rfl

theorem place_append (offset : Nat) (ps qs : List (List α)) :
    place offset (ps ++ qs) = place offset ps ++ place (offset + ps.flatten.length) qs := by
  induction ps generalizing offset with
  | nil => rfl
  | cons p ps ih =>
    rw [List.cons_append, place_cons, place_cons, ih, List.cons_append, List.flatten_cons,
      List.length_append, Nat.add_assoc]

/-- Every piece is held in its region, whatever is in front of the first and behind the last. -/
theorem forall₂_holds_place (front : List α) (pieces : List (List α)) (back : List α) :
    List.Forall₂ (fun r piece => Region.Holds r (front ++ (pieces.flatten ++ back)) piece)
      (place front.length pieces) pieces := by
  induction pieces generalizing front with
  | nil => exact .nil
  | cons piece pieces ih =>
    refine .cons ⟨front, pieces.flatten ++ back, by rw [List.flatten_cons, List.append_assoc], rfl⟩ ?_
    have hrest := ih (front ++ piece)
    rw [List.length_append] at hrest
    rwa [List.flatten_cons, List.append_assoc, ← List.append_assoc]

end Regions
