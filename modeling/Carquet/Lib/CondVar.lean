import Mathlib.Data.List.Perm.Basic
import Mathlib.Tactic.Push

/-!
# Condition variables

Threads are listed by what they do; a condition variable is given by `wake`, the state in which a
thread asleep on it wakes (`none` for a thread that is not). A signal wakes one of the threads
asleep, if there is one; a broadcast wakes all of them. A step of one thread replaces its entry of the
list, so what depends on the list up to order (a count, the multiset of what the threads hold) changes
by that entry only (`perm_set`).
-/

namespace CondVar

variable {α : Type}

/-- Replacing one entry, up to order. -/
theorem perm_set {ts : List α} {i : Nat} {x : α} (h : ts[i]? = some x) (y : α) :
    ∃ rest, ts.Perm (x :: rest) ∧ (ts.set i y).Perm (y :: rest) := by
  obtain ⟨hi, rfl⟩ := List.getElem?_eq_some_iff.1 h
  exact ⟨ts.eraseIdx i, (List.getElem_cons_eraseIdx_perm hi).symm, List.set_perm_cons_eraseIdx hi y⟩

/-- How far a thread that changes its state changes a count. -/
theorem countP_set {ts : List α} {i : Nat} {x : α} (h : ts[i]? = some x) (y : α) (p : α → Bool) :
    (ts.set i y).countP p + (if p x then 1 else 0) = ts.countP p + (if p y then 1 else 0) := by
  obtain ⟨rest, hold, hnew⟩ := perm_set h y
  rw [hold.countP_eq, hnew.countP_eq, List.countP_cons, List.countP_cons]
  omega

/-- What the threads hold, when one that holds nothing of it changes its state. -/
theorem filterMap_set {β : Type} {ts : List α} {i : Nat} {x : α} (h : ts[i]? = some x) (y : α)
    (f : α → Option β) :
    ∃ held, (ts.filterMap f).Perm ((f x).toList ++ held) ∧
      ((ts.set i y).filterMap f).Perm ((f y).toList ++ held) := by
  obtain ⟨rest, hold, hnew⟩ := perm_set h y
  refine ⟨rest.filterMap f, ?_, ?_⟩
  · have := hold.filterMap f
    rw [List.filterMap_cons] at this
    cases hx : f x <;> rw [hx] at this <;> exact this
  · have := hnew.filterMap f
    rw [List.filterMap_cons] at this
    cases hy : f y <;> rw [hy] at this <;> exact this

/-! ## Waking -/

/-- One of the threads asleep wakes, or nobody is asleep and the signal is lost. -/
inductive Signal (wake : α → Option α) (ts : List α) : List α → Prop
  | wakes {i : Nat} {x y : α} (hx : ts[i]? = some x) (hy : wake x = some y) :
      Signal wake ts (ts.set i y)
  | lost (h : ∀ x ∈ ts, wake x = none) : Signal wake ts ts

/-- Every thread asleep wakes. -/
def broadcast (wake : α → Option α) (ts : List α) : List α := ts.map fun x => (wake x).getD x

variable {wake : α → Option α} {ts ts' : List α}

/-- What no thread that wakes loses or gains is counted as before. -/
theorem Signal.countP_eq (h : Signal wake ts ts') {p : α → Bool}
    (hp : ∀ x y, wake x = some y → p x = p y) : ts'.countP p = ts.countP p := by
  cases h with
  | @wakes i x y hx hy =>
    have := countP_set hx y p
    rw [hp _ _ hy] at this
    omega
  | lost => rfl

/-- A signal adds one to those that were woken, unless nobody was asleep. -/
theorem Signal.countP_succ (h : Signal wake ts ts') {p : α → Bool}
    (hp : ∀ x y, wake x = some y → p x = false ∧ p y = true) :
    ts'.countP p = ts.countP p + 1 ∨ ∀ x ∈ ts', wake x = none := by
  cases h with
  | @wakes i x y hx hy =>
    left
    have := countP_set hx y p
    rw [(hp _ _ hy).1, (hp _ _ hy).2] at this
    simpa using this
  | lost hnone => exact .inr hnone

theorem Signal.filterMap_perm {β : Type} (h : Signal wake ts ts') {f : α → Option β}
    (hf : ∀ x y, wake x = some y → f x = f y) : (ts'.filterMap f).Perm (ts.filterMap f) := by
  cases h with
  | @wakes i x y hx hy =>
    obtain ⟨held, hold, hnew⟩ := filterMap_set hx y f
    rw [hf _ _ hy] at hold
    exact hnew.trans hold.symm
  | lost => exact .refl _

/-- A thread of the list after a signal was there before, or has just woken. -/
theorem Signal.mem (h : Signal wake ts ts') {x : α} (hx : x ∈ ts') :
    x ∈ ts ∨ ∃ x₀ ∈ ts, wake x₀ = some x := by
  cases h with
  | wakes hold hwake =>
    rcases List.mem_or_eq_of_mem_set hx with hmem | rfl
    · exact .inl hmem
    · exact .inr ⟨_, List.mem_of_getElem? hold, hwake⟩
  | lost => exact .inl hx

theorem Signal.length_eq (h : Signal wake ts ts') : ts'.length = ts.length := by
  cases h with
  | wakes => exact List.length_set
  | lost => rfl

theorem mem_broadcast {x : α} (hx : x ∈ broadcast wake ts) :
    (x ∈ ts ∧ wake x = none) ∨ ∃ x₀ ∈ ts, wake x₀ = some x := by
  obtain ⟨x₀, hx₀, rfl⟩ := List.mem_map.1 hx
  cases hw : wake x₀ with
  | none => exact .inl ⟨by simpa using hx₀, by simpa using hw⟩
  | some y => exact .inr ⟨x₀, hx₀, by simpa using hw⟩

theorem countP_broadcast {p : α → Bool} (hp : ∀ x y, wake x = some y → p x = p y) :
    (broadcast wake ts).countP p = ts.countP p := by
  rw [broadcast, List.countP_map]
  refine List.countP_congr fun x _ => ?_
  cases hw : wake x with
  | none => simp [hw]
  | some y => simp [hw, hp x y hw]

theorem filterMap_broadcast {β : Type} {f : α → Option β}
    (hf : ∀ x y, wake x = some y → f x = f y) :
    (broadcast wake ts).filterMap f = ts.filterMap f := by
  rw [broadcast, List.filterMap_map]
  refine List.filterMap_congr fun x _ => ?_
  cases hw : wake x with
  | none => simp [hw]
  | some y => simp [hw, hf x y hw]

end CondVar
