import Mathlib.Data.List.Basic

/-!
# Loops of indexed stores

A `for` loop whose body stores into an array, and what such loops do to it. `Overwrites g P a b`
says that `b` is `a` with exactly the positions of `P` overwritten, position `j` by `g j`. One
store overwrites one position, a sequence overwrites the union, a loop the union over its
counter; so two loop nests that visit the same positions in different orders, or in tiles, are
compared by their positions alone.
-/

namespace StoreLoop

variable {α σ : Type}

/-- `for (k = 0; k < n; k++) body`. -/
def loop (n : Nat) (body : Nat → σ → σ) (s : σ) : σ :=
  (List.range n).foldl (fun s k => body k s) s

@[simp] theorem loop_zero (body : Nat → σ → σ) (s : σ) : loop 0 body s = s := rfl

theorem loop_succ (n : Nat) (body : Nat → σ → σ) (s : σ) :
    loop (n + 1) body s = body n (loop n body s) := by
  rw [loop, List.range_succ, List.foldl_append]
  rfl

/-- `b` is `a` with the positions of `P` overwritten by `g`. -/
structure Overwrites (g : Nat → α) (P : Nat → Prop) (a b : List α) : Prop where
  length : b.length = a.length
  hit : ∀ j, P j → j < a.length → b[j]? = some (g j)
  miss : ∀ j, ¬ P j → b[j]? = a[j]?

namespace Overwrites

variable {g : Nat → α} {P Q : Nat → Prop} {a b c : List α}

theorem refl (h : ∀ j, ¬ P j) : Overwrites g P a a where
  length := rfl
  hit j hj _ := absurd hj (h j)
  miss _ _ := rfl

theorem store {p : Nat} {v : α} (h : v = g p) : Overwrites g (· = p) a (a.set p v) where
  length := List.length_set
  hit := by
    rintro j rfl hj
    rw [List.getElem?_set_self hj, h]
  miss j hj := List.getElem?_set_ne (fun hp => hj hp.symm)

theorem trans (h1 : Overwrites g P a b) (h2 : Overwrites g Q b c) :
    Overwrites g (fun j => P j ∨ Q j) a c where
  length := h2.length.trans h1.length
  hit := by
    intro j hj hlt
    by_cases hq : Q j
    · exact h2.hit j hq (h1.length.symm ▸ hlt)
    · rw [h2.miss j hq, h1.hit j (hj.resolve_right hq) hlt]
  miss := by
    intro j hj
    rw [not_or] at hj
    rw [h2.miss j hj.2, h1.miss j hj.1]

theorem congr (h : Overwrites g P a b) (hpq : ∀ j, j < a.length → (P j ↔ Q j)) :
    Overwrites g Q a b where
  length := h.length
  hit j hj hlt := h.hit j ((hpq j hlt).2 hj) hlt
  miss := by
    intro j hj
    by_cases hlt : j < a.length
    · exact h.miss j (fun hp => hj ((hpq j hlt).1 hp))
    · have hb := h.length
      rw [List.getElem?_eq_none (by omega), List.getElem?_eq_none (by omega)]

/-- A loop overwrites what its turns overwrite. -/
theorem loop {R : Nat → Nat → Prop} {n : Nat} {body : Nat → List α → List α}
    (h : ∀ k < n, ∀ o, Overwrites g (R k) o (body k o)) :
    Overwrites g (fun j => ∃ k < n, R k j) a (StoreLoop.loop n body a) := by
  induction n with
  | zero => exact refl (by simp)
  | succ n ih =>
    have hfirst := ih fun k hk => h k (by omega)
    rw [loop_succ]
    refine (hfirst.trans (h n (by omega) _)).congr fun j _ => ?_
    constructor
    · rintro (⟨k, hk, hr⟩ | hr)
      · exact ⟨k, by omega, hr⟩
      · exact ⟨n, by omega, hr⟩
    · rintro ⟨k, hk, hr⟩
      by_cases hkn : k = n
      · exact .inr (hkn ▸ hr)
      · exact .inl ⟨k, by omega, hr⟩

/-- Where a list is overwritten, by what, determines the outcome. -/
theorem unique {b' : List α} (h : Overwrites g P a b) (h' : Overwrites g P a b') : b = b' := by
  apply List.ext_getElem?
  intro j
  by_cases hj : P j
  · by_cases hlt : j < a.length
    · rw [h.hit j hj hlt, h'.hit j hj hlt]
    · have h1 := h.length
      have h2 := h'.length
      rw [List.getElem?_eq_none (by omega), List.getElem?_eq_none (by omega)]
  · rw [h.miss j hj, h'.miss j hj]

/-- Overwriting the first `n` positions by the elements of a list puts that list there. -/
theorem eq_append {xs : List α} (h : Overwrites g (· < xs.length) a b)
    (hfit : xs.length ≤ a.length) (hg : ∀ j, (hj : j < xs.length) → g j = xs[j]) :
    b = xs ++ a.drop xs.length := by
  apply List.ext_getElem?
  intro j
  by_cases hj : j < xs.length
  · rw [h.hit j hj (by omega), List.getElem?_append_left hj, List.getElem?_eq_getElem hj, hg j hj]
  · rw [h.miss j hj, List.getElem?_append_right (by omega), List.getElem?_drop]
    congr 1
    omega

end Overwrites

/-- `memcpy(dst + start, src + source, n)`, byte by byte; beyond its end `src` reads as `d`. -/
def copyInto (d : α) (dst : List α) (start : Nat) (src : List α) (source n : Nat) : List α :=
  loop n (fun k o => o.set (start + k) (src.getD (source + k) d)) dst

theorem overwrites_copyInto {g : Nat → α} {d : α} {dst src : List α} {start source n : Nat}
    (h : ∀ k < n, src.getD (source + k) d = g (start + k)) :
    Overwrites g (fun j => ∃ k < n, j = start + k) dst (copyInto d dst start src source n) :=
  .loop fun k hk _ => .store (h k hk)

end StoreLoop
