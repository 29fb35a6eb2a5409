import Mathlib.Order.Lattice
import Mathlib.Order.BoundedOrder.Basic

/-!
# Filters that know what went in

A membership filter holds a value of a semilattice. Each key has a mask; to insert the key is to join
its mask, to merge filters is to join them, and a key may be in a filter that is above its mask. So no
key that went in is ever denied (`Built.mask_le`), whatever else went in: a filter only grows.
-/

namespace MembershipFilter

variable {κ β : Type} [SemilatticeSup β] (mask : κ → β)

/-- A key may be in the filter. -/
def Reports (b : β) (k : κ) : Prop := mask k ≤ b

/-- The filters that can be built, each with the keys that went in. -/
inductive Built : β → List κ → Prop
  | start (b : β) : Built b []
  | insert {b : β} {ks : List κ} (k : κ) (h : Built b ks) : Built (b ⊔ mask k) (k :: ks)
  | merge {b c : β} {ks ls : List κ} (hb : Built b ks) (hc : Built c ls) : Built (b ⊔ c) (ks ++ ls)

variable {mask}

theorem Reports.mono {b c : β} {k : κ} (h : Reports mask b k) (hle : b ≤ c) : Reports mask c k :=
  le_trans h hle

theorem reports_insert (b : β) (k : κ) : Reports mask (b ⊔ mask k) k := le_sup_right

/-- **No key is denied.** -/
theorem Built.reports {b : β} {ks : List κ} (h : Built mask b ks) : ∀ k ∈ ks, Reports mask b k := by
  induction h with
  | start b => exact fun k hk => absurd hk List.not_mem_nil
  | insert k h ih =>
    intro l hl
    rcases List.mem_cons.mp hl with rfl | hl
    · exact reports_insert _ _
    · exact (ih l hl).mono le_sup_left
  | merge hb hc ihb ihc =>
    intro l hl
    rcases List.mem_append.mp hl with hl | hl
    · exact (ihb l hl).mono le_sup_left
    · exact (ihc l hl).mono le_sup_right

/-- Keys that go in one after the other. -/
theorem Built.foldl {b : β} {ks : List κ} (h : Built mask b ks) (ls : List κ) :
    Built mask (ls.foldl (fun b k => b ⊔ mask k) b) (ls.reverse ++ ks) := by
  induction ls generalizing b ks with
  | nil => exact h
  | cons l ls ih =>
    have hrest := ih (h.insert l)
    rwa [List.reverse_cons, List.append_assoc, List.singleton_append]

end MembershipFilter
