import Mathlib.Data.List.GetD

/-!
# Hash tables with chains

A table is a list of buckets, each a chain of entries; `slot n e` says in which of `n` buckets an
entry belongs. Entries are pushed in front of their chain, and moved one by one when the table grows.
As long as every entry is in its bucket (`Placed`), a search of one bucket is a search of all entries
(`find?_bucket`), whatever the sizes the table went through.
-/

namespace ChainedTable

variable {ε : Type}

/-- Buckets, the newest entry of each in front. -/
abbrev Table (ε : Type) := List (List ε)

def bucket (t : Table ε) (i : Nat) : List ε := t.getD i []

def push (t : Table ε) (i : Nat) (e : ε) : Table ε := t.set i (e :: bucket t i)

/-- All entries, bucket by bucket. -/
def entries (t : Table ε) : List ε := t.flatten

/-- The entries moved to a table of `n` buckets, in the order of the old one. -/
def rehash (slot : Nat → ε → Nat) (t : Table ε) (n : Nat) : Table ε :=
  (entries t).foldl (fun t' e => push t' (slot n e) e) (List.replicate n [])

/-- Every entry is in the bucket it belongs in. -/
def Placed (slot : Nat → ε → Nat) (t : Table ε) : Prop :=
  ∀ i, ∀ e ∈ bucket t i, slot t.length e = i

@[simp] theorem length_push (t : Table ε) (i : Nat) (e : ε) : (push t i e).length = t.length :=
  List.length_set

theorem mem_entries {t : Table ε} {e : ε} : e ∈ entries t ↔ ∃ i < t.length, e ∈ bucket t i := by
  rw [entries, List.mem_flatten]
  constructor
  · rintro ⟨chain, hchain, he⟩
    obtain ⟨i, hi, rfl⟩ := List.getElem_of_mem hchain
    exact ⟨i, hi, by rwa [bucket, List.getD_eq_getElem _ _ hi]⟩
  · rintro ⟨i, hi, he⟩
    rw [bucket, List.getD_eq_getElem _ _ hi] at he
    exact ⟨_, List.getElem_mem hi, he⟩

theorem bucket_push {t : Table ε} {i : Nat} (hi : i < t.length) (e : ε) (j : Nat) :
    bucket (push t i e) j = if i = j then e :: bucket t i else bucket t j := by
  unfold bucket push
  rw [List.getD_eq_getElem?_getD, List.getElem?_set]
  split
  · rename_i hij
    rfl
  · rw [← List.getD_eq_getElem?_getD]

theorem mem_entries_push {t : Table ε} {i : Nat} (hi : i < t.length) (e x : ε) :
    x ∈ entries (push t i e) ↔ x = e ∨ x ∈ entries t := by
  simp only [mem_entries, length_push, bucket_push hi]
  constructor
  · rintro ⟨j, hj, hx⟩
    split at hx
    · rename_i hij
      subst hij
      exact (List.mem_cons.mp hx).imp_right fun hx => ⟨i, hi, hx⟩
    · exact .inr ⟨j, hj, hx⟩
  · rintro (rfl | ⟨j, hj, hx⟩)
    · exact ⟨i, hi, by rw [if_pos rfl]; exact List.mem_cons_self ..⟩
    · refine ⟨j, hj, ?_⟩
      split
      · rename_i hij
        subst hij
        exact List.mem_cons_of_mem _ hx
      · exact hx

variable {slot : Nat → ε → Nat}

theorem Placed.push {t : Table ε} {i : Nat} {e : ε} (h : Placed slot t) (hi : i < t.length)
    (he : slot t.length e = i) : Placed slot (push t i e) := by
  intro j x hx
  rw [length_push]
  rw [bucket_push hi] at hx
  split at hx
  · rename_i hij
    subst hij
    rcases List.mem_cons.mp hx with rfl | hx
    · exact he
    · exact h i x hx
  · exact h j x hx

/-- Pushing entries where they belong. -/
theorem foldl_push {n : Nat} (hslot : ∀ e, slot n e < n) (es : List ε) {t : Table ε}
    (hlen : t.length = n) (h : Placed slot t) :
    (es.foldl (fun t' e => ChainedTable.push t' (slot n e) e) t).length = n ∧
      Placed slot (es.foldl (fun t' e => ChainedTable.push t' (slot n e) e) t) ∧
      ∀ x, x ∈ entries (es.foldl (fun t' e => ChainedTable.push t' (slot n e) e) t) ↔
        x ∈ es ∨ x ∈ entries t := by
  induction es generalizing t with
  | nil => exact ⟨hlen, h, fun x => by simp⟩
  | cons e es ih =>
    have hi : slot n e < t.length := hlen.symm ▸ hslot e
    obtain ⟨hlen', hplaced, hmem⟩ := ih ((length_push ..).trans hlen)
      (h.push hi (congrArg (slot · e) hlen))
    refine ⟨hlen', hplaced, fun x => (hmem x).trans ?_⟩
    rw [mem_entries_push hi, List.mem_cons, or_left_comm, or_assoc]

/-- **A table that grows** keeps its entries, each where it belongs. -/
theorem rehash_spec {n : Nat} (hslot : ∀ e, slot n e < n) (t : Table ε) :
    (rehash slot t n).length = n ∧ Placed slot (rehash slot t n) ∧
      ∀ x, x ∈ entries (rehash slot t n) ↔ x ∈ entries t := by
  have hnone : ∀ i, bucket (List.replicate n ([] : List ε)) i = [] := by
    intro i
    unfold bucket
    rw [List.getD_eq_getElem?_getD, List.getElem?_replicate]
    split <;> rfl
  have hempty : Placed slot (List.replicate n ([] : List ε)) := by
    intro i e he
    rw [hnone] at he
    exact absurd he List.not_mem_nil
  obtain ⟨hlen, hplaced, hmem⟩ := foldl_push hslot (entries t) List.length_replicate hempty
  refine ⟨hlen, hplaced, fun x => (hmem x).trans (or_iff_left fun hx => ?_)⟩
  obtain ⟨i, -, hx⟩ := mem_entries.mp hx
  rw [hnone] at hx
  exact List.not_mem_nil hx

/-- **A search of one bucket** finds an entry when there is one, for entries that all belong there. -/
theorem find?_bucket {t : Table ε} (h : Placed slot t) {i : Nat} (hi : i < t.length)
    {p : ε → Bool} (hp : ∀ e, p e = true → slot t.length e = i) :
    ((bucket t i).find? p = none ↔ ∀ e ∈ entries t, p e = false) ∧
      ∀ e, (bucket t i).find? p = some e → e ∈ entries t ∧ p e = true := by
  refine ⟨?_, fun e he => ⟨mem_entries.mpr ⟨i, hi, List.mem_of_find?_eq_some he⟩,
    List.find?_some he⟩⟩
  rw [List.find?_eq_none]
  constructor
  · intro hnone e he
    refine Bool.eq_false_iff.mpr fun hpe => ?_
    obtain ⟨j, -, hj⟩ := mem_entries.mp he
    have hij : i = j := (hp e hpe).symm.trans (h j e hj)
    exact hnone e (hij ▸ hj) hpe
  · intro hall e he hpe
    rw [hall e (mem_entries.mpr ⟨i, hi, he⟩)] at hpe
    cases hpe

end ChainedTable
