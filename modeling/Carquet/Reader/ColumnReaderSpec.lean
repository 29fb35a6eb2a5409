import Carquet.Core.Entries
import Carquet.Reader.ColumnReader

/-!
# Batches and skips are consecutive slices of the chunk

A chunk is a list of pages that load one behind the other (`Chunk`). Its entries are one stream
of levels and dense values, and a caller should get consecutive slices of it, however the calls
and the pages interleave (`Chunk.slices`).

Two things stand in the way. `carquet_read_next_page` narrows the number of entries wanted to
an `int32_t` (page_reader.c:2553), so that a request of `2^31` or more can end early
(`ReadFits`). And it takes a page to its end whatever is left of `num_values`, so that a page
that lies across the declared end of the chunk is returned whole (`NoPageAcrossEnd`).
-/

namespace Carquet

open LevelStream

variable {α : Type} {maxDefLevel : Int}

/-! ## Chunks and their entries -/

/-- A page that was decoded in full: one level an entry where there is a buffer for them, one
value for each entry that is present. -/
structure StoredPage (α : Type) (maxDefLevel : Int) extends LoadedPage α where
  length_defLevels : ∀ levels, defLevels = some levels → levels.length = numValues
  length_repLevels : ∀ levels, repLevels = some levels → levels.length = numValues
  defLevels_isSome : 0 < maxDefLevel → defLevels.isSome
  length_values :
    values.length = (levelsAt defLevels 0 numValues).countP (isPresent maxDefLevel)

theorem length_levelsAt {levels : Option (List Int)} {n : Nat}
    (h : ∀ l, levels = some l → l.length = n) : (levelsAt levels 0 n).length = n := by
  cases levels with
  | none => simp [levelsAt]
  | some l => simp [levelsAt, h l rfl]

/-- The entries of a page. -/
def StoredPage.entries (p : StoredPage α maxDefLevel) : Entries α maxDefLevel where
  levels := levelsAt p.defLevels 0 p.numValues
  reps := levelsAt p.repLevels 0 p.numValues
  values := p.values
  length_reps := by
    rw [length_levelsAt p.length_repLevels, length_levelsAt p.length_defLevels]
  length_values := p.length_values

@[simp] theorem StoredPage.length_entries (p : StoredPage α maxDefLevel) :
    p.entries.length = p.numValues := length_levelsAt p.length_defLevels

/-- The offset behind a page. -/
def LoadedPage.next (p : LoadedPage α) (offset : Int) : Int :=
  offset + p.headerSize + p.compressedSize

/-- The pages load one behind the other, from an offset on. -/
def Loads (load : Int → Except Status (LoadedPage α)) : Int → List (LoadedPage α) → Prop
  | _, [] => True
  | offset, p :: pages => load offset = .ok p ∧ Loads load (p.next offset) pages

/-- A well-formed column chunk. -/
structure Chunk (α : Type) (maxDefLevel : Int) where
  load : Int → Except Status (LoadedPage α)
  pages : List (StoredPage α maxDefLevel)
  loads : Loads load 0 (pages.map StoredPage.toLoadedPage)

/-- The entries of pages, in order. -/
def entriesOf (pages : List (StoredPage α maxDefLevel)) : Entries α maxDefLevel :=
  Stream.concat (pages.map StoredPage.entries)

def Chunk.entries (c : Chunk α maxDefLevel) : Entries α maxDefLevel := entriesOf c.pages

/-- How many entries each page holds. -/
def Chunk.sizes (c : Chunk α maxDefLevel) : List Nat := c.pages.map (·.numValues)

/-- A column reader at the start of a chunk that declares `numValues` entries. -/
def columnReader (maxDefLevel : Int) (load : Int → Except Status (LoadedPage α))
    (numValues : Int) : ColumnReader α := ⟨maxDefLevel, load, numValues, 0, none, 0⟩

/-- A reader of a chunk that declares as many entries as its pages hold. -/
def Chunk.reader (c : Chunk α maxDefLevel) : ColumnReader α :=
  columnReader maxDefLevel c.load c.sizes.sum

/-! ## The property -/

/-- What a call returns that delivers these entries. -/
def resultOf (s : Entries α maxDefLevel) (wanted : Wanted) : BatchResult α :=
  ⟨s.length, s.values, if wanted.defLevels then s.levels else [],
    if wanted.repLevels then s.reps else []⟩

/-- What the calls should return on a stream of entries: each takes the number of entries it
asks for, or all that are left. -/
def slices : Entries α maxDefLevel → List Call → List (BatchResult α)
  | _, [] => []
  | s, .read n wanted :: calls => resultOf (s.take n) wanted :: slices (s.drop n) calls
  | s, .skip n :: calls => .ofCount (min n s.length : Nat) :: slices (s.drop n) calls

/-- How many entries the calls returned or skipped; `-1` is none. -/
def returned (results : List (BatchResult α)) : Int := (results.map fun res => max 0 res.count).sum

/-! ## The conditions -/

/-- The unread sizes of the pages when `n` more entries are read. -/
def dropSizes : Nat → List Nat → List Nat
  | _, [] => []
  | n, a :: sizes => if n < a then (a - n) :: sizes else dropSizes (n - a) sizes

/-- A request fits the unread sizes of the pages: at each page it comes to, what is still wanted
is positive as an `int32_t` and, if less than the page has, unchanged by the conversion. -/
def ReadFits : Nat → List Nat → Prop
  | _, [] => True
  | n, a :: sizes =>
    n = 0 ∨ (0 < toI32 n ∧ (toI32 n < a → toI32 n = n) ∧ ((a : Int) ≤ toI32 n → ReadFits (n - a) sizes))

/-- Every read of the sequence fits what is unread then; a skip always does. -/
def CallsFit : List Nat → List Call → Prop
  | _, [] => True
  | sizes, .read n _ :: calls => ReadFits n sizes ∧ CallsFit (dropSizes n sizes) calls
  | sizes, .skip n :: calls => CallsFit (dropSizes n sizes) calls

/-- How many entries pages hold. -/
def totalValues (pages : List (LoadedPage α)) : Nat := (pages.map (·.numValues)).sum

/-- No page that can be loaded starts before the declared end of the chunk and ends behind
it. -/
def NoPageAcrossEnd (load : Int → Except Status (LoadedPage α)) (numValues : Int) : Prop :=
  ∀ pages page, Loads load 0 (pages ++ [page]) → (totalValues pages : Int) < numValues →
    (totalValues pages + page.numValues : Int) ≤ numValues

/-! ## Sizes -/

theorem dropSizes_zero {sizes : List Nat} (h : ∀ a ∈ sizes, 0 < a) : dropSizes 0 sizes = sizes := by
  cases sizes with
  | nil => rfl
  | cons a sizes => simp [dropSizes, h a (List.mem_cons_self)]

theorem dropSizes_of_sum_le {n : Nat} {sizes : List Nat} (h : sizes.sum ≤ n) :
    dropSizes n sizes = [] := by
  induction sizes generalizing n with
  | nil => rfl
  | cons a sizes ih =>
    rw [List.sum_cons] at h
    rw [dropSizes, if_neg (by omega), ih (by omega)]

theorem dropSizes_min (n : Nat) (sizes : List Nat) :
    dropSizes (min n sizes.sum) sizes = dropSizes n sizes := by
  rcases Nat.le_total n sizes.sum with h | h
  · rw [Nat.min_eq_left h]
  · rw [Nat.min_eq_right h, dropSizes_of_sum_le (Nat.le_refl _), dropSizes_of_sum_le h]

theorem dropSizes_add (m n : Nat) (sizes : List Nat) :
    dropSizes n (dropSizes m sizes) = dropSizes (m + n) sizes := by
  induction sizes generalizing m n with
  | nil => rfl
  | cons a sizes ih =>
    by_cases hm : m < a
    · rw [dropSizes, if_pos hm, dropSizes, dropSizes]
      by_cases hn : n < a - m
      · rw [if_pos hn, if_pos (by omega), Nat.sub_sub]
      · rw [if_neg hn, if_neg (by omega)]
        congr 1
        omega
    · rw [dropSizes, if_neg hm, ih, dropSizes, if_neg (by omega)]
      congr 1
      omega

/-- A request that an `int32_t` holds fits. -/
theorem readFits_of_lt {n : Nat} (h : n < 2147483648) (sizes : List Nat) : ReadFits n sizes := by
  induction sizes generalizing n with
  | nil => trivial
  | cons a sizes ih =>
    have heq : toI32 n = n := toI32_of_range (by omega) (by omega)
    by_cases hn : n = 0
    · exact Or.inl hn
    · refine Or.inr ⟨by omega, fun _ => heq, fun _ => ih (by omega)⟩

/-- Reading as far as the conversion goes does not change whether the rest fits. -/
theorem readFits_step {n a : Nat} {sizes : List Nat} (hn : n ≠ 0) (hpos : 0 < toI32 n)
    (hsizes : ∀ b ∈ sizes, 0 < b) :
    ReadFits (n - min (toI32 n).toNat a) (dropSizes (min (toI32 n).toNat a) (a :: sizes)) ↔
      ReadFits n (a :: sizes) := by
  rcases Nat.lt_or_ge (toI32 n).toNat a with h | h
  · rw [Nat.min_eq_left (by omega), dropSizes, if_pos h]
    by_cases heq : toI32 n = n
    · have h0 : n - (toI32 n).toNat = 0 := by omega
      rw [h0]
      exact ⟨fun _ => Or.inr ⟨hpos, fun _ => heq, fun h' => absurd h' (by omega)⟩,
        fun _ => Or.inl rfl⟩
    · -- what is left is a multiple of 2^32
      have hrest : toI32 ((n - (toI32 n).toNat : Nat) : Int) = 0 ∧ n - (toI32 n).toNat ≠ 0 := by
        unfold toI32 at *
        omega
      constructor
      · rintro (h0 | ⟨hp, -⟩)
        · exact absurd h0 hrest.2
        · exact absurd hp (by rw [hrest.1]; omega)
      · rintro (h0 | ⟨-, hkeep, -⟩)
        · exact absurd h0 hn
        · exact absurd (hkeep (by omega)) heq
  · rw [Nat.min_eq_right h, dropSizes, if_neg (Nat.lt_irrefl a), Nat.sub_self,
      dropSizes_zero hsizes]
    constructor
    · exact fun hf => Or.inr ⟨hpos, fun h' => absurd h' (by omega), fun _ => hf⟩
    · rintro (h0 | ⟨-, -, hf⟩)
      · exact absurd h0 hn
      · exact hf (by omega)

/-! ## One page -/

theorem levelsAt_eq {levels : Option (List Int)} {num : Nat}
    (h : ∀ l, levels = some l → l.length = num) {start n : Nat} (hn : start + n ≤ num) :
    levelsAt levels start n = ((levelsAt levels 0 num).drop start).take n := by
  cases levels with
  | none =>
    simp only [levelsAt, List.drop_replicate, List.take_replicate]
    rw [Nat.min_eq_left (by omega)]
  | some l =>
    have hl := h l rfl
    simp only [levelsAt, List.drop_zero]
    rw [List.take_of_length_le (Nat.le_of_eq hl)]

/-- The window the code copies is that of the entries. -/
theorem denseWindow_eq (p : StoredPage α maxDefLevel) {read n : Nat}
    (hn : read + n ≤ p.numValues) :
    denseWindow maxDefLevel p.toLoadedPage read n =
      (p.entries.dense read, (p.entries.drop read).dense n) := by
  have hlen : p.entries.levels.length = p.numValues := p.length_entries
  have hrequired : ¬ 0 < maxDefLevel →
      (p.entries.dense read, (p.entries.drop read).dense n) = (read, n) := by
    intro h
    simp only [Stream.dense, countP_isPresent_of_required h, Stream.drop, List.length_take,
      List.length_drop, hlen, Prod.mk.injEq]
    omega
  rw [denseWindow]
  cases hd : p.defLevels with
  | none =>
    have h : ¬ 0 < maxDefLevel := by
      intro h
      have := p.defLevels_isSome h
      simp [hd] at this
    exact (hrequired h).symm
  | some l =>
    have hl : p.entries.levels = l := by
      have := p.length_defLevels l hd
      simp only [StoredPage.entries, hd, levelsAt, List.drop_zero]
      rw [List.take_of_length_le (Nat.le_of_eq this)]
    by_cases h : 0 < maxDefLevel
    · simp only [h, if_true, Stream.dense, Stream.drop, hl, countP_isPresent_of_nullable h]
    · simp only [h, if_false]
      exact (hrequired h).symm

/-- What `carquet_read_next_page` writes when it delivers these entries. -/
def pageSlice (s : Entries α maxDefLevel) : PageSlice α := ⟨s.length, s.values, s.levels, s.reps⟩

/-- A window of a page, as the code copies it. -/
theorem pageSlice_window (p : StoredPage α maxDefLevel) {read n : Nat}
    (hn : read + n ≤ p.numValues) : pageSlice ((p.entries.drop read).take n) =
      ⟨n, (p.values.drop (p.entries.dense read)).take ((p.entries.drop read).dense n),
        ((levelsAt p.defLevels 0 p.numValues).drop read).take n,
        ((levelsAt p.repLevels 0 p.numValues).drop read).take n⟩ := by
  have hcount : ((p.entries.drop read).take n).length = n := by
    rw [Stream.length_take, Stream.length_drop, StoredPage.length_entries]
    omega
  rw [pageSlice, hcount]
  rfl

/-! ## What a reader has not read yet -/

/-- The offset of the next page to load. -/
def ColumnReader.nextOffset (r : ColumnReader α) : Int :=
  match r.page with
  | none => r.currentPage
  | some p => p.next r.currentPage

/-- No page is loaded, or none of it is left. -/
def ColumnReader.Between (r : ColumnReader α) : Prop :=
  ∀ p, r.page = some p → p.numValues ≤ r.pageValuesRead

/-- A page is loaded and some of it is left. -/
def ColumnReader.Within (r : ColumnReader α) (p : LoadedPage α) : Prop :=
  r.page = some p ∧ r.pageValuesRead < p.numValues

/-- The entries a reader has before it, and the unread sizes of their pages. -/
structure Unread (r : ColumnReader α) (s : Entries α maxDefLevel) (sizes : List Nat) : Prop where
  maxDefLevel_eq : r.maxDefLevel = maxDefLevel
  remaining : r.valuesRemaining = s.length
  pages : ∃ pages : List (StoredPage α maxDefLevel),
    Loads r.load r.nextOffset (pages.map StoredPage.toLoadedPage) ∧
    ((r.Between ∧ s = entriesOf pages ∧ sizes = pages.map (·.numValues)) ∨
      ∃ p : StoredPage α maxDefLevel, r.Within p.toLoadedPage ∧
        s = (p.entries.drop r.pageValuesRead).append (entriesOf pages) ∧
        sizes = (p.numValues - r.pageValuesRead) :: pages.map (·.numValues))

theorem length_entriesOf (pages : List (StoredPage α maxDefLevel)) :
    (entriesOf pages).length = (pages.map (·.numValues)).sum := by
  rw [entriesOf, Stream.length_concat, List.map_map]
  congr 1
  exact List.map_congr_left fun p _ => p.length_entries

theorem Unread.sizes_pos {r : ColumnReader α} {s : Entries α maxDefLevel} {sizes : List Nat}
    (h : Unread r s sizes) : ∀ a ∈ sizes, 0 < a := by
  have hpages : ∀ pages : List (StoredPage α maxDefLevel), ∀ a ∈ pages.map (·.numValues), 0 < a := by
    intro pages a ha
    obtain ⟨p, -, rfl⟩ := List.mem_map.mp ha
    exact p.numValues_pos
  obtain ⟨pages, -, ⟨-, -, rfl⟩ | ⟨p, ⟨-, hlt⟩, -, rfl⟩⟩ := h.pages
  · exact hpages pages
  · intro a ha
    rcases List.mem_cons.mp ha with rfl | ha
    · omega
    · exact hpages pages a ha

theorem Unread.sum_sizes {r : ColumnReader α} {s : Entries α maxDefLevel} {sizes : List Nat}
    (h : Unread r s sizes) : sizes.sum = s.length := by
  obtain ⟨pages, -, ⟨-, rfl, rfl⟩ | ⟨p, -, rfl, rfl⟩⟩ := h.pages
  · exact (length_entriesOf pages).symm
  · rw [List.sum_cons, Stream.length_append, length_entriesOf, Stream.length_drop,
      StoredPage.length_entries]

/-- Between pages, the page at the next offset is loaded. -/
theorem ensurePageLoaded_of_between {r : ColumnReader α} {p : LoadedPage α} (h : r.Between)
    (hload : r.load r.nextOffset = .ok p) : ensurePageLoaded r =
      (.ok p, { r with currentPage := r.nextOffset, page := some p, pageValuesRead := 0 }) := by
  rw [ensurePageLoaded]
  simp only [ColumnReader.nextOffset] at hload ⊢
  cases hp : r.page with
  | none =>
    simp only [hp] at hload ⊢
    rw [loadNextPage, hload]
  | some q =>
    simp only [hp] at hload ⊢
    rw [if_pos (h q hp), loadNextPage]
    simp only [LoadedPage.next] at hload ⊢
    rw [hload]

/-- While entries are left, a page that holds some of them can be loaded. -/
theorem Unread.ensure {r : ColumnReader α} {s : Entries α maxDefLevel} {sizes : List Nat}
    (h : Unread r s sizes) (hpos : 0 < s.length) :
    ∃ (p : StoredPage α maxDefLevel) (r' : ColumnReader α),
      ensurePageLoaded r = (.ok p.toLoadedPage, r') ∧ r'.Within p.toLoadedPage ∧
      Unread r' s sizes := by
  obtain ⟨pages, hloads, ⟨hbetween, hs, hsizes⟩ | ⟨p, hwithin, hs, hsizes⟩⟩ := h.pages
  · cases pages with
    | nil => exact absurd hpos (by rw [hs, length_entriesOf]; simp)
    | cons p pages =>
      obtain ⟨hload, hloads⟩ := hloads
      have hensure := ensurePageLoaded_of_between hbetween hload
      generalize hr' : ({ r with currentPage := r.nextOffset, page := some p.toLoadedPage,
                                 pageValuesRead := 0 } : ColumnReader α) = r' at hensure
      have hwithin : r'.Within p.toLoadedPage := by
        rw [← hr']
        exact ⟨rfl, p.numValues_pos⟩
      refine ⟨p, r', hensure, hwithin, ?_, ?_, pages, ?_, Or.inr ⟨p, hwithin, ?_, ?_⟩⟩
      · rw [← hr']
        exact h.maxDefLevel_eq
      · rw [← hr']
        exact h.remaining
      · rw [← hr']
        exact hloads
      · rw [← hr', hs, Stream.drop_zero]
        rfl
      · rw [← hr', hsizes]
        rfl
  · refine ⟨p, r, ?_, hwithin, h⟩
    rw [ensurePageLoaded, hwithin.1]
    exact if_neg (by have := hwithin.2; omega)

/-- Taking `n` entries off the loaded page. -/
theorem Unread.advance {r : ColumnReader α} {s : Entries α maxDefLevel} {sizes : List Nat}
    (h : Unread r s sizes) {p : StoredPage α maxDefLevel} (hp : r.Within p.toLoadedPage) {n : Nat}
    (hn : n ≤ p.numValues - r.pageValuesRead) :
    ∃ sizes', sizes = (p.numValues - r.pageValuesRead) :: sizes' ∧
      s.take n = (p.entries.drop r.pageValuesRead).take n ∧
      Unread { r with
        pageValuesRead := r.pageValuesRead + n
        valuesRemaining := r.valuesRemaining - n } (s.drop n) (dropSizes n sizes) := by
  obtain ⟨hpage, hlt⟩ := hp
  obtain ⟨pages, hloads, ⟨hbetween, -, -⟩ | ⟨q, ⟨hq, -⟩, hs, hsizes⟩⟩ := h.pages
  · have := hbetween _ hpage
    omega
  · have hqp : q.toLoadedPage = p.toLoadedPage := Option.some.inj (hq.symm.trans hpage)
    obtain rfl : q = p := by
      cases q
      cases p
      cases hqp
      rfl
    have hlen : n ≤ (q.entries.drop r.pageValuesRead).length := by
      rw [Stream.length_drop, StoredPage.length_entries]
      exact hn
    have hsum := h.sum_sizes
    rw [hsizes, List.sum_cons] at hsum
    refine ⟨_, hsizes, by rw [hs, Stream.take_append_of_le _ hlen], h.maxDefLevel_eq, ?_, pages,
      ?_, ?_⟩
    · simp only [Stream.length_drop, h.remaining]
      omega
    · simpa only [ColumnReader.nextOffset] using hloads
    · rw [hs, Stream.drop_append_of_le _ hlen, Stream.drop_drop, hsizes, dropSizes]
      by_cases hall : n < q.numValues - r.pageValuesRead
      · rw [if_pos hall]
        refine Or.inr ⟨q, ⟨hq, ?_⟩, rfl, by rw [Nat.sub_sub]⟩
        simp only
        omega
      · rw [if_neg hall]
        refine Or.inl ⟨?_, ?_, ?_⟩
        · intro p' hp'
          cases hq.symm.trans hp'
          simp only
          omega
        · rw [Stream.drop_of_length_le (by rw [StoredPage.length_entries]; omega),
            Stream.empty_append]
        · have h0 : n - (q.numValues - r.pageValuesRead) = 0 := by omega
          rw [h0]
          refine dropSizes_zero fun a ha => ?_
          exact h.sizes_pos a (by rw [hsizes]; exact List.mem_cons_of_mem _ ha)

/-- **One page step.** It delivers nothing when what is wanted is not positive as an `int32_t`;
otherwise as many entries of the page as that, or all of them. -/
theorem readNextPage_spec {r : ColumnReader α} {s : Entries α maxDefLevel} {sizes : List Nat}
    (h : Unread r s sizes) (hpos : 0 < s.length) {k : Nat} (hk : k ≠ 0) :
    ∃ a sizes', sizes = a :: sizes' ∧ 0 < a ∧ a ≤ s.length ∧
      (toI32 k ≤ 0 → ∃ r', readNextPage r k = (.ok .none, r') ∧ Unread r' s sizes) ∧
      (0 < toI32 k → ∃ r',
        readNextPage r k = (.ok (pageSlice (s.take (min (toI32 k).toNat a))), r') ∧
        Unread r' (s.drop (min (toI32 k).toNat a)) (dropSizes (min (toI32 k).toNat a) sizes)) := by
  obtain ⟨p, r₁, hensure, hwithin, h₁⟩ := h.ensure hpos
  obtain ⟨sizes', hsizes, -, -⟩ := h₁.advance hwithin (Nat.zero_le _)
  have hlt := hwithin.2
  have hsum := h₁.sum_sizes
  rw [hsizes, List.sum_cons] at hsum
  have hk' : (k : Int) ≠ 0 := by omega
  refine ⟨_, sizes', hsizes, by omega, by omega, ?_, ?_⟩
  · intro ht
    refine ⟨r₁, ?_, h₁⟩
    simp only [readNextPage, hensure, hk', if_false]
    rw [if_pos (by omega)]
  · intro ht
    generalize hn : min (toI32 k).toNat (p.numValues - r₁.pageValuesRead) = n
    have hcopy : min (toI32 k) ((p.numValues : Int) - r₁.pageValuesRead) = (n : Int) := by omega
    have hfit : r₁.pageValuesRead + n ≤ p.numValues := by omega
    obtain ⟨-, -, hslice, hadv⟩ := h₁.advance hwithin (n := n) (by omega)
    refine ⟨_, ?_, hadv⟩
    simp only [readNextPage, hensure, hk', if_false, hcopy]
    have hcopies : ¬ (n : Int) ≤ 0 := by omega
    rw [if_neg hcopies, Int.toNat_natCast, h₁.maxDefLevel_eq, denseWindow_eq p hfit,
      levelsAt_eq p.length_defLevels hfit, levelsAt_eq p.length_repLevels hfit]
    rw [hslice, pageSlice_window p hfit]

/-! ## A batch -/

/-- The caller's buffers when these entries were delivered. -/
def buffersOf (s : Entries α maxDefLevel) : BatchBuffers α :=
  ⟨s.length, s.values.length, s.values, s.levels, s.reps⟩

theorem writeAt_length {β : Type} (cells buffer : List β) :
    writeAt buffer.length cells buffer = buffer ++ cells := by
  simp [writeAt]

/-- Both cursors stand at the end of what was written. -/
theorem buffersOf_add (s t : Entries α maxDefLevel) :
    (buffersOf s).add maxDefLevel (pageSlice t) = buffersOf (s.append t) := by
  have hdefs : writeAt s.length t.levels s.levels = s.levels ++ t.levels := writeAt_length _ _
  have hreps : writeAt s.length t.reps s.reps = s.reps ++ t.reps := by
    rw [Stream.length, ← s.length_reps, writeAt_length]
  have hvalues : writeAt (if 0 < maxDefLevel then s.values.length else s.length) t.values
      s.values = s.values ++ t.values := by
    have : (if 0 < maxDefLevel then s.values.length else s.length) = s.values.length := by
      split
      · rfl
      · rename_i h
        rw [s.length_values, countP_isPresent_of_required h, Stream.length]
    rw [this, writeAt_length]
  have hdense : (if 0 < maxDefLevel then countNonNulls t.levels maxDefLevel else t.length) =
      t.values.length := by
    split
    · rename_i h
      rw [t.length_values, countP_isPresent_of_nullable h]
    · rename_i h
      rw [t.length_values, countP_isPresent_of_required h, Stream.length]
  simp only [BatchBuffers.add, buffersOf, pageSlice, hdefs, hreps, hvalues, hdense,
    Stream.append, List.length_append]
  rw [← Stream.length_append]
  rfl

/-- **The loop over the pages** delivers some of the entries that are wanted, and all of them
exactly when the request fits. -/
theorem readBatchLoop_spec {fuel : Nat} {r : ColumnReader α} {s : Entries α maxDefLevel}
    {sizes : List Nat} (acc : Entries α maxDefLevel) (h : Unread r s sizes) (hfuel : s.length ≤ fuel) (k : Nat) :
    ∃ (m : Nat) (r' : ColumnReader α), m ≤ min k s.length ∧
      readBatchLoop ((acc.length + k : Nat) : Int) fuel r (buffersOf acc) =
        (some (buffersOf (acc.append (s.take m))), r') ∧
      Unread r' (s.drop m) (dropSizes m sizes) ∧ (m = min k s.length ↔ ReadFits k sizes) := by
  induction fuel generalizing r s acc sizes k with
  | zero =>
    have h0 : s.length = 0 := by omega
    have hnil : sizes = [] := by
      have hsum := h.sum_sizes
      have hpos := h.sizes_pos
      cases sizes with
      | nil => rfl
      | cons a sizes =>
        have := hpos a List.mem_cons_self
        rw [List.sum_cons] at hsum
        omega
    refine ⟨0, r, by omega, by simp [readBatchLoop], ?_, ?_⟩
    · simpa [dropSizes_zero h.sizes_pos] using h
    · simp [h0, hnil, ReadFits]
  | succ fuel ih =>
    rw [readBatchLoop]
    have hstop : k = 0 ∨ s.length = 0 → ∃ (m : Nat) (r' : ColumnReader α), m ≤ min k s.length ∧
        ((some (buffersOf acc), r) : Option (BatchBuffers α) × ColumnReader α) =
          (some (buffersOf (acc.append (s.take m))), r') ∧
        Unread r' (s.drop m) (dropSizes m sizes) ∧ (m = min k s.length ↔ ReadFits k sizes) := by
      intro h0
      refine ⟨0, r, by omega, by simp, by simpa [dropSizes_zero h.sizes_pos] using h, ?_⟩
      have hmin : min k s.length = 0 := by omega
      refine ⟨fun _ => ?_, fun _ => hmin.symm⟩
      cases hsz : sizes with
      | nil => trivial
      | cons a sizes' =>
        rcases h0 with h0 | h0
        · exact Or.inl h0
        · have hsum := h.sum_sizes
          have := h.sizes_pos a (by simp [hsz])
          rw [hsz, List.sum_cons] at hsum
          omega
    by_cases hk : k = 0
    · rw [if_neg (by simp [buffersOf, hk])]
      exact hstop (Or.inl hk)
    by_cases hs : s.length = 0
    · rw [if_neg (by simp [h.remaining, hs])]
      exact hstop (Or.inr hs)
    obtain ⟨a, sizes', hsizes, ha, hale, hnone, hsome⟩ := readNextPage_spec h (by omega) hk
    have hremaining := h.remaining
    have hwanted : ((acc.length + k : Nat) : Int) - ((buffersOf acc).totalRead : Int) = k := by
      simp only [buffersOf]
      omega
    rw [if_pos (by simp only [buffersOf]; omega), hwanted]
    rcases lt_or_ge 0 (toI32 k) with ht | ht
    · obtain ⟨r', hread, h'⟩ := hsome ht
      have htk : toI32 k ≤ k := by
        unfold toI32
        omega
      have hstep := @readFits_step k a sizes' hk ht
        fun b hb => h.sizes_pos b (by rw [hsizes]; exact List.mem_cons_of_mem _ hb)
      have hbounds : 0 < min (toI32 k).toNat a ∧ min (toI32 k).toNat a ≤ a ∧
          min (toI32 k).toNat a ≤ k := by omega
      generalize min (toI32 k).toNat a = n at hread h' hstep hbounds
      obtain ⟨hnpos, hna, hnk⟩ := hbounds
      have hlen : (s.take n).length = n := by
        rw [Stream.length_take]
        exact Nat.min_eq_left (Nat.le_trans hna hale)
      have hcount : (pageSlice (s.take n)).count = n := hlen
      obtain ⟨m, r'', hm, hloop, h'', hiff⟩ := ih (acc.append (s.take n)) h'
        (by rw [Stream.length_drop]; omega) (k - n)
      rw [Stream.length_drop] at hm hiff
      refine ⟨n + m, r'', by omega, ?_, ?_, ?_⟩
      · rw [hread]
        simp only [hcount, h'.maxDefLevel_eq, buffersOf_add]
        have hargs : acc.length + k = (acc.append (s.take n)).length + (k - n) := by
          rw [Stream.length_append, hlen]
          omega
        rw [if_neg (by omega), Stream.take_add, ← Stream.append_assoc, hargs, hloop]
      · rw [← Stream.drop_drop, ← dropSizes_add]
        exact h''
      · rw [hsizes] at hiff ⊢
        rw [← hstep, ← hiff]
        omega
    · obtain ⟨r', hread, h'⟩ := hnone ht
      refine ⟨0, r', by omega, by simp [hread, PageSlice.none], ?_, ?_⟩
      · simpa [dropSizes_zero h.sizes_pos] using h'
      · refine ⟨fun h0 => absurd h0 (by omega), fun hfits => ?_⟩
        rw [hsizes] at hfits
        rcases hfits with h0 | ⟨hp, -⟩
        · exact absurd h0 hk
        · omega

theorem Unread.sizes_eq_nil {r : ColumnReader α} {s : Entries α maxDefLevel} {sizes : List Nat}
    (h : Unread r s sizes) (h0 : s.length = 0) : sizes = [] := by
  cases hsz : sizes with
  | nil => rfl
  | cons a sizes' =>
    have hsum := h.sum_sizes
    have := h.sizes_pos a (by simp [hsz])
    rw [hsz, List.sum_cons] at hsum
    omega

/-- **A read delivers some of the entries that are wanted, and all of them exactly when the
request fits.** -/
theorem readBatch_spec {r : ColumnReader α} {s : Entries α maxDefLevel} {sizes : List Nat}
    (h : Unread r s sizes) (k : Nat) (wanted : Wanted) :
    ∃ (m : Nat) (r' : ColumnReader α), m ≤ min k s.length ∧
      readBatch r k wanted = (resultOf (s.take m) wanted, r') ∧
      Unread r' (s.drop m) (dropSizes m sizes) ∧ (m = min k s.length ↔ ReadFits k sizes) := by
  have hzero : ∀ r' : ColumnReader α, Unread r' s sizes →
      Unread r' (s.drop 0) (dropSizes 0 sizes) := by
    intro r' h'
    simpa [dropSizes_zero h.sizes_pos] using h'
  have hnothing : (.ofCount 0 : BatchResult α) = resultOf (s.take 0) wanted := by
    simp [resultOf, BatchResult.ofCount, Stream.empty, Stream.length]
  have hremaining := h.remaining
  rw [readBatch, if_neg (by omega)]
  by_cases hk : k = 0
  · subst hk
    refine ⟨0, _, by omega, by rw [if_pos (by omega), hnothing], hzero _ ?_, ?_⟩
    · split
      · rename_i hpeek
        obtain ⟨p, r', hensure, -, h'⟩ := h.ensure (by omega)
        rw [hensure]
        exact h'
      · exact h
    · refine ⟨fun _ => ?_, fun _ => by omega⟩
      cases sizes with
      | nil => trivial
      | cons a sizes => exact Or.inl rfl
  · rw [if_neg (by omega)]
    by_cases hs : s.length = 0
    · refine ⟨0, r, by omega, by rw [if_pos (by omega), hnothing], hzero r h, ?_⟩
      simp [hs, h.sizes_eq_nil hs, ReadFits]
    · rw [if_neg (by omega)]
      obtain ⟨m, r', hm, hloop, h', hiff⟩ :=
        readBatchLoop_spec Stream.empty h (Nat.le_refl s.length) k
      have hfuel : r.valuesRemaining.toNat = s.length := by omega
      simp only [Stream.length_empty, Nat.zero_add, Stream.empty_append] at hloop
      refine ⟨m, r', hm, ?_, h', hiff⟩
      have hempty : readBatchLoop k s.length r .empty = _ := hloop
      rw [hfuel, hempty]
      rfl

/-! ## A skip -/

theorem skipLoop_spec {fuel : Nat} {r : ColumnReader α} {s : Entries α maxDefLevel}
    {sizes : List Nat} (h : Unread r s sizes) (hfuel : s.length ≤ fuel) (k total : Nat) :
    ∃ r', skipLoop ((total + k : Nat) : Int) fuel r total =
        (((total + min k s.length : Nat) : Int), r') ∧
      Unread r' (s.drop (min k s.length)) (dropSizes (min k s.length) sizes) := by
  induction fuel generalizing r s sizes k total with
  | zero =>
    have h0 : s.length = 0 := by omega
    refine ⟨r, by simp [skipLoop, h0], ?_⟩
    simpa [h0, dropSizes_zero h.sizes_pos] using h
  | succ fuel ih =>
    have hremaining := h.remaining
    rw [skipLoop]
    by_cases hstop : min k s.length = 0
    · rw [if_neg (by omega), hstop]
      exact ⟨r, by simp, by simpa [dropSizes_zero h.sizes_pos] using h⟩
    · rw [if_pos (by omega)]
      have hchunk : min (((total + k : Nat) : Int) - total) 1024 = ((min k 1024 : Nat) : Int) := by
        omega
      obtain ⟨m, r', -, hread, h', hiff⟩ := readBatch_spec h (min k 1024) ⟨false, false⟩
      have hm := hiff.mpr (readFits_of_lt (by omega) _)
      have hcount : (resultOf (s.take m) ⟨false, false⟩).count = (m : Int) := by
        rw [resultOf, Stream.length_take, Nat.min_eq_left (by omega)]
      obtain ⟨r'', hloop, h''⟩ := ih h' (by rw [Stream.length_drop]; omega) (k - m) (total + m)
      rw [Stream.length_drop] at hloop h''
      rw [hchunk, hread]
      simp only [hcount]
      rw [if_neg (by omega)]
      have htotal : total + m + (k - m) = total + k := by omega
      have hend : m + min (k - m) (s.length - m) = min k s.length := by omega
      rw [htotal] at hloop
      rw [Stream.drop_drop, dropSizes_add, hend] at h''
      refine ⟨r'', ?_, h''⟩
      rw [← Nat.cast_add, hloop, Nat.add_assoc, hend]

theorem skip_spec {r : ColumnReader α} {s : Entries α maxDefLevel} {sizes : List Nat}
    (h : Unread r s sizes) (k : Nat) :
    ∃ r', skip r k = (((min k s.length : Nat) : Int), r') ∧
      Unread r' (s.drop (min k s.length)) (dropSizes (min k s.length) sizes) := by
  have hremaining := h.remaining
  rw [skip]
  by_cases hstop : min k s.length = 0
  · rw [if_pos (by omega), hstop]
    exact ⟨r, by simp, by simpa [dropSizes_zero h.sizes_pos] using h⟩
  · rw [if_neg (by omega), show r.valuesRemaining.toNat = s.length by omega]
    obtain ⟨r', hloop, h'⟩ := skipLoop_spec h (Nat.le_refl _) k 0
    rw [Nat.zero_add, Nat.zero_add] at hloop
    exact ⟨r', hloop, h'⟩

/-! ## Sequences of calls -/

theorem drop_min (k : Nat) (s : Entries α maxDefLevel) : s.drop (min k s.length) = s.drop k := by
  rcases Nat.le_total k s.length with h | h
  · rw [Nat.min_eq_left h]
  · rw [Nat.min_eq_right h, Stream.drop_of_length_le (Nat.le_refl _), Stream.drop_of_length_le h]

theorem Unread.drop_min {r : ColumnReader α} {s : Entries α maxDefLevel} {sizes : List Nat}
    {k : Nat} (hsum : sizes.sum = s.length)
    (h : Unread r (s.drop (min k s.length)) (dropSizes (min k s.length) sizes)) :
    Unread r (s.drop k) (dropSizes k sizes) := by
  rw [Carquet.drop_min] at h
  rw [← hsum, dropSizes_min] at h
  exact h

/-- **A run returns the consecutive slices exactly when its reads fit.** -/
theorem run_eq_slices_iff {r : ColumnReader α} {s : Entries α maxDefLevel} {sizes : List Nat}
    (h : Unread r s sizes) (calls : List Call) :
    r.run calls = slices s calls ↔ CallsFit sizes calls := by
  induction calls generalizing r s sizes with
  | nil => exact ⟨fun _ => trivial, fun _ => rfl⟩
  | cons c calls ih =>
    rw [ColumnReader.run]
    cases c with
    | read k wanted =>
      obtain ⟨m, r', hm, hread, h', hiff⟩ := readBatch_spec h k wanted
      rw [slices, CallsFit, ← hiff, List.cons.injEq]
      simp only [ColumnReader.call, hread]
      by_cases hall : m = min k s.length
      · rw [hall] at h' ⊢
        have htake : s.take (min k s.length) = s.take k := by
          rcases Nat.le_total k s.length with hle | hle
          · rw [Nat.min_eq_left hle]
          · rw [Nat.min_eq_right hle, Stream.take_of_length_le (Nat.le_refl _),
              Stream.take_of_length_le hle]
        rw [htake, ih (h'.drop_min h.sum_sizes)]
        simp
      · refine ⟨fun ⟨heq, _⟩ => absurd ?_ hall, fun ⟨heq, _⟩ => absurd heq hall⟩
        have hcount := congrArg BatchResult.count heq
        simp only [resultOf, Stream.length_take] at hcount
        omega
    | skip k =>
      obtain ⟨r', hskip, h'⟩ := skip_spec h k
      rw [slices, CallsFit, List.cons.injEq]
      simp only [ColumnReader.call, hskip, true_and]
      exact ih (h'.drop_min h.sum_sizes)

theorem Chunk.unread (c : Chunk α maxDefLevel) : Unread c.reader c.entries c.sizes := by
  refine ⟨rfl, ?_, c.pages, c.loads, Or.inl ⟨?_, rfl, rfl⟩⟩
  · rw [Chunk.entries, length_entriesOf]
    rfl
  · intro p hp
    simp [Chunk.reader, columnReader] at hp

/-! ## The declared end -/

/-- A property of readers that page steps keep while entries are declared to be left. -/
structure KeptByPageSteps (I : ColumnReader α → Prop) : Prop where
  ensure : ∀ r, I r → 0 < r.valuesRemaining → I (ensurePageLoaded r).2
  next : ∀ r k, I r → 0 < r.valuesRemaining → I (readNextPage r k).2

section

variable {I : ColumnReader α → Prop} (hI : KeptByPageSteps I)
include hI

theorem KeptByPageSteps.readBatchLoop (maxValues : Int) (fuel : Nat) {r : ColumnReader α}
    {b : BatchBuffers α} (h : I r) : I (readBatchLoop maxValues fuel r b).2 := by
  induction fuel generalizing r b with
  | zero => exact h
  | succ fuel ih =>
    rw [Carquet.readBatchLoop]
    split
    · rename_i hc
      have hnext := hI.next r (maxValues - b.totalRead) h hc.2
      split
      · rename_i heq
        rw [heq] at hnext
        exact hnext
      · rename_i heq
        rw [heq] at hnext
        split
        · exact hnext
        · exact ih hnext
    · exact h

theorem KeptByPageSteps.readBatch {r : ColumnReader α} (h : I r) (maxValues : Int)
    (wanted : Wanted) : I (readBatch r maxValues wanted).2 := by
  rw [Carquet.readBatch]
  split
  · exact h
  · split
    · simp only
      split
      · rename_i hpeek
        exact hI.ensure r h hpeek.1
      · exact h
    · split
      · exact h
      · have hloop := hI.readBatchLoop maxValues r.valuesRemaining.toNat
          (b := .empty) h
        split <;> rename_i heq <;> rw [heq] at hloop <;> exact hloop

theorem KeptByPageSteps.skipLoop (numValues : Int) {fuel : Nat} {r : ColumnReader α} {total : Int}
    (h : I r) : I (skipLoop numValues fuel r total).2 := by
  induction fuel generalizing r total with
  | zero => exact h
  | succ fuel ih =>
    rw [Carquet.skipLoop]
    split
    · have hread := hI.readBatch h (min (numValues - total) 1024) ⟨false, false⟩
      simp only
      split
      · exact hread
      · exact ih hread
    · exact h

theorem KeptByPageSteps.call {r : ColumnReader α} (h : I r) (c : Call) : I (r.call c).2 := by
  cases c with
  | read k wanted => exact hI.readBatch h k wanted
  | skip k =>
    change I (skip r k).2
    rw [skip]
    split
    · exact h
    · exact hI.skipLoop _ h

end

/-! ### Accounting: what is returned is what `values_remaining` loses -/

theorem valuesRemaining_loadNextPage (r : ColumnReader α) :
    (loadNextPage r).2.valuesRemaining = r.valuesRemaining := by
  rw [loadNextPage]
  split <;> rfl

theorem valuesRemaining_ensurePageLoaded (r : ColumnReader α) :
    (ensurePageLoaded r).2.valuesRemaining = r.valuesRemaining := by
  rw [ensurePageLoaded]
  split
  · exact valuesRemaining_loadNextPage r
  · split
    · exact valuesRemaining_loadNextPage _
    · rfl

/-- How many entries a page step delivers. -/
def stepCount (x : Except Status (PageSlice α)) : Int :=
  match x with
  | .error _ => 0
  | .ok slice => slice.count

theorem readNextPage_remaining (r : ColumnReader α) (k : Int) :
    (readNextPage r k).2.valuesRemaining = r.valuesRemaining - stepCount (readNextPage r k).1 := by
  have hensure := valuesRemaining_ensurePageLoaded r
  rw [readNextPage]
  split
  · rename_i heq
    rw [heq] at hensure
    simpa [stepCount] using hensure
  · rename_i page r' heq
    rw [heq] at hensure
    simp only at hensure
    split
    · simpa [stepCount, PageSlice.none] using hensure
    · simp only
      split
      · simpa [stepCount, PageSlice.none] using hensure
      · rename_i hpos
        simp only [stepCount]
        rw [hensure, Int.toNat_of_nonneg (by omega)]

/-- How many entries the buffers hold; none after a failure. -/
def loopTotal (x : Option (BatchBuffers α)) : Int :=
  match x with
  | none => 0
  | some b => b.totalRead

theorem readBatchLoop_remaining (maxValues : Int) (fuel : Nat) (r : ColumnReader α)
    (b : BatchBuffers α) : loopTotal (readBatchLoop maxValues fuel r b).1 - b.totalRead =
      r.valuesRemaining - (readBatchLoop maxValues fuel r b).2.valuesRemaining := by
  induction fuel generalizing r b with
  | zero => simp [readBatchLoop, loopTotal]
  | succ fuel ih =>
    rw [readBatchLoop]
    have hstep := readNextPage_remaining r (maxValues - b.totalRead)
    split
    · split
      · rename_i heq
        simp only [heq, stepCount] at hstep
        by_cases hb : 0 < b.totalRead
        · simp only [hb, if_true, loopTotal]
          omega
        · simp only [hb, if_false, loopTotal]
          omega
      · rename_i slice r' heq
        simp only [heq, stepCount] at hstep
        split
        · simp only [loopTotal]
          omega
        · have hrec := ih (r := r') (b := b.add r'.maxDefLevel slice)
          have htotal : (b.add r'.maxDefLevel slice).totalRead = b.totalRead + slice.count := rfl
          rw [htotal] at hrec
          omega
    · simp [loopTotal]

theorem readBatch_remaining (r : ColumnReader α) (maxValues : Int) (wanted : Wanted) :
    max 0 (readBatch r maxValues wanted).1.count =
      r.valuesRemaining - (readBatch r maxValues wanted).2.valuesRemaining := by
  rw [readBatch]
  split
  · simp [BatchResult.ofCount]
  · split
    · simp only [BatchResult.ofCount]
      split
      · rw [valuesRemaining_ensurePageLoaded]
        omega
      · omega
    · split
      · simp [BatchResult.ofCount]
      · have hloop := readBatchLoop_remaining maxValues r.valuesRemaining.toNat r .empty
        split <;> rename_i heq <;> rw [heq] at hloop
        · simp only [BatchResult.ofCount, loopTotal, BatchBuffers.empty] at hloop ⊢
          omega
        · simp only [BatchBuffers.result, loopTotal, BatchBuffers.empty] at hloop ⊢
          omega

theorem skipLoop_remaining (numValues : Int) (fuel : Nat) (r : ColumnReader α) (total : Int) :
    (skipLoop numValues fuel r total).1 - total =
      r.valuesRemaining - (skipLoop numValues fuel r total).2.valuesRemaining ∧
    total ≤ (skipLoop numValues fuel r total).1 := by
  induction fuel generalizing r total with
  | zero => simp [skipLoop]
  | succ fuel ih =>
    rw [skipLoop]
    split
    · have hread := readBatch_remaining r (min (numValues - total) 1024) ⟨false, false⟩
      simp only
      split
      · simp only
        omega
      · have hrec := ih (readBatch r (min (numValues - total) 1024) ⟨false, false⟩).2
          (total + (readBatch r (min (numValues - total) 1024) ⟨false, false⟩).1.count)
        omega
    · simp

theorem call_remaining (r : ColumnReader α) (c : Call) :
    max 0 (r.call c).1.count = r.valuesRemaining - (r.call c).2.valuesRemaining := by
  cases c with
  | read k wanted => exact readBatch_remaining r k wanted
  | skip k =>
    change max 0 (skip r k).1 = r.valuesRemaining - (skip r k).2.valuesRemaining
    rw [skip]
    split
    · simp
    · have hloop := skipLoop_remaining k r.valuesRemaining.toNat r 0
      omega

/-- The reader after the calls. -/
def ColumnReader.after (r : ColumnReader α) (calls : List Call) : ColumnReader α :=
  calls.foldl (fun r c => (r.call c).2) r

theorem returned_run (r : ColumnReader α) (calls : List Call) :
    returned (r.run calls) = r.valuesRemaining - (r.after calls).valuesRemaining := by
  induction calls generalizing r with
  | nil => simp [ColumnReader.run, returned, ColumnReader.after]
  | cons c calls ih =>
    have hcall := call_remaining r c
    have hrest := ih (r.call c).2
    simp only [returned, ColumnReader.run, ColumnReader.after, List.map_cons, List.sum_cons,
      List.foldl_cons] at hrest ⊢
    omega

theorem KeptByPageSteps.after {I : ColumnReader α → Prop} (hI : KeptByPageSteps I)
    {r : ColumnReader α} (h : I r) (calls : List Call) : I (r.after calls) := by
  induction calls generalizing r with
  | nil => exact h
  | cons c calls ih => exact ih (hI.call h c)

theorem page_of_ensurePageLoaded {r r' : ColumnReader α} {p : LoadedPage α}
    (h : ensurePageLoaded r = (.ok p, r')) : r'.page = some p := by
  have hload : ∀ r : ColumnReader α, loadNextPage r = (.ok p, r') → r'.page = some p := by
    intro r h
    rw [loadNextPage] at h
    split at h
    · simp at h
    · simp only [Prod.mk.injEq, Except.ok.injEq] at h
      rw [← h.2, h.1]
  rw [ensurePageLoaded] at h
  split at h
  · exact hload _ h
  · split at h
    · exact hload _ h
    · rename_i hp _
      simp only [Prod.mk.injEq, Except.ok.injEq] at h
      rw [← h.2, hp, h.1]

/-! ### Pages that end by the declared end -/

/-- The offset behind pages that start at `offset`. -/
def offsetAfter (offset : Int) (pages : List (LoadedPage α)) : Int :=
  pages.foldl (fun offset p => p.next offset) offset

theorem loads_append {load : Int → Except Status (LoadedPage α)} {offset : Int}
    {pages : List (LoadedPage α)} {p : LoadedPage α} :
    Loads load offset (pages ++ [p]) ↔
      Loads load offset pages ∧ load (offsetAfter offset pages) = .ok p := by
  induction pages generalizing offset with
  | nil => simp [Loads, offsetAfter]
  | cons q pages ih =>
    simp only [List.cons_append, Loads, ih, offsetAfter, List.foldl_cons, and_assoc]

theorem offsetAfter_append (offset : Int) (pages : List (LoadedPage α)) (p : LoadedPage α) :
    offsetAfter offset (pages ++ [p]) = p.next (offsetAfter offset pages) := by
  rw [offsetAfter, List.foldl_append]
  rfl

theorem totalValues_append (pages : List (LoadedPage α)) (p : LoadedPage α) :
    totalValues (pages ++ [p]) = totalValues pages + p.numValues := by
  simp [totalValues]

/-- Where a reader stands, and that the page it is in ends by the declared end. -/
structure WithinEnd (load : Int → Except Status (LoadedPage α)) (numValues : Int)
    (r : ColumnReader α) : Prop where
  load_eq : r.load = load
  remaining : min numValues 0 ≤ r.valuesRemaining
  pages : ∃ pages, Loads load 0 pages ∧ r.currentPage = offsetAfter 0 pages ∧
    ((r.page = none ∧ r.valuesRemaining = numValues - totalValues pages) ∨
      ∃ p, r.page = some p ∧ load r.currentPage = .ok p ∧ r.pageValuesRead ≤ p.numValues ∧
        r.valuesRemaining = numValues - totalValues pages - r.pageValuesRead ∧
        (totalValues pages + p.numValues : Int) ≤ numValues)

section

variable {load : Int → Except Status (LoadedPage α)} {numValues : Int}
  (hend : NoPageAcrossEnd load numValues)
include hend

theorem WithinEnd.loadNextPage {r : ColumnReader α} (h : WithinEnd load numValues r)
    (hpage : r.page = none) (hpos : 0 < r.valuesRemaining) :
    WithinEnd load numValues (loadNextPage r).2 := by
  obtain ⟨pages, hloads, hcur, ⟨-, hrem⟩ | ⟨p, hp, -⟩⟩ := h.pages
  · rw [Carquet.loadNextPage]
    split
    · exact h
    · rename_i p hload
      rw [h.load_eq] at hload
      have hall : Loads load 0 (pages ++ [p]) := loads_append.mpr ⟨hloads, by rw [← hcur, hload]⟩
      have hfits := hend pages p hall (by omega)
      refine ⟨h.load_eq, h.remaining, pages, hloads, hcur, Or.inr ⟨p, rfl, hload, ?_, ?_, hfits⟩⟩
      · exact Nat.zero_le _
      · simp only
        omega
  · rw [hpage] at hp
    simp at hp

theorem WithinEnd.ensurePageLoaded {r : ColumnReader α} (h : WithinEnd load numValues r)
    (hpos : 0 < r.valuesRemaining) : WithinEnd load numValues (ensurePageLoaded r).2 := by
  rw [Carquet.ensurePageLoaded]
  split
  · rename_i hpage
    exact h.loadNextPage hend hpage hpos
  · rename_i p hpage
    split
    · rename_i hread
      refine WithinEnd.loadNextPage hend ?_ rfl hpos
      obtain ⟨pages, hloads, hcur, ⟨hnone, -⟩ | ⟨q, hq, hload, hle, hrem, -⟩⟩ := h.pages
      · rw [hpage] at hnone
        simp at hnone
      · obtain rfl : q = p := Option.some.inj (hq.symm.trans hpage)
        refine ⟨h.load_eq, h.remaining, pages ++ [q], loads_append.mpr ⟨hloads, hcur ▸ hload⟩, ?_,
          Or.inl ⟨rfl, ?_⟩⟩
        · rw [offsetAfter_append, ← hcur]
          rfl
        · rw [totalValues_append]
          simp only
          omega
    · exact h

/-- While no page lies across the declared end, `values_remaining` stays at least zero. -/
theorem withinEnd_kept : KeptByPageSteps (WithinEnd load numValues) := by
  refine ⟨fun r h hpos => h.ensurePageLoaded hend hpos, fun r k h hpos => ?_⟩
  have hensured := h.ensurePageLoaded hend hpos
  rw [readNextPage]
  split
  · rename_i heq
    rw [heq] at hensured
    exact hensured
  · rename_i page r' heq
    rw [heq] at hensured
    simp only at hensured
    split
    · exact hensured
    · simp only
      split
      · exact hensured
      · rename_i hcopies
        have hpage := page_of_ensurePageLoaded heq
        obtain ⟨pages, hloads, hcur, ⟨hnone, -⟩ | ⟨q, hq, hload, hle, hrem, hfits⟩⟩ :=
          hensured.pages
        · rw [hpage] at hnone
          simp at hnone
        · obtain rfl : q = page := Option.some.inj (hq.symm.trans hpage)
          refine ⟨hensured.load_eq, ?_, pages, hloads, hcur, Or.inr ⟨q, hq, hload, ?_, ?_, hfits⟩⟩
          all_goals
            simp only
            omega

end

/-- Reading a page by its size takes it off, whatever is declared to be left. -/
theorem readBatch_page {r : ColumnReader α} {p : LoadedPage α} (h : r.Between)
    (hload : r.load r.nextOffset = .ok p) (hpos : 0 < r.valuesRemaining) (wanted : Wanted) :
    (readBatch r p.numValues wanted).2 =
      { r with
        currentPage := r.nextOffset
        page := some p
        pageValuesRead := p.numValues
        valuesRemaining := r.valuesRemaining - p.numValues } := by
  have hp := p.numValues_pos
  have hconv : toI32 p.numValues = p.numValues :=
    toI32_of_range (by omega) (by have := p.numValues_lt; omega)
  have hread : ∃ slice : PageSlice α, slice.count = p.numValues ∧
      readNextPage r p.numValues = (.ok slice, { r with
        currentPage := r.nextOffset
        page := some p
        pageValuesRead := p.numValues
        valuesRemaining := r.valuesRemaining - p.numValues }) := by
    let window := denseWindow r.maxDefLevel p 0 p.numValues
    refine ⟨⟨p.numValues, (p.values.drop window.1).take window.2,
      levelsAt p.defLevels 0 p.numValues, levelsAt p.repLevels 0 p.numValues⟩, rfl, ?_⟩
    rw [readNextPage, ensurePageLoaded_of_between h hload]
    simp only [hconv, Nat.cast_zero, Int.sub_zero, Int.min_self]
    rw [if_neg (by omega), if_neg (by omega), Int.toNat_natCast, Nat.zero_add]
  obtain ⟨slice, hcount, hread⟩ := hread
  obtain ⟨fuel, hfuel⟩ : ∃ fuel, r.valuesRemaining.toNat = fuel + 1 :=
    ⟨r.valuesRemaining.toNat - 1, by omega⟩
  have hdone : ∀ (fuel : Nat) (r : ColumnReader α) (b : BatchBuffers α),
      b.totalRead = p.numValues → readBatchLoop p.numValues fuel r b = (some b, r) := by
    intro fuel r b hb
    cases fuel with
    | zero => rfl
    | succ fuel => rw [readBatchLoop, if_neg (by omega)]
  rw [readBatch, if_neg (by omega), if_neg (by omega), if_neg (by omega), hfuel, readBatchLoop,
    if_pos (by simp only [BatchBuffers.empty]; omega)]
  simp only [BatchBuffers.empty, Nat.cast_zero, Int.sub_zero, hread, hcount]
  rw [if_neg (by omega), hdone]
  simp [BatchBuffers.add, hcount]

/-- One read for each page. -/
def readPages (pages : List (LoadedPage α)) : List Call :=
  pages.map fun p => .read p.numValues ⟨false, false⟩

theorem after_readPages {r : ColumnReader α} {pages : List (LoadedPage α)} (h : r.Between)
    (hloads : Loads r.load r.nextOffset pages) (hlt : (totalValues pages : Int) < r.valuesRemaining) :
    (r.after (readPages pages)).Between ∧ (r.after (readPages pages)).load = r.load ∧
      (r.after (readPages pages)).nextOffset = offsetAfter r.nextOffset pages ∧
      (r.after (readPages pages)).valuesRemaining = r.valuesRemaining - totalValues pages := by
  induction pages generalizing r with
  | nil => exact ⟨h, rfl, rfl, by simp [totalValues, readPages, ColumnReader.after]⟩
  | cons p pages ih =>
    obtain ⟨hload, hloads⟩ := hloads
    have htotal : totalValues (p :: pages) = p.numValues + totalValues pages := rfl
    rw [htotal] at hlt ⊢
    have hstep := readBatch_page h hload (by omega) ⟨false, false⟩
    generalize hr' : (readBatch r p.numValues ⟨false, false⟩).2 = r' at hstep
    have hafter : r.after (readPages (p :: pages)) = r'.after (readPages pages) := by
      rw [← hr']
      rfl
    have hbetween : r'.Between := by
      intro q hq
      rw [hstep] at hq ⊢
      simp only [Option.some.injEq] at hq
      rw [← hq]
    have hoffset : r'.nextOffset = p.next r.nextOffset := by
      rw [hstep]
      rfl
    have hload' : r'.load = r.load := by rw [hstep]
    have hrem : r'.valuesRemaining = r.valuesRemaining - p.numValues := by rw [hstep]
    obtain ⟨h1, h2, h3, h4⟩ := ih hbetween (by rw [hload', hoffset]; exact hloads) (by omega)
    rw [hafter]
    refine ⟨h1, h2.trans hload', ?_, by omega⟩
    rw [h3, hoffset]
    rfl

/-- No sequence of calls returns more than is declared, exactly if no page lies across the
declared end. -/
theorem returned_le_iff (maxDefLevel : Int) (load : Int → Except Status (LoadedPage α))
    (numValues : Int) :
    (∀ calls, returned ((columnReader maxDefLevel load numValues).run calls) ≤ max 0 numValues) ↔
      NoPageAcrossEnd load numValues := by
  constructor
  · intro h pages page hloads hlt
    obtain ⟨hloads, hload⟩ := loads_append.mp hloads
    have hstart : (columnReader maxDefLevel load numValues).Between := by
      intro p hp
      simp [columnReader] at hp
    obtain ⟨h1, h2, h3, h4⟩ := after_readPages hstart hloads hlt
    change _ = numValues - _ at h4
    have hstep := readBatch_page h1 (p := page) (by rw [h2, h3]; exact hload) (by omega)
      ⟨false, false⟩
    have hall := h (readPages pages ++ [.read page.numValues ⟨false, false⟩])
    rw [returned_run, ColumnReader.after, List.foldl_append] at hall
    change numValues - (readBatch _ _ _).2.valuesRemaining ≤ _ at hall
    rw [ColumnReader.after] at hstep h4
    rw [hstep] at hall
    simp only at hall
    omega
  · intro hend calls
    have hstart : WithinEnd load numValues (columnReader maxDefLevel load numValues) := by
      refine ⟨rfl, ?_, [], trivial, rfl, Or.inl ⟨rfl, ?_⟩⟩
      · exact Int.min_le_left _ _
      · simp [columnReader, totalValues]
    have hfinal := ((withinEnd_kept hend).after hstart calls).remaining
    rw [returned_run]
    change numValues - _ ≤ _
    omega

/-- **Calls on a well-formed chunk return its consecutive slices exactly when every read fits
the unread pages; and on any chunk no calls return more than it declares exactly if no page
lies across the declared end.** -/
theorem columnReader_slices_iff (α : Type) (maxDefLevel : Int) :
    (∀ (c : Chunk α maxDefLevel) (calls : List Call),
      c.reader.run calls = slices c.entries calls ↔ CallsFit c.sizes calls) ∧
    ∀ (load : Int → Except Status (LoadedPage α)) (numValues : Int),
      (∀ calls, returned ((columnReader maxDefLevel load numValues).run calls) ≤ max 0 numValues) ↔
        NoPageAcrossEnd load numValues :=
  ⟨fun c calls => run_eq_slices_iff c.unread calls, returned_le_iff maxDefLevel⟩

/-- A page of a required column, with one byte of header and one of data. -/
def samplePage (values : List Nat) (hpos : 0 < values.length)
    (hlt : values.length < 2147483648) : LoadedPage Nat :=
  ⟨values.length, values, none, none, 1, 1, hpos, hlt⟩

def oneEntryChunk : Chunk Nat 0 where
  load := fun _ => .ok (samplePage [5] (by decide) (by decide))
  pages := [⟨samplePage [5] (by decide) (by decide), by simp [samplePage], by simp [samplePage],
    by simp, by decide⟩]
  loads := ⟨rfl, trivial⟩

/-- A request of `2^31` entries returns none of the one entry there is, and two pages of two
entries in a chunk that declares three give four. -/
theorem columnReader_returns_other :
    oneEntryChunk.reader.run [.read 2147483648 ⟨false, false⟩] ≠
        slices oneEntryChunk.entries [.read 2147483648 ⟨false, false⟩] ∧
      returned ((columnReader 0 (fun _ => .ok (samplePage [1, 2] (by decide) (by decide)))
        3).run [.read 4 ⟨false, false⟩]) = 4 := by
  decide

end Carquet
