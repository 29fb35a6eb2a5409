import Carquet.Encoding.DeltaCapacity

/-!
# DELTA_LENGTH_BYTE_ARRAY and DELTA_BYTE_ARRAY

`src/encoding/delta_length.c`: the lengths as a delta stream, then the contents.
`src/encoding/delta_strings.c`: the length of the prefix shared with the value before, the
length of what follows it, then the suffixes.

`deltaLengthDecode_encode` and `deltaStringsDecode_encode` are the round trips of what is encoded.
`byteArrays_right_iff` says which lists are.
-/

namespace Carquet

open LittleEndian

/-! ## DELTA_LENGTH_BYTE_ARRAY -/

/-- Consecutive pieces of the given lengths. -/
def carve : List Nat → Bytes → List Value
  | [], _ => []
  | n :: ns, bytes => bytes.take n :: carve ns (bytes.drop n)

/-- `carquet_delta_length_decode` (delta_length.c:52-126): the values and the bytes after
them. -/
def deltaLengthDecode (data : Bytes) (numValues : Nat) : Except Status (List Value × Bytes) := do
  let (lengths, rest) ← deltaDecodeInt32 data numValues
  if lengths.any (· < 0) then .error .decode
  else
    let lengths := lengths.map Int.toNat
    if rest.length < lengths.sum then .error .decode
    else .ok (carve lengths rest, rest.drop lengths.sum)

/-- `carquet_delta_length_encode` (delta_length.c:141-212). -/
def deltaLengthEncode (values : List Value) : Except Status Bytes := do
  let capacity := if values.length = 0 then 64 else values.length * 10 + 100
  let lengths ← deltaEncode (values.map fun v => (v.length : Int)) capacity
  .ok (lengths ++ values.flatten)

/-! ## DELTA_BYTE_ARRAY -/

/-- `common_prefix_length` (delta_strings.c). -/
def commonPrefixLength : Bytes → Bytes → Nat
  | a :: as, b :: bs => if a = b then commonPrefixLength as bs + 1 else 0
  | _, _ => 0

/-- The reconstruction loop of `carquet_delta_strings_decode`; `prev` is `none` before the
first value. -/
def rebuildStrings : List (Nat × Nat) → Bytes → Option Bytes → Nat → Nat →
    Except Status (List Value)
  | [], _, _, _, _ => .ok []
  | (prefixLen, suffixLen) :: more, suffixes, prev, workOffset, workSize =>
    let totalLen := prefixLen + suffixLen
    if workSize < workOffset + totalLen then .error .outOfMemory
    else if 0 < prefixLen ∧ (prev = none ∨ toI32 ((prev.getD []).length : Nat) < prefixLen) then
      .error .decode
    else do
      let value := (prev.getD []).take prefixLen ++ suffixes.take suffixLen
      let values ← rebuildStrings more (suffixes.drop suffixLen) (some value)
        (workOffset + totalLen) workSize
      .ok (value :: values)

/-- The two length streams, checked for negative entries. -/
def deltaStringsLengths (data : Bytes) (numValues : Nat) :
    Except Status (List Nat × List Nat × Bytes) := do
  let (prefixes, rest) ← deltaDecodeInt32 data numValues
  let (suffixes, rest) ← deltaDecodeInt32 rest numValues
  if suffixes.any (· < 0) ∨ prefixes.any (· < 0) then .error .decode
  else .ok (prefixes.map Int.toNat, suffixes.map Int.toNat, rest)

/-- `carquet_delta_strings_decode` (delta_strings.c). -/
def deltaStringsDecode (data : Bytes) (numValues workSize : Nat) :
    Except Status (List Value × Bytes) := do
  let (prefixes, suffixes, rest) ← deltaStringsLengths data numValues
  if rest.length < suffixes.sum then .error .decode
  else
    let values ← rebuildStrings (prefixes.zip suffixes) rest none 0 workSize
    .ok (values, rest.drop suffixes.sum)

/-- `carquet_delta_strings_decoded_size` (delta_strings.c). -/
def deltaStringsDecodedSize (data : Bytes) (numValues : Nat) : Except Status Nat :=
  if numValues = 0 then .error .invalidArgument
  else do
    let (prefixes, suffixes, _) ← deltaStringsLengths data numValues
    .ok (prefixes.sum + suffixes.sum)

/-- The shared prefix lengths of a list of values, from the value before it on. -/
def prefixLengths : Bytes → List Value → List Nat
  | _, [] => []
  | prev, v :: vs => commonPrefixLength prev v :: prefixLengths v vs

/-- The bytes of each value behind its shared prefix. -/
def suffixesOf : Bytes → List Value → List Bytes
  | _, [] => []
  | prev, v :: vs => v.drop (commonPrefixLength prev v) :: suffixesOf v vs

/-- `carquet_delta_strings_encode` (delta_strings.c). The first value shares nothing. -/
def deltaStringsEncode (values : List Value) : Except Status Bytes := do
  let capacity := if values.length = 0 then 64 else values.length * 10 + 100
  let prefixes ← deltaEncode ((prefixLengths [] values).map fun n : Nat => (n : Int)) capacity
  let suffixes ← deltaEncode ((suffixesOf [] values).map fun s => (s.length : Int)) capacity
  .ok (prefixes ++ suffixes ++ (suffixesOf [] values).flatten)

/-! ## How many values -/

theorem length_carve (ns : List Nat) (bytes : Bytes) : (carve ns bytes).length = ns.length := by
  induction ns generalizing bytes with
  | nil => rfl
  | cons n ns ih => simp [carve, ih]

theorem length_deltaLengthDecode {data rest : Bytes} {n : Nat} {values : List Value}
    (h : deltaLengthDecode data n = .ok (values, rest)) : values.length = n := by
  obtain ⟨⟨lengths, rest'⟩, hlens, h⟩ := bind_eq_ok.mp h
  simp only at h
  split at h
  · simp at h
  · split at h
    · simp at h
    · simp only [Except.ok.injEq, Prod.mk.injEq] at h
      rw [← h.1, length_carve, List.length_map]
      exact length_deltaDecode hlens

theorem length_rebuildStrings {pairs : List (Nat × Nat)} {suffixes : Bytes} {prev : Option Bytes}
    {workOffset workSize : Nat} {values : List Value}
    (h : rebuildStrings pairs suffixes prev workOffset workSize = .ok values) :
    values.length = pairs.length := by
  induction pairs generalizing suffixes prev workOffset values with
  | nil =>
    simp only [rebuildStrings, Except.ok.injEq] at h
    simp [← h]
  | cons p ps ih =>
    simp only [rebuildStrings] at h
    split at h
    · simp at h
    · split at h
      · simp at h
      · obtain ⟨vs, hvs, h⟩ := bind_eq_ok.mp h
        simp only [Except.ok.injEq] at h
        rw [← h, List.length_cons, ih hvs, List.length_cons]

theorem length_deltaStringsDecode {data rest : Bytes} {n workSize : Nat} {values : List Value}
    (h : deltaStringsDecode data n workSize = .ok (values, rest)) : values.length = n := by
  obtain ⟨⟨prefixes, suffixes, rest'⟩, hlens, h⟩ := bind_eq_ok.mp h
  obtain ⟨⟨ps, r1⟩, h1, hlens⟩ := bind_eq_ok.mp hlens
  obtain ⟨⟨ss, r2⟩, h2, hlens⟩ := bind_eq_ok.mp hlens
  simp only at hlens h
  split at hlens
  · simp at hlens
  · simp only [Except.ok.injEq, Prod.mk.injEq] at hlens
    obtain ⟨rfl, rfl, rfl⟩ := hlens
    split at h
    · simp at h
    · obtain ⟨vs, hvs, h⟩ := bind_eq_ok.mp h
      simp only [Except.ok.injEq, Prod.mk.injEq] at h
      rw [← h.1, length_rebuildStrings hvs, List.length_zip, List.length_map, List.length_map,
        length_deltaDecode h1, length_deltaDecode h2, Nat.min_self]

/-! ## Round trips -/

theorem carve_flatten (values : List Value) (rest : Bytes) :
    carve (values.map List.length) (values.flatten ++ rest) = values := by
  induction values with
  | nil => rfl
  | cons v vs ih =>
    simp only [List.map_cons, List.flatten_cons, List.append_assoc, carve]
    rw [List.take_left, List.drop_left, ih]

theorem sum_map_length (values : List Value) :
    (values.map List.length).sum = values.flatten.length := by
  rw [List.length_flatten]

/-- Lengths pass through the delta stream. -/
theorem deltaDecodeInt32_lengths {ns : List Nat} {capacity : Nat} {bytes : Bytes}
    (hlen : ns.length < 2147483648) (hn : ∀ n ∈ ns, n < 2147483648)
    (h : deltaEncode (ns.map fun n : Nat => (n : Int)) capacity = .ok bytes) (rest : Bytes) :
    deltaDecodeInt32 (bytes ++ rest) ns.length = .ok (ns.map fun n : Nat => (n : Int), rest) := by
  have hround := deltaDecodeInt32_encode
    (by simpa using hlen) (by
      intro v hv
      obtain ⟨n, hmem, rfl⟩ := List.mem_map.mp hv
      have := hn n hmem
      omega) h rest
  simpa using hround

theorem any_neg_natCast (ns : List Nat) : (ns.map fun n : Nat => (n : Int)).any (· < 0) = false := by
  simp

theorem map_toNat_natCast (ns : List Nat) :
    (ns.map fun n : Nat => (n : Int)).map Int.toNat = ns := by
  rw [List.map_map]
  conv_rhs => rw [← List.map_id ns]
  exact List.map_congr_left fun n _ => Int.toNat_natCast n

/-- **DELTA_LENGTH_BYTE_ARRAY round trip**. -/
theorem deltaLengthDecode_encode {values : List Value} {bytes : Bytes}
    (hlen : values.length < 2147483648) (hv : ∀ v ∈ values, v.length < 2147483648)
    (h : deltaLengthEncode values = .ok bytes) (rest : Bytes) :
    deltaLengthDecode (bytes ++ rest) values.length = .ok (values, rest) := by
  obtain ⟨lens, h1, h2⟩ := bind_eq_ok.mp h
  simp only [Except.ok.injEq] at h2
  subst h2
  have hmap : values.map (fun v => (v.length : Int)) =
      (values.map List.length).map fun n : Nat => (n : Int) := by
    rw [List.map_map]
    rfl
  rw [hmap] at h1
  have hdec := deltaDecodeInt32_lengths (by simpa using hlen) (by
    intro n hn
    obtain ⟨v, hmem, rfl⟩ := List.mem_map.mp hn
    exact hv v hmem) h1 (values.flatten ++ rest)
  rw [List.length_map] at hdec
  rw [List.append_assoc]
  refine bind_eq_ok.mpr ⟨_, hdec, ?_⟩
  simp only [any_neg_natCast, map_toNat_natCast, sum_map_length, Bool.false_eq_true, if_false]
  rw [if_neg (by rw [List.length_append]; omega), carve_flatten, List.drop_left]

theorem commonPrefixLength_le (a b : Bytes) :
    commonPrefixLength a b ≤ a.length ∧ commonPrefixLength a b ≤ b.length ∧
      a.take (commonPrefixLength a b) = b.take (commonPrefixLength a b) := by
  induction a generalizing b with
  | nil => simp [commonPrefixLength]
  | cons x xs ih =>
    cases b with
    | nil => simp [commonPrefixLength]
    | cons y ys =>
      rw [commonPrefixLength]
      split
      · rename_i heq
        obtain ⟨h1, h2, h3⟩ := ih ys
        simp only [List.length_cons, List.take_succ_cons, heq, h3]
        exact ⟨by omega, by omega, trivial⟩
      · simp

theorem length_prefixLengths (prev : Bytes) (values : List Value) :
    (prefixLengths prev values).length = values.length := by
  induction values generalizing prev with
  | nil => rfl
  | cons v vs ih => simp [prefixLengths, ih]

theorem length_suffixesOf (prev : Bytes) (values : List Value) :
    (suffixesOf prev values).length = values.length := by
  induction values generalizing prev with
  | nil => rfl
  | cons v vs ih => simp [suffixesOf, ih]

theorem prefixLengths_lt {prev : Bytes} {values : List Value}
    (hv : ∀ v ∈ values, v.length < 2147483648) :
    ∀ n ∈ prefixLengths prev values, n < 2147483648 := by
  induction values generalizing prev with
  | nil => simp [prefixLengths]
  | cons v vs ih =>
    intro n hn
    simp only [prefixLengths, List.mem_cons] at hn
    rcases hn with rfl | hn
    · have := (commonPrefixLength_le prev v).2.1
      have := hv v (by simp)
      omega
    · exact ih (fun u hu => hv u (List.mem_cons_of_mem _ hu)) n hn

theorem suffixesOf_lt {prev : Bytes} {values : List Value}
    (hv : ∀ v ∈ values, v.length < 2147483648) :
    ∀ s ∈ suffixesOf prev values, s.length < 2147483648 := by
  induction values generalizing prev with
  | nil => simp [suffixesOf]
  | cons v vs ih =>
    intro s hs
    simp only [suffixesOf, List.mem_cons] at hs
    rcases hs with rfl | hs
    · have := hv v (by simp)
      rw [List.length_drop]
      omega
    · exact ih (fun u hu => hv u (List.mem_cons_of_mem _ hu)) s hs

/-- Prefix and suffix lengths add up to the values' lengths. -/
theorem sum_prefix_suffix (prev : Bytes) (values : List Value) :
    (prefixLengths prev values).sum + ((suffixesOf prev values).map List.length).sum =
      (values.map List.length).sum := by
  induction values generalizing prev with
  | nil => rfl
  | cons v vs ih =>
    have h1 := ih v
    have h2 := (commonPrefixLength_le prev v).2.1
    simp only [prefixLengths, suffixesOf, List.map_cons, List.sum_cons, List.length_drop]
    omega

theorem rebuildStrings_encode {values : List Value} {prev : Option Bytes} {workOffset workSize : Nat}
    (hprev : (prev.getD []).length < 2147483648) (hv : ∀ v ∈ values, v.length < 2147483648)
    (hwork : workOffset + (values.map List.length).sum ≤ workSize) (rest : Bytes) :
    rebuildStrings ((prefixLengths (prev.getD []) values).zip
        ((suffixesOf (prev.getD []) values).map List.length))
      ((suffixesOf (prev.getD []) values).flatten ++ rest) prev workOffset workSize =
        .ok values := by
  induction values generalizing prev workOffset with
  | nil => rfl
  | cons v vs ih =>
    obtain ⟨hle1, hle2, htake⟩ := commonPrefixLength_le (prev.getD []) v
    have hvlen := hv v (by simp)
    simp only [List.map_cons, List.sum_cons] at hwork
    simp only [prefixLengths, suffixesOf, List.map_cons, List.zip_cons_cons, List.flatten_cons,
      List.append_assoc, rebuildStrings]
    generalize hk : commonPrefixLength (prev.getD []) v = k at hle1 hle2 htake
    have hdrop : (v.drop k).length = v.length - k := List.length_drop
    have hi32 : toI32 ((prev.getD []).length : Nat) = ((prev.getD []).length : Int) :=
      toI32_of_range (by omega) (by omega)
    have hno : ¬ (0 < k ∧ (prev = none ∨ toI32 ((prev.getD []).length : Nat) < k)) := by
      rintro ⟨h0, h1 | h1⟩
      · simp only [h1, Option.getD_none, List.length_nil] at hle1
        omega
      · rw [hi32] at h1
        omega
    have hvalue : (prev.getD []).take k ++ (v.drop k ++ ((suffixesOf v vs).flatten ++ rest)).take
        (v.drop k).length = v := by
      rw [List.take_left, htake, List.take_append_drop]
    have hrest := @ih (some v) (workOffset + (k + (v.drop k).length))
      (by simpa using hvlen) (fun u hu => hv u (List.mem_cons_of_mem _ hu)) (by omega)
    rw [if_neg (by omega), if_neg hno, hvalue, List.drop_left]
    refine bind_eq_ok.mpr ⟨vs, ?_, rfl⟩
    simpa using hrest

/-- The length streams of an encoded list. -/
theorem deltaStringsLengths_encode {values : List Value} {bytes : Bytes}
    (hlen : values.length < 2147483648) (hv : ∀ v ∈ values, v.length < 2147483648)
    (h : deltaStringsEncode values = .ok bytes) (rest : Bytes) :
    deltaStringsLengths (bytes ++ rest) values.length =
      .ok (prefixLengths [] values, (suffixesOf [] values).map List.length,
        (suffixesOf [] values).flatten ++ rest) := by
  obtain ⟨pre, h1, h⟩ := bind_eq_ok.mp h
  obtain ⟨suf, h2, h⟩ := bind_eq_ok.mp h
  simp only [Except.ok.injEq] at h
  subst h
  have hmap : (suffixesOf [] values).map (fun s => (s.length : Int)) =
      ((suffixesOf [] values).map List.length).map fun n : Nat => (n : Int) := by
    rw [List.map_map]
    rfl
  rw [hmap] at h2
  have hd1 := deltaDecodeInt32_lengths (by rw [length_prefixLengths]; exact hlen)
    (prefixLengths_lt hv) h1 (suf ++ ((suffixesOf [] values).flatten ++ rest))
  rw [length_prefixLengths] at hd1
  have hd2 := deltaDecodeInt32_lengths (by rw [List.length_map, length_suffixesOf]; exact hlen)
    (by
      intro n hn
      obtain ⟨s, hmem, rfl⟩ := List.mem_map.mp hn
      exact suffixesOf_lt hv s hmem) h2 ((suffixesOf [] values).flatten ++ rest)
  rw [List.length_map, length_suffixesOf] at hd2
  simp only [List.append_assoc]
  refine bind_eq_ok.mpr ⟨_, hd1, bind_eq_ok.mpr ⟨_, hd2, ?_⟩⟩
  simp only [any_neg_natCast, map_toNat_natCast, Bool.false_eq_true, or_self, if_false]

/-- **DELTA_BYTE_ARRAY round trip**, in a work buffer as large as the values. -/
theorem deltaStringsDecode_encode {values : List Value} {bytes : Bytes} {workSize : Nat}
    (hlen : values.length < 2147483648) (hv : ∀ v ∈ values, v.length < 2147483648)
    (hwork : (values.map List.length).sum ≤ workSize)
    (h : deltaStringsEncode values = .ok bytes) (rest : Bytes) :
    deltaStringsDecode (bytes ++ rest) values.length workSize = .ok (values, rest) := by
  refine bind_eq_ok.mpr ⟨_, deltaStringsLengths_encode hlen hv h rest, ?_⟩
  simp only [sum_map_length]
  rw [if_neg (by rw [List.length_append]; omega)]
  have hbuild := @rebuildStrings_encode values none 0 workSize (by simp) hv (by omega) rest
  refine bind_eq_ok.mpr ⟨values, hbuild, ?_⟩
  rw [List.drop_left]

theorem deltaStringsDecodedSize_encode {values : List Value} {bytes : Bytes}
    (h0 : values ≠ []) (hlen : values.length < 2147483648)
    (hv : ∀ v ∈ values, v.length < 2147483648) (h : deltaStringsEncode values = .ok bytes)
    (rest : Bytes) :
    deltaStringsDecodedSize (bytes ++ rest) values.length =
      .ok (values.map List.length).sum := by
  rw [deltaStringsDecodedSize, if_neg (by simpa using h0)]
  refine bind_eq_ok.mpr ⟨_, deltaStringsLengths_encode hlen hv h rest, ?_⟩
  simp only [sum_prefix_suffix]

/-! ## The size of the work buffer -/

theorem sum_take_zip (prefixes suffixes : List Nat) (h : prefixes.length = suffixes.length) :
    ((prefixes.zip suffixes).map fun p => p.1 + p.2).sum = prefixes.sum + suffixes.sum := by
  induction prefixes generalizing suffixes with
  | nil =>
    rw [List.length_nil] at h
    simp [List.eq_nil_of_length_eq_zero h.symm]
  | cons p ps ih =>
    cases suffixes with
    | nil => cases h
    | cons s ss =>
      simp only [List.length_cons, Nat.add_right_cancel_iff] at h
      simp only [List.zip_cons_cons, List.map_cons, List.sum_cons, ih ss h]
      omega

/-- The strings take the bytes their lengths say, and a work buffer of that many will do. -/
theorem rebuildStrings_work {pairs : List (Nat × Nat)} {suffixes : Bytes} {prev : Option Bytes}
    {workOffset workSize : Nat} {values : List Value}
    (h : rebuildStrings pairs suffixes prev workOffset workSize = .ok values)
    (hsuffixes : (pairs.map Prod.snd).sum ≤ suffixes.length) :
    values.map List.length = pairs.map (fun p => p.1 + p.2) ∧
      ∀ offset size, offset + (pairs.map fun p => p.1 + p.2).sum ≤ size →
        rebuildStrings pairs suffixes prev offset size = .ok values := by
  induction pairs generalizing suffixes prev workOffset values with
  | nil =>
    cases h
    exact ⟨rfl, fun _ _ _ => rfl⟩
  | cons p ps ih =>
    obtain ⟨prefixLen, suffixLen⟩ := p
    simp only [List.map_cons, List.sum_cons] at hsuffixes ⊢
    unfold rebuildStrings at h
    dsimp only at h
    split at h
    · cases h
    · split at h
      · cases h
      · rename_i hprefix
        obtain ⟨vs, hvs, h⟩ := bind_eq_ok.mp h
        cases h
        obtain ⟨hlengths, hagain⟩ := ih hvs (by rw [List.length_drop]; omega)
        have hle : prefixLen ≤ (prev.getD []).length := by
          by_contra hlt
          refine hprefix ⟨by omega, .inr ?_⟩
          unfold toI32
          omega
        refine ⟨?_, fun offset size hsize => ?_⟩
        · rw [List.map_cons, hlengths, List.length_append, List.length_take, List.length_take,
            Nat.min_eq_left hle, Nat.min_eq_left (by omega)]
        · rw [rebuildStrings, if_neg (by omega), if_neg hprefix]
          exact bind_eq_ok.mpr ⟨vs, hagain _ _ (by omega), rfl⟩

/-- With a work buffer of that many it does not run short. -/
theorem rebuildStrings_ne_outOfMemory (pairs : List (Nat × Nat)) (suffixes : Bytes)
    (prev : Option Bytes) {workOffset workSize : Nat}
    (h : workOffset + (pairs.map fun p => p.1 + p.2).sum ≤ workSize) :
    rebuildStrings pairs suffixes prev workOffset workSize ≠ .error .outOfMemory := by
  induction pairs generalizing suffixes prev workOffset with
  | nil => intro herror; cases herror
  | cons p ps ih =>
    obtain ⟨prefixLen, suffixLen⟩ := p
    simp only [List.map_cons, List.sum_cons] at h
    unfold rebuildStrings
    dsimp only
    rw [if_neg (by omega)]
    split
    · intro herror
      cases herror
    · have hrest := ih (suffixes.drop suffixLen)
        (some ((prev.getD []).take prefixLen ++ suffixes.take suffixLen))
        (show workOffset + (prefixLen + suffixLen) + _ ≤ workSize by omega)
      generalize rebuildStrings ps _ _ _ workSize = result at hrest
      cases result with
      | error e =>
        intro herror
        cases herror
        exact hrest rfl
      | ok vs => intro herror; cases herror

/-! ## Which lists round trip -/

/-- DELTA_LENGTH_BYTE_ARRAY reads back what it writes, all of it consumed. -/
def LengthRoundTrips (values : List Value) : Prop :=
  ∃ bytes, deltaLengthEncode values = .ok bytes ∧
    deltaLengthDecode bytes values.length = .ok (values, [])

/-- DELTA_BYTE_ARRAY reads back what it writes, all of it consumed, with room for the values. -/
def StringsRoundTrips (values : List Value) : Prop :=
  ∃ bytes, deltaStringsEncode values = .ok bytes ∧
    ∀ workSize, (values.map List.length).sum ≤ workSize →
      deltaStringsDecode bytes values.length workSize = .ok (values, [])

/-- The size of the work buffer is that of the strings, for each input that decodes, and a work
buffer of this size is never short. -/
structure SizeRight (data : Bytes) (numValues : Nat) : Prop where
  size_eq : ∀ workSize values rest, deltaStringsDecode data numValues workSize = .ok (values, rest) →
    deltaStringsDecodedSize data numValues = .ok (values.map List.length).sum ∧
      deltaStringsDecode data numValues (values.map List.length).sum = .ok (values, rest)
  enough : ∀ size, deltaStringsDecodedSize data numValues = .ok size →
    deltaStringsDecode data numValues size ≠ .error .outOfMemory

theorem deltaEncode_natCast_iff (ns : List Nat) (hlen : ns.length < 2147483648)
    (hns : ∀ n ∈ ns, n < 2147483648) :
    (∃ bytes, deltaEncode (ns.map fun n : Nat => (n : Int))
        (if ns.length = 0 then 64 else ns.length * 10 + 100) = .ok bytes) ↔
      DeltaFits (ns.map fun n : Nat => (n : Int)) := by
  have hiff := deltaEncode_lengths_iff (ns.map fun n : Nat => (n : Int))
    (by rwa [List.length_map]) (by
      intro v hv
      obtain ⟨n, hn, rfl⟩ := List.mem_map.mp hv
      have := hns n hn
      omega)
  rw [List.length_map] at hiff
  cases ns with
  | nil => exact ⟨fun _ h => absurd h (by decide), fun _ => ⟨_, rfl⟩⟩
  | cons n ns =>
    rw [if_neg (by simp)]
    exact hiff

/-- The lengths are what may not fit. -/
theorem deltaLengthEncode_iff {values : List Value} (hlen : values.length < 2147483648)
    (hv : ∀ v ∈ values, v.length < 2147483648) :
    (∃ bytes, deltaLengthEncode values = .ok bytes) ↔
      DeltaFits (values.map fun v => (v.length : Int)) := by
  have hiff := deltaEncode_natCast_iff (values.map List.length) (by rwa [List.length_map])
    (by
      intro n hn
      obtain ⟨v, hmem, rfl⟩ := List.mem_map.mp hn
      exact hv v hmem)
  rw [List.map_map, List.length_map] at hiff
  refine Iff.trans ⟨?_, ?_⟩ hiff
  · rintro ⟨bytes, hencode⟩
    obtain ⟨lengths, hlengths, -⟩ := bind_eq_ok.mp hencode
    exact ⟨lengths, hlengths⟩
  · rintro ⟨lengths, hlengths⟩
    exact ⟨lengths ++ values.flatten, bind_eq_ok.mpr ⟨lengths, hlengths, rfl⟩⟩

/-- The lengths of the prefixes and those of the suffixes are what may not fit. -/
theorem deltaStringsEncode_iff {values : List Value} (hlen : values.length < 2147483648)
    (hv : ∀ v ∈ values, v.length < 2147483648) :
    (∃ bytes, deltaStringsEncode values = .ok bytes) ↔
      DeltaFits ((prefixLengths [] values).map fun n : Nat => (n : Int)) ∧
        DeltaFits ((suffixesOf [] values).map fun s => (s.length : Int)) := by
  have hprefix := deltaEncode_natCast_iff (prefixLengths [] values)
    (by rwa [length_prefixLengths]) (prefixLengths_lt hv)
  have hsuffix := deltaEncode_natCast_iff ((suffixesOf [] values).map List.length)
    (by rwa [List.length_map, length_suffixesOf]) (by
      intro n hn
      obtain ⟨s, hmem, rfl⟩ := List.mem_map.mp hn
      exact suffixesOf_lt hv s hmem)
  rw [length_prefixLengths] at hprefix
  rw [List.map_map, List.length_map, length_suffixesOf] at hsuffix
  refine Iff.trans ⟨?_, ?_⟩ (and_congr hprefix hsuffix)
  · rintro ⟨bytes, hencode⟩
    obtain ⟨prefixes, hprefixes, hencode⟩ := bind_eq_ok.mp hencode
    obtain ⟨suffixes, hsuffixes, -⟩ := bind_eq_ok.mp hencode
    exact ⟨⟨prefixes, hprefixes⟩, suffixes, hsuffixes⟩
  · rintro ⟨⟨prefixes, hprefixes⟩, suffixes, hsuffixes⟩
    exact ⟨prefixes ++ suffixes ++ (suffixesOf [] values).flatten,
      bind_eq_ok.mpr ⟨prefixes, hprefixes, bind_eq_ok.mpr ⟨suffixes, hsuffixes, rfl⟩⟩⟩

theorem lengthRoundTrips_iff {values : List Value} (hlen : values.length < 2147483648)
    (hv : ∀ v ∈ values, v.length < 2147483648) :
    LengthRoundTrips values ↔ DeltaFits (values.map fun v => (v.length : Int)) := by
  refine Iff.trans ⟨?_, ?_⟩ (deltaLengthEncode_iff hlen hv)
  · rintro ⟨bytes, hencode, -⟩
    exact ⟨bytes, hencode⟩
  · rintro ⟨bytes, hencode⟩
    have hdecode := deltaLengthDecode_encode hlen hv hencode []
    rw [List.append_nil] at hdecode
    exact ⟨bytes, hencode, hdecode⟩

theorem stringsRoundTrips_iff {values : List Value} (hlen : values.length < 2147483648)
    (hv : ∀ v ∈ values, v.length < 2147483648) :
    StringsRoundTrips values ↔ DeltaFits ((prefixLengths [] values).map fun n : Nat => (n : Int)) ∧
      DeltaFits ((suffixesOf [] values).map fun s => (s.length : Int)) := by
  refine Iff.trans ⟨?_, ?_⟩ (deltaStringsEncode_iff hlen hv)
  · rintro ⟨bytes, hencode, -⟩
    exact ⟨bytes, hencode⟩
  · rintro ⟨bytes, hencode⟩
    refine ⟨bytes, hencode, fun workSize hwork => ?_⟩
    have hdecode := deltaStringsDecode_encode hlen hv hwork hencode []
    rwa [List.append_nil] at hdecode

theorem deltaStringsLengths_ok {data rest : Bytes} {n : Nat} {prefixes suffixes : List Nat}
    (h : deltaStringsLengths data n = .ok (prefixes, suffixes, rest)) :
    prefixes.length = n ∧ suffixes.length = n := by
  obtain ⟨⟨ps, r₁⟩, hps, h⟩ := bind_eq_ok.mp h
  obtain ⟨⟨ss, r₂⟩, hss, h⟩ := bind_eq_ok.mp h
  dsimp only at h
  split at h
  · cases h
  · cases h
    rw [List.length_map, List.length_map, length_deltaDecode hps, length_deltaDecode hss]
    exact ⟨rfl, rfl⟩

/-- The size is right, but for no values: then there is none. -/
theorem sizeRight_iff (data : Bytes) (numValues : Nat) :
    SizeRight data numValues ↔
      (numValues = 0 → ∀ lengths, deltaStringsLengths data numValues ≠ .ok lengths) := by
  constructor
  · rintro h rfl ⟨prefixes, suffixes, rest⟩ hlengths
    obtain ⟨hps, hss⟩ := deltaStringsLengths_ok hlengths
    obtain rfl := List.eq_nil_of_length_eq_zero hps
    obtain rfl := List.eq_nil_of_length_eq_zero hss
    have hdecode : deltaStringsDecode data 0 0 = .ok ([], rest) :=
      bind_eq_ok.mpr ⟨_, hlengths, rfl⟩
    have hsize := (h.size_eq 0 [] rest hdecode).1
    rw [deltaStringsDecodedSize, if_pos rfl] at hsize
    cases hsize
  · intro h
    constructor
    · intro workSize values rest hdecode
      obtain ⟨⟨prefixes, suffixes, bytes⟩, hlengths, hbuild⟩ := bind_eq_ok.mp hdecode
      dsimp only at hbuild
      obtain ⟨hps, hss⟩ := deltaStringsLengths_ok hlengths
      have hzip : prefixes.length = suffixes.length := hps.trans hss.symm
      split at hbuild
      · cases hbuild
      · rename_i hroom
        obtain ⟨vs, hvs, hbuild⟩ := bind_eq_ok.mp hbuild
        cases hbuild
        obtain ⟨htotal, hagain⟩ := rebuildStrings_work hvs (by
          rw [List.map_snd_zip (Nat.le_of_eq hzip.symm)]
          omega)
        have hsum := sum_take_zip prefixes suffixes hzip
        refine ⟨?_, bind_eq_ok.mpr ⟨_, hlengths, ?_⟩⟩
        · rw [deltaStringsDecodedSize, if_neg fun h0 => h h0 _ hlengths, htotal, hsum]
          exact bind_eq_ok.mpr ⟨_, hlengths, rfl⟩
        · dsimp only
          rw [if_neg hroom]
          exact bind_eq_ok.mpr ⟨values, hagain 0 _ (by rw [htotal, Nat.zero_add]), rfl⟩
    · intro size hsize hdecode
      unfold deltaStringsDecodedSize at hsize
      split at hsize
      · cases hsize
      · obtain ⟨⟨prefixes, suffixes, bytes⟩, hlengths, hsum⟩ := bind_eq_ok.mp hsize
        cases hsum
        obtain ⟨hps, hss⟩ := deltaStringsLengths_ok hlengths
        have hnever := rebuildStrings_ne_outOfMemory (prefixes.zip suffixes) bytes none
          (show 0 + ((prefixes.zip suffixes).map fun p => p.1 + p.2).sum ≤
              prefixes.sum + suffixes.sum by
            rw [sum_take_zip prefixes suffixes (hps.trans hss.symm), Nat.zero_add])
        unfold deltaStringsDecode at hdecode
        rw [hlengths] at hdecode
        dsimp only [bind, Except.bind] at hdecode
        split at hdecode
        · cases hdecode
        · generalize rebuildStrings _ bytes none 0 _ = result at hnever hdecode
          cases result with
          | error e =>
            cases hdecode
            exact hnever rfl
          | ok vs => cases hdecode

/-- **Which byte arrays round trip, and which inputs have a size.** -/
theorem byteArrays_right_iff (values : List Value) (data : Bytes) (numValues : Nat)
    (hlen : values.length < 2147483648) (hv : ∀ v ∈ values, v.length < 2147483648) :
    (LengthRoundTrips values ↔ DeltaFits (values.map fun v => (v.length : Int))) ∧
    (StringsRoundTrips values ↔
      DeltaFits ((prefixLengths [] values).map fun n : Nat => (n : Int)) ∧
        DeltaFits ((suffixesOf [] values).map fun s => (s.length : Int))) ∧
    (SizeRight data numValues ↔
      (numValues = 0 → ∀ lengths, deltaStringsLengths data numValues ≠ .ok lengths)) :=
  ⟨lengthRoundTrips_iff hlen hv, stringsRoundTrips_iff hlen hv, sizeRight_iff data numValues⟩

/-- Three strings, the last of which repeats the second. -/
theorem threeStrings_right_iff :
    (LengthRoundTrips [[], [1, 2], [1, 2]] ↔ DeltaFits [0, 2, 2]) ∧
    (StringsRoundTrips [[], [1, 2], [1, 2]] ↔ DeltaFits [0, 0, 2] ∧ DeltaFits [0, 2, 0]) ∧
    (SizeRight [] 3 ↔ ((3 : Nat) = 0 → ∀ lengths, deltaStringsLengths [] 3 ≠ .ok lengths)) :=
  byteArrays_right_iff [[], [1, 2], [1, 2]] [] 3 (by decide) (by decide)

/-- One string of 2^28 bytes between two empty ones is not written at all, and a page of no values
has no size. -/
theorem byteArrays_not_always_right :
    ¬ (∀ values : List Value, values.length < 2147483648 →
      (∀ v ∈ values, v.length < 2147483648) → LengthRoundTrips values) ∧
    ¬ ∀ data numValues, SizeRight data numValues := by
  constructor
  · intro h
    have hlong : (List.replicate 268435456 (0 : UInt8)).length = 268435456 := List.length_replicate
    have hv : ∀ v ∈ ([[], List.replicate 268435456 0, []] : List Value),
        v.length < 2147483648 := by
      simp only [List.mem_cons, List.not_mem_nil, or_false, forall_eq_or_imp, forall_eq, hlong,
        List.length_nil]
      decide
    have hfits := (lengthRoundTrips_iff (by decide) hv).mp (h _ (by decide) hv)
    simp only [List.map_cons, List.map_nil, hlong, List.length_nil] at hfits
    exact absurd hfits (by decide +kernel)
  · intro h
    exact (sizeRight_iff [128, 1, 4, 0, 0, 128, 1, 4, 0, 0] 0).mp (h _ 0) rfl ([], [], [])
      (by decide +kernel)

end Carquet
