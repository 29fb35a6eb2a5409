import Carquet.Compression.SnappyElements

/-!
# Snappy: what was compressed comes back

The compressor (snappy.c:601-843) covers each block of its input by elements that mean just that
block: a match is a part of the block that occurs earlier in it, since every position in the hash
table lies behind `ip` and the four bytes there are compared.

Main result `snappy_roundTrips_iff`: in a build with vector shuffles every input comes back; in one
without, those do whose stream has no copy that reads ahead.
-/

namespace Carquet

open LittleEndian BackReference

/-! ## Matches -/

theorem testBit_of_lt_ctz {fuel x i : Nat} (h : i < ctz fuel x) : x.testBit i = false := by
  induction fuel generalizing x i with
  | zero => exact absurd h (Nat.not_lt_zero i)
  | succ fuel ih =>
    unfold ctz at h
    split at h
    · exact absurd h (Nat.not_lt_zero i)
    · cases i with
      | zero =>
        rw [Nat.testBit_zero]
        exact decide_eq_false ‹_›
      | succ i =>
        rw [Nat.testBit_succ]
        exact ih (by omega)

theorem ctz_le (fuel x : Nat) : ctz fuel x ≤ fuel := by
  induction fuel generalizing x with
  | zero => exact Nat.le_refl 0
  | succ fuel ih =>
    unfold ctz
    split
    · exact Nat.zero_le _
    · exact Nat.succ_le_succ (ih _)

theorem getElem?_take_drop {src : Bytes} {i n k : Nat} (h : k < n) :
    ((src.drop i).take n)[k]? = src[i + k]? := by
  rw [List.getElem?_take_of_lt h, List.getElem?_drop]

/-- Two equal numbers of four bytes. -/
theorem load32_eq {src : Bytes} {i j : Nat} (hi : i + 4 ≤ src.length) (hj : j + 4 ≤ src.length)
    (h : load32 src i = load32 src j) : ∀ k < 4, src[i + k]? = src[j + k]? := by
  intro k hk
  have hbytes : (src.drop i).take 4 = (src.drop j).take 4 :=
    leNat_injective (by simp; omega) h
  rw [← getElem?_take_drop hk, hbytes, getElem?_take_drop hk]

/-- Two numbers of eight bytes agree in the bytes below the lowest bit in which they differ. -/
theorem load64_eq {src : Bytes} {i j : Nat} (hi : i + 8 ≤ src.length) (hj : j + 8 ≤ src.length) :
    ∀ k < ctz 64 (load64 src i ^^^ load64 src j) / 8, src[i + k]? = src[j + k]? := by
  intro k hk
  have hctz := ctz_le 64 (load64 src i ^^^ load64 src j)
  have hk8 : k < 8 := by omega
  have hmod : load64 src i % 256 ^ (k + 1) = load64 src j % 256 ^ (k + 1) := by
    rw [show (256 : Nat) = 2 ^ 8 from rfl, ← Nat.pow_mul]
    refine Nat.eq_of_testBit_eq fun b => ?_
    rw [Nat.testBit_mod_two_pow, Nat.testBit_mod_two_pow]
    by_cases hb : b < 8 * (k + 1)
    · have hdiff := testBit_of_lt_ctz
        (show b < ctz 64 (load64 src i ^^^ load64 src j) by omega)
      rw [Nat.testBit_xor] at hdiff
      rw [bne_eq_false_iff_eq.mp hdiff]
    · simp [hb]
  have hbytes : ((src.drop i).take 8).take (k + 1) = ((src.drop j).take 8).take (k + 1) := by
    refine leNat_injective (by simp; omega) ?_
    rw [leNat_take_mod ((src.drop i).take 8), leNat_take_mod ((src.drop j).take 8)]
    exact hmod
  have hcell : ∀ n, (((src.drop n).take 8).take (k + 1))[k]? = src[n + k]? := fun n => by
    rw [List.getElem?_take_of_lt (Nat.lt_succ_self k), getElem?_take_drop hk8]
  rw [← hcell i, hbytes, hcell j]

theorem matchLengthBytes_spec (src : Bytes) (limit fuel p m : Nat) (hp : p ≤ limit) :
    p + matchLengthBytes src limit fuel p m ≤ limit ∧
      ∀ k < matchLengthBytes src limit fuel p m, src[p + k]? = src[m + k]? := by
  induction fuel generalizing p m with
  | zero => exact ⟨hp, fun k hk => absurd hk (Nat.not_lt_zero k)⟩
  | succ fuel ih =>
    unfold matchLengthBytes
    split
    next h =>
      obtain ⟨hle, hmatch⟩ := ih (p + 1) (m + 1) h.1
      refine ⟨by omega, fun k hk => ?_⟩
      cases k with
      | zero => exact h.2
      | succ k =>
        have := hmatch k (by omega)
        rwa [Nat.add_right_comm p, Nat.add_right_comm m] at this
    next => exact ⟨hp, fun k hk => absurd hk (Nat.not_lt_zero k)⟩

/-- The bytes that `fastMatchLength` counts are equal. -/
theorem fastMatchLength_spec (src : Bytes) (fuel p m : Nat) (hp : p ≤ src.length) (hm : m ≤ p) :
    p + fastMatchLength src src.length fuel p m ≤ src.length ∧
      ∀ k < fastMatchLength src src.length fuel p m, src[p + k]? = src[m + k]? := by
  induction fuel generalizing p m with
  | zero => exact ⟨hp, fun k hk => absurd hk (Nat.not_lt_zero k)⟩
  | succ fuel ih =>
    unfold fastMatchLength
    split
    next h8 =>
      have height := load64_eq h8 (show m + 8 ≤ src.length by omega)
      have hctz := ctz_le 64 (load64 src p ^^^ load64 src m)
      dsimp only
      split
      next => exact ⟨by omega, height⟩
      next hdiff =>
        -- no bit differs, so all of the eight bytes are equal
        obtain ⟨hle, hmatch⟩ := ih (p + 8) (m + 8) h8 (by omega)
        have hzero : ctz 64 (load64 src p ^^^ load64 src m) = 64 := by
          rw [not_not.mp hdiff]
          decide
        rw [hzero] at height
        refine ⟨by omega, fun k hk => ?_⟩
        by_cases hk8 : k < 8
        · exact height k (by omega)
        · have := hmatch (k - 8) (by omega)
          rwa [show p + 8 + (k - 8) = p + k by omega, show m + 8 + (k - 8) = m + k by omega] at this
    next => exact matchLengthBytes_spec src src.length (src.length - p) p m hp

/-- The whole match at `ip` (snappy.c:752): the four bytes that were compared and those after. -/
theorem match_spec {src : Bytes} {ip candidate : Nat} (hip : ip + 4 ≤ src.length)
    (hcandidate : candidate < ip) (h : load32 src ip = load32 src candidate) (fuel : Nat) :
    ip + (4 + fastMatchLength src src.length fuel (ip + 4) (candidate + 4)) ≤ src.length ∧
      ∀ k < 4 + fastMatchLength src src.length fuel (ip + 4) (candidate + 4),
        src[ip + k]? = src[ip + k - (ip - candidate)]? := by
  have hfour := load32_eq hip (by omega) h
  obtain ⟨hle, hmatch⟩ := fastMatchLength_spec src fuel (ip + 4) (candidate + 4) hip (by omega)
  refine ⟨by omega, fun k hk => ?_⟩
  rw [show ip + k - (ip - candidate) = candidate + k by omega]
  by_cases hk4 : k < 4
  · exact hfour k hk4
  · have := hmatch (k - 4) (by omega)
    rwa [show ip + 4 + (k - 4) = ip + k by omega,
      show candidate + 4 + (k - 4) = candidate + k by omega] at this

/-! ## The search -/

/-- Every position in the table lies behind `ip`. -/
def HashTable.Behind (table : HashTable) (ip : Nat) : Prop := ∀ h, table h < ip

theorem HashTable.Behind.mono {table : HashTable} {ip ip' : Nat} (h : table.Behind ip)
    (hle : ip ≤ ip') : table.Behind ip' := fun k => Nat.lt_of_lt_of_le (h k) hle

theorem HashTable.Behind.set {table : HashTable} {ip : Nat} (h : table.Behind ip) (k : Nat)
    {position : Nat} (hlt : position < ip) : (table.set k position).Behind ip := by
  intro k'
  have := Nat.mod_le position 65536
  unfold HashTable.set
  by_cases hk : k' = k
  · rw [hk, Function.update_self]
    omega
  · rw [Function.update_of_ne hk]
    exact h k'

/-- What a search found: `ip` and an earlier position with the same four bytes. -/
structure Found (src : Bytes) (start ip candidate : Nat) (table : HashTable) : Prop where
  start_le : start ≤ ip
  room : ip + 15 ≤ src.length
  behind : candidate < ip
  same : load32 src ip = load32 src candidate
  table_behind : table.Behind (ip + 1)

/-- What is known behind a search that went up to `stop`. -/
def Searched (src : Bytes) (start stop : Nat) : Option (Nat × Nat) × HashTable → Prop
  | (some (ip, candidate), table) => Found src start ip candidate table
  | (none, table) => table.Behind stop

theorem snappyStart_spec (src : Bytes) (fuel : Nat) {ip : Nat} {table : HashTable}
    (htable : table.Behind ip) (hroom : ip + fuel + 14 ≤ src.length) :
    Searched src ip (ip + fuel) (snappyStart src fuel ip table) := by
  induction fuel generalizing ip table with
  | zero => exact htable
  | succ fuel ih =>
    unfold snappyStart
    dsimp only
    have hset : ∀ h, (table.set h ip).Behind (ip + 1) := fun h =>
      (htable.mono (Nat.le_succ ip)).set h (Nat.lt_succ_self ip)
    split
    next hsame =>
      exact (⟨Nat.le_refl ip, by omega, htable _, hsame.symm, hset _⟩ : Found src ip ip _ _)
    next =>
      have := ih (hset (snappyHash (load32 src ip))) (by omega)
      generalize snappyStart src fuel (ip + 1) (table.set (snappyHash (load32 src ip)) ip) = found
        at this
      rcases found with ⟨_ | ⟨next, candidate⟩, table'⟩
      · rw [Nat.add_right_comm, Nat.add_assoc] at this
        exact this
      · have hfound : Found src (ip + 1) next candidate table' := this
        exact ({ hfound with start_le := Nat.le_of_succ_le hfound.start_le } :
          Found src ip next candidate table')

theorem snappySearch_spec (src : Bytes) (fuel : Nat) {ip skip : Nat} {table : HashTable}
    (htable : table.Behind ip) (hlen : 15 ≤ src.length) (hskip : 32 ≤ skip) {next candidate : Nat}
    {table' : HashTable}
    (h : snappySearch src (src.length - 15) fuel ip skip table =
      (some (next, candidate), table')) : Found src ip next candidate table' := by
  induction fuel generalizing ip skip table with
  | zero => cases h
  | succ fuel ih =>
    unfold snappySearch at h
    dsimp only at h
    split at h
    · cases h
    · split at h
      next hsame =>
        cases h
        exact ⟨Nat.le_refl _, by omega, htable _, hsame,
          (htable.mono (Nat.le_succ _)).set _ (Nat.lt_succ_self _)⟩
      next =>
        have := ih ((htable.mono (Nat.le_add_right ip (skip / 32))).set _ (by omega)) (by omega) h
        exact { this with start_le := Nat.le_of_add_right_le this.start_le }

/-! ## Blocks -/

/-- `stream` consists of elements that lead from the output `before` to the output `after`. -/
def Encodes (before stream after : Bytes) : Prop :=
  ∃ es, stream = es.flatMap SnappyElement.bytes ∧ Produces before es after

theorem Encodes.nil (out : Bytes) : Encodes out [] out := ⟨[], rfl, rfl⟩

theorem Encodes.append {out out' out'' stream stream' : Bytes} (h : Encodes out stream out')
    (h' : Encodes out' stream' out'') : Encodes out (stream ++ stream') out'' := by
  obtain ⟨es, rfl, hes⟩ := h
  obtain ⟨es', rfl, hes'⟩ := h'
  exact ⟨es ++ es', by rw [List.flatMap_append], hes.append hes'⟩

/-- A literal, `ip` up to `next` of the block. -/
theorem Encodes.literal (pre : Bytes) {block : Bytes} {ip next : Nat} (hlt : ip < next)
    (hnext : next ≤ block.length) (hlen : block.length ≤ 65536) :
    Encodes (pre ++ block.take ip) (snappyEmitLiteral ((block.drop ip).take (next - ip)))
      (pre ++ block.take next) := by
  refine ⟨[.literal ((block.drop ip).take (next - ip))], by simp [SnappyElement.bytes], ?_, ?_⟩
  · have hlength : ((block.drop ip).take (next - ip)).length = next - ip := by simp; omega
    exact ⟨List.ne_nil_of_length_pos (by omega), by omega⟩
  · have htake : block.take next = block.take ip ++ (block.drop ip).take (next - ip) := by
      rw [← List.take_add, show ip + (next - ip) = next by omega]
    rw [htake, ← List.append_assoc]
    rfl

theorem Encodes.copyTail (pre : Bytes) {block : Bytes} {offset len ip : Nat} (hpos : 0 < offset)
    (hoff : offset ≤ ip) (hlt : offset < 65536) (hmin : 4 ≤ len) (hmax : len ≤ 64)
    (hroom : ip + len ≤ block.length)
    (h : ∀ k < len, block[ip + k]? = block[ip + k - offset]?) :
    Encodes (pre ++ block.take ip) (snappyCopyTail offset len) (pre ++ block.take (ip + len)) := by
  refine ⟨[.copy offset len], by simp [SnappyElement.bytes], ⟨hpos, ?_, hlt, hmin, hmax⟩, ?_⟩
  · simp
    omega
  · exact repeatBack_take pre hpos hoff hroom h

/-- A chunk of a long copy (snappy.c:640-653). -/
theorem snappyCopy2_eq {offset len : Nat} (h : 12 ≤ len) :
    snappyCopy2 offset len = snappyCopyTail offset len := by
  unfold snappyCopyTail
  rw [if_neg (by omega)]

theorem Encodes.copy (pre : Bytes) {block : Bytes} {offset len ip : Nat} (hpos : 0 < offset)
    (hoff : offset ≤ ip) (hlt : offset < 65536) (hmin : 4 ≤ len) (hroom : ip + len ≤ block.length)
    (h : ∀ k < len, block[ip + k]? = block[ip + k - offset]?) :
    Encodes (pre ++ block.take ip) (snappyEmitCopy offset len) (pre ++ block.take (ip + len)) := by
  have hrest : ∀ n ≤ len, ∀ k < len - n, block[ip + n + k]? = block[ip + n + k - offset]? := by
    intro n hn k hk
    have := h (n + k) (by omega)
    rwa [← Nat.add_assoc] at this
  rw [snappyEmitCopy]
  split
  · rw [snappyCopy2_eq (by decide), show ip + len = ip + 64 + (len - 64) by omega]
    exact (Encodes.copyTail pre hpos hoff hlt (by decide) (by decide) (by omega)
      fun k hk => h k (by omega)).append
        (Encodes.copy pre hpos (by omega) hlt (by omega) (by omega) (hrest 64 (by omega)))
  · split
    · rw [snappyCopy2_eq (by decide), show ip + len = ip + 60 + (len - 60) by omega]
      exact (Encodes.copyTail pre hpos hoff hlt (by decide) (by decide) (by omega)
        fun k hk => h k (by omega)).append
          (Encodes.copyTail pre hpos (by omega) hlt (by omega) (by omega) (by omega)
            (hrest 60 (by omega)))
    · exact Encodes.copyTail pre hpos hoff hlt hmin (by omega) hroom h
termination_by len

theorem Encodes.remainder (pre : Bytes) {block : Bytes} {ip : Nat} (hip : ip ≤ block.length)
    (hlen : block.length ≤ 65536) :
    Encodes (pre ++ block.take ip) (snappyRemainder block ip) (pre ++ block) := by
  unfold snappyRemainder
  split
  next h =>
    have hdrop : (block.drop ip).take (block.length - ip) = block.drop ip :=
      List.take_of_length_le (by rw [List.length_drop])
    have := Encodes.literal pre h (Nat.le_refl _) hlen
    rwa [hdrop, List.take_length] at this
  next h =>
    rw [List.take_of_length_le (by omega)]
    exact Encodes.nil _

/-! ### Lengths -/

theorem length_snappyEmitLiteral_le (literal : Bytes) (hpos : 0 < literal.length)
    (hlen : literal.length ≤ 65536) :
    6 * (snappyEmitLiteral literal).length ≤ 7 * literal.length + 5 ∧
      (18 ≤ literal.length → 6 * (snappyEmitLiteral literal).length ≤ 7 * literal.length) := by
  have hcount := literal_count_le (n := literal.length - 1) (by omega)
  unfold snappyEmitLiteral
  dsimp only
  split
  · rw [List.length_cons]
    omega
  · rw [List.length_cons, List.length_append, length_leBytes]
    omega

theorem length_snappyCopyTail_le (offset : Nat) {len : Nat} (h : 4 ≤ len) :
    6 * (snappyCopyTail offset len).length + 10 ≤ 7 * len := by
  unfold snappyCopyTail snappyCopy2
  split <;> simp only [List.length_cons, List.length_nil] <;> omega

theorem length_snappyEmitCopy_le (offset : Nat) {len : Nat} (h : 4 ≤ len) :
    6 * (snappyEmitCopy offset len).length + 10 ≤ 7 * len := by
  rw [snappyEmitCopy]
  split
  · have := length_snappyEmitCopy_le offset (show 4 ≤ len - 64 by omega)
    have := length_snappyCopyTail_le offset (show 4 ≤ 64 by decide)
    rw [snappyCopy2_eq (by decide), List.length_append]
    omega
  · split
    · have := length_snappyCopyTail_le offset (show 4 ≤ len - 60 by omega)
      have := length_snappyCopyTail_le offset (show 4 ≤ 60 by decide)
      rw [snappyCopy2_eq (by decide), List.length_append]
      omega
    · exact length_snappyCopyTail_le offset h
termination_by len

theorem length_snappyRemainder_le {block : Bytes} (ip : Nat) (hlen : block.length ≤ 65536) :
    6 * (snappyRemainder block ip).length ≤ 7 * (block.length - ip) + 5 := by
  unfold snappyRemainder
  split
  · have := (length_snappyEmitLiteral_le (block.drop ip) (by simp; omega)
      (by simp; omega)).1
    rwa [List.length_drop] at this
  · simp

/-! ### The matcher -/

/-- **From a match on**: the elements lead to the whole block, and save at least five sixths of a
byte. -/
theorem snappyEmitMatch_spec (pre block : Bytes) (hlen : block.length ≤ 65536) (fuel : Nat)
    {start ip candidate : Nat} {table : HashTable} (h : Found block start ip candidate table)
    (hfuel : block.length < ip + fuel) :
    Encodes (pre ++ block.take ip)
        (snappyEmitMatch block (block.length - 15) fuel ip candidate table) (pre ++ block) ∧
      6 * (snappyEmitMatch block (block.length - 15) fuel ip candidate table).length + 5 ≤
        7 * (block.length - ip) := by
  induction fuel generalizing start ip candidate table with
  | zero =>
    have := h.room
    omega
  | succ fuel ih =>
    obtain ⟨-, hroom, hbehind, hsame, htable⟩ := h
    obtain ⟨hle, hmatch⟩ := match_spec (by omega) hbehind hsame block.length
    unfold snappyEmitMatch
    dsimp only
    have hmin : 4 ≤ 4 + fastMatchLength block block.length block.length (ip + 4) (candidate + 4) :=
      Nat.le_add_right ..
    generalize 4 + fastMatchLength block block.length block.length (ip + 4) (candidate + 4) =
      matchLen at hle hmatch hmin
    have hcopy := Encodes.copy pre (by omega) (by omega) (by omega) hmin hle hmatch
    have hcopyLen := length_snappyEmitCopy_le (ip - candidate) hmin
    split
    · refine ⟨hcopy.append (Encodes.remainder pre hle hlen), ?_⟩
      have := length_snappyRemainder_le (ip + matchLen) hlen
      rw [List.length_append]
      omega
    · have htable' := ((htable.mono (show ip + 1 ≤ ip + matchLen by omega)).set
        (snappyHash (load32 block (ip + matchLen - 1)))
        (show ip + matchLen - 1 < ip + matchLen by omega))
      generalize table.set (snappyHash (load32 block (ip + matchLen - 1))) (ip + matchLen - 1) =
        table₁ at htable'
      have htable₂ := (htable'.mono (Nat.le_succ (ip + matchLen))).set
        (snappyHash (load32 block (ip + matchLen))) (Nat.lt_succ_self _)
      split
      next hnext =>
        obtain ⟨hencodes, hlength⟩ := ih
          (⟨Nat.le_refl _, by omega, htable' _, hnext.1, htable₂⟩ :
            Found block (ip + matchLen) (ip + matchLen) _ _) (by omega)
        refine ⟨hcopy.append hencodes, ?_⟩
        rw [List.length_append]
        omega
      next =>
        generalize hsearch : snappySearch block (block.length - 15) block.length
          (ip + matchLen + 1) 32 _ = found
        rcases found with ⟨_ | ⟨next, candidate'⟩, table₃⟩
        · refine ⟨hcopy.append (Encodes.remainder pre hle hlen), ?_⟩
          have := length_snappyRemainder_le (ip + matchLen) hlen
          rw [List.length_append]
          omega
        · have hfound := snappySearch_spec block block.length htable₂ (by omega) (Nat.le_refl 32)
            hsearch
          have hstart := hfound.start_le
          have hroom' := hfound.room
          obtain ⟨hencodes, hlength⟩ := ih hfound (by omega)
          have hliteral := Encodes.literal pre (show ip + matchLen < next by omega)
            (show next ≤ block.length by omega) hlen
          refine ⟨hcopy.append (hliteral.append hencodes), ?_⟩
          have hpiece : ((block.drop (ip + matchLen)).take (next - (ip + matchLen))).length =
              next - (ip + matchLen) := by
            simp
            omega
          have := (length_snappyEmitLiteral_le
            ((block.drop (ip + matchLen)).take (next - (ip + matchLen))) (by omega)
            (by omega)).1
          rw [List.length_append, List.length_append]
          omega

/-- What is emitted from the start of the block: a literal up to the first match, and the rest. -/
theorem firstMatch_spec (pre block : Bytes) (hlen : block.length ≤ 65536) {start ip candidate : Nat}
    {table : HashTable} (h : Found block start ip candidate table) :
    Encodes pre (snappyEmitLiteral (block.take ip) ++
        snappyEmitMatch block (block.length - 15) block.length ip candidate table) (pre ++ block) ∧
      6 * (snappyEmitLiteral (block.take ip) ++
        snappyEmitMatch block (block.length - 15) block.length ip candidate table).length ≤
        7 * block.length := by
  have hbehind := h.behind
  have hroom := h.room
  obtain ⟨hencodes, hlength⟩ := snappyEmitMatch_spec pre block hlen block.length h (by omega)
  have hliteral := Encodes.literal pre (show 0 < ip by omega)
    (show ip ≤ block.length by omega) hlen
  rw [List.take_zero, List.append_nil, List.drop_zero, Nat.sub_zero] at hliteral
  refine ⟨hliteral.append hencodes, ?_⟩
  have htake : (block.take ip).length = ip := by
    rw [List.length_take]
    omega
  have := (length_snappyEmitLiteral_le (block.take ip) (by omega) (by omega)).1
  rw [List.length_append]
  omega

/-- **A block**: its elements add just the block to what is out, and take at most seven sixths of
its length, up to the last literal of a short one. -/
theorem snappyCompressBlock_spec (pre block : Bytes) (hlen : block.length ≤ 65536) :
    Encodes pre (snappyCompressBlock block) (pre ++ block) ∧
      6 * (snappyCompressBlock block).length ≤ 7 * block.length + 5 ∧
      (18 ≤ block.length → 6 * (snappyCompressBlock block).length ≤ 7 * block.length) := by
  have hwhole : 0 < block.length → Encodes pre (snappyEmitLiteral block) (pre ++ block) := by
    intro h
    have := Encodes.literal pre h (Nat.le_refl _) hlen
    rwa [List.take_zero, List.append_nil, List.drop_zero, Nat.sub_zero, List.take_length] at this
  unfold snappyCompressBlock
  dsimp only
  split
  next h =>
    rw [List.eq_nil_of_length_eq_zero h, List.append_nil]
    exact ⟨Encodes.nil pre, by simp⟩
  next h =>
    split
    · exact ⟨hwhole (by omega), length_snappyEmitLiteral_le _ (by omega) hlen⟩
    · have htable : HashTable.Behind
          (HashTable.set (fun _ => 0) (snappyHash (load32 block 0)) 0) 1 :=
        HashTable.Behind.set (fun _ => Nat.zero_lt_one) _ Nat.zero_lt_one
      generalize HashTable.set (fun _ => 0) (snappyHash (load32 block 0)) 0 = table at htable
      generalize hfirst : (if 17 ≤ block.length - 15 then snappyStart block 16 1 table
        else (none, table)) = first
      have hbehind : Searched block 1 (if 17 ≤ block.length - 15 then 17 else 1) first := by
        rw [← hfirst]
        split
        · exact snappyStart_spec block 16 htable (by omega)
        · exact htable
      rcases first with ⟨_ | ⟨ip, candidate⟩, table'⟩
      · dsimp only
        generalize hsearch : snappySearch block (block.length - 15) block.length _ 32 table' = found
        rcases found with ⟨_ | ⟨ip, candidate⟩, table''⟩
        · unfold snappyRemainder
          dsimp only
          rw [if_pos (by omega), List.drop_zero]
          exact ⟨hwhole (by omega), length_snappyEmitLiteral_le _ (by omega) hlen⟩
        · have hfound := snappySearch_spec block block.length hbehind (by omega) (Nat.le_refl 32)
            hsearch
          obtain ⟨hencodes, hlength⟩ := firstMatch_spec pre block hlen hfound
          exact ⟨hencodes, by dsimp only; omega, fun _ => hlength⟩
      · obtain ⟨hencodes, hlength⟩ := firstMatch_spec pre block hlen hbehind
        exact ⟨hencodes, by dsimp only; omega, fun _ => hlength⟩

/-! ## Whole inputs -/

theorem snappyCompressBlocks_spec (pre src : Bytes) :
    Encodes pre (snappyCompressBlocks src) (pre ++ src) ∧
      6 * (snappyCompressBlocks src).length ≤ 7 * src.length + 5 := by
  rw [snappyCompressBlocks]
  split
  next h =>
    rw [h, List.append_nil]
    exact ⟨Encodes.nil pre, by simp⟩
  next h =>
    have hpos := List.length_pos_of_ne_nil h
    obtain ⟨hblock, hshort, hlong⟩ := snappyCompressBlock_spec pre (src.take 65536) (by simp)
    obtain ⟨hrest, hlength⟩ := snappyCompressBlocks_spec (pre ++ src.take 65536) (src.drop 65536)
    rw [List.append_assoc, List.take_append_drop] at hrest
    refine ⟨hblock.append hrest, ?_⟩
    rw [List.length_take] at hshort hlong
    rw [List.length_drop] at hlength
    rw [List.length_append]
    by_cases hlast : src.length ≤ 65536
    · -- the last block: nothing follows
      have hnil : snappyCompressBlocks (src.drop 65536) = [] := by
        rw [List.drop_of_length_le hlast, snappyCompressBlocks, if_pos rfl]
      rw [hnil, List.length_nil]
      omega
    · omega
termination_by src.length
decreasing_by
  rw [List.length_drop]
  omega

/-- The output fits the bound. -/
theorem length_snappyCompress_le {src : Bytes} :
    (snappyWriteVarint (src.length % 4294967296) ++ snappyCompressBlocks src).length ≤
      snappyCompressBound src.length := by
  have hvarint := length_snappyWriteVarint_le 4 (show src.length % 4294967296 < 2 ^ (7 * (4 + 1)) by omega)
  have hblocks := (snappyCompressBlocks_spec [] src).2
  unfold snappyCompressBound
  rw [List.length_append]
  omega

/-- A destination of the advertised bound is enough, and what is written there is read back as
`src`, whatever the output buffer held before. -/
def SnappyRoundTrips (vectorShuffle : Bool) (src : Bytes) : Prop :=
  ∀ dstCapacity, snappyCompressBound src.length ≤ dstCapacity →
    ∃ out, snappyCompress src dstCapacity = .ok out ∧ out.length ≤ dstCapacity ∧
      ∀ (dst : Memory) (capacity : Nat), src.length ≤ capacity →
        ∃ m, snappyDecompress vectorShuffle out dst capacity = .ok (src.length, m) ∧
          cells m src.length = src

/-- The stream of `src` has no copy that reads ahead. -/
def SnappyStreamSafe (src : Bytes) : Prop :=
  ∀ es, snappyCompressBlocks src = es.flatMap SnappyElement.bytes → StreamSafe src.length 0 es

theorem snappyRoundTrips_of_safe (v : Bool) {src : Bytes} (hlen : src.length < 4294967296)
    (hsafe : v = true ∨ SnappyStreamSafe src) : SnappyRoundTrips v src := by
  intro dstCapacity hcapacity
  have hmod : src.length % 4294967296 = src.length := Nat.mod_eq_of_lt hlen
  refine ⟨_, if_neg (Nat.not_lt.mpr hcapacity),
    Nat.le_trans length_snappyCompress_le hcapacity, fun dst capacity hdst => ?_⟩
  rw [hmod]
  obtain ⟨es, hes, hproduces⟩ := (snappyCompressBlocks_spec [] src).1
  obtain ⟨m, hdecode, hcells⟩ := decodeElements_produces v hlen es
    (snappyWriteVarint src.length ++ snappyCompressBlocks src).length
    (show Produces (cells dst 0) es src from hproduces) (Nat.le_refl src.length)
    (by rw [List.length_append, hes]; omega) (hsafe.imp_right fun h => h es hes)
  have hvarint : snappyReadVarint 4 0 0 (snappyWriteVarint src.length ++ snappyCompressBlocks src) =
      some (src.length, snappyCompressBlocks src) :=
    snappyReadVarint_iff.mpr ⟨_, rfl, preamble_snappyWriteVarint hlen⟩
  refine ⟨m, ?_, hcells⟩
  unfold snappyDecompress
  have hne : snappyWriteVarint src.length ++ snappyCompressBlocks src ≠ [] := by
    rw [snappyWriteVarint]
    split <;> simp
  rw [if_neg hne, hvarint]
  dsimp only
  rw [if_neg (Nat.not_lt.mpr hdst)]
  rw [← hes] at hdecode
  rw [hdecode]
  simp [Bind.bind, Except.bind]

/-! ### A build without vector shuffles -/

/-- Eight letters, five times. -/
def fiveTimesEight : Bytes := (List.range 40).map fun i => UInt8.ofNat (65 + i % 8)

/-- A literal of the eight letters, and a copy of 32 bytes from 8 bytes ago. -/
def fiveTimesEightStream : Bytes := [40, 28, 65, 66, 67, 68, 69, 70, 71, 72, 126, 8, 0]

/-- The copy at 8 stores the bytes from 0 to 16 at once, of which eight are not there yet. -/
theorem fiveTimesEight_lost {m : Memory}
    (h : snappyDecompress false fiveTimesEightStream (fun _ => 0) 40 = .ok (40, m)) :
    cells m 40 ≠ fiveTimesEight := by
  intro hcells
  have hcell : (snappyDecompress false fiveTimesEightStream (fun _ => 0) 40).toOption.map
      (fun result => result.2 16) = some 0 := by decide +kernel
  rw [h] at hcell
  have hwant : fiveTimesEight[16]? = some 65 := by decide
  have hhave : fiveTimesEight[16]? = some 0 := by
    rw [← hcells]
    simp only [cells, List.getElem?_map]
    exact hcell
  rw [hwant] at hhave
  exact absurd hhave (by decide)

theorem not_snappyRoundTrips_fiveTimesEight : ¬ SnappyRoundTrips false fiveTimesEight := by
  intro h
  obtain ⟨out, hcompress, -, hdecompress⟩ := h 78 (by decide)
  have hout : snappyCompress fiveTimesEight 78 = .ok fiveTimesEightStream := by decide +kernel
  rw [hout] at hcompress
  cases hcompress
  obtain ⟨m, hm, hcells⟩ := hdecompress (fun _ => 0) 40 (by decide)
  exact fiveTimesEight_lost hm hcells

/-- **The round trip.** A build brings every input back just if it has vector shuffles; without
them, an input comes back whose stream has no copy that reads ahead. -/
theorem snappy_roundTrips_iff (vectorShuffle : Bool) :
    ((∀ src : Bytes, src.length < 4294967296 → SnappyRoundTrips vectorShuffle src) ↔
        vectorShuffle = true) ∧
      ∀ src : Bytes, src.length < 4294967296 → SnappyStreamSafe src →
        SnappyRoundTrips vectorShuffle src := by
  refine ⟨⟨fun h => ?_, fun h src hlen => snappyRoundTrips_of_safe _ hlen (.inl h)⟩,
    fun src hlen hsafe => snappyRoundTrips_of_safe _ hlen (.inr hsafe)⟩
  cases vectorShuffle with
  | true => rfl
  | false => exact absurd (h fiveTimesEight (by decide)) not_snappyRoundTrips_fiveTimesEight

/-- Forty bytes do not come back in a build without vector shuffles. -/
theorem snappy_not_always_roundTrips :
    ¬ ∀ vectorShuffle : Bool, ∀ src : Bytes, src.length < 4294967296 →
      SnappyRoundTrips vectorShuffle src :=
  fun h => not_snappyRoundTrips_fiveTimesEight (h false fiveTimesEight (by decide))

end Carquet
