import Carquet.Metadata.BloomFilter
import Carquet.Lib.BitPacking
import Carquet.Lib.MembershipFilter
import Mathlib

/-!
# Bloom filters have no false negatives

The bits of a filter, as a set, are a membership filter: an insert joins the eight bits of a hash
(`bits_insertHash`), a merge joins the bits of the other (`bits_merge`), a check asks for the eight
bits (`checkHash_iff`). So what went in is reported, over every sequence of inserts, merges and round
trips through `carquet_bloom_filter_write` and `_read` (`BloomFilter.Built.reports`).
-/

namespace Carquet

open LittleEndian Chunks BitPacking

namespace BloomFilter

/-- The bits that are set. -/
def bits (f : BloomFilter) : Set Nat := {n | (leNat f.data).testBit n = true}

/-- The bits of a hash, one in each word of its block. -/
def hashMask (numBlocks : Nat) (hash : UInt64) : Set Nat :=
  {n | n / 256 = blockIndex hash numBlocks ∧ n % 32 = bitPos (bloomSalt.getD (n % 256 / 32) 0) hash}

/-! ## Words and bits -/

theorem bitPos_lt (salt : Nat) (hash : UInt64) : bitPos salt hash < 32 := by
  unfold bitPos
  omega

/-- Bit `j` of word `i` of a block. -/
theorem testBit_blockWords {block : Bytes} {i j : Nat} (hi : i < 8) (hj : j < 32) :
    ((blockWords block).getD i 0).testBit j = (leNat block).testBit (32 * i + j) := by
  have hword : (blockWords block).getD i 0 = leNat ((block.drop (i * 4)).take 4) := by
    rw [blockWords, splitChunks_eq_map, List.map_map, List.getD_eq_getElem?_getD,
      List.getElem?_map, List.getElem?_range hi]
    rfl
  have hbyte : ((block.drop (i * 4)).take 4).getD (j / 8) 0 = block.getD ((32 * i + j) / 8) 0 := by
    rw [List.getD_eq_getElem?_getD, List.getD_eq_getElem?_getD,
      List.getElem?_take_of_lt (by omega), List.getElem?_drop,
      show i * 4 + j / 8 = (32 * i + j) / 8 by omega]
  rw [hword, testBit_leNat_div, testBit_leNat_div, hbyte, show j % 8 = (32 * i + j) % 8 by omega]

theorem blockWords_lt {block : Bytes} : ∀ word ∈ blockWords block, word < 2 ^ 32 := by
  intro word hword
  rw [blockWords, splitChunks_eq_map, List.map_map] at hword
  obtain ⟨i, -, rfl⟩ := List.mem_map.mp hword
  refine Nat.lt_of_lt_of_le (leNat_lt _) ?_
  rw [show (2 : Nat) ^ 32 = 256 ^ 4 from rfl]
  exact Nat.pow_le_pow_right (by decide) (by rw [List.length_take]; exact Nat.min_le_left ..)

/-- Words, stored. -/
theorem testBit_wordBytes {words : List Nat} (h : ∀ word ∈ words, word < 2 ^ 32) {i j : Nat}
    (hj : j < 32) :
    (leNat (words.map (leBytes 4)).flatten).testBit (32 * i + j) = (words.getD i 0).testBit j := by
  have hbytes : (words.map (leBytes 4)).flatten = packBits (8 * 4) words :=
    (packBits_bytes 4 h).symm
  have hlt : packNat (8 * 4) words < 256 ^ ((8 * 4 * words.length + 7) / 8) := by
    rw [show (256 : Nat) = 2 ^ 8 from rfl, ← Nat.pow_mul]
    exact Nat.lt_of_lt_of_le (packNat_lt _ _) (Nat.pow_le_pow_right (by decide) (by omega))
  rw [hbytes, packBits, leNat_leBytes_of_lt hlt, Nat.mul_comm 32 i]
  exact testBit_packNat words hj

/-! ## One block -/

theorem blockInsert_getD {words : List Nat} (h : words.length = 8) (hash : UInt64) {i : Nat}
    (hi : i < 8) :
    (blockInsert words hash).getD i 0 =
      words.getD i 0 ||| 2 ^ bitPos (bloomSalt.getD i 0) hash := by
  have hsalt : i < bloomSalt.length := hi
  rw [blockInsert, List.getD_eq_getElem?_getD, List.getElem?_zipWith,
    List.getElem?_eq_getElem hsalt, List.getElem?_eq_getElem (by omega),
    List.getD_eq_getElem _ _ (by omega), List.getD_eq_getElem _ _ hsalt]
  rfl

theorem blockInsert_lt {words : List Nat} (h : ∀ word ∈ words, word < 2 ^ 32) (hash : UInt64) :
    ∀ word ∈ blockInsert words hash, word < 2 ^ 32 := by
  intro word hword
  rw [blockInsert, ← List.map_uncurry_zip_eq_zipWith] at hword
  obtain ⟨sw, hmem, rfl⟩ := List.mem_map.mp hword
  exact Nat.or_lt_two_pow (h _ (List.of_mem_zip hmem).2)
    (Nat.pow_lt_pow_right (by decide) (bitPos_lt _ _))

theorem testBit_or_two_pow (word pos j : Nat) :
    (word ||| 2 ^ pos).testBit j = (word.testBit j || decide (pos = j)) := by
  rw [Nat.testBit_or, Nat.testBit_two_pow]

/-- The check of a block looks at the bits the insert sets. -/
theorem blockCheck_iff {words : List Nat} (h : words.length = 8) (hash : UInt64) :
    blockCheck words hash = true ↔
      ∀ i < 8, (words.getD i 0).testBit (bitPos (bloomSalt.getD i 0) hash) = true := by
  have hand : ∀ word pos : Nat, decide (word &&& 2 ^ pos ≠ 0) = true ↔ word.testBit pos = true := by
    intro word pos
    rw [Nat.and_two_pow, decide_eq_true_iff]
    cases word.testBit pos <;> simp
  rw [blockCheck, List.all_eq_true]
  constructor
  · intro hall i hi
    have hzip : i < (bloomSalt.zip words).length := by
      rw [List.length_zip, h]
      exact hi
    have hi' := (hand _ _).mp (hall _ (List.getElem_mem hzip))
    rw [List.getElem_zip] at hi'
    rwa [List.getD_eq_getElem _ _ (by omega), List.getD_eq_getElem _ _ hi]
  · intro hbits sw hmem
    obtain ⟨i, hi, rfl⟩ := List.getElem_of_mem hmem
    rw [List.length_zip, h] at hi
    have hi8 : i < 8 := hi
    have hbit := hbits i hi8
    rw [List.getD_eq_getElem _ _ (by omega), List.getD_eq_getElem _ _ hi8] at hbit
    rw [List.getElem_zip]
    exact (hand _ _).mpr hbit

/-! ## The filter as a set of bits -/

section Block

variable (f : BloomFilter) {idx : Nat}

theorem block_le (hidx : idx < f.numBlocks) : idx * 32 + 32 ≤ f.data.length := by
  have hmul := f.numBlocks_mul
  have hle : (idx + 1) * bloomFilterBlockSize ≤ f.numBlocks * bloomFilterBlockSize :=
    Nat.mul_le_mul_right _ hidx
  rw [Nat.succ_mul] at hle
  unfold bloomFilterBlockSize at *
  omega

theorem length_block (hidx : idx < f.numBlocks) : (f.block idx).length = 32 := by
  have hle := f.block_le hidx
  rw [block, List.length_take, List.length_drop]
  unfold bloomFilterBlockSize
  omega

/-- The data: what is before a block, the block and what is behind it. -/
theorem data_eq (idx : Nat) : f.data = f.data.take (idx * 32) ++ (f.block idx ++ f.data.drop (idx * 32 + 32)) := by
  rw [← List.drop_drop, block]
  unfold bloomFilterBlockSize
  rw [List.take_append_drop, List.take_append_drop]

/-- A stored block changes the bits of the block. -/
theorem testBit_storeBlock (hidx : idx < f.numBlocks) {words : List Nat} (hwords : words.length = 8)
    (hlt : ∀ word ∈ words, word < 2 ^ 32) (n : Nat) :
    (leNat (f.storeBlock idx words)).testBit n =
      if n / 256 = idx then (words.getD (n % 256 / 32) 0).testBit (n % 32)
      else (leNat f.data).testBit n := by
  have hle := f.block_le hidx
  have htake : (f.data.take (idx * 32)).length = idx * 32 := by
    rw [List.length_take]
    omega
  have hblock := f.length_block hidx
  have hlength := length_wordBytes words
  rw [hwords] at hlength
  have hstore : f.storeBlock idx words = f.data.take (idx * 32) ++
      ((words.map (leBytes 4)).flatten ++ f.data.drop (idx * 32 + 32)) := List.append_assoc ..
  conv_rhs => rw [f.data_eq idx]
  rw [hstore]
  simp only [testBit_leNat_append, htake, hlength, hblock]
  by_cases hin : n / 256 = idx
  · have hbit := testBit_wordBytes hlt (i := n % 256 / 32) (j := n % 32) (Nat.mod_lt _ (by decide))
    rw [if_pos hin, if_neg (by omega), if_pos (by omega), ← hbit]
    congr 1
    omega
  · rw [if_neg hin]
    by_cases hbefore : n < 8 * (idx * 32)
    · rw [if_pos hbefore, if_pos hbefore]
    · rw [if_neg hbefore, if_neg hbefore, if_neg (by omega), if_neg (by omega)]

theorem testBit_block (hidx : idx < f.numBlocks) {i j : Nat} (hi : i < 8) (hj : j < 32) :
    ((blockWords (f.block idx)).getD i 0).testBit j =
      (leNat f.data).testBit (256 * idx + 32 * i + j) := by
  have hle := f.block_le hidx
  have htake : (f.data.take (idx * 32)).length = idx * 32 := by
    rw [List.length_take]
    omega
  have hblock := f.length_block hidx
  rw [testBit_blockWords hi hj]
  conv_rhs => rw [f.data_eq idx]
  simp only [testBit_leNat_append, htake, hblock]
  rw [if_neg (by omega), if_pos (by omega)]
  congr 1
  omega

end Block

/-- **An insert** joins the bits of the hash. -/
theorem bits_insertHash (f : BloomFilter) (hash : UInt64) :
    (f.insertHash hash).bits = f.bits ⊔ hashMask f.numBlocks hash := by
  have hidx := blockIndex_lt hash f.numBlocks_pos
  ext n
  have hstore := f.testBit_storeBlock hidx
    (length_blockInsert (length_blockWords (f.block (blockIndex hash f.numBlocks))) hash)
    (blockInsert_lt blockWords_lt hash) n
  show (leNat (f.storeBlock _ _)).testBit n = true ↔
    (leNat f.data).testBit n = true ∨ (n / 256 = _ ∧ n % 32 = _)
  rw [hstore]
  by_cases hin : n / 256 = blockIndex hash f.numBlocks
  · have hi : n % 256 / 32 < 8 := by omega
    rw [if_pos hin, blockInsert_getD (length_blockWords _) hash hi, testBit_or_two_pow,
      f.testBit_block hidx hi (Nat.mod_lt _ (by decide)), Bool.or_eq_true, decide_eq_true_iff,
      ← hin, show 256 * (n / 256) + 32 * (n % 256 / 32) + n % 32 = n by omega]
    exact or_congr Iff.rfl ⟨fun h => ⟨rfl, h.symm⟩, fun h => h.2.symm⟩
  · rw [if_neg hin]
    exact ⟨.inl, fun h => h.resolve_right fun h => hin h.1⟩

/-- **A check** asks for the bits of the hash. -/
theorem checkHash_iff (f : BloomFilter) (hash : UInt64) :
    f.checkHash hash = true ↔ hashMask f.numBlocks hash ≤ f.bits := by
  have hidx := blockIndex_lt hash f.numBlocks_pos
  rw [checkHash, blockCheck_iff (length_blockWords _)]
  constructor
  · intro hbits n hn
    obtain ⟨hblock, hpos⟩ := hn
    have hi : n % 256 / 32 < 8 := by omega
    have hbit := hbits _ hi
    rw [f.testBit_block hidx hi (bitPos_lt _ _), ← hblock, ← hpos,
      show 256 * (n / 256) + 32 * (n % 256 / 32) + n % 32 = n by omega] at hbit
    exact hbit
  · intro hmask i hi
    have hpos := bitPos_lt (bloomSalt.getD i 0) hash
    rw [f.testBit_block hidx hi hpos]
    refine hmask ⟨by omega, ?_⟩
    rw [show (256 * blockIndex hash f.numBlocks + 32 * i + bitPos (bloomSalt.getD i 0) hash) %
      256 / 32 = i by omega]
    omega

/-- **A merge** joins the bits. -/
theorem bits_merge {dest src f : BloomFilter} (h : dest.merge src = .ok f) :
    f.numBlocks = dest.numBlocks ∧ src.numBlocks = dest.numBlocks ∧
      f.bits = dest.bits ⊔ src.bits := by
  unfold merge at h
  split at h
  · cases h
  · rename_i hsize
    cases h
    have hsame : dest.data.length = src.data.length := Decidable.not_not.mp hsize
    refine ⟨?_, ?_, ?_⟩
    · exact congrArg (· / bloomFilterBlockSize) (length_zipWith_or hsame)
    · exact congrArg (· / bloomFilterBlockSize) hsame.symm
    · ext n
      show (leNat (List.zipWith (· ||| ·) dest.data src.data)).testBit n = true ↔
        (leNat dest.data).testBit n = true ∨ (leNat src.data).testBit n = true
      have hbyte : (List.zipWith (· ||| ·) dest.data src.data).getD (n / 8) 0 =
          dest.data.getD (n / 8) 0 ||| src.data.getD (n / 8) 0 := by
        simp only [List.getD_eq_getElem?_getD, List.getElem?_zipWith]
        by_cases hn : n / 8 < dest.data.length
        · rw [List.getElem?_eq_getElem hn, List.getElem?_eq_getElem (by omega)]
          rfl
        · rw [List.getElem?_eq_none (by omega), List.getElem?_eq_none (by omega)]
          rfl
      rw [testBit_leNat_div, testBit_leNat_div, testBit_leNat_div, hbyte, UInt8.toNat_or,
        Nat.testBit_or, Bool.or_eq_true]

/-- What is written is read back. -/
theorem read_write {f g : BloomFilter} {capacity : Nat} {bytes : Bytes}
    (hwrite : f.write capacity = .ok bytes) (hread : read bytes = .ok g) : g = f := by
  unfold write at hwrite
  split at hwrite
  · cases hwrite
  · cases hwrite
    unfold read fromData at hread
    split at hread
    · cases hread
    · rename_i h
      split at h
      · cases h
      · cases h
        cases hread
        rfl

/-- A buffer of the size of the filter is enough, and what is in it can be read. -/
theorem write_read (f : BloomFilter) :
    f.write f.numBytes = .ok f.data ∧ read f.data = .ok f := by
  obtain ⟨n, hn⟩ := f.whole
  have hpos := f.nonempty
  refine ⟨if_neg (Nat.lt_irrefl _), ?_⟩
  unfold read fromData
  rw [dif_neg (by rw [hn] at hpos ⊢; unfold bloomFilterBlockSize at *; omega)]

/-! ## Over every sequence of operations -/

/-- The filters that the operations come to, each with the values inserted into it and into the
filters merged with it. -/
inductive Inserted : BloomFilter → List BloomValue → Prop
  | create (numBytes : Nat) : Inserted (create numBytes) []
  | fromData {data : Bytes} {f : BloomFilter} (h : fromData data = some f) : Inserted f []
  | insert {f : BloomFilter} {vs : List BloomValue} (v : BloomValue) (h : Inserted f vs) :
      Inserted (f.insert v) (v :: vs)
  | merge {dest src f : BloomFilter} {vs ws : List BloomValue} (hdest : Inserted dest vs)
      (hsrc : Inserted src ws) (h : dest.merge src = .ok f) : Inserted f (vs ++ ws)
  | reread {f g : BloomFilter} {vs : List BloomValue} {capacity : Nat} {bytes : Bytes}
      (h : Inserted f vs) (hwrite : f.write capacity = .ok bytes) (hread : read bytes = .ok g) :
      Inserted g vs

/-- The bits of a value in filters of `numBlocks` blocks. -/
def valueMask (numBlocks : Nat) (v : Value) : Set Nat := hashMask numBlocks (xxhash64 v 0)

theorem numBlocks_insertMemory (f : BloomFilter) (v : Value) :
    (f.insertMemory v).numBlocks = f.numBlocks :=
  congrArg (· / bloomFilterBlockSize) (f.length_storeBlock
    (blockIndex_lt _ f.numBlocks_pos) (length_blockInsert (length_blockWords _) _))

theorem checkMemory_iff (f : BloomFilter) (v : Value) :
    f.checkMemory v = true ↔ MembershipFilter.Reports (valueMask f.numBlocks) f.bits v :=
  f.checkHash_iff _

/-- The filters of the code are membership filters. -/
theorem Inserted.built {f : BloomFilter} {vs : List BloomValue} (h : Inserted f vs) :
    MembershipFilter.Built (valueMask f.numBlocks) f.bits (vs.map BloomValue.memory) := by
  induction h with
  | create numBytes => exact .start _
  | fromData h => exact .start _
  | @insert f vs v h ih =>
    have hblocks := f.numBlocks_insertMemory v.memory
    rw [List.map_cons, show (f.insert v).numBlocks = f.numBlocks from hblocks,
      show (f.insert v).bits = _ from f.bits_insertHash _]
    exact ih.insert _
  | merge hdest hsrc h ihdest ihsrc =>
    obtain ⟨hblocks, hsame, hbits⟩ := bits_merge h
    rw [hsame] at ihsrc
    rw [hblocks, hbits, List.map_append]
    exact ihdest.merge ihsrc
  | reread h hwrite hread ih =>
    rw [read_write hwrite hread]
    exact ih

/-- **No false negatives**: whatever was inserted is reported. -/
theorem Inserted.reports {f : BloomFilter} {vs : List BloomValue} (h : Inserted f vs) :
    ∀ v ∈ vs, f.check v = true := by
  intro v hv
  exact (f.checkMemory_iff _).mpr (h.built.reports _ (List.mem_map_of_mem hv))

end BloomFilter

end Carquet
