import Carquet.Core.XxHashSpec
import Carquet.Lib.SplitBlock
import Carquet.Metadata.BloomFilterSpec

/-!
# Bloom filters of other implementations

`bloom_filter_block_index`, `bloom_filter_block_check` and the checks
(src/metadata/bloom_filter.c:59-95, 243-284) against the format: of the same bits a check answers as
a split block filter does (`checkHash_iff_check`), on the XXH64 hash of the value. So a filter some
other implementation wrote never denies a value it holds (`bloomFilter_asSpecified`).
-/

namespace Carquet

open LittleEndian Chunks

namespace BloomFilter

/-- The words of the filter. -/
def words (f : BloomFilter) : SplitBlock.Filter f.numBlocks := SplitBlock.ofBytes f.numBlocks f.data

theorem blockIndex_eq (hash : UInt64) (n : Nat) :
    blockIndex hash n = SplitBlock.blockOf n hash.toBitVec := by
  have hhash := hash.toNat_lt
  unfold blockIndex SplitBlock.blockOf
  simp only [BitVec.toNat_ushiftRight, BitVec.toNat_mul, BitVec.toNat_ofNat,
    Nat.shiftRight_eq_div_pow, UInt64.toNat_toBitVec, Nat.mul_mod_mod]

theorem bitPos_eq (hash : UInt64) (i : Fin 8) :
    bitPos (bloomSalt.getD i 0) hash = SplitBlock.bit (hash.toBitVec.setWidth 32) i := by
  have hsalt : bloomSalt.getD i 0 = (SplitBlock.salt i).toNat := by
    revert i
    decide
  unfold bitPos SplitBlock.bit
  simp only [hsalt, BitVec.toNat_ushiftRight, BitVec.toNat_mul, BitVec.toNat_setWidth,
    Nat.shiftRight_eq_div_pow, UInt64.toNat_toBitVec, Nat.mul_comm]

/-- A bit of a word, among the bits of the data. -/
theorem getLsbD_words (f : BloomFilter) (b : Fin f.numBlocks) (i : Fin 8) {j : Nat} (hj : j < 32) :
    (f.words b i).getLsbD j = (leNat f.data).testBit (256 * b + 32 * i + j) := by
  have hbyte : ((f.data.drop (32 * b + 4 * i)).take 4).getD (j / 8) 0 =
      f.data.getD ((256 * b + 32 * i + j) / 8) 0 := by
    rw [List.getD_eq_getElem?_getD, List.getD_eq_getElem?_getD,
      List.getElem?_take_of_lt (by omega), List.getElem?_drop,
      show 32 * (b : Nat) + 4 * i + j / 8 = (256 * b + 32 * i + j) / 8 by omega]
  rw [words, SplitBlock.ofBytes, BitVec.getLsbD_ofNat, decide_eq_true hj, Bool.true_and,
    testBit_leNat_div, testBit_leNat_div, hbyte,
    show j % 8 = (256 * (b : Nat) + 32 * i + j) % 8 by omega]

/-- **A check is the check of the format**, of every filter and hash. -/
theorem checkHash_iff_check (f : BloomFilter) (hash : UInt64) :
    f.checkHash hash = true ↔ SplitBlock.Check f.numBlocks_pos f.words hash.toBitVec := by
  have hidx := blockIndex_lt hash f.numBlocks_pos
  have hbit : ∀ i : Fin 8,
      ((blockWords (f.block (blockIndex hash f.numBlocks))).getD i 0).testBit
        (bitPos (bloomSalt.getD i 0) hash) =
      (f.words (SplitBlock.block f.numBlocks_pos hash.toBitVec) i).getLsbD
        (SplitBlock.bit (hash.toBitVec.setWidth 32) i) := by
    intro i
    rw [f.testBit_block hidx i.isLt (bitPos_lt _ _), bitPos_eq,
      f.getLsbD_words _ _ (SplitBlock.bit_lt _ _), blockIndex_eq]
    rfl
  rw [checkHash, blockCheck_iff (length_blockWords _), SplitBlock.check_iff]
  constructor
  · intro h i
    rw [← hbit]
    exact h i i.isLt
  · intro h i hi
    have hword := h ⟨i, hi⟩
    rw [← hbit] at hword
    exact hword

/-- A filter of whole blocks is read with the words it was written with. -/
theorem read_bytes {n : Nat} (hn : 0 < n) (g : SplitBlock.Filter n) :
    ∃ f, read (SplitBlock.bytes g) = .ok f ∧
      ∀ hash : UInt64, f.checkHash hash = true ↔ SplitBlock.Check hn g hash.toBitVec := by
  have hlength := SplitBlock.length_bytes g
  have hwords := SplitBlock.ofBytes_bytes g
  generalize SplitBlock.bytes g = data at hlength hwords
  have hwhole : bloomFilterBlockSize ∣ data.length := ⟨n, hlength⟩
  have hpos : 0 < data.length := by omega
  have hread : read data = .ok ⟨data, hwhole, hpos⟩ := (write_read ⟨data, hwhole, hpos⟩).2
  refine ⟨_, hread, fun hash => ?_⟩
  have hblocks : (⟨data, hwhole, hpos⟩ : BloomFilter).numBlocks = n := by
    show data.length / bloomFilterBlockSize = n
    rw [hlength]
    exact Nat.mul_div_cancel_left n (by decide)
  rw [checkHash_iff_check]
  subst hblocks
  rw [words, hwords]

/-- **The hash and the filters are those of the format.** The hash is XXH64 of every byte string
under every seed; a check answers as the split block filter of the same bits does; a filter that was
written elsewhere, with any values in it, is read and denies none of them. -/
theorem bloomFilter_asSpecified :
    (∀ (data : Bytes) (seed : UInt64),
      (xxhash64 data seed).toBitVec = Xxh64.digest data seed.toBitVec) ∧
    (∀ (f : BloomFilter) (hash : UInt64),
      f.checkHash hash = true ↔ SplitBlock.Check f.numBlocks_pos f.words hash.toBitVec) ∧
    (∀ (f : BloomFilter) (v : BloomValue),
      f.check v = true ↔ SplitBlock.Check f.numBlocks_pos f.words (Xxh64.digest v.memory 0)) ∧
    ∀ (n : Nat) (hn : 0 < n) (start : SplitBlock.Filter n) (values : List BloomValue),
      ∃ f, read (SplitBlock.bytes ((values.map fun v => Xxh64.digest v.memory 0).foldl
        (SplitBlock.insert hn) start)) = .ok f ∧ ∀ v ∈ values, f.check v = true := by
  have hcheck : ∀ (f : BloomFilter) (v : BloomValue),
      f.check v = f.checkHash (xxhash64 v.memory 0) := fun f v => rfl
  refine ⟨toBitVec_xxhash64, checkHash_iff_check, ?_, ?_⟩
  · intro f v
    rw [hcheck, checkHash_iff_check, toBitVec_xxhash64]
    rfl
  · intro n hn start values
    obtain ⟨f, hread, hsame⟩ := read_bytes hn ((values.map fun v => Xxh64.digest v.memory 0).foldl
      (SplitBlock.insert hn) start)
    refine ⟨f, hread, fun v hv => ?_⟩
    rw [hcheck, hsame, toBitVec_xxhash64]
    exact SplitBlock.check_foldl hn start _ _ (List.mem_map_of_mem hv)

end BloomFilter

end Carquet
