import Carquet.Lib.Chunks
import Carquet.Lib.LittleEndian
import Mathlib.Data.List.FinRange
import Mathlib.Logic.Function.Basic

/-!
# Split block filters

The split block filter as it is specified: blocks of eight 32-bit words, a hash of 64 bits. The upper
half of the hash picks the block, the lower half, by one salt a word, one bit in each of its words. In
memory the words of the blocks stand one after the other, least significant byte first.

What was inserted is found (`check_foldl`), and the words come back from their bytes
(`ofBytes_bytes`).
-/

namespace SplitBlock

open LittleEndian Chunks

abbrev Block := Fin 8 → BitVec 32

abbrev Filter (n : Nat) := Fin n → Block

def salt : Fin 8 → BitVec 32
  | 0 => 0x47b6137b
  | 1 => 0x44974d91
  | 2 => 0x8824ad5b
  | 3 => 0xa2b7289d
  | 4 => 0x705495c7
  | 5 => 0x2df1424b
  | 6 => 0x9efc4947
  | 7 => 0x5c6bfb31

/-- The bit of a word. -/
def bit (x : BitVec 32) (i : Fin 8) : Nat := ((x * salt i) >>> 27).toNat

/-- One bit in each word. -/
def mask (x : BitVec 32) : Block := fun i => BitVec.twoPow 32 (bit x i)

/-- The block of a hash among `n`, in 64-bit arithmetic. -/
def blockOf (n : Nat) (hash : BitVec 64) : Nat := ((hash >>> 32 * BitVec.ofNat 64 n) >>> 32).toNat

theorem blockOf_lt {n : Nat} (hn : 0 < n) (hash : BitVec 64) : blockOf n hash < n := by
  have hhash := hash.isLt
  have htop : hash.toNat / 2 ^ 32 < 2 ^ 32 := by omega
  have hle : hash.toNat / 2 ^ 32 * (n % 2 ^ 64) ≤ hash.toNat / 2 ^ 32 * n :=
    Nat.mul_le_mul_left _ (Nat.mod_le _ _)
  have hlt : hash.toNat / 2 ^ 32 * n < 2 ^ 32 * n := Nat.mul_lt_mul_of_pos_right htop hn
  unfold blockOf
  simp only [BitVec.toNat_ushiftRight, BitVec.toNat_mul, BitVec.toNat_ofNat,
    Nat.shiftRight_eq_div_pow]
  rw [Nat.div_lt_iff_lt_mul (by decide), Nat.mul_comm n]
  exact Nat.lt_of_le_of_lt (Nat.mod_le _ _) (Nat.lt_of_le_of_lt hle hlt)

section Filters

variable {n : Nat} (hn : 0 < n)

def block (hash : BitVec 64) : Fin n := ⟨blockOf n hash, blockOf_lt hn hash⟩

/-- An insert sets the bits of the mask. -/
def insert (f : Filter n) (hash : BitVec 64) : Filter n :=
  Function.update f (block hn hash) fun i => f (block hn hash) i ||| mask (hash.setWidth 32) i

/-- A check fails where a bit of the mask is not set. -/
def Check (f : Filter n) (hash : BitVec 64) : Prop :=
  ∀ i j, (mask (hash.setWidth 32) i).getLsbD j = true →
    (f (block hn hash) i).getLsbD j = true

theorem bit_lt (x : BitVec 32) (i : Fin 8) : bit x i < 32 := by
  have h := (x * salt i).isLt
  rw [bit, BitVec.toNat_ushiftRight, Nat.shiftRight_eq_div_pow]
  omega

theorem check_iff (f : Filter n) (hash : BitVec 64) :
    Check hn f hash ↔ ∀ i, (f (block hn hash) i).getLsbD (bit (hash.setWidth 32) i) = true := by
  constructor
  · intro h i
    refine h i _ ?_
    rw [mask, BitVec.getLsbD_twoPow]
    simp [bit_lt]
  · intro h i j hj
    rw [mask, BitVec.getLsbD_twoPow] at hj
    simp only [Bool.and_eq_true, decide_eq_true_eq] at hj
    rw [← hj.2]
    exact h i

theorem check_insert (f : Filter n) (hash : BitVec 64) : Check hn (insert hn f hash) hash := by
  intro i j hj
  rw [insert, Function.update_self, BitVec.getLsbD_or, hj, Bool.or_true]

/-- What was found still is. -/
theorem Check.insert {f : Filter n} {hash : BitVec 64} (h : Check hn f hash) (other : BitVec 64) :
    Check hn (insert hn f other) hash := by
  intro i j hj
  rw [SplitBlock.insert, Function.update_apply]
  split
  · rename_i heq
    rw [BitVec.getLsbD_or, ← heq, h i j hj, Bool.true_or]
  · exact h i j hj

/-- **What was inserted is found**, whatever the filter held before. -/
theorem check_foldl (f : Filter n) (hashes : List (BitVec 64)) :
    ∀ hash ∈ hashes, Check hn (hashes.foldl (SplitBlock.insert hn) f) hash := by
  have hkeep : ∀ (hashes : List (BitVec 64)) (f : Filter n) (hash : BitVec 64), Check hn f hash →
      Check hn (hashes.foldl (SplitBlock.insert hn) f) hash := by
    intro hashes
    induction hashes with
    | nil => exact fun f hash h => h
    | cons x xs ih => exact fun f hash h => ih _ hash (h.insert hn x)
  induction hashes generalizing f with
  | nil => exact fun hash h => absurd h List.not_mem_nil
  | cons x xs ih =>
    intro hash h
    rcases List.mem_cons.mp h with rfl | h
    · exact hkeep xs _ hash (check_insert hn f hash)
    · exact ih _ hash h

end Filters

/-! ## In memory -/

/-- The words in memory. -/
def ofBytes (n : Nat) (data : List UInt8) : Filter n := fun b i =>
  BitVec.ofNat 32 (leNat ((data.drop (32 * b + 4 * i)).take 4))

def blockBytes (block : Block) : List UInt8 :=
  (List.ofFn fun i => leBytes 4 (block i).toNat).flatten

def bytes {n : Nat} (f : Filter n) : List UInt8 := (List.ofFn fun b => blockBytes (f b)).flatten

theorem length_blockBytes (block : Block) : (blockBytes block).length = 32 := by
  have hwidth : ∀ p ∈ List.ofFn fun i => leBytes 4 (block i).toNat, p.length = 4 := by
    intro p hp
    obtain ⟨i, rfl⟩ := List.mem_ofFn.mp hp
    exact length_leBytes ..
  rw [blockBytes, length_flatten_of_width hwidth, List.length_ofFn]

theorem length_of_mem_blocks {n : Nat} (f : Filter n) :
    ∀ p ∈ List.ofFn fun b => blockBytes (f b), p.length = 32 := by
  intro p hp
  obtain ⟨b, rfl⟩ := List.mem_ofFn.mp hp
  exact length_blockBytes _

theorem length_bytes {n : Nat} (f : Filter n) : (bytes f).length = 32 * n := by
  rw [bytes, length_flatten_of_width (length_of_mem_blocks f), List.length_ofFn, Nat.mul_comm]

/-- The bytes of one word. -/
theorem take_drop_blockBytes (block : Block) (i : Fin 8) :
    ((blockBytes block).drop (4 * i)).take 4 = leBytes 4 (block i).toNat := by
  have hwidth : ∀ p ∈ List.ofFn fun i => leBytes 4 (block i).toNat, p.length = 4 := by
    intro p hp
    obtain ⟨i, rfl⟩ := List.mem_ofFn.mp hp
    exact length_leBytes ..
  have hpiece := take_drop_flatten hwidth (i := i) (by rw [List.length_ofFn]; exact i.isLt)
  rw [List.getElem_ofFn, Nat.mul_comm] at hpiece
  exact hpiece

/-- **The words come back.** -/
theorem ofBytes_bytes {n : Nat} (f : Filter n) : ofBytes n (bytes f) = f := by
  funext b i
  have hpiece := take_drop_flatten (length_of_mem_blocks f) (i := b)
    (by rw [List.length_ofFn]; exact b.isLt)
  rw [List.getElem_ofFn] at hpiece
  have hword : ((bytes f).drop (32 * b + 4 * i)).take 4 = leBytes 4 (f b i).toNat := by
    have hi := i.isLt
    rw [← take_drop_blockBytes (f b) i, ← hpiece, List.drop_take, List.drop_drop, List.take_take,
      Nat.min_eq_left (by omega), Nat.mul_comm 32]
    rfl
  rw [ofBytes, hword, leNat_leBytes_of_lt (f b i).isLt, BitVec.ofNat_toNat, BitVec.setWidth_eq]

end SplitBlock
