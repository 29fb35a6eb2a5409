import Carquet.Lib.LittleEndian

/-!
# The XXH64 hash

XXH64 as it is specified, in 64-bit arithmetic and by the positions of the input, whatever its
length. Whole stripes of 32 bytes feed four accumulators, a word each (steps 1 to 3); what is left is
at most three words, half a word and three bytes (step 5), so what they are depends on the length
modulo 32, 8 and 4 only.
-/

namespace Xxh64

open LittleEndian

def prime1 : BitVec 64 := 11400714785074694791
def prime2 : BitVec 64 := 14029467366897019727
def prime3 : BitVec 64 := 1609587929392839161
def prime4 : BitVec 64 := 9650029242287828579
def prime5 : BitVec 64 := 2870177450012600261

/-- `n` bytes at a position, least significant first. -/
def wordAt (data : List UInt8) (n pos : Nat) : BitVec 64 :=
  BitVec.ofNat 64 (leNat ((data.drop pos).take n))

/-- A word goes into an accumulator. -/
def round (acc word : BitVec 64) : BitVec 64 := (acc + word * prime2).rotateLeft 31 * prime1

/-- An accumulator goes into the hash. -/
def mergeAccumulator (h acc : BitVec 64) : BitVec 64 := (h ^^^ round 0 acc) * prime1 + prime4

/-- Step 1: the four accumulators. -/
def initial (seed : BitVec 64) : Fin 4 → BitVec 64
  | 0 => seed + prime1 + prime2
  | 1 => seed + prime2
  | 2 => seed
  | 3 => seed - prime1

/-- Step 2: an accumulator behind all stripes. -/
def accumulator (data : List UInt8) (seed : BitVec 64) (i : Fin 4) : BitVec 64 :=
  (List.range (data.length / 32)).foldl (fun acc s => round acc (wordAt data 8 (32 * s + 8 * i)))
    (initial seed i)

/-- Step 3: the accumulators become one. -/
def converge (acc : Fin 4 → BitVec 64) : BitVec 64 :=
  (List.finRange 4).foldl (fun h i => mergeAccumulator h (acc i))
    ((acc 0).rotateLeft 1 + (acc 1).rotateLeft 7 + (acc 2).rotateLeft 12 + (acc 3).rotateLeft 18)

/-- What steps 1 to 3 come to; an input of less than a stripe has no accumulators. -/
def start (data : List UInt8) (seed : BitVec 64) : BitVec 64 :=
  if data.length < 32 then seed + prime5 else converge (accumulator data seed)

def mixWord (h word : BitVec 64) : BitVec 64 :=
  (h ^^^ round 0 word).rotateLeft 27 * prime1 + prime4

def mixHalf (h word : BitVec 64) : BitVec 64 :=
  (h ^^^ word * prime1).rotateLeft 23 * prime2 + prime3

def mixByte (h word : BitVec 64) : BitVec 64 := (h ^^^ word * prime5).rotateLeft 11 * prime1

/-- Step 5, the words behind the last stripe. -/
def words (data : List UInt8) (h : BitVec 64) : BitVec 64 :=
  (List.range (data.length % 32 / 8)).foldl
    (fun h k => mixWord h (wordAt data 8 (32 * (data.length / 32) + 8 * k))) h

/-- Step 5, half a word. -/
def half (data : List UInt8) (h : BitVec 64) : BitVec 64 :=
  if 4 ≤ data.length % 8 then mixHalf h (wordAt data 4 (8 * (data.length / 8))) else h

/-- Step 5, the last bytes. -/
def bytes (data : List UInt8) (h : BitVec 64) : BitVec 64 :=
  (List.range (data.length % 4)).foldl
    (fun h k => mixByte h (wordAt data 1 (4 * (data.length / 4) + k))) h

/-- Step 6. -/
def avalanche (h : BitVec 64) : BitVec 64 :=
  let h := (h ^^^ h >>> 33) * prime2
  let h := (h ^^^ h >>> 29) * prime3
  h ^^^ h >>> 32

/-- **The XXH64 hash**; step 4 adds the length. -/
def digest (data : List UInt8) (seed : BitVec 64) : BitVec 64 :=
  avalanche (bytes data (half data (words data
    (start data seed + BitVec.ofNat 64 data.length))))

/-! ## Reading by position -/

theorem wordAt_drop (data : List UInt8) (d n pos : Nat) :
    wordAt (data.drop d) n pos = wordAt data n (d + pos) := by
  rw [wordAt, wordAt, List.drop_drop]

/-- A fold over positions, from the front. -/
theorem foldl_range_succ {α : Type} (f : α → Nat → α) (a : α) (n : Nat) :
    (List.range (n + 1)).foldl f a = (List.range n).foldl (fun a k => f a (k + 1)) (f a 0) := by
  rw [List.range_succ_eq_map, List.foldl_cons, List.foldl_map]

/-- The bytes of a list, read by position. -/
theorem foldl_bytes (f : BitVec 64 → BitVec 64 → BitVec 64) (data : List UInt8) (h : BitVec 64) :
    (List.range data.length).foldl (fun h k => f h (wordAt data 1 k)) h =
      data.foldl (fun h b => f h (BitVec.ofNat 64 b.toNat)) h := by
  induction data generalizing h with
  | nil => rfl
  | cons b bs ih =>
    have hhead : wordAt (b :: bs) 1 0 = BitVec.ofNat 64 b.toNat := by
      simp [wordAt, leNat]
    have htail : ∀ k, wordAt (b :: bs) 1 (k + 1) = wordAt bs 1 k := fun k => rfl
    rw [List.length_cons, foldl_range_succ, List.foldl_cons, hhead]
    simp only [htail]
    exact ih _

end Xxh64
