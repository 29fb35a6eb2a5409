import Carquet.Core.XxHash
import Carquet.Lib.Xxh64

/-!
# xxHash64 as specified

`carquet_xxhash64` (src/util/xxhash.c:56-118) is XXH64 for every input and seed
(`toBitVec_xxhash64`). Each loop of the code walks a pointer, the specification reads by position:
so each loop has a lemma that says which positions it has read and where it leaves the pointer.
-/

namespace Carquet

open LittleEndian

/-! ## One step -/

theorem toBitVec_prime1 : xxhPrime1.toBitVec = Xxh64.prime1 := rfl
theorem toBitVec_prime2 : xxhPrime2.toBitVec = Xxh64.prime2 := rfl
theorem toBitVec_prime3 : xxhPrime3.toBitVec = Xxh64.prime3 := rfl
theorem toBitVec_prime4 : xxhPrime4.toBitVec = Xxh64.prime4 := rfl
theorem toBitVec_prime5 : xxhPrime5.toBitVec = Xxh64.prime5 := rfl

attribute [local simp] toBitVec_prime1 toBitVec_prime2 toBitVec_prime3 toBitVec_prime4
  toBitVec_prime5

/-- Two shifts make a rotation. -/
theorem toBitVec_xxh64Rotl (x r : UInt64) (hpos : 0 < r.toNat) (hlt : r.toNat < 64) :
    (xxh64Rotl x r).toBitVec = x.toBitVec.rotateLeft r.toNat := by
  have hleft : (r.toBitVec % 64).toNat = r.toNat := by
    simp
    omega
  have hright : ((64 - r).toBitVec % 64).toNat = 64 - r.toNat := by
    simp
    omega
  rw [xxh64Rotl, UInt64.toBitVec_or, UInt64.toBitVec_shiftLeft, UInt64.toBitVec_shiftRight,
    BitVec.rotateLeft_def, Nat.mod_eq_of_lt hlt, BitVec.shiftLeft_eq', BitVec.ushiftRight_eq',
    hleft, hright]

@[simp] theorem toBitVec_xxh64Round (acc input : UInt64) :
    (xxh64Round acc input).toBitVec = Xxh64.round acc.toBitVec input.toBitVec := by
  rw [xxh64Round, UInt64.toBitVec_mul, toBitVec_xxh64Rotl _ 31 (by decide) (by decide)]
  simp [Xxh64.round]

@[simp] theorem toBitVec_xxh64MergeRound (acc val : UInt64) :
    (xxh64MergeRound acc val).toBitVec = Xxh64.mergeAccumulator acc.toBitVec val.toBitVec := by
  simp [xxh64MergeRound, Xxh64.mergeAccumulator]

theorem toBitVec_read64Le (p : Bytes) (pos : Nat) :
    (read64Le (p.drop pos)).toBitVec = Xxh64.wordAt p 8 pos := rfl

theorem toBitVec_read32Le (p : Bytes) (pos : Nat) :
    (read32Le (p.drop pos)).toBitVec = Xxh64.wordAt p 4 pos := rfl

/-! ## The loops -/

/-- The stripes: each lane has taken its own word of every stripe. -/
theorem xxh64Stripes_eq (n : Nat) (v1 v2 v3 v4 : UInt64) (p : Bytes) :
    let lane (v : UInt64) (off : Nat) := UInt64.ofBitVec ((List.range n).foldl
      (fun acc s => Xxh64.round acc (Xxh64.wordAt p 8 (32 * s + off))) v.toBitVec)
    xxh64Stripes n v1 v2 v3 v4 p =
      ((lane v1 0, lane v2 8, lane v3 16, lane v4 24), p.drop (32 * n)) := by
  induction n generalizing v1 v2 v3 v4 p with
  | zero => rfl
  | succ n ih =>
    have hstep : ∀ off s, Xxh64.wordAt (p.drop 32) 8 (32 * s + off) =
        Xxh64.wordAt p 8 (32 * (s + 1) + off) := by
      intro off s
      rw [Xxh64.wordAt_drop]
      congr 1
      omega
    have hlane : ∀ (v : UInt64) (off : Nat),
        (List.range (n + 1)).foldl (fun acc s => Xxh64.round acc (Xxh64.wordAt p 8 (32 * s + off)))
          v.toBitVec =
        (List.range n).foldl
          (fun acc s => Xxh64.round acc (Xxh64.wordAt (p.drop 32) 8 (32 * s + off)))
          (xxh64Round v (read64Le (p.drop off))).toBitVec := by
      intro v off
      rw [Xxh64.foldl_range_succ, toBitVec_xxh64Round, toBitVec_read64Le]
      simp only [hstep, Nat.mul_zero, Nat.zero_add]
    intro lane
    rw [xxh64Stripes, ih, List.drop_drop]
    simp only [lane, hlane, List.drop_zero]
    rw [show 32 + 32 * n = 32 * (n + 1) by omega]

/-- The eight-byte chunks. -/
theorem xxh64Chunks_eq (n : Nat) (h : UInt64) (p : Bytes) :
    xxh64Chunks n h p = (UInt64.ofBitVec ((List.range n).foldl
      (fun h k => Xxh64.mixWord h (Xxh64.wordAt p 8 (8 * k))) h.toBitVec), p.drop (8 * n)) := by
  induction n generalizing h p with
  | zero => rfl
  | succ n ih =>
    have hmix : (xxh64Rotl (h ^^^ xxh64Round 0 (read64Le p)) 27 * xxhPrime1 + xxhPrime4).toBitVec =
        Xxh64.mixWord h.toBitVec (Xxh64.wordAt p 8 0) := by
      rw [UInt64.toBitVec_add, UInt64.toBitVec_mul,
        toBitVec_xxh64Rotl _ 27 (by decide) (by decide)]
      simp [Xxh64.mixWord, ← toBitVec_read64Le]
    have hstep : ∀ k, Xxh64.wordAt (p.drop 8) 8 (8 * k) = Xxh64.wordAt p 8 (8 * (k + 1)) := by
      intro k
      rw [Xxh64.wordAt_drop]
      congr 1
      omega
    rw [xxh64Chunks, ih, List.drop_drop, hmix, Xxh64.foldl_range_succ]
    simp only [hstep, Nat.mul_zero]
    rw [show 8 + 8 * n = 8 * (n + 1) by omega]

/-- The four bytes. -/
theorem xxh64Half_eq (h : UInt64) (p : Bytes) :
    xxh64Half h p =
      if 4 ≤ p.length then
        (UInt64.ofBitVec (Xxh64.mixHalf h.toBitVec (Xxh64.wordAt p 4 0)), p.drop 4)
      else (h, p) := by
  have hmix : (xxh64Rotl (h ^^^ read32Le p * xxhPrime1) 23 * xxhPrime2 + xxhPrime3).toBitVec =
      Xxh64.mixHalf h.toBitVec (Xxh64.wordAt p 4 0) := by
    rw [UInt64.toBitVec_add, UInt64.toBitVec_mul,
      toBitVec_xxh64Rotl _ 23 (by decide) (by decide)]
    simp [Xxh64.mixHalf, ← toBitVec_read32Le]
  rw [xxh64Half, ← hmix]

/-- The last bytes. -/
theorem toBitVec_xxh64Tail (h : UInt64) (p : Bytes) :
    (xxh64Tail h p).toBitVec = (List.range p.length).foldl
      (fun h k => Xxh64.mixByte h (Xxh64.wordAt p 1 k)) h.toBitVec := by
  rw [Xxh64.foldl_bytes, xxh64Tail]
  induction p generalizing h with
  | nil => rfl
  | cons b bs ih =>
    have hbyte : b.toUInt64.toBitVec = BitVec.ofNat 64 b.toNat := by
      apply BitVec.eq_of_toNat_eq
      simp
    rw [List.foldl_cons, List.foldl_cons, ih, UInt64.toBitVec_mul,
      toBitVec_xxh64Rotl _ 11 (by decide) (by decide), UInt64.toBitVec_xor, UInt64.toBitVec_mul,
      hbyte]
    rfl

theorem toBitVec_xxh64Mix (h : UInt64) : (xxh64Mix h).toBitVec = Xxh64.avalanche h.toBitVec := by
  simp [xxh64Mix, Xxh64.avalanche]

/-! ## The hash -/

/-- Steps 1 to 3: the hash of the stripes, and how far they reach. -/
theorem xxh64Start_eq (data : Bytes) (seed : UInt64) :
    (if 32 ≤ data.length then
      let ((v1, v2, v3, v4), p) := xxh64Stripes (data.length / 32) (seed + xxhPrime1 + xxhPrime2)
        (seed + xxhPrime2) seed (seed - xxhPrime1) data
      let h := xxh64Rotl v1 1 + xxh64Rotl v2 7 + xxh64Rotl v3 12 + xxh64Rotl v4 18
      (xxh64MergeRound (xxh64MergeRound (xxh64MergeRound (xxh64MergeRound h v1) v2) v3) v4, p)
    else (seed + xxhPrime5, data)) =
      (UInt64.ofBitVec (Xxh64.start data seed.toBitVec), data.drop (32 * (data.length / 32))) := by
  by_cases hstripe : 32 ≤ data.length
  · rw [if_pos hstripe, xxh64Stripes_eq, Xxh64.start, if_neg (by omega)]
    refine Prod.ext (UInt64.toBitVec_inj.mp ?_) rfl
    simp only [toBitVec_xxh64MergeRound, UInt64.toBitVec_add]
    rw [toBitVec_xxh64Rotl _ 1 (by decide) (by decide),
      toBitVec_xxh64Rotl _ 7 (by decide) (by decide),
      toBitVec_xxh64Rotl _ 12 (by decide) (by decide),
      toBitVec_xxh64Rotl _ 18 (by decide) (by decide)]
    rfl
  · rw [if_neg hstripe, Xxh64.start, if_pos (by omega), Nat.div_eq_of_lt (by omega)]
    rfl

/-- **The hash of the code is XXH64**, of every byte string under every seed. -/
theorem toBitVec_xxhash64 (data : Bytes) (seed : UInt64) :
    (xxhash64 data seed).toBitVec = Xxh64.digest data seed.toBitVec := by
  have hwords : ∀ k, Xxh64.wordAt (data.drop (32 * (data.length / 32))) 8 (8 * k) =
      Xxh64.wordAt data 8 (32 * (data.length / 32) + 8 * k) := fun k => Xxh64.wordAt_drop ..
  have hrest : data.length - 32 * (data.length / 32) = data.length % 32 := by omega
  have hleft : 32 * (data.length / 32) + 8 * (data.length % 32 / 8) = 8 * (data.length / 8) := by
    omega
  rw [xxhash64, xxh64Start_eq]
  simp only [xxh64Chunks_eq, xxh64Half_eq, List.length_drop, List.drop_drop, hrest, hleft, hwords]
  rw [toBitVec_xxh64Mix, toBitVec_xxh64Tail, Xxh64.digest, Xxh64.bytes, Xxh64.half, Xxh64.words]
  refine congrArg Xxh64.avalanche ?_
  by_cases hhalf : 4 ≤ data.length % 8
  · have hhalf' : 4 ≤ data.length - 8 * (data.length / 8) := by omega
    have htail : 8 * (data.length / 8) + 4 = 4 * (data.length / 4) := by omega
    have hcount : data.length - 4 * (data.length / 4) = data.length % 4 := by omega
    rw [if_pos hhalf, if_pos hhalf']
    simp only [List.length_drop, htail, hcount, Xxh64.wordAt_drop]
    rfl
  · have hhalf' : ¬ 4 ≤ data.length - 8 * (data.length / 8) := by omega
    have htail : 8 * (data.length / 8) = 4 * (data.length / 4) := by omega
    have hcount : data.length - 4 * (data.length / 4) = data.length % 4 := by omega
    rw [if_neg hhalf, if_neg hhalf']
    simp only [List.length_drop, htail, hcount, Xxh64.wordAt_drop]
    rfl

end Carquet
