import Carquet.Core.Bitpack
import Carquet.Lib.Lanes

/-!
# The vector kernels of bit unpacking

`src/simd/`: the kernels that `dispatch.c:909-1138` registers for `carquet_bitunpack8_32` (eight
values a call) and for the wide path of `carquet_bitunpack_32` (16 or 32 values a call), by
instruction set. A kernel is a function of the bytes it loads; `Kernel.Unpacks` says that it gives
what as many scalar groups of eight would (`groupKernels_unpack`, `wideKernels_unpack`).

For the widths 2, 3, 5, 6 and 7 every instruction set shifts and masks one word, as the scalar
functions do.
-/

namespace Carquet

open LittleEndian Lanes

/-! ## SSE (`x86/sse_ops.c:76-281`) -/

/-- One bit for each lane of eight. -/
def bitMask : Bytes := [1, 2, 4, 8, 16, 32, 64, 128]

/-- The lower eight bytes as numbers: interleaved with zeros twice. -/
def sseWidenLow (v : Bytes) : List Nat :=
  let pairs := interleave (v.take 8) (splat 8 0)
  words (interleavePairs (pairs.take 8) (splat 8 0)) ++
    words (interleavePairs (pairs.drop 8) (splat 8 0))

/-- The upper eight bytes as numbers. -/
def sseWidenHigh (v : Bytes) : List Nat := sseWidenLow (v.drop 8)

def sseBitunpack8_1bit (input : Bytes) : List Nat :=
  let bytes := splat 16 (input.getD 0 0)
  let mask := bitMask ++ splat 8 0
  sseWidenLow (both (equal (both bytes mask) mask) (splat 16 1))

def sseBitunpack8_4bit (input : Bytes) : List Nat :=
  let bytes := input ++ splat 12 0
  let lo := both bytes (splat 16 15)
  let hi := both (shiftPairs 4 bytes) (splat 16 15)
  sseWidenLow (interleave (lo.take 8) (hi.take 8))

def sseBitunpack8_8bit (input : Bytes) : List Nat := sseWidenLow (input ++ splat 8 0)

def sseBitunpack8_16bit (input : Bytes) : List Nat :=
  widenPairs (input.take 8) ++ widenPairs (input.drop 8)

/-- Sixteen of the values: two bytes, each in eight lanes. -/
def sseExpand (bytes : Bytes) (places : List Nat) : List Nat :=
  let result := least (both (Lanes.shuffle bytes places) (bitMask ++ bitMask)) (splat 16 1)
  sseWidenLow result ++ sseWidenHigh result

def sseBitunpack32_1bit (input : Bytes) : List Nat :=
  let bytes := input ++ splat 12 0
  sseExpand bytes [0, 0, 0, 0, 0, 0, 0, 0, 1, 1, 1, 1, 1, 1, 1, 1] ++
    sseExpand bytes [2, 2, 2, 2, 2, 2, 2, 2, 3, 3, 3, 3, 3, 3, 3, 3]

/-! ## AVX2 (`x86/avx2_ops.c:68-203`) -/

def avx2Bitunpack8_1bit (input : Bytes) : List Nat :=
  let bytes := splat 16 (input.getD 0 0)
  let mask := bitMask ++ splat 8 0
  widenBytes ((both (equal (both bytes mask) mask) (splat 16 1)).take 8)

def avx2Bitunpack8_4bit (input : Bytes) : List Nat :=
  let bytes := input ++ splat 12 0
  let lo := both bytes (splat 16 15)
  let hi := both (shiftPairs 4 bytes) (splat 16 15)
  widenBytes ((interleave (lo.take 8) (hi.take 8)).take 8)

def avx2Bitunpack16_4bit (input : Bytes) : List Nat :=
  let bytes := input ++ splat 8 0
  let lo := both bytes (splat 16 15)
  let hi := both (shiftPairs 4 bytes) (splat 16 15)
  let interleaved := interleave (lo.take 8) (hi.take 8)
  widenBytes (interleaved.take 8) ++ widenBytes (interleaved.drop 8)

def avx2Bitunpack8_8bit (input : Bytes) : List Nat := widenBytes input

def avx2Bitunpack16_8bit (input : Bytes) : List Nat :=
  widenBytes (input.take 8) ++ widenBytes (input.drop 8)

def avx2Bitunpack8_16bit (input : Bytes) : List Nat := widenPairs input

/-! ## AVX-512 (`x86/avx512_ops.c:87-167`) -/

def avx512Bitunpack8_4bit (input : Bytes) : List Nat :=
  widenBytes (input.flatMap fun byte => [byte &&& 15, byte >>> 4])

def avx512Bitunpack8_8bit (input : Bytes) : List Nat := widenBytes input

def avx512Bitunpack8_16bit (input : Bytes) : List Nat := widenPairs input

def avx512Bitunpack32_4bit (input : Bytes) : List Nat :=
  let lo := both input (splat 16 15)
  let hi := both (shiftPairs 4 input) (splat 16 15)
  widenBytes (interleave (lo.take 8) (hi.take 8)) ++ widenBytes (interleave (lo.drop 8) (hi.drop 8))

def avx512Bitunpack32_8bit (input : Bytes) : List Nat :=
  widenBytes (input.take 16) ++ widenBytes (input.drop 16)

def avx512Bitunpack16_16bit (input : Bytes) : List Nat := widenPairs input

/-! ## NEON (`arm/neon_ops.c:46-289`) -/

def neonBitunpack8_1bit (input : Bytes) : List Nat :=
  widenBytes (both (equal (both (splat 8 (input.getD 0 0)) bitMask) bitMask) (splat 8 1))

/-- The loop over four bytes. -/
def neonBitunpack32_1bit (input : Bytes) : List Nat :=
  (List.range 4).flatMap fun b => neonBitunpack8_1bit [input.getD b 0]

/-- Both halves of `vzip_u8` of the low and the high nibbles. -/
def neonNibbles (input : Bytes) : Bytes :=
  interleave (both input (splat 8 15)) (shiftBytes 4 input)

/-- Four bytes, loaded twice (`vld1_dup_u32`). -/
def neonBitunpack8_4bit (input : Bytes) : List Nat :=
  widenBytes ((neonNibbles (input ++ input)).take 8)

def neonBitunpack16_4bit (input : Bytes) : List Nat :=
  widenBytes ((neonNibbles input).take 8) ++ widenBytes ((neonNibbles input).drop 8)

def neonBitunpack32_4bit (input : Bytes) : List Nat :=
  neonBitunpack16_4bit (input.take 8) ++ neonBitunpack16_4bit (input.drop 8)

def neonBitunpack8_8bit (input : Bytes) : List Nat := widenBytes input

def neonBitunpack16_8bit (input : Bytes) : List Nat :=
  widenBytes (input.take 8) ++ widenBytes (input.drop 8)

def neonBitunpack8_16bit (input : Bytes) : List Nat := widenPairs input

def neonBitunpack16_16bit (input : Bytes) : List Nat :=
  widenPairs (input.take 16) ++ widenPairs (input.drop 16)

/-! ## SVE (`arm/sve_ops.c:36-69, 778-839`) and WebAssembly (`wasm/wasm128_ops.c:6-39`) -/

def sveBitunpack8_1bit (input : Bytes) : List Nat :=
  (List.range 8).map fun i => (input.getD 0 0).toNat >>> i % 2

/-- Whatever the number of lanes, the loop widens byte after byte. -/
def sveBitunpack8_8bit (input : Bytes) : List Nat := widenBytes input

def sveBitunpack8_16bit (input : Bytes) : List Nat := widenPairs input

def wasm128Bitunpack8_4bit (input : Bytes) : List Nat :=
  let packed := input ++ splat 12 0
  let low := both packed (splat 16 15)
  let high := both (shiftBytes 4 packed) (splat 16 15)
  widenBytes ((interleave (low.take 4) (high.take 4)))

def wasm128Bitunpack8_8bit (input : Bytes) : List Nat := widenBytes ((input ++ splat 8 0).take 8)

/-! ## The tables -/

/-- A kernel: how many values a call gives, the bytes it loads, and what it makes of them. -/
structure Kernel where
  vals : Nat
  load : Nat
  run : Bytes → List Nat

/-- What `dispatch.c` may register as `bitunpack8_u32[bit_width]`. -/
def groupKernels : Nat → List Kernel
  | 1 => [⟨8, 1, sseBitunpack8_1bit⟩, ⟨8, 1, avx2Bitunpack8_1bit⟩, ⟨8, 1, neonBitunpack8_1bit⟩,
      ⟨8, 1, sveBitunpack8_1bit⟩]
  | 2 => [⟨8, 2, bitunpack8Word 2⟩]
  | 3 => [⟨8, 3, bitunpack8Word 3⟩]
  | 4 => [⟨8, 4, sseBitunpack8_4bit⟩, ⟨8, 4, avx2Bitunpack8_4bit⟩, ⟨8, 4, avx512Bitunpack8_4bit⟩,
      ⟨8, 4, neonBitunpack8_4bit⟩, ⟨8, 4, bitunpack8Word 4⟩, ⟨8, 4, wasm128Bitunpack8_4bit⟩]
  | 5 => [⟨8, 5, bitunpack8Word 5⟩]
  | 6 => [⟨8, 6, bitunpack8Word 6⟩]
  | 7 => [⟨8, 7, bitunpack8Word 7⟩]
  | 8 => [⟨8, 8, sseBitunpack8_8bit⟩, ⟨8, 8, avx2Bitunpack8_8bit⟩, ⟨8, 8, avx512Bitunpack8_8bit⟩,
      ⟨8, 8, neonBitunpack8_8bit⟩, ⟨8, 8, sveBitunpack8_8bit⟩, ⟨8, 8, wasm128Bitunpack8_8bit⟩]
  | 16 => [⟨8, 16, sseBitunpack8_16bit⟩, ⟨8, 16, avx2Bitunpack8_16bit⟩,
      ⟨8, 16, avx512Bitunpack8_16bit⟩, ⟨8, 16, neonBitunpack8_16bit⟩, ⟨8, 16, sveBitunpack8_16bit⟩]
  | _ => []

/-- What it may register as `bitunpack_wide_fn[bit_width]`, with `bitunpack_wide_vals`. -/
def wideKernels : Nat → List Kernel
  | 1 => [⟨32, 4, sseBitunpack32_1bit⟩, ⟨32, 4, neonBitunpack32_1bit⟩]
  | 4 => [⟨16, 8, avx2Bitunpack16_4bit⟩, ⟨32, 16, avx512Bitunpack32_4bit⟩,
      ⟨32, 16, neonBitunpack32_4bit⟩]
  | 8 => [⟨16, 16, avx2Bitunpack16_8bit⟩, ⟨32, 32, avx512Bitunpack32_8bit⟩,
      ⟨16, 16, neonBitunpack16_8bit⟩]
  | 16 => [⟨16, 32, avx512Bitunpack16_16bit⟩, ⟨16, 32, neonBitunpack16_16bit⟩]
  | _ => []

/-- The kernel loads whole groups of width `w` and unpacks them as the scalar function does. -/
structure Kernel.Unpacks (k : Kernel) (w : Nat) : Prop where
  vals_pos : 0 < k.vals
  vals_mod : k.vals % 8 = 0
  load_eq : k.load = k.vals / 8 * w
  run_eq : ∀ bytes : Bytes, bytes.length = k.load → k.run bytes = bitunpackGroups w (k.vals / 8) bytes

/-! ## Groups of some widths -/

theorem bitunpack8_take (w : Nat) (bytes : Bytes) (h : w ≤ bytes.length) :
    bitunpack8 w (bytes.take w) = bitunpack8 w bytes := by
  conv_rhs => rw [← List.take_append_drop w bytes]
  rw [bitunpack8_append _ _ (by rw [List.length_take, Nat.min_eq_left h])]

/-- A reading of whole bytes that agrees on one group, and goes group by group, agrees on all. -/
theorem bitunpackGroups_of_read {w : Nat} (read : Bytes → List Nat) (hnil : read [] = [])
    (hgroup : ∀ group : Bytes, group.length = w → bitunpack8 w group = read group)
    (happend : ∀ group rest : Bytes, group.length = w → read (group ++ rest) = read group ++ read rest)
    {n : Nat} {bytes : Bytes} (h : bytes.length = n * w) : bitunpackGroups w n bytes = read bytes := by
  induction n generalizing bytes with
  | zero =>
    obtain rfl : bytes = [] := List.length_eq_zero_iff.mp (by omega)
    rw [bitunpackGroups, hnil]
  | succ n ih =>
    rw [Nat.succ_mul] at h
    have hgroup' : (bytes.take w).length = w := by rw [List.length_take]; omega
    have hrest := @ih (bytes.drop w) (by rw [List.length_drop]; omega)
    conv_rhs => rw [← List.take_append_drop w bytes]
    rw [bitunpackGroups, happend _ _ hgroup', ← hgroup _ hgroup', hrest,
      bitunpack8_take w bytes (by omega)]

/-- The digits of the number to the base of a byte. -/
theorem widenBytes_eq (bytes : Bytes) :
    widenBytes bytes = (List.range bytes.length).map fun i => leNat bytes >>> (i * 8) % 2 ^ 8 := by
  induction bytes with
  | nil => rfl
  | cons b bytes ih =>
    have hb := b.toNat_lt
    rw [widenBytes, List.map_cons, ← widenBytes, ih, List.length_cons, List.range_succ_eq_map,
      List.map_cons, List.map_map]
    congr 1
    · rw [leNat, Nat.zero_mul, Nat.shiftRight_zero]
      omega
    · apply List.map_congr_left
      intro i _
      rw [Function.comp_apply, leNat, show i.succ * 8 = 8 + i * 8 by omega, Nat.shiftRight_add,
        Nat.shiftRight_eq_div_pow (b.toNat + _), show (b.toNat + 256 * leNat bytes) / 2 ^ 8 =
          leNat bytes by omega]

/-- The digits to the base of two bytes. -/
theorem widenPairs_eq {n : Nat} {bytes : Bytes} (h : bytes.length = 2 * n) :
    widenPairs bytes = (List.range n).map fun i => leNat bytes >>> (i * 16) % 2 ^ 16 := by
  induction n generalizing bytes with
  | zero =>
    obtain rfl : bytes = [] := List.length_eq_zero_iff.mp h
    rfl
  | succ n ih =>
    match bytes, h with
    | lo :: hi :: bytes, h =>
      have hlo := lo.toNat_lt
      have hhi := hi.toNat_lt
      rw [widenPairs, ih (by rw [List.length_cons, List.length_cons] at h; omega),
        List.range_succ_eq_map, List.map_cons, List.map_map]
      congr 1
      · rw [leNat, leNat, Nat.zero_mul, Nat.shiftRight_zero]
        omega
      · apply List.map_congr_left
        intro i _
        rw [Function.comp_apply, leNat, leNat, show i.succ * 16 = 16 + i * 16 by omega,
          Nat.shiftRight_add, Nat.shiftRight_eq_div_pow (lo.toNat + _),
          show (lo.toNat + 256 * (hi.toNat + 256 * leNat bytes)) / 2 ^ 16 = leNat bytes by omega]

theorem widenPairs_append {a : Bytes} (h : a.length % 2 = 0) (b : Bytes) :
    widenPairs (a ++ b) = widenPairs a ++ widenPairs b := by
  induction a using widenPairs.induct with
  | case1 lo hi rest ih =>
    rw [List.cons_append, List.cons_append, widenPairs, widenPairs,
      ih (by rw [List.length_cons, List.length_cons] at h; omega)]
    rfl
  | case2 rest hrest =>
    match rest, hrest, h with
    | [], _, _ => rfl
    | [_], _, h => simp at h
    | x :: y :: rest, hrest, _ => exact absurd rfl (hrest x y rest)

/-- Low and high nibbles, byte after byte. -/
def nibbles (input : Bytes) : Bytes := input.flatMap fun byte => [byte &&& 15, byte >>> 4]

theorem length_nibbles (input : Bytes) : (nibbles input).length = 2 * input.length := by
  induction input with
  | nil => rfl
  | cons b input ih =>
    rw [nibbles, List.flatMap_cons, ← nibbles, List.length_append, ih]
    simp
    omega

theorem nibbles_append (a b : Bytes) : nibbles (a ++ b) = nibbles a ++ nibbles b :=
  List.flatMap_append

theorem bitunpackGroups_1 {n : Nat} {bytes : Bytes} (h : bytes.length = n * 1) :
    bitunpackGroups 1 n bytes = bytes.flatMap fun b => bitunpack8 1 [b] := by
  refine bitunpackGroups_of_read (fun bytes => bytes.flatMap fun b => bitunpack8 1 [b]) rfl ?_ ?_ h
  · intro group hgroup
    obtain ⟨b, rfl⟩ := List.length_eq_one_iff.mp hgroup
    simp
  · intro group rest _
    exact List.flatMap_append

theorem bitunpackGroups_4 {n : Nat} {bytes : Bytes} (h : bytes.length = n * 4) :
    bitunpackGroups 4 n bytes = widenBytes (nibbles bytes) := by
  refine bitunpackGroups_of_read (fun bytes => widenBytes (nibbles bytes)) rfl ?_ ?_ h
  · intro group hgroup
    match group, hgroup with
    | [a, b, c, d], _ =>
      have ha := a.toNat_lt
      have hb := b.toNat_lt
      have hc := c.toNat_lt
      have hd := d.toNat_lt
      have h4 : ∀ x : UInt8, (x >>> 4).toNat = x.toNat / 16 := fun x => by
        rw [UInt8.toNat_shiftRight, Nat.shiftRight_eq_div_pow]
        rfl
      rw [bitunpack8_eq]
      simp only [List.range_succ, List.range_zero, List.nil_append, List.map_cons,
        List.map_nil, List.cons_append, nibbles, List.flatMap_cons, List.flatMap_nil, widenBytes,
        toNat_and_15, h4, leNat, Nat.shiftRight_eq_div_pow, List.cons.injEq, and_true]
      omega
  · intro group rest _
    rw [nibbles_append, widenBytes_append]

theorem bitunpackGroups_8 {n : Nat} {bytes : Bytes} (h : bytes.length = n * 8) :
    bitunpackGroups 8 n bytes = widenBytes bytes := by
  refine bitunpackGroups_of_read _ rfl ?_ (fun _ _ _ => widenBytes_append _ _) h
  intro group hgroup
  rw [bitunpack8_eq, widenBytes_eq, hgroup]

theorem bitunpackGroups_16 {n : Nat} {bytes : Bytes} (h : bytes.length = n * 16) :
    bitunpackGroups 16 n bytes = widenPairs bytes := by
  refine bitunpackGroups_of_read _ rfl ?_ (fun group _ hg => widenPairs_append (by omega) _) h
  intro group hgroup
  rw [bitunpack8_eq, @widenPairs_eq 8 group hgroup]

/-! ## The kernels agree -/

/-- Every byte, as a group of eight bits. -/
theorem oneBit_bytes : ∀ b : Fin 256,
    sseBitunpack8_1bit [UInt8.ofNat b] = bitunpack8 1 [UInt8.ofNat b] ∧
      avx2Bitunpack8_1bit [UInt8.ofNat b] = bitunpack8 1 [UInt8.ofNat b] ∧
      neonBitunpack8_1bit [UInt8.ofNat b] = bitunpack8 1 [UInt8.ofNat b] ∧
      sveBitunpack8_1bit [UInt8.ofNat b] = bitunpack8 1 [UInt8.ofNat b] ∧
      widenBytes (least (both (splat 8 (UInt8.ofNat b)) bitMask) (splat 8 1)) =
        bitunpack8 1 [UInt8.ofNat b] := by
  decide +kernel

theorem oneBit_byte (b : UInt8) :
    sseBitunpack8_1bit [b] = bitunpack8 1 [b] ∧ avx2Bitunpack8_1bit [b] = bitunpack8 1 [b] ∧
      neonBitunpack8_1bit [b] = bitunpack8 1 [b] ∧ sveBitunpack8_1bit [b] = bitunpack8 1 [b] ∧
      widenBytes (least (both (splat 8 b) bitMask) (splat 8 1)) = bitunpack8 1 [b] := by
  have h := oneBit_bytes ⟨b.toNat, b.toNat_lt⟩
  simpa using h

theorem sseWidenLow_eq {v : Bytes} (h : 8 ≤ v.length) : sseWidenLow v = widenBytes (v.take 8) := by
  have hlen : (v.take 8).length = 8 := by rw [List.length_take, Nat.min_eq_left h]
  unfold sseWidenLow
  generalize v.take 8 = x at hlen ⊢
  match x, hlen with
  | [a, b, c, d, e, f, g, i], _ =>
    simp [interleave, splat, interleavePairs, words, leNat, widenBytes, List.replicate]

theorem sseWidenHigh_eq {v : Bytes} (h : v.length = 16) : sseWidenHigh v = widenBytes (v.drop 8) := by
  rw [sseWidenHigh, sseWidenLow_eq (by rw [List.length_drop]; omega),
    List.take_of_length_le (by rw [List.length_drop]; omega)]

/-- The nibbles of the first bytes of a register. -/
theorem interleave_nibbles {v : Bytes} {m : Nat} (hm : v.length = m) (heven : m % 2 = 0) (n : Nat) :
    interleave ((both v (splat m 15)).take n) ((both (shiftPairs 4 v) (splat m 15)).take n) =
      nibbles (v.take n) := by
  subst hm
  rw [both_splat, both_shiftPairs heven, shiftBytes, ← List.map_take, ← List.map_take,
    interleave_map]
  rfl

theorem interleave_nibbles_drop {v : Bytes} {m : Nat} (hm : v.length = m) (heven : m % 2 = 0)
    (n : Nat) :
    interleave ((both v (splat m 15)).drop n) ((both (shiftPairs 4 v) (splat m 15)).drop n) =
      nibbles (v.drop n) := by
  subst hm
  rw [both_splat, both_shiftPairs heven, shiftBytes, ← List.map_drop, ← List.map_drop,
    interleave_map]
  rfl

/-- What fills a register up behind the input falls away again. -/
theorem nibbles_take {input more : Bytes} {n : Nat} (h : 2 * input.length = n) :
    (nibbles (input ++ more)).take n = nibbles input := by
  rw [nibbles_append, List.take_left' (by rw [length_nibbles, h])]

theorem unpacks_group {w : Nat} {run : Bytes → List Nat}
    (h : ∀ bytes : Bytes, bytes.length = w → run bytes = bitunpackGroups w 1 bytes) :
    Kernel.Unpacks ⟨8, w, run⟩ w where
  vals_pos := Nat.zero_lt_succ 7
  vals_mod := by simp
  load_eq := by simp
  run_eq bytes hlen := by simpa using h bytes hlen

theorem unpacks_wide {w n : Nat} {run read : Bytes → List Nat} (hn : 0 < n)
    (hread : ∀ {bytes : Bytes}, bytes.length = n * w → bitunpackGroups w n bytes = read bytes)
    (h : ∀ bytes : Bytes, bytes.length = n * w → run bytes = read bytes) :
    Kernel.Unpacks ⟨8 * n, n * w, run⟩ w where
  vals_pos := by dsimp only; omega
  vals_mod := by dsimp only; omega
  load_eq := by dsimp only; rw [Nat.mul_div_cancel_left n (by decide)]
  run_eq bytes hlen := by
    dsimp only at hlen ⊢
    rw [Nat.mul_div_cancel_left n (by decide), h bytes hlen, hread hlen]

theorem bitunpackGroups_one (w : Nat) (bytes : Bytes) :
    bitunpackGroups w 1 bytes = bitunpack8 w bytes := by
  rw [bitunpackGroups, bitunpackGroups, List.append_nil]

theorem unpacks_word {w : Nat} (h0 : w ≠ 0) (h8 : w ≤ 8) : Kernel.Unpacks ⟨8, w, bitunpack8Word w⟩ w := by
  refine unpacks_group fun bytes _ => ?_
  rw [bitunpackGroups_one, bitunpack8, if_neg h0, if_pos h8]

theorem unpacks_oneBit {run : Bytes → List Nat} (h : ∀ b : UInt8, run [b] = bitunpack8 1 [b]) :
    Kernel.Unpacks ⟨8, 1, run⟩ 1 := by
  refine unpacks_group fun bytes hlen => ?_
  obtain ⟨b, rfl⟩ := List.length_eq_one_iff.mp hlen
  rw [bitunpackGroups_one, h]

theorem unpacks_fourBits {run : Bytes → List Nat}
    (h : ∀ bytes : Bytes, bytes.length = 4 → run bytes = widenBytes (nibbles bytes)) :
    Kernel.Unpacks ⟨8, 4, run⟩ 4 :=
  unpacks_group fun bytes hlen => by rw [h bytes hlen, bitunpackGroups_4 (by omega)]

theorem unpacks_bytes {run : Bytes → List Nat}
    (h : ∀ bytes : Bytes, bytes.length = 8 → run bytes = widenBytes bytes) :
    Kernel.Unpacks ⟨8, 8, run⟩ 8 :=
  unpacks_group fun bytes hlen => by rw [h bytes hlen, bitunpackGroups_8 (by omega)]

theorem unpacks_pairs {run : Bytes → List Nat}
    (h : ∀ bytes : Bytes, bytes.length = 16 → run bytes = widenPairs bytes) :
    Kernel.Unpacks ⟨8, 16, run⟩ 16 :=
  unpacks_group fun bytes hlen => by rw [h bytes hlen, bitunpackGroups_16 (by omega)]

theorem sseBitunpack8_4bit_eq {input : Bytes} (h : input.length = 4) :
    sseBitunpack8_4bit input = widenBytes (nibbles input) := by
  have hlen : (input ++ splat 12 0).length = 16 := by simp [h, splat]
  have htake : (input ++ splat 12 0).take 8 = input ++ splat 4 0 := by
    rw [List.take_append, h, List.take_of_length_le (by omega)]
    rfl
  unfold sseBitunpack8_4bit
  dsimp only
  rw [interleave_nibbles hlen (by decide), htake, sseWidenLow_eq (by
    rw [length_nibbles, List.length_append, h]; simp [splat]), nibbles_take (by omega)]

theorem avx2Bitunpack8_4bit_eq {input : Bytes} (h : input.length = 4) :
    avx2Bitunpack8_4bit input = widenBytes (nibbles input) := by
  have hlen : (input ++ splat 12 0).length = 16 := by simp [h, splat]
  have htake : (input ++ splat 12 0).take 8 = input ++ splat 4 0 := by
    rw [List.take_append, h, List.take_of_length_le (by omega)]
    rfl
  unfold avx2Bitunpack8_4bit
  dsimp only
  rw [interleave_nibbles hlen (by decide), htake, nibbles_take (by omega)]

theorem neonNibbles_eq {input : Bytes} (h : input.length = 8) : neonNibbles input = nibbles input := by
  rw [neonNibbles, ← h, both_splat, shiftBytes, interleave_map]
  rfl

theorem neonBitunpack8_4bit_eq {input : Bytes} (h : input.length = 4) :
    neonBitunpack8_4bit input = widenBytes (nibbles input) := by
  rw [neonBitunpack8_4bit, neonNibbles_eq (by rw [List.length_append]; omega),
    nibbles_take (by omega)]

theorem neonBitunpack16_4bit_eq {input : Bytes} (h : input.length = 8) :
    neonBitunpack16_4bit input = widenBytes (nibbles input) := by
  rw [neonBitunpack16_4bit, neonNibbles_eq h, ← widenBytes_append, List.take_append_drop]

theorem shiftRight_and_15 (x : UInt8) : (x >>> (4 : UInt8)) &&& 15 = x >>> (4 : UInt8) := by
  apply UInt8.toNat_inj.mp
  have := x.toNat_lt
  rw [toNat_and_15, UInt8.toNat_shiftRight, Nat.shiftRight_eq_div_pow,
    show (4 : UInt8).toNat % 8 = 4 from rfl]
  omega

theorem wasm128Bitunpack8_4bit_eq {input : Bytes} (h : input.length = 4) :
    wasm128Bitunpack8_4bit input = widenBytes (nibbles input) := by
  have hlen : (input ++ splat 12 0).length = 16 := by simp [h, splat]
  have hlow : both (input ++ splat 12 0) (splat 16 15) = (input ++ splat 12 0).map (· &&& 15) := by
    rw [← hlen, both_splat]
  have hhigh : both (shiftBytes 4 (input ++ splat 12 0)) (splat 16 15) =
      shiftBytes 4 (input ++ splat 12 0) := by
    have hshift : (shiftBytes 4 (input ++ splat 12 0)).length = 16 := by rw [shiftBytes, List.length_map, hlen]
    rw [← hshift, both_splat, shiftBytes, List.map_map]
    exact List.map_congr_left fun x _ => shiftRight_and_15 x
  unfold wasm128Bitunpack8_4bit
  dsimp only
  rw [hlow, hhigh, shiftBytes, ← List.map_take, ← List.map_take, List.take_left' h, interleave_map]
  rfl

theorem sseExpand_eq (a b : UInt8) {bytes : Bytes} {places : List Nat}
    (h : Lanes.shuffle bytes places = splat 8 a ++ splat 8 b) :
    sseExpand bytes places = bitunpack8 1 [a] ++ bitunpack8 1 [b] := by
  have hlen : ∀ x : UInt8, (least (both (splat 8 x) bitMask) (splat 8 1)).length = 8 := fun x => by
    simp [least, both, splat, bitMask]
  have hsplit : least (both (splat 8 a ++ splat 8 b) (bitMask ++ bitMask)) (splat 16 1) =
      least (both (splat 8 a) bitMask) (splat 8 1) ++ least (both (splat 8 b) bitMask) (splat 8 1) :=
    rfl
  unfold sseExpand
  dsimp only
  rw [h, hsplit, sseWidenLow_eq (by rw [List.length_append, hlen, hlen]; decide),
    sseWidenHigh_eq (by rw [List.length_append, hlen, hlen]), List.take_left' (hlen a),
    List.drop_left' (hlen a), (oneBit_byte a).2.2.2.2, (oneBit_byte b).2.2.2.2]

theorem sseBitunpack32_1bit_eq {input : Bytes} (h : input.length = 4) :
    sseBitunpack32_1bit input = input.flatMap fun b => bitunpack8 1 [b] := by
  match input, h with
  | [a, b, c, d], _ =>
    unfold sseBitunpack32_1bit
    dsimp only
    rw [sseExpand_eq a b rfl, sseExpand_eq c d rfl]
    simp

theorem neonBitunpack32_1bit_eq {input : Bytes} (h : input.length = 4) :
    neonBitunpack32_1bit input = input.flatMap fun b => bitunpack8 1 [b] := by
  match input, h with
  | [a, b, c, d], _ =>
    have hbyte := fun x => (oneBit_byte x).2.2.1
    simp [neonBitunpack32_1bit, List.range_succ, hbyte]

/-- Every kernel for a group of eight unpacks it. -/
theorem groupKernels_unpack {w : Nat} {k : Kernel} (h : k ∈ groupKernels w) :
    k.vals = 8 ∧ k.Unpacks w := by
  unfold groupKernels at h
  split at h
  · simp only [List.mem_cons, List.not_mem_nil, or_false] at h
    rcases h with rfl | rfl | rfl | rfl
    · exact ⟨rfl, unpacks_oneBit fun b => (oneBit_byte b).1⟩
    · exact ⟨rfl, unpacks_oneBit fun b => (oneBit_byte b).2.1⟩
    · exact ⟨rfl, unpacks_oneBit fun b => (oneBit_byte b).2.2.1⟩
    · exact ⟨rfl, unpacks_oneBit fun b => (oneBit_byte b).2.2.2.1⟩
  · obtain rfl := List.mem_singleton.mp h
    exact ⟨rfl, unpacks_word (by decide) (by decide)⟩
  · obtain rfl := List.mem_singleton.mp h
    exact ⟨rfl, unpacks_word (by decide) (by decide)⟩
  · simp only [List.mem_cons, List.not_mem_nil, or_false] at h
    rcases h with rfl | rfl | rfl | rfl | rfl | rfl
    · exact ⟨rfl, unpacks_fourBits fun _ => sseBitunpack8_4bit_eq⟩
    · exact ⟨rfl, unpacks_fourBits fun _ => avx2Bitunpack8_4bit_eq⟩
    · exact ⟨rfl, unpacks_fourBits fun _ _ => rfl⟩
    · exact ⟨rfl, unpacks_fourBits fun _ => neonBitunpack8_4bit_eq⟩
    · exact ⟨rfl, unpacks_word (by decide) (by decide)⟩
    · exact ⟨rfl, unpacks_fourBits fun _ => wasm128Bitunpack8_4bit_eq⟩
  · obtain rfl := List.mem_singleton.mp h
    exact ⟨rfl, unpacks_word (by decide) (by decide)⟩
  · obtain rfl := List.mem_singleton.mp h
    exact ⟨rfl, unpacks_word (by decide) (by decide)⟩
  · obtain rfl := List.mem_singleton.mp h
    exact ⟨rfl, unpacks_word (by decide) (by decide)⟩
  · simp only [List.mem_cons, List.not_mem_nil, or_false] at h
    rcases h with rfl | rfl | rfl | rfl | rfl | rfl
    · refine ⟨rfl, unpacks_bytes fun bytes hlen => ?_⟩
      rw [sseBitunpack8_8bit, sseWidenLow_eq (by rw [List.length_append]; omega),
        List.take_left' hlen]
    · exact ⟨rfl, unpacks_bytes fun _ _ => rfl⟩
    · exact ⟨rfl, unpacks_bytes fun _ _ => rfl⟩
    · exact ⟨rfl, unpacks_bytes fun _ _ => rfl⟩
    · exact ⟨rfl, unpacks_bytes fun _ _ => rfl⟩
    · refine ⟨rfl, unpacks_bytes fun bytes hlen => ?_⟩
      rw [wasm128Bitunpack8_8bit, List.take_left' hlen]
  · simp only [List.mem_cons, List.not_mem_nil, or_false] at h
    rcases h with rfl | rfl | rfl | rfl | rfl
    · refine ⟨rfl, unpacks_pairs fun bytes hlen => ?_⟩
      rw [sseBitunpack8_16bit, ← widenPairs_append (by rw [List.length_take, hlen]; rfl),
        List.take_append_drop]
    · exact ⟨rfl, unpacks_pairs fun _ _ => rfl⟩
    · exact ⟨rfl, unpacks_pairs fun _ _ => rfl⟩
    · exact ⟨rfl, unpacks_pairs fun _ _ => rfl⟩
    · exact ⟨rfl, unpacks_pairs fun _ _ => rfl⟩
  · exact absurd h List.not_mem_nil

/-- Every wide kernel unpacks as many groups as it gives values for. -/
theorem wideKernels_unpack {w : Nat} {k : Kernel} (h : k ∈ wideKernels w) : k.Unpacks w := by
  unfold wideKernels at h
  split at h
  · simp only [List.mem_cons, List.not_mem_nil, or_false] at h
    rcases h with rfl | rfl
    · exact @unpacks_wide 1 4 _ _ (by decide) bitunpackGroups_1 fun _ => sseBitunpack32_1bit_eq
    · exact @unpacks_wide 1 4 _ _ (by decide) bitunpackGroups_1 fun _ => neonBitunpack32_1bit_eq
  · simp only [List.mem_cons, List.not_mem_nil, or_false] at h
    rcases h with rfl | rfl | rfl
    · refine @unpacks_wide 4 2 _ _ (by decide) bitunpackGroups_4 fun bytes hlen => ?_
      have hreg : (bytes ++ splat 8 0).length = 16 := by rw [List.length_append, hlen]; rfl
      rw [avx2Bitunpack16_4bit, interleave_nibbles hreg (by decide), List.take_left' hlen, ← widenBytes_append,
        List.take_append_drop]
    · refine @unpacks_wide 4 4 _ _ (by decide) bitunpackGroups_4 fun bytes hlen => ?_
      rw [avx512Bitunpack32_4bit, interleave_nibbles hlen (by decide),
        interleave_nibbles_drop hlen (by decide), ← widenBytes_append, ← nibbles_append,
        List.take_append_drop]
    · refine @unpacks_wide 4 4 _ _ (by decide) bitunpackGroups_4 fun bytes hlen => ?_
      rw [neonBitunpack32_4bit, neonBitunpack16_4bit_eq (by rw [List.length_take, hlen]; rfl),
        neonBitunpack16_4bit_eq (by rw [List.length_drop, hlen]), ← widenBytes_append,
        ← nibbles_append, List.take_append_drop]
  · simp only [List.mem_cons, List.not_mem_nil, or_false] at h
    rcases h with rfl | rfl | rfl
    · refine @unpacks_wide 8 2 _ _ (by decide) bitunpackGroups_8 fun bytes _ => ?_
      rw [avx2Bitunpack16_8bit, ← widenBytes_append, List.take_append_drop]
    · refine @unpacks_wide 8 4 _ _ (by decide) bitunpackGroups_8 fun bytes _ => ?_
      rw [avx512Bitunpack32_8bit, ← widenBytes_append, List.take_append_drop]
    · refine @unpacks_wide 8 2 _ _ (by decide) bitunpackGroups_8 fun bytes _ => ?_
      rw [neonBitunpack16_8bit, ← widenBytes_append, List.take_append_drop]
  · simp only [List.mem_cons, List.not_mem_nil, or_false] at h
    rcases h with rfl | rfl
    · exact @unpacks_wide 16 2 _ _ (by decide) bitunpackGroups_16 fun _ _ => rfl
    · refine @unpacks_wide 16 2 _ _ (by decide) bitunpackGroups_16 fun bytes hlen => ?_
      rw [neonBitunpack16_16bit, ← widenPairs_append (by rw [List.length_take, hlen]; rfl),
        List.take_append_drop]
  · exact absurd h List.not_mem_nil

end Carquet
