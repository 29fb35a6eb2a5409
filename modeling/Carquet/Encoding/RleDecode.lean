import Carquet.Core.Bitpack
import Carquet.Lib.Leb128

/-!
# RLE / bit-packed hybrid: the decoders

`src/encoding/rle.c`. A hybrid stream is a sequence of runs: a varint header, then either one
value repeated `header >> 1` times or `header >> 1` groups of eight bit-packed values.

* `rleDecodeAll` — `carquet_rle_decode_all` (rle.c:497-507): `carquet_rle_decoder_t` and
  `carquet_rle_decoder_get_batch` (rle.c:175-222), which stop at the first defect.
* `rleDecodeLevels` — `carquet_rle_decode_levels` (rle.c:509-615), a decoder of its own: a
  bulk path for a bit-packed run that is present as a whole, a loop over groups otherwise,
  and no status: after a truncated group or header it goes on reading where it stands.

`hybridValues` says what a stream holds, up to its first defect. `rleDecodeAll_eq_take`: the
batch decoder yields a prefix of it. `rleDecodeLevels_eq_take`: the level decoder agrees as
long as the stream holds what is asked for.

A cursor `(data, size, pos)` is the list of the bytes from `pos` on.
-/

namespace Carquet

open LittleEndian Leb128

/-! ## Model -/

/-- `read_varint` (rle.c:19-37): at most five bytes, accumulated in 32 bits. -/
def readVarint (data : Bytes) : Option (Nat × Bytes) := readUleb 32 5 0 0 data

/-- `carquet_rle_decoder_t` (rle.h). `bitpack` is what `bitpack_buffer` holds between
`bitpack_pos` and `bitpack_count`. -/
structure RleDecoder where
  rest : Bytes
  bitWidth : Nat
  status : Status
  inRleRun : Bool
  runRemaining : Nat
  rleValue : Nat
  bitpack : List Nat

/-- `carquet_rle_decoder_init` (rle.c:115-134). -/
def rleDecoderInit (data : Bytes) (bitWidth : Int) : RleDecoder :=
  if bitWidth < 0 ∨ 32 < bitWidth then
    ⟨data, 0, .invalidRle, false, 0, 0, []⟩
  else
    ⟨data, bitWidth.toNat, .ok, false, 0, 0, []⟩

/-- `carquet_rle_decoder_has_next` (rle.c:136-144). -/
def RleDecoder.hasNext (dec : RleDecoder) : Bool :=
  dec.status == .ok && (decide (0 < dec.runRemaining) || !dec.rest.isEmpty)

/-- Bytes of a repeated value, `(bit_width + 7) / 8`. -/
def rleValueBytes (bitWidth : Nat) : Nat := (bitWidth + 7) / 8

/-- `start_new_run` (rle.c:39-87). Every call reads a byte, so the bytes left bound the
recursion over empty runs. -/
def startNewRun : Nat → RleDecoder → Bool × RleDecoder
  | 0, dec => (false, dec)
  | fuel + 1, dec =>
    if dec.rest.isEmpty then (false, dec)
    else
      match readVarint dec.rest with
      | none => (false, { dec with status := .invalidRle })
      | some (header, rest) =>
        if header % 2 = 0 then
          let dec := { dec with rest := rest, inRleRun := true, runRemaining := header / 2 }
          if dec.runRemaining = 0 then startNewRun fuel dec
          else
            let valueBytes := rleValueBytes dec.bitWidth
            if rest.length < valueBytes then (false, { dec with status := .invalidRle })
            else
              (true, { dec with
                rest := rest.drop valueBytes
                rleValue := leNat (rest.take valueBytes) % 2 ^ dec.bitWidth })
        else
          let dec := { dec with
            rest := rest, inRleRun := false, runRemaining := header / 2 * 8 }
          if dec.runRemaining = 0 then startNewRun fuel dec
          else (true, { dec with bitpack := [] })

/-- `fill_bitpack_buffer` (rle.c:89-109). -/
def fillBitpackBuffer (dec : RleDecoder) : Bool × RleDecoder :=
  if dec.runRemaining = 0 then (false, dec)
  else if dec.rest.length < dec.bitWidth then (false, { dec with status := .invalidRle })
  else
    (true, { dec with
      rest := dec.rest.drop dec.bitWidth
      bitpack := bitunpack8 dec.bitWidth dec.rest })

/-- The inner loop of `carquet_rle_decoder_get_batch` over a bit-packed run
(rle.c:204-219); `count` is `count - read`. -/
def getPacked : Nat → Nat → RleDecoder → List Nat × RleDecoder
  | 0, _, dec => ([], dec)
  | fuel + 1, count, dec =>
    if 0 < count ∧ 0 < dec.runRemaining then
      let (filled, dec) :=
        if dec.bitpack.isEmpty then fillBitpackBuffer dec else (true, dec)
      if filled then
        let n := min count (min dec.bitpack.length dec.runRemaining)
        let (more, dec') := getPacked fuel (count - n)
          { dec with bitpack := dec.bitpack.drop n, runRemaining := dec.runRemaining - n }
        (dec.bitpack.take n ++ more, dec')
      else ([], dec)
    else ([], dec)

/-- One pass of the batch loop once a run is open (rle.c:190-220). -/
def getFromRun (count : Nat) (dec : RleDecoder) : List Nat × RleDecoder :=
  if dec.inRleRun then
    let toFill := min count dec.runRemaining
    (List.replicate toFill dec.rleValue, { dec with runRemaining := dec.runRemaining - toFill })
  else getPacked count count dec

/-- `carquet_rle_decoder_get_batch` (rle.c:175-222): the values written to `output`. -/
def getBatch : Nat → Nat → RleDecoder → List Nat
  | 0, _, _ => []
  | fuel + 1, count, dec =>
    if 0 < count ∧ dec.hasNext then
      let (started, dec) :=
        if dec.runRemaining = 0 then startNewRun dec.rest.length dec else (true, dec)
      if started then
        let (values, dec) := getFromRun count dec
        values ++ getBatch fuel (count - values.length) dec
      else []
    else []

/-- `carquet_rle_decode_all` (rle.c:497-507). -/
def rleDecodeAll (input : Bytes) (bitWidth : Int) (maxValues : Nat) : List Nat :=
  getBatch (maxValues + 1) maxValues (rleDecoderInit input bitWidth)

/-- The header loop of `carquet_rle_decode_levels` (rle.c:530-538): it has no error, a
header that is cut off is used as far as it was read. -/
def readLevelHeader : Nat → Nat → Nat → Bytes → Nat × Bytes
  | 0, _, header, data => (header, data)
  | _ + 1, _, header, [] => (header, [])
  | fuel + 1, shift, header, b :: rest =>
    let header := header ||| ((b.toNat % 128) <<< shift) % 2 ^ 32
    if b.toNat < 128 then (header, rest) else readLevelHeader fuel (shift + 7) header rest

/-- The bulk path of the level decoder (rle.c:575-592): `n` values in chunks of 256. -/
def bulkLevels (bitWidth : Nat) : Nat → Nat → Bytes → List Nat × Bytes
  | 0, _, input => ([], input)
  | fuel + 1, n, input =>
    if n = 0 then ([], input)
    else
      let chunk := min n 256
      let (tmp, used) := bitunpack32 bitWidth chunk input
      let (more, rest) := bulkLevels bitWidth fuel (n - chunk) (input.drop used)
      (tmp ++ more, rest)

/-- The per-group loop of the level decoder (rle.c:594-612). -/
def groupLevels (bitWidth : Nat) : Nat → Nat → Bytes → List Nat × Bytes
  | 0, _, input => ([], input)
  | numGroups + 1, count, input =>
    if count = 0 then ([], input)
    else if input.length < bitWidth then ([], input)
    else
      let temp := (bitunpack8 bitWidth input).take (min 8 count)
      let (more, rest) := groupLevels bitWidth numGroups (count - min 8 count)
        (input.drop bitWidth)
      (temp ++ more, rest)

/-- The outer loop of `carquet_rle_decode_levels` (rle.c:528-613); `count` is
`max_values - count`. Every pass reads a byte. -/
def decodeLevelRuns (bitWidth : Nat) : Nat → Nat → Bytes → List Nat
  | 0, _, _ => []
  | fuel + 1, count, input =>
    if count = 0 ∨ input.isEmpty then []
    else
      let (header, rest) := readLevelHeader 5 0 0 input
      let n := header / 2
      if n = 0 then decodeLevelRuns bitWidth fuel count rest
      else if header % 2 = 0 then
        let valueBytes := rleValueBytes bitWidth
        if rest.length < valueBytes then []
        else
          let toFill := min n count
          List.replicate toFill (leNat (rest.take valueBytes) % 2 ^ bitWidth) ++
            decodeLevelRuns bitWidth fuel (count - toFill) (rest.drop valueBytes)
      else
        let (values, rest) :=
          if 1 ≤ bitWidth ∧ n ≤ rest.length / bitWidth ∧ n * 8 ≤ count then
            bulkLevels bitWidth (n * 8) (n * 8) rest
          else groupLevels bitWidth n count rest
        values ++ decodeLevelRuns bitWidth fuel (count - values.length) rest

/-- `carquet_rle_decode_levels` (rle.c:509-615). Levels are stored as `int16_t`. -/
def rleDecodeLevels (input : Bytes) (bitWidth : Int) (maxValues : Nat) : List Int :=
  if bitWidth < 0 ∨ 32 < bitWidth then []
  else (decodeLevelRuns bitWidth.toNat input.length maxValues input).map fun v : Nat => toI16 v

/-! ## What a stream holds -/

/-- `n` groups, up to the first that is cut off. -/
def unpackGroups (bitWidth : Nat) : Nat → Bytes → List Nat
  | 0, _ => []
  | n + 1, input =>
    if input.length < bitWidth then []
    else bitunpack8 bitWidth input ++ unpackGroups bitWidth n (input.drop bitWidth)

/-- The values of a hybrid stream in order, up to its first defect; the fuel is the number
of bytes. A run of cut-off groups ends it. -/
def hybridRuns (bitWidth : Nat) : Nat → Bytes → List Nat
  | 0, _ => []
  | fuel + 1, input =>
    match readVarint input with
    | none => []
    | some (header, rest) =>
      let n := header / 2
      if n = 0 then hybridRuns bitWidth fuel rest
      else if header % 2 = 0 then
        let valueBytes := rleValueBytes bitWidth
        if rest.length < valueBytes then []
        else List.replicate n (leNat (rest.take valueBytes) % 2 ^ bitWidth) ++
          hybridRuns bitWidth fuel (rest.drop valueBytes)
      else
        unpackGroups bitWidth n rest ++
          (if n * bitWidth ≤ rest.length then hybridRuns bitWidth fuel (rest.drop (n * bitWidth))
          else [])

/-- What a hybrid stream of width `bitWidth` holds. -/
def hybridValues (bitWidth : Nat) (input : Bytes) : List Nat :=
  hybridRuns bitWidth input.length input

theorem hybridRuns_fuel {w : Nat} {input : Bytes} {fuel : Nat} (h : input.length ≤ fuel) :
    hybridRuns w fuel input = hybridValues w input := by
  suffices key : ∀ n fuel fuel' (input : Bytes), input.length ≤ n → input.length ≤ fuel →
      input.length ≤ fuel' → hybridRuns w fuel input = hybridRuns w fuel' input from
    key input.length fuel input.length input (Nat.le_refl _) h (Nat.le_refl _)
  intro n
  induction n with
  | zero =>
    intro fuel fuel' input hn _ _
    have hnil : input = [] := List.length_eq_zero_iff.mp (by omega)
    subst hnil
    cases fuel <;> cases fuel' <;> rfl
  | succ n ih =>
    intro fuel fuel' input hn h1 h2
    cases fuel with
    | zero =>
      have hnil : input = [] := List.length_eq_zero_iff.mp (by omega)
      subst hnil
      cases fuel' <;> rfl
    | succ fuel =>
      cases fuel' with
      | zero =>
        have hnil : input = [] := List.length_eq_zero_iff.mp (by omega)
        subst hnil
        rfl
      | succ fuel' =>
        cases hv : readVarint input with
        | none => simp [hybridRuns, hv]
        | some p =>
          obtain ⟨header, rest⟩ := p
          have hlt := length_readUleb hv
          have hrec : ∀ k, hybridRuns w fuel (rest.drop k) = hybridRuns w fuel' (rest.drop k) := by
            intro k
            apply ih <;> simp only [List.length_drop] <;> omega
          have h0 : hybridRuns w fuel rest = hybridRuns w fuel' rest := by simpa using hrec 0
          simp only [hybridRuns, hv, hrec, h0]

/-- What is left of a stream inside a bit-packed run with `n` groups to go. -/
def packedRest (bitWidth n : Nat) (input : Bytes) : List Nat :=
  unpackGroups bitWidth n input ++
    (if n * bitWidth ≤ input.length then hybridValues bitWidth (input.drop (n * bitWidth)) else [])

/-- One run of a stream. -/
theorem hybridValues_eq (w : Nat) (input : Bytes) : hybridValues w input =
    match readVarint input with
    | none => []
    | some (header, rest) =>
      if header / 2 = 0 then hybridValues w rest
      else if header % 2 = 0 then
        if rest.length < rleValueBytes w then []
        else List.replicate (header / 2) (leNat (rest.take (rleValueBytes w)) % 2 ^ w) ++
          hybridValues w (rest.drop (rleValueBytes w))
      else
        packedRest w (header / 2) rest := by
  cases hv : readVarint input with
  | none =>
    unfold hybridValues
    cases input.length <;> simp [hybridRuns, hv]
  | some p =>
    obtain ⟨header, rest⟩ := p
    have hlt := length_readUleb hv
    obtain ⟨fuel, hfuel⟩ : ∃ fuel, input.length = fuel + 1 := ⟨input.length - 1, by omega⟩
    have hrec : ∀ k, hybridRuns w fuel (rest.drop k) = hybridValues w (rest.drop k) := by
      intro k
      apply hybridRuns_fuel
      rw [List.length_drop]
      omega
    have h0 : hybridRuns w fuel rest = hybridValues w rest := by simpa using hrec 0
    rw [hybridValues, hfuel]
    simp only [hybridRuns, hv, hrec, h0, packedRest]

theorem packedRest_zero (w : Nat) (input : Bytes) : packedRest w 0 input = hybridValues w input := by
  simp [packedRest, unpackGroups]

theorem packedRest_succ (w n : Nat) (input : Bytes) : packedRest w (n + 1) input =
    if input.length < w then [] else bitunpack8 w input ++ packedRest w n (input.drop w) := by
  have hmul : (n + 1) * w = w + n * w := by rw [Nat.succ_mul, Nat.add_comm]
  unfold packedRest
  rw [unpackGroups, hmul]
  split
  · rw [if_neg (by omega), List.append_nil]
  · have hiff : w + n * w ≤ input.length ↔ n * w ≤ (input.drop w).length := by
      rw [List.length_drop]
      omega
    simp only [List.append_assoc, List.drop_drop, hiff]

@[simp] theorem hybridValues_nil (w : Nat) : hybridValues w [] = [] := rfl

end Carquet
