import Carquet.Core.Types
import Carquet.Lib.BitFields

/-!
# The bit reader and the bit writer

`src/core/bitpack.c:384-527`. Both stage bits in a 64-bit `buffer` of which `buffer_bits` are in
use; the reader fills it byte by byte (`refill_buffer`), the writer empties it byte by byte
(`flush_buffer`), once 56 bits are in use.

Two things go wrong. A writer with 33 to 55 bits in use takes 32 more without making room, and
what does not fit into the 64 bits is lost (`writeBits`); a reader that is asked for more bits than
are left goes on as if it had them, and counts below zero (`readBits`).

* `BitWriter.writes_writeBits`: the bytes hold the fields, each cut to what fitted.
* `BitReader.reads_readBits`: a read within the input takes the next bits of it.
* `bitStream_iff`: exactly when the values come back, and exactly when the counter stays right.
-/

namespace Carquet

open LittleEndian BitFields

/-! ## The writer -/

/-- `carquet_bit_writer_t`; `byte_pos` is the length of `data`. -/
structure BitWriter where
  data : Bytes
  capacity : Nat
  buffer : Nat
  bufferBits : Nat
  deriving Repr

namespace BitWriter

/-- `carquet_bit_writer_init` (bitpack.c:457-465). -/
def init (capacity : Nat) : BitWriter := ⟨[], capacity, 0, 0⟩

/-- The loop of `flush_buffer` (bitpack.c:467-473). -/
def flushBytes : Nat → BitWriter → BitWriter
  | 0, w => w
  | fuel + 1, w =>
    if 8 ≤ w.bufferBits ∧ w.data.length < w.capacity then
      flushBytes fuel ⟨w.data ++ [UInt8.ofNat w.buffer], w.capacity, w.buffer >>> 8, w.bufferBits - 8⟩
    else w

/-- `flush_buffer`: each pass takes eight of the bits in use. -/
def flushBuffer (w : BitWriter) : BitWriter := flushBytes w.bufferBits w

/-- What `carquet_bit_writer_write_bits` puts into the buffer: `value & mask`, shifted in 64 bits. -/
def stage (w : BitWriter) (value numBits : Nat) : BitWriter :=
  { w with
    buffer := w.buffer ||| ((value % 2 ^ numBits) <<< w.bufferBits) % 2 ^ 64
    bufferBits := w.bufferBits + numBits }

/-- `carquet_bit_writer_write_bits` (bitpack.c:484-497). -/
def writeBits (w : BitWriter) (value numBits : Nat) : BitWriter :=
  if numBits = 0 then w
  else
    let w := w.stage value (min numBits 32)
    if 56 ≤ w.bufferBits then w.flushBuffer else w

/-- `carquet_bit_writer_flush` (bitpack.c:515-525). -/
def flush (w : BitWriter) : BitWriter :=
  let w := w.flushBuffer
  if 0 < w.bufferBits ∧ w.data.length < w.capacity then
    ⟨w.data ++ [UInt8.ofNat w.buffer], w.capacity, 0, 0⟩
  else w

/-- Values and their widths, one `carquet_bit_writer_write_bits` each. -/
def writeAll (w : BitWriter) (pairs : List (Nat × Nat)) : BitWriter :=
  pairs.foldl (fun w p => w.writeBits p.1 p.2) w

end BitWriter

/-- The bytes of values written to a new writer that is then flushed. -/
def bitsWritten (capacity : Nat) (pairs : List (Nat × Nat)) : Bytes :=
  ((BitWriter.init capacity).writeAll pairs).flush.data

/-! ## The reader -/

/-- `carquet_bit_reader_t`. -/
structure BitReader where
  data : Bytes
  bytePos : Nat
  buffer : Nat
  bufferBits : Int
  deriving Repr

/-- A call that reads. -/
inductive BitRead where
  | bit
  | bits (numBits : Nat)
  | bits64 (numBits : Nat)
  deriving Repr

namespace BitReader

/-- `carquet_bit_reader_init` (bitpack.c:384-392). -/
def init (data : Bytes) : BitReader := ⟨data, 0, 0, 0⟩

/-- The loop of `refill_buffer` (bitpack.c:394-399): `fuel` bounds the bytes it can take. -/
def refillBytes : Nat → BitReader → BitReader
  | 0, r => r
  | fuel + 1, r =>
    match r.data[r.bytePos]? with
    | none => r
    | some byte =>
      if r.bufferBits ≤ 56 then
        refillBytes fuel ⟨r.data, r.bytePos + 1,
          r.buffer ||| (byte.toNat <<< r.bufferBits.toNat) % 2 ^ 64, r.bufferBits + 8⟩
      else r

/-- `refill_buffer`. -/
def refillBuffer (r : BitReader) : BitReader := refillBytes (r.data.length - r.bytePos) r

/-- `carquet_bit_reader_read_bit` (bitpack.c:401-413). -/
def readBit (r : BitReader) : Int × BitReader :=
  let r := if r.bufferBits = 0 then r.refillBuffer else r
  if r.bufferBits = 0 then (-1, r)
  else ((r.buffer % 2 : Nat), { r with buffer := r.buffer >>> 1, bufferBits := r.bufferBits - 1 })

/-- `carquet_bit_reader_read_bits` (bitpack.c:415-427). -/
def readBits (r : BitReader) (numBits : Nat) : Nat × BitReader :=
  if numBits = 0 then (0, r)
  else
    let numBits := min numBits 32
    let r := if r.bufferBits < numBits then r.refillBuffer else r
    (r.buffer % 2 ^ numBits,
      { r with buffer := r.buffer >>> numBits, bufferBits := r.bufferBits - numBits })

/-- `carquet_bit_reader_read_bits64` (bitpack.c:429-441). -/
def readBits64 (r : BitReader) (numBits : Nat) : Nat × BitReader :=
  if numBits = 0 then (0, r)
  else
    let numBits := min numBits 64
    if numBits ≤ 32 then r.readBits numBits
    else
      let (low, r) := r.readBits 32
      let (high, r) := r.readBits (numBits - 32)
      (low ||| high <<< 32, r)

/-- `carquet_bit_reader_has_more` (bitpack.c:443-445). -/
def hasMore (r : BitReader) : Bool := 0 < r.bufferBits ∨ r.bytePos < r.data.length

/-- `carquet_bit_reader_remaining_bits` (bitpack.c:447-450), a `size_t`. -/
def remainingBits (r : BitReader) : Int :=
  (r.bufferBits + (r.data.length - r.bytePos : Nat) * 8) % 2 ^ 64

/-- The reader after a call. -/
def after (r : BitReader) : BitRead → BitReader
  | .bit => r.readBit.2
  | .bits n => (r.readBits n).2
  | .bits64 n => (r.readBits64 n).2

/-- The reader after some calls. -/
def afterAll (r : BitReader) (reads : List BitRead) : BitReader := reads.foldl after r

/-- The values of the widths asked for, one `carquet_bit_reader_read_bits` each. -/
def readAll : BitReader → List Nat → List Nat
  | _, [] => []
  | r, n :: ns => (r.readBits n).1 :: readAll (r.readBits n).2 ns

end BitReader

/-! ## What the writer keeps -/

/-- The bits in use after a value of `numBits`: from 56 on, whole bytes are written out. -/
def bitsInUse (inUse numBits : Nat) : Nat :=
  if 56 ≤ inUse + numBits then (inUse + numBits) % 8 else inUse + numBits

/-- Every value fits into what is free of the 64 bits. -/
def FitsBuffer : Nat → List (Nat × Nat) → Prop
  | _, [] => True
  | inUse, p :: ps => p.1 % 2 ^ p.2 < 2 ^ (64 - inUse) ∧ FitsBuffer (bitsInUse inUse p.2) ps

/-- The fields that are written: of each value, what fits. -/
def fieldsKept : Nat → List (Nat × Nat) → List (Nat × Nat)
  | _, [] => []
  | inUse, p :: ps =>
    (p.1 % 2 ^ p.2 % 2 ^ (64 - inUse), p.2) :: fieldsKept (bitsInUse inUse p.2) ps

theorem map_snd_fieldsKept (inUse : Nat) (pairs : List (Nat × Nat)) :
    (fieldsKept inUse pairs).map Prod.snd = pairs.map Prod.snd := by
  induction pairs generalizing inUse with
  | nil => rfl
  | cons p ps ih => rw [fieldsKept, List.map_cons, List.map_cons, ih]

theorem width_fieldsKept (inUse : Nat) (pairs : List (Nat × Nat)) :
    width (fieldsKept inUse pairs) = width pairs := by
  rw [width, width, map_snd_fieldsKept]

theorem values_fieldsKept_iff (inUse : Nat) (pairs : List (Nat × Nat)) :
    ((fieldsKept inUse pairs).map fun f => f.1 % 2 ^ f.2) = pairs.map (fun p => p.1 % 2 ^ p.2) ↔
      FitsBuffer inUse pairs := by
  induction pairs generalizing inUse with
  | nil => simp [fieldsKept, FitsBuffer]
  | cons p ps ih =>
    have hle : p.1 % 2 ^ p.2 % 2 ^ (64 - inUse) < 2 ^ p.2 :=
      Nat.lt_of_le_of_lt (Nat.mod_le _ _) (Nat.mod_lt _ (Nat.two_pow_pos _))
    rw [fieldsKept, List.map_cons, List.map_cons, List.cons.injEq, ih, FitsBuffer]
    dsimp only
    rw [Nat.mod_eq_of_lt hle]
    constructor
    · rintro ⟨heq, hrest⟩
      exact ⟨heq ▸ Nat.mod_lt _ (Nat.two_pow_pos _), hrest⟩
    · rintro ⟨hlt, hrest⟩
      exact ⟨Nat.mod_eq_of_lt hlt, hrest⟩

namespace BitWriter

/-- The bytes and the buffer hold the fields `fs`. -/
structure Writes (w : BitWriter) (fs : List (Nat × Nat)) : Prop where
  buffer_lt : w.buffer < 2 ^ w.bufferBits
  stream : leNat w.data + 2 ^ (8 * w.data.length) * w.buffer = pack fs
  length : 8 * w.data.length + w.bufferBits = width fs

theorem writes_init (capacity : Nat) : (init capacity).Writes [] :=
  ⟨by simp [init], rfl, rfl⟩

theorem flushBytes_spec (fuel : Nat) {w : BitWriter} {fs : List (Nat × Nat)} (h : w.Writes fs)
    (hfuel : w.bufferBits / 8 ≤ fuel) (hroom : width fs / 8 ≤ w.capacity) :
    (flushBytes fuel w).Writes fs ∧ (flushBytes fuel w).bufferBits = w.bufferBits % 8 ∧
      (flushBytes fuel w).capacity = w.capacity := by
  induction fuel generalizing w with
  | zero => exact ⟨h, by rw [flushBytes]; omega, rfl⟩
  | succ fuel ih =>
    have hlength := h.length
    rw [flushBytes]
    by_cases hbyte : 8 ≤ w.bufferBits
    · rw [if_pos ⟨hbyte, by omega⟩]
      have hnext : Writes ⟨w.data ++ [UInt8.ofNat w.buffer], w.capacity, w.buffer >>> 8,
          w.bufferBits - 8⟩ fs := by
        refine ⟨?_, ?_, ?_⟩
        · have hpow : 2 ^ w.bufferBits = 2 ^ (w.bufferBits - 8) * 2 ^ 8 := by
            rw [← Nat.pow_add, Nat.sub_add_cancel hbyte]
          dsimp only
          rw [Nat.shiftRight_eq_div_pow, Nat.div_lt_iff_lt_mul (Nat.two_pow_pos 8), ← hpow]
          exact h.buffer_lt
        · have hsplit : w.buffer = w.buffer % 256 + 256 * (w.buffer / 256) := by omega
          have hdata : (256 : Nat) ^ w.data.length = 2 ^ (8 * w.data.length) := by
            rw [show (256 : Nat) = 2 ^ 8 from rfl, ← Nat.pow_mul]
          rw [← h.stream]
          conv_rhs => rw [hsplit]
          simp only [leNat_append, leNat, UInt8.toNat_ofNat', List.length_append,
            List.length_singleton, Nat.mul_add, Nat.pow_add, Nat.shiftRight_eq_div_pow, hdata]
          ring
        · simp only [List.length_append, List.length_singleton]
          omega
      obtain ⟨hwrites, hbits, hcap⟩ := ih hnext (by dsimp only; omega) hroom
      exact ⟨hwrites, by rw [hbits]; dsimp only; omega, hcap⟩
    · rw [if_neg (fun hc => hbyte hc.1)]
      exact ⟨h, by omega, rfl⟩

theorem writes_stage {w : BitWriter} {fs : List (Nat × Nat)} (h : w.Writes fs)
    (hbits : w.bufferBits ≤ 64) (value numBits : Nat) :
    (w.stage value numBits).Writes
      (fs ++ [(value % 2 ^ numBits % 2 ^ (64 - w.bufferBits), numBits)]) := by
  have hkept : value % 2 ^ numBits % 2 ^ (64 - w.bufferBits) < 2 ^ numBits :=
    Nat.lt_of_le_of_lt (Nat.mod_le _ _) (Nat.mod_lt _ (Nat.two_pow_pos _))
  have hbuffer : (w.stage value numBits).buffer =
      w.buffer + 2 ^ w.bufferBits * (value % 2 ^ numBits % 2 ^ (64 - w.bufferBits)) :=
    or_shiftLeft_mod h.buffer_lt hbits _
  generalize value % 2 ^ numBits % 2 ^ (64 - w.bufferBits) = kept at hkept hbuffer ⊢
  refine ⟨?_, ?_, ?_⟩
  · rw [hbuffer, stage, Nat.pow_add]
    calc w.buffer + 2 ^ w.bufferBits * kept < 2 ^ w.bufferBits + 2 ^ w.bufferBits * kept :=
          Nat.add_lt_add_right h.buffer_lt _
      _ = 2 ^ w.bufferBits * (kept + 1) := by ring
      _ ≤ 2 ^ w.bufferBits * 2 ^ numBits := Nat.mul_le_mul_left _ hkept
  · have hdata : (w.stage value numBits).data = w.data := rfl
    rw [hbuffer, hdata, pack_append, ← h.stream, ← h.length, pack, pack, Nat.pow_add,
      Nat.mod_eq_of_lt hkept]
    ring
  · rw [width_append, ← h.length, stage]
    simp [width]
    omega

/-- A value is put behind the fields, cut to what is free in the buffer. -/
theorem writes_writeBits {w : BitWriter} {fs : List (Nat × Nat)} (h : w.Writes fs)
    (hbits : w.bufferBits < 56) {numBits : Nat} (hn : numBits ≤ 32) (value : Nat)
    (hroom : (width fs + numBits) / 8 ≤ w.capacity) :
    (w.writeBits value numBits).Writes
        (fs ++ [(value % 2 ^ numBits % 2 ^ (64 - w.bufferBits), numBits)]) ∧
      (w.writeBits value numBits).bufferBits = bitsInUse w.bufferBits numBits ∧
      (w.writeBits value numBits).capacity = w.capacity := by
  have hstage := writes_stage h (by omega) value numBits
  have hused : (w.stage value numBits).bufferBits = w.bufferBits + numBits := rfl
  unfold writeBits bitsInUse
  by_cases hz : numBits = 0
  · subst hz
    rw [if_pos rfl, if_neg (by omega)]
    refine ⟨⟨h.buffer_lt, ?_, ?_⟩, rfl, rfl⟩
    · rw [pack_append, h.stream]
      simp [pack, Nat.mod_one]
    · rw [width_append, h.length]
      simp [width]
  · rw [if_neg hz, Nat.min_eq_left hn]
    dsimp only
    rw [hused]
    by_cases hfull : 56 ≤ w.bufferBits + numBits
    · rw [if_pos hfull, if_pos hfull]
      obtain ⟨hwrites, hleft, hcap⟩ := flushBytes_spec (w.stage value numBits).bufferBits
        hstage (by omega) (by rw [width_append, width_cons, width_nil]; exact hroom)
      exact ⟨hwrites, hleft, hcap⟩
    · rw [if_neg hfull, if_neg hfull]
      exact ⟨hstage, hused, rfl⟩

theorem bitsInUse_lt (inUse numBits : Nat) : bitsInUse inUse numBits < 56 := by
  unfold bitsInUse
  split <;> omega

theorem writes_writeAll {w : BitWriter} {fs pairs : List (Nat × Nat)} (h : w.Writes fs)
    (hbits : w.bufferBits < 56) (hn : ∀ p ∈ pairs, p.2 ≤ 32)
    (hroom : (width fs + width pairs) / 8 ≤ w.capacity) :
    (w.writeAll pairs).Writes (fs ++ fieldsKept w.bufferBits pairs) ∧
      (w.writeAll pairs).capacity = w.capacity := by
  induction pairs generalizing w fs with
  | nil => exact ⟨by simpa [fieldsKept, writeAll] using h, rfl⟩
  | cons p ps ih =>
    obtain ⟨hp, hps⟩ := List.forall_mem_cons.mp hn
    rw [width_cons] at hroom
    obtain ⟨hwrites, hused, hcap⟩ := writes_writeBits h hbits hp p.1 (by omega)
    have hnext := ih hwrites (by rw [hused]; exact bitsInUse_lt _ _) hps
      (by rw [width_append, hcap]; simp [width] at hroom ⊢; omega)
    rw [hused, hcap, List.append_assoc] at hnext
    exact hnext

/-- The bytes hold the fields, and zeros up to the end of the last byte. -/
theorem leNat_flush {w : BitWriter} {fs : List (Nat × Nat)} (h : w.Writes fs)
    (hroom : (width fs + 7) / 8 ≤ w.capacity) :
    leNat w.flush.data = pack fs ∧ w.flush.data.length = (width fs + 7) / 8 := by
  obtain ⟨hwrites, hleft, hcap⟩ := flushBytes_spec w.bufferBits h (by omega) (by omega)
  unfold flush flushBuffer
  dsimp only
  generalize flushBytes w.bufferBits w = w' at hwrites hleft hcap ⊢
  have hlength := hwrites.length
  have hstream := hwrites.stream
  have hlt := hwrites.buffer_lt
  by_cases hpart : 0 < w'.bufferBits
  · rw [if_pos ⟨hpart, by omega⟩]
    have hbyte : w'.buffer < 256 :=
      Nat.lt_of_lt_of_le hlt (Nat.pow_le_pow_right (by omega) (by omega : w'.bufferBits ≤ 8))
    have hdata : (256 : Nat) ^ w'.data.length = 2 ^ (8 * w'.data.length) := by
      rw [show (256 : Nat) = 2 ^ 8 from rfl, ← Nat.pow_mul]
    constructor
    · rw [← hstream]
      simp only [leNat_append, leNat, UInt8.toNat_ofNat', hdata]
      rw [Nat.mod_eq_of_lt hbyte, Nat.mul_zero, Nat.add_zero]
    · simp only [List.length_append, List.length_singleton]
      omega
  · rw [if_neg (fun hc => hpart hc.1)]
    have hzero : w'.bufferBits = 0 := by omega
    rw [hzero, Nat.pow_zero, Nat.lt_one_iff] at hlt
    rw [hlt, Nat.mul_zero, Nat.add_zero] at hstream
    exact ⟨hstream, by omega⟩

end BitWriter

theorem leNat_bitsWritten {pairs : List (Nat × Nat)} {capacity : Nat} (hn : ∀ p ∈ pairs, p.2 ≤ 32)
    (hroom : (width pairs + 7) / 8 ≤ capacity) :
    leNat (bitsWritten capacity pairs) = pack (fieldsKept 0 pairs) ∧
      (bitsWritten capacity pairs).length = (width pairs + 7) / 8 := by
  obtain ⟨hwrites, hcap⟩ := BitWriter.writes_writeAll (BitWriter.writes_init capacity)
    (by decide : (0 : Nat) < 56) hn (by rw [width_nil]; simp only [BitWriter.init]; omega)
  rw [List.nil_append] at hwrites
  have hflush := BitWriter.leNat_flush hwrites
    (by rw [hcap]; exact Nat.le_trans (by rw [width_fieldsKept]) hroom)
  rwa [width_fieldsKept] at hflush

/-! ## What the reader takes -/

namespace BitReader

/-- The bits still to be read are those of `stream`, `left` of them. -/
structure Reads (r : BitReader) (stream left : Nat) : Prop where
  pos_le : r.bytePos ≤ r.data.length
  nonneg : 0 ≤ r.bufferBits
  le : r.bufferBits ≤ 64
  buffer_lt : r.buffer < 2 ^ r.bufferBits.toNat
  stream_eq : r.buffer + 2 ^ r.bufferBits.toNat * leNat (r.data.drop r.bytePos) = stream
  left_eq : r.bufferBits.toNat + 8 * (r.data.length - r.bytePos) = left

/-- More bits were taken than there were. -/
structure Overrun (r : BitReader) : Prop where
  bytePos : r.data.length ≤ r.bytePos
  bits : r.bufferBits < 0

variable {r : BitReader} {stream left : Nat}

theorem reads_init (data : Bytes) : (init data).Reads (leNat data) (8 * data.length) :=
  ⟨Nat.zero_le _, Int.le_refl _, by simp [init], by simp [init], by simp [init], by simp [init]⟩

theorem refillBytes_spec (fuel : Nat) (h : r.Reads stream left)
    (hfuel : r.data.length - r.bytePos ≤ fuel) :
    (refillBytes fuel r).Reads stream left ∧ (56 < (refillBytes fuel r).bufferBits ∨
      (refillBytes fuel r).bytePos = (refillBytes fuel r).data.length) := by
  induction fuel generalizing r with
  | zero =>
    have := h.pos_le
    exact ⟨h, Or.inr (by rw [refillBytes]; omega)⟩
  | succ fuel ih =>
    have hpos := h.pos_le
    have hnonneg := h.nonneg
    rw [refillBytes]
    by_cases hend : r.bytePos < r.data.length
    · rw [List.getElem?_eq_getElem hend]
      dsimp only
      by_cases hfull : r.bufferBits ≤ 56
      · rw [if_pos hfull]
        have hbyte : r.data[r.bytePos].toNat < 256 := r.data[r.bytePos].toNat_lt
        have hroom : 2 ^ 8 ≤ 2 ^ (64 - r.bufferBits.toNat) :=
          Nat.pow_le_pow_right (by omega) (by omega)
        have hor := or_shiftLeft_mod h.buffer_lt (by omega : r.bufferBits.toNat ≤ 64)
          r.data[r.bytePos].toNat
        rw [Nat.mod_eq_of_lt (Nat.lt_of_lt_of_le hbyte hroom)] at hor
        have hbits : (r.bufferBits + 8).toNat = r.bufferBits.toNat + 8 := by omega
        refine ih ⟨hend, by dsimp only; omega, by dsimp only; omega, ?_, ?_, ?_⟩ (by dsimp only; omega)
        · dsimp only
          rw [hor, hbits, Nat.pow_add]
          have := Nat.mul_le_mul_left (2 ^ r.bufferBits.toNat) (Nat.le_of_lt_succ hbyte)
          have := h.buffer_lt
          omega
        · dsimp only
          rw [hor, hbits, ← h.stream_eq, List.drop_eq_getElem_cons hend, leNat, Nat.pow_add]
          ring
        · dsimp only
          rw [hbits, ← h.left_eq]
          omega
      · rw [if_neg hfull]
        exact ⟨h, Or.inl (by omega)⟩
    · rw [List.getElem?_eq_none (by omega)]
      exact ⟨h, Or.inr (by dsimp only; omega)⟩

theorem Overrun.refillBuffer (h : r.Overrun) : r.refillBuffer = r := by
  unfold BitReader.refillBuffer
  cases hfuel : r.data.length - r.bytePos with
  | zero => rfl
  | succ fuel =>
    have := h.bytePos
    omega

/-- The buffer, refilled when it has too few bits, has enough of them if there are enough. -/
theorem refilled (h : r.Reads stream left) {k : Nat} (hk : k ≤ 32) :
    ∃ r', (if r.bufferBits < k then r.refillBuffer else r) = r' ∧ r'.Reads stream left ∧
      ((k : Int) ≤ r'.bufferBits ∨ left < k ∧ r'.bytePos = r'.data.length) := by
  by_cases hfew : r.bufferBits < k
  · obtain ⟨hreads, hfull⟩ := refillBytes_spec _ h (Nat.le_refl _)
    refine ⟨_, if_pos hfew, hreads, ?_⟩
    change 56 < r.refillBuffer.bufferBits ∨ _ = _ at hfull
    have hleft := hreads.left_eq
    have hnonneg := hreads.nonneg
    change r.refillBuffer.bufferBits.toNat + _ = _ at hleft
    rcases hfull with hfull | hend
    · exact Or.inl (by omega)
    · change r.refillBuffer.bytePos = r.refillBuffer.data.length at hend
      change 0 ≤ r.refillBuffer.bufferBits at hnonneg
      change r.refillBuffer.bufferBits.toNat +
        8 * (r.refillBuffer.data.length - r.refillBuffer.bytePos) = left at hleft
      by_cases hlack : left < k
      · exact Or.inr ⟨hlack, hend⟩
      · exact Or.inl (by omega)
  · exact ⟨_, if_neg hfew, h, Or.inl (by omega)⟩

/-- Bits that are in the buffer. -/
theorem Reads.take (h : r.Reads stream left) {k : Nat} (hk : (k : Int) ≤ r.bufferBits) :
    r.buffer % 2 ^ k = stream % 2 ^ k ∧
      Reads { r with buffer := r.buffer >>> k, bufferBits := r.bufferBits - k }
        (stream / 2 ^ k) (left - k) := by
  have hnonneg := h.nonneg
  obtain ⟨b, hb⟩ : ∃ b, r.bufferBits.toNat = k + b := ⟨r.bufferBits.toNat - k, by omega⟩
  have hb' : (r.bufferBits - k).toNat = b := by omega
  have hstream := h.stream_eq
  have hlt := h.buffer_lt
  rw [hb, Nat.pow_add] at hstream hlt
  rw [Nat.mul_assoc] at hstream
  refine ⟨by rw [← hstream, Nat.add_mul_mod_self_left], h.pos_le, by dsimp only; omega, ?_, ?_, ?_, ?_⟩
  · have := h.le
    dsimp only
    omega
  · dsimp only
    rw [hb', Nat.shiftRight_eq_div_pow]
    exact Nat.div_lt_of_lt_mul hlt
  · dsimp only
    rw [hb', ← hstream, Nat.shiftRight_eq_div_pow, Nat.add_mul_div_left _ _ (Nat.two_pow_pos k)]
  · have := h.left_eq
    dsimp only
    omega

theorem readBits_eq (r : BitReader) (numBits : Nat) : r.readBits numBits =
    ((if r.bufferBits < (min numBits 32 : Nat) then r.refillBuffer else r).buffer %
        2 ^ min numBits 32,
      if numBits = 0 then r else
        let r' := if r.bufferBits < (min numBits 32 : Nat) then r.refillBuffer else r
        { r' with
          buffer := r'.buffer >>> min numBits 32
          bufferBits := r'.bufferBits - (min numBits 32 : Nat) }) := by
  unfold readBits
  by_cases hz : numBits = 0
  · subst hz
    simp [Nat.mod_one]
  · rw [if_neg hz, if_neg hz]

/-- A read of bits that are there takes the next bits of the stream. -/
theorem reads_readBits (h : r.Reads stream left) (numBits : Nat) (hk : min numBits 32 ≤ left) :
    (r.readBits numBits).1 = stream % 2 ^ min numBits 32 ∧
      (r.readBits numBits).2.Reads (stream / 2 ^ min numBits 32) (left - min numBits 32) := by
  obtain ⟨r', hr', hreads, henough⟩ := refilled h (Nat.min_le_right numBits 32)
  have hbits : ((min numBits 32 : Nat) : Int) ≤ r'.bufferBits :=
    henough.resolve_right fun hc => absurd hc.1 (by omega)
  obtain ⟨hvalue, hnext⟩ := hreads.take hbits
  rw [readBits_eq, hr']
  by_cases hz : numBits = 0
  · subst hz
    exact ⟨hvalue, by simpa using h⟩
  · rw [if_neg hz]
    exact ⟨hvalue, hnext⟩

/-- A read of more bits than are there leaves the counter below zero. -/
theorem overrun_readBits (h : r.Reads stream left) (numBits : Nat) (hk : left < min numBits 32) :
    (r.readBits numBits).2.Overrun := by
  obtain ⟨r', hr', hreads, henough⟩ := refilled h (Nat.min_le_right numBits 32)
  have hleft := hreads.left_eq
  have hnonneg := hreads.nonneg
  rw [readBits_eq, hr', if_neg (by omega)]
  rcases henough with hbits | ⟨-, hend⟩
  · omega
  · refine ⟨by dsimp only; omega, ?_⟩
    dsimp only
    omega

theorem Overrun.readBits (h : r.Overrun) (numBits : Nat) : (r.readBits numBits).2.Overrun := by
  have hbits := h.bits
  rw [readBits_eq]
  by_cases hz : numBits = 0
  · rw [if_pos hz]
    exact h
  · rw [if_neg hz, if_pos (by omega), h.refillBuffer]
    exact ⟨h.bytePos, by dsimp only; omega⟩

/-! ## A run of reads -/

/-- The bits left after a call. -/
def leftAfter (left : Nat) : BitRead → Nat
  | .bit => left - 1
  | .bits n => left - min n 32
  | .bits64 n => left - min n 64

/-- A call asks for no more bits than are left; a single bit may be asked for at the end. -/
def Within (left : Nat) : BitRead → Prop
  | .bit => True
  | .bits n => min n 32 ≤ left
  | .bits64 n => min n 64 ≤ left

/-- Each call asks for no more bits than are left then. -/
def AllWithin : Nat → List BitRead → Prop
  | _, [] => True
  | left, c :: cs => Within left c ∧ AllWithin (leftAfter left c) cs

/-- With `left` bits left: the counter is not below zero, and the end is reported when it is there. -/
structure InStep (r : BitReader) (left : Nat) : Prop where
  nonneg : 0 ≤ r.bufferBits
  hasMore : r.hasMore = decide (0 < left)
  remainingBits : r.remainingBits = (left : Int) % 2 ^ 64
  readBit : r.readBit.1 = -1 ↔ left = 0

theorem reads_readBit (h : r.Reads stream left) :
    (left = 0 → r.readBit.1 = -1 ∧ r.readBit.2.Reads stream 0) ∧
      (left ≠ 0 → r.readBit.1 = (stream % 2 : Nat) ∧ r.readBit.2.Reads (stream / 2) (left - 1)) := by
  have hsame : (if r.bufferBits = 0 then r.refillBuffer else r) =
      if r.bufferBits < (1 : Nat) then r.refillBuffer else r := by
    have := h.nonneg
    by_cases hz : r.bufferBits = 0
    · rw [if_pos hz, if_pos (by omega)]
    · rw [if_neg hz, if_neg (by omega)]
  obtain ⟨r', hr', hreads, henough⟩ := refilled h (by decide : 1 ≤ 32)
  have hleft := hreads.left_eq
  have hnonneg := hreads.nonneg
  have hpos := hreads.pos_le
  unfold BitReader.readBit
  rw [hsame, hr']
  constructor
  · rintro rfl
    rw [if_pos (by omega)]
    exact ⟨rfl, hreads⟩
  · intro hne
    have hbits := henough.resolve_right fun hc => absurd hc.1 (by omega)
    obtain ⟨hvalue, hnext⟩ := hreads.take hbits
    rw [if_neg (by omega)]
    rw [Nat.pow_one] at hvalue hnext
    exact ⟨by rw [hvalue], hnext⟩

theorem reads_readBits64 (h : r.Reads stream left) {numBits : Nat} (hk : min numBits 64 ≤ left) :
    (r.readBits64 numBits).2.Reads (stream / 2 ^ min numBits 64) (left - min numBits 64) := by
  unfold readBits64
  by_cases hz : numBits = 0
  · subst hz
    simpa using h
  · rw [if_neg hz]
    dsimp only
    by_cases hshort : min numBits 64 ≤ 32
    · rw [if_pos hshort]
      have hread := (reads_readBits h (min numBits 64) (by omega)).2
      rwa [Nat.min_eq_left hshort] at hread
    · rw [if_neg hshort]
      have hlow := (reads_readBits h 32 (by omega)).2
      have hhigh := (reads_readBits hlow (min numBits 64 - 32) (by omega)).2
      rw [Nat.div_div_eq_div_mul, ← Nat.pow_add] at hhigh
      rwa [show min 32 32 + min (min numBits 64 - 32) 32 = min numBits 64 by omega,
        show left - min 32 32 - min (min numBits 64 - 32) 32 = left - min numBits 64 by omega] at hhigh

theorem overrun_readBits64 (h : r.Reads stream left) {numBits : Nat} (hk : left < min numBits 64) :
    (r.readBits64 numBits).2.Overrun := by
  unfold readBits64
  rw [if_neg (by omega)]
  dsimp only
  by_cases hshort : min numBits 64 ≤ 32
  · rw [if_pos hshort]
    exact overrun_readBits h _ (by omega)
  · rw [if_neg hshort]
    by_cases hlow : left < 32
    · exact (overrun_readBits h 32 (by omega)).readBits _
    · exact overrun_readBits (reads_readBits h 32 (by omega)).2 _ (by omega)

/-- What a call does to the bits left. -/
theorem after_spec (h : r.Reads stream left) (c : BitRead) :
    (Within left c → ∃ stream', (r.after c).Reads stream' (leftAfter left c)) ∧
      (¬ Within left c → (r.after c).Overrun) := by
  cases c with
  | bit =>
    obtain ⟨hnone, hsome⟩ := reads_readBit h
    refine ⟨fun _ => ?_, fun hc => absurd trivial hc⟩
    by_cases hz : left = 0
    · subst hz
      exact ⟨_, (hnone rfl).2⟩
    · exact ⟨_, (hsome hz).2⟩
  | bits n =>
    exact ⟨fun hk => ⟨_, (reads_readBits h n hk).2⟩, fun hk => overrun_readBits h n (Nat.not_le.mp hk)⟩
  | bits64 n =>
    exact ⟨fun hk => ⟨_, reads_readBits64 h hk⟩, fun hk => overrun_readBits64 h (Nat.not_le.mp hk)⟩

theorem Reads.inStep (h : r.Reads stream left) : r.InStep left := by
  have hleft := h.left_eq
  have hnonneg := h.nonneg
  obtain ⟨hnone, hsome⟩ := reads_readBit h
  refine ⟨hnonneg, ?_, ?_, ?_⟩
  · have hpos := h.pos_le
    unfold BitReader.hasMore
    rw [decide_eq_decide]
    omega
  · unfold BitReader.remainingBits
    congr 1
    omega
  · constructor
    · intro hbit
      by_contra hne
      rw [(hsome hne).1] at hbit
      omega
    · exact fun hz => (hnone hz).1

/-- The counter stays right just as long as no call asks for more bits than are left. -/
theorem inStep_iff (h : r.Reads stream left) (reads : List BitRead) :
    (∀ k, (r.afterAll (reads.take k)).InStep ((reads.take k).foldl leftAfter left)) ↔
      AllWithin left reads := by
  induction reads generalizing r stream left with
  | nil => exact ⟨fun _ => trivial, fun _ k => by simpa [afterAll] using h.inStep⟩
  | cons c cs ih =>
    obtain ⟨hin, hout⟩ := after_spec h c
    constructor
    · intro hall
      have hwithin : Within left c := by
        by_contra hc
        exact absurd (hall 1).nonneg (Int.not_le.mpr (hout hc).bits)
      obtain ⟨stream', hnext⟩ := hin hwithin
      exact ⟨hwithin, (ih hnext).mp fun k => hall (k + 1)⟩
    · rintro ⟨hwithin, hrest⟩ k
      obtain ⟨stream', hnext⟩ := hin hwithin
      cases k with
      | zero => exact h.inStep
      | succ k => exact (ih hnext).mpr hrest k

/-- Fields that are there are read as they are. -/
theorem readAll_eq (h : r.Reads stream left) {widths : List Nat} (hw : ∀ w ∈ widths, w ≤ 32)
    (hleft : widths.sum ≤ left) : r.readAll widths = unpack widths stream := by
  induction widths generalizing r stream left with
  | nil => rfl
  | cons w ws ih =>
    obtain ⟨hw32, hws⟩ := List.forall_mem_cons.mp hw
    rw [List.sum_cons] at hleft
    have hmin := Nat.min_eq_left hw32
    obtain ⟨hvalue, hnext⟩ := reads_readBits h w (by omega)
    rw [hmin] at hvalue hnext
    rw [readAll, unpack, hvalue, ih hnext hws (by omega)]

end BitReader

/-! ## Both together -/

/-- **When the bits come back, and when the end is seen.** Values written in widths up to 32, with
room for all their bits, read back modulo `2 ^ width` if and only if each of them, when it is
written, fits into what is free of the writer's 64 bits; and a reader's counter stays at the number
of bits left, and the end is reported, if and only if no read asks for more bits than are left. -/
theorem bitStream_iff (pairs : List (Nat × Nat)) (capacity : Nat) (data : Bytes)
    (reads : List BitRead) (hwidths : ∀ p ∈ pairs, p.2 ≤ 32)
    (hroom : (width pairs + 7) / 8 ≤ capacity) :
    ((BitReader.init (bitsWritten capacity pairs)).readAll (pairs.map Prod.snd) =
        pairs.map (fun p => p.1 % 2 ^ p.2) ↔ FitsBuffer 0 pairs) ∧
      ((∀ k, ((BitReader.init data).afterAll (reads.take k)).InStep
          ((reads.take k).foldl BitReader.leftAfter (8 * data.length))) ↔
        BitReader.AllWithin (8 * data.length) reads) := by
  refine ⟨?_, BitReader.inStep_iff (BitReader.reads_init data) reads⟩
  obtain ⟨hstream, hlength⟩ := leNat_bitsWritten hwidths hroom
  have hmem : ∀ w ∈ pairs.map Prod.snd, w ≤ 32 := by
    intro w hw
    obtain ⟨p, hp, rfl⟩ := List.mem_map.mp hw
    exact hwidths p hp
  have hreads := BitReader.reads_init (bitsWritten capacity pairs)
  rw [hstream, hlength] at hreads
  rw [BitReader.readAll_eq hreads hmem (by rw [← width]; omega),
    ← map_snd_fieldsKept 0, unpack_pack, values_fieldsKept_iff]

/-- 31 and 25 bits are written out at once, one bit and 32 more find room; a bit is read, then all
that is left. -/
theorem sixtyFourBits_inStep :
    ((BitReader.init (bitsWritten 12 [(5, 31), (9, 25), (1, 1), (7, 32)])).readAll
        ([(5, 31), (9, 25), (1, 1), (7, 32)].map Prod.snd) =
        [(5, 31), (9, 25), (1, 1), (7, 32)].map (fun p => p.1 % 2 ^ p.2) ↔
          FitsBuffer 0 [(5, 31), (9, 25), (1, 1), (7, 32)]) ∧
      ((∀ k, ((BitReader.init [5]).afterAll ([BitRead.bit, .bits 7].take k)).InStep
          (([BitRead.bit, .bits 7].take k).foldl BitReader.leftAfter 8)) ↔
        BitReader.AllWithin 8 [.bit, .bits 7]) :=
  bitStream_iff _ 12 [5] _ (by decide) (by decide)

/-- After 32 and 23 bits there is room for nine of 32 ones; a reader without a byte that is asked
for five bits has minus five left. -/
theorem bitStream_lost :
    (BitReader.init (bitsWritten 11 [(0, 32), (0, 23), (4294967295, 32)])).readAll
        ([(0, 32), (0, 23), (4294967295, 32)].map Prod.snd) ≠
        [(0, 32), (0, 23), (4294967295, 32)].map (fun p => p.1 % 2 ^ p.2) ∧
      ¬ 0 ≤ ((BitReader.init []).after (.bits 5)).bufferBits := by
  decide

end Carquet
