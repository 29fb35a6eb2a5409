import Carquet.Encoding.RleDecodeSpec

/-!
# RLE / bit-packed hybrid: the encoder

`src/encoding/rle.c:283-470`. The encoder holds a run (`prev_value`, `repeat_count`) and a
buffer of up to eight values that were not worth a run. Eight values make a bit-packed group
with a header of its own; a shorter rest is written as repeated runs, never padded.

`holds_rleEncodeOps`: what is written holds exactly the values put, modulo `2^bit_width`, whatever is
appended to it, so sections written one after the other read as one (`Holds.append`). The count of
a repeated run is shifted in 32 bits, so this is about runs below `2^31` (`RunsBelow`).
-/

namespace Carquet

open LittleEndian Leb128

/-! ## Model -/

/-- `write_varint` (rle.c:276-287), on a `uint32_t`. -/
def writeVarint (value : Nat) : Bytes := writeUleb 4 value

/-- `carquet_rle_encoder_t` (rle.h); `out` is what was appended to `buffer`. -/
structure RleEncoder where
  bitWidth : Nat
  prevValue : Nat
  repeatCount : Nat
  hasPrev : Bool
  bitpackBuffer : List Nat
  bitpackTotal : Nat
  out : Bytes

/-- `carquet_rle_encoder_init` (rle.c:379-388). -/
def rleEncoderInit (bitWidth : Nat) : RleEncoder := ⟨bitWidth, 0, 0, false, [], 0, []⟩

/-- A repeated run: `(uint32_t)(count << 1)`, then the value (rle.c:301-318, 333-347). -/
def rleRun (bitWidth count value : Nat) : Bytes :=
  writeVarint (count * 2 % 4294967296) ++ leBytes (rleValueBytes bitWidth) value

/-- `flush_rle` (rle.c:301-321). -/
def flushRle (enc : RleEncoder) : RleEncoder :=
  if enc.repeatCount = 0 then enc
  else { enc with
    out := enc.out ++ rleRun enc.bitWidth enc.repeatCount enc.prevValue, repeatCount := 0 }

/-- The loop of `flush_bitpack_as_rle` (rle.c:329-349). -/
def partialRuns (bitWidth : Nat) : Nat → List Nat → Bytes
  | 0, _ => []
  | _ + 1, [] => []
  | fuel + 1, val :: rest =>
    let run := (rest.takeWhile (· == val)).length + 1
    rleRun bitWidth run val ++ partialRuns bitWidth fuel (rest.drop (run - 1))

/-- `flush_bitpack_as_rle` (rle.c:323-353). -/
def flushBitpackAsRle (enc : RleEncoder) : RleEncoder :=
  { enc with
    out := enc.out ++ partialRuns enc.bitWidth enc.bitpackBuffer.length enc.bitpackBuffer
    bitpackBuffer := [], bitpackTotal := 0 }

/-- `flush_bitpack` (rle.c:355-377). -/
def flushBitpack (enc : RleEncoder) : RleEncoder :=
  if enc.bitpackBuffer.length = 0 then enc
  else if enc.bitpackBuffer.length < 8 then flushBitpackAsRle enc
  else
    let numGroups := (enc.bitpackTotal + 7) / 8
    let packed := (List.replicate numGroups (bitpack8 enc.bitWidth enc.bitpackBuffer)).flatten
    { enc with
      out := enc.out ++ writeVarint ((numGroups * 2 + 1) % 4294967296) ++ packed
      bitpackBuffer := [], bitpackTotal := 0 }

/-- The loop that moves a short run into the buffer (rle.c:417-424, 465-472). -/
def pushRepeats : Nat → RleEncoder → RleEncoder
  | 0, enc => enc
  | n + 1, enc =>
    let enc := { enc with
      bitpackBuffer := enc.bitpackBuffer ++ [enc.prevValue]
      bitpackTotal := enc.bitpackTotal + 1 }
    pushRepeats n (if enc.bitpackBuffer.length = 8 then flushBitpack enc else enc)

/-- A run shorter than eight goes to the buffer (rle.c:415-426, 464-472). -/
def endShortRun (enc : RleEncoder) : RleEncoder :=
  { pushRepeats enc.repeatCount enc with repeatCount := 0 }

/-- `carquet_rle_encoder_put` (rle.c:390-432). -/
def rleEncoderPut (enc : RleEncoder) (value : Nat) : RleEncoder :=
  if !enc.hasPrev then { enc with prevValue := value, repeatCount := 1, hasPrev := true }
  else if value = enc.prevValue then { enc with repeatCount := enc.repeatCount + 1 }
  else
    let enc :=
      if 8 ≤ enc.repeatCount then flushRle (flushBitpack enc)
      else endShortRun enc
    { enc with prevValue := value, repeatCount := 1 }

/-- `carquet_rle_encoder_put_repeat` (rle.c:434-457). -/
def rleEncoderPutRepeat (enc : RleEncoder) (value : Nat) (count : Int) : RleEncoder :=
  if count ≤ 0 then enc
  else if enc.hasPrev ∧ value = enc.prevValue then
    { enc with repeatCount := enc.repeatCount + count.toNat }
  else if enc.hasPrev then
    let enc := rleEncoderPut enc value
    { enc with repeatCount := enc.repeatCount + (count.toNat - 1) }
  else { enc with prevValue := value, repeatCount := count.toNat, hasPrev := true }

/-- `carquet_rle_encoder_flush` (rle.c:459-485). -/
def rleEncoderFlush (enc : RleEncoder) : RleEncoder :=
  if 8 ≤ enc.repeatCount then flushRle (flushBitpack enc)
  else if 0 < enc.repeatCount then
    flushBitpack (endShortRun enc)
  else enc

/-- `carquet_rle_encode_all` (rle.c:715-730): the bytes appended to the buffer. -/
def rleEncodeAll (bitWidth : Nat) (input : List Nat) : Bytes :=
  (rleEncoderFlush (input.foldl rleEncoderPut (rleEncoderInit bitWidth))).out

/-- A call of the encoder. -/
inductive RleOp where
  | put (value : Nat)
  | putRepeat (value : Nat) (count : Int)

def RleEncoder.step (enc : RleEncoder) : RleOp → RleEncoder
  | .put value => rleEncoderPut enc value
  | .putRepeat value count => rleEncoderPutRepeat enc value count

/-- The bytes of a sequence of calls, with a flush at its end. -/
def rleEncodeOps (bitWidth : Nat) (ops : List RleOp) : Bytes :=
  (rleEncoderFlush (ops.foldl RleEncoder.step (rleEncoderInit bitWidth))).out

/-- `carquet_rle_encode_levels` (rle.c:732-747). -/
def rleEncodeLevels (bitWidth : Nat) (input : List Int) : Bytes :=
  rleEncodeAll bitWidth (input.map toU32)

/-! ## What the bytes hold -/

/-- The bytes hold `values`, and leave what follows them to the rest of the stream. -/
def Holds (bitWidth : Nat) (bytes : Bytes) (values : List Nat) : Prop :=
  ∀ rest, hybridValues bitWidth (bytes ++ rest) = values ++ hybridValues bitWidth rest

theorem holds_nil (w : Nat) : Holds w [] [] := fun _ => rfl

theorem Holds.append {w : Nat} {a b : Bytes} {xs ys : List Nat} (ha : Holds w a xs)
    (hb : Holds w b ys) : Holds w (a ++ b) (xs ++ ys) := by
  intro rest
  rw [List.append_assoc, ha, hb, List.append_assoc]

theorem readVarint_writeVarint {value : Nat} (h : value < 4294967296) (rest : Bytes) :
    readVarint (writeVarint value ++ rest) = some (value, rest) :=
  readUleb_writeUleb (by omega) (by omega) rest

theorem holds_rleRun {w count : Nat} (value : Nat) (h0 : 0 < count) (hc : count < 2147483648) :
    Holds w (rleRun w count value) (List.replicate count (value % 2 ^ w)) := by
  intro rest
  have hmod : count * 2 % 4294967296 = count * 2 := by omega
  have hdiv : count * 2 / 2 = count := by omega
  have hdvd : 2 ^ w ∣ 256 ^ rleValueBytes w := by
    rw [show (256 : Nat) = 2 ^ 8 from rfl, ← Nat.pow_mul]
    refine Nat.pow_dvd_pow 2 ?_
    unfold rleValueBytes
    omega
  rw [hybridValues_eq, rleRun, List.append_assoc, hmod, readVarint_writeVarint (by omega)]
  have hlen := length_leBytes (rleValueBytes w) value
  simp only [hdiv]
  rw [if_neg (by omega), if_pos (by omega), if_neg (by rw [List.length_append]; omega),
    List.take_append_of_le_length (by omega), List.take_of_length_le (by omega),
    List.drop_append_of_le_length (by omega), List.drop_of_length_le (by omega),
    leNat_leBytes, Nat.mod_mod_of_dvd _ hdvd, List.nil_append]

theorem holds_group {w : Nat} {values : List Nat} (hlen : values.length = 8) :
    Holds w (writeVarint 3 ++ bitpack8 w values) (values.map (· % 2 ^ w)) := by
  intro rest
  have hgroup := length_bitpack8 (w := w) hlen
  rw [hybridValues_eq, List.append_assoc, readVarint_writeVarint (by omega)]
  simp only [show 3 / 2 = 1 from rfl, show 3 % 2 = 1 from rfl]
  rw [if_neg (by omega), if_neg (by omega), show 1 = 0 + 1 from rfl, packedRest_succ,
    if_neg (by rw [List.length_append]; omega), packedRest_zero, bitunpack8_bitpack8 hlen,
    List.drop_append_of_le_length (by omega), List.drop_of_length_le (by omega), List.nil_append]

theorem holds_partialRuns {w fuel : Nat} {values : List Nat}
    (hfuel : values.length ≤ fuel) (hlen : values.length < 2147483648) :
    Holds w (partialRuns w fuel values) (values.map (· % 2 ^ w)) := by
  induction fuel generalizing values with
  | zero =>
    have hnil : values = [] := List.length_eq_zero_iff.mp (by omega)
    subst hnil
    exact holds_nil w
  | succ fuel ih =>
    cases values with
    | nil => exact holds_nil w
    | cons val rest =>
      have hsplit : rest.takeWhile (· == val) =
          List.replicate (rest.takeWhile (· == val)).length val := by
        apply List.eq_replicate_iff.mpr
        refine ⟨rfl, fun b hb => ?_⟩
        have hall : (rest.takeWhile (· == val)).all (· == val) = true := List.all_takeWhile
        simpa using List.all_eq_true.mp hall b hb
      have hle : (rest.takeWhile (· == val)).length ≤ rest.length :=
        (List.takeWhile_prefix _).length_le
      have hvals : val :: rest = List.replicate ((rest.takeWhile (· == val)).length + 1) val ++
          rest.drop (rest.takeWhile (· == val)).length := by
        rw [List.replicate_succ, ← hsplit, List.cons_append]
        congr 1
        have htake : rest.takeWhile (· == val) =
            rest.take (rest.takeWhile (· == val)).length :=
          List.prefix_iff_eq_take.mp (List.takeWhile_prefix _)
        conv_lhs => rw [← List.take_append_drop (rest.takeWhile (· == val)).length rest]
        rw [← htake]
      simp only [List.length_cons] at hfuel hlen
      rw [partialRuns]
      simp only [Nat.add_sub_cancel]
      conv => rhs; rw [hvals, List.map_append, List.map_replicate]
      refine Holds.append (holds_rleRun val (by omega) (by omega)) (ih ?_ ?_)
      · rw [List.length_drop]
        omega
      · rw [List.length_drop]
        omega

/-! ## The encoder's invariant -/

/-- Between two runs: everything given is written or in the buffer. -/
structure RleEncoder.Buffered (enc : RleEncoder) (w : Nat) (values : List Nat) : Prop where
  widthEq : enc.bitWidth = w
  total : enc.bitpackTotal = enc.bitpackBuffer.length
  written : ∃ done, Holds w enc.out (done.map (· % 2 ^ w)) ∧ values = done ++ enc.bitpackBuffer

/-- The encoder was given `values`: what is not buffered or written is its current run. -/
structure RleEncoder.Given (enc : RleEncoder) (w : Nat) (values : List Nat) : Prop where
  short : enc.bitpackBuffer.length < 8
  run : if enc.hasPrev then 0 < enc.repeatCount else enc.repeatCount = 0 ∧ enc.bitpackBuffer = []
  buffered : ∃ before, enc.Buffered w before ∧
    values = before ++ List.replicate enc.repeatCount enc.prevValue

theorem buffered_flushBitpack {enc : RleEncoder} {w : Nat} {values : List Nat}
    (hle : enc.bitpackBuffer.length ≤ 8) (h : enc.Buffered w values) :
    (flushBitpack enc).Buffered w values ∧ (flushBitpack enc).bitpackBuffer = [] := by
  obtain ⟨rfl, htotal, done, hdone, hvals⟩ := h
  unfold flushBitpack
  split
  · rename_i h0
    have hnil := List.length_eq_zero_iff.mp h0
    exact ⟨⟨rfl, htotal, done, hdone, hvals⟩, hnil⟩
  · split
    · rename_i h8
      refine ⟨⟨rfl, rfl, values, ?_, by simp [flushBitpackAsRle]⟩, rfl⟩
      rw [hvals, List.map_append]
      exact hdone.append (holds_partialRuns (Nat.le_refl _) (by omega))
    · have hlen : enc.bitpackBuffer.length = 8 := by omega
      refine ⟨⟨rfl, rfl, values, ?_, by simp⟩, rfl⟩
      simp only [htotal, hlen]
      rw [hvals, List.append_assoc, List.map_append]
      refine hdone.append ?_
      simpa using holds_group hlen

/-- What `flush_bitpack` and the push loop leave alone. -/
theorem flushBitpack_frame (enc : RleEncoder) :
    (flushBitpack enc).prevValue = enc.prevValue ∧
      (flushBitpack enc).repeatCount = enc.repeatCount ∧
      (flushBitpack enc).hasPrev = enc.hasPrev := by
  unfold flushBitpack flushBitpackAsRle
  split
  · exact ⟨rfl, rfl, rfl⟩
  · split <;> exact ⟨rfl, rfl, rfl⟩

theorem pushRepeats_frame (n : Nat) (enc : RleEncoder) :
    (pushRepeats n enc).prevValue = enc.prevValue ∧
      (pushRepeats n enc).repeatCount = enc.repeatCount ∧
      (pushRepeats n enc).hasPrev = enc.hasPrev := by
  induction n generalizing enc with
  | zero => exact ⟨rfl, rfl, rfl⟩
  | succ n ih =>
    rw [pushRepeats]
    obtain ⟨h1, h2, h3⟩ := ih (if (enc.bitpackBuffer ++ [enc.prevValue]).length = 8 then
      flushBitpack { enc with
        bitpackBuffer := enc.bitpackBuffer ++ [enc.prevValue]
        bitpackTotal := enc.bitpackTotal + 1 }
      else { enc with
        bitpackBuffer := enc.bitpackBuffer ++ [enc.prevValue]
        bitpackTotal := enc.bitpackTotal + 1 })
    simp only
    rw [h1, h2, h3]
    split
    · obtain ⟨g1, g2, g3⟩ := flushBitpack_frame { enc with
        bitpackBuffer := enc.bitpackBuffer ++ [enc.prevValue]
        bitpackTotal := enc.bitpackTotal + 1 }
      exact ⟨g1, g2, g3⟩
    · exact ⟨rfl, rfl, rfl⟩

theorem buffered_pushRepeats {n : Nat} {enc : RleEncoder} {w : Nat} {values : List Nat}
    (hshort : enc.bitpackBuffer.length < 8) (h : enc.Buffered w values) :
    (pushRepeats n enc).Buffered w (values ++ List.replicate n enc.prevValue) ∧
      (pushRepeats n enc).bitpackBuffer.length < 8 := by
  induction n generalizing enc values with
  | zero => simpa [pushRepeats] using ⟨h, hshort⟩
  | succ n ih =>
    obtain ⟨hwidth, htotal, done, hdone, hvals⟩ := h
    generalize hpush : ({ enc with
        bitpackBuffer := enc.bitpackBuffer ++ [enc.prevValue]
        bitpackTotal := enc.bitpackTotal + 1 } : RleEncoder) = enc₁
    have hb₁ : enc₁.Buffered w (values ++ [enc.prevValue]) := by
      rw [← hpush]
      refine ⟨hwidth, by simp [htotal], done, hdone, ?_⟩
      rw [hvals, List.append_assoc]
    have hlen₁ : enc₁.bitpackBuffer.length ≤ 8 := by
      rw [← hpush]
      simp only [List.length_append, List.length_singleton]
      omega
    have hprev₁ : enc₁.prevValue = enc.prevValue := by rw [← hpush]
    have hstep : ∀ e : RleEncoder, e.Buffered w (values ++ [enc.prevValue]) →
        e.bitpackBuffer.length < 8 → e.prevValue = enc.prevValue →
        (pushRepeats n e).Buffered w (values ++ List.replicate (n + 1) enc.prevValue) ∧
          (pushRepeats n e).bitpackBuffer.length < 8 := by
      intro e he hshort' hpe
      have := ih hshort' he
      rw [hpe, List.append_assoc] at this
      simpa [List.replicate_succ] using this
    have heq : pushRepeats (n + 1) enc =
        pushRepeats n (if enc₁.bitpackBuffer.length = 8 then flushBitpack enc₁ else enc₁) := by
      rw [pushRepeats, hpush]
    rw [heq]
    split
    · obtain ⟨hf, hnil⟩ := buffered_flushBitpack hlen₁ hb₁
      exact hstep _ hf (by rw [hnil]; simp) ((flushBitpack_frame enc₁).1.trans hprev₁)
    · exact hstep _ hb₁ (by omega) hprev₁

/-- The end of a run, as `put` and `flush` do it (rle.c:409-426, 464-477). -/
theorem buffered_endRun {enc : RleEncoder} {w : Nat} {values : List Nat}
    (hcount : enc.repeatCount < 2147483648) (h : enc.Given w values) :
    (8 ≤ enc.repeatCount → (flushRle (flushBitpack enc)).Buffered w values ∧
      (flushRle (flushBitpack enc)).bitpackBuffer = []) ∧
    (endShortRun enc).Buffered w values ∧ (endShortRun enc).bitpackBuffer.length < 8 := by
  obtain ⟨hshort, hrun, before, hbuf, rfl⟩ := h
  constructor
  · intro h8
    obtain ⟨⟨hwidth, htotal, done, hdone, hd⟩, hnil⟩ :=
      buffered_flushBitpack (Nat.le_of_lt hshort) hbuf
    obtain ⟨hf1, hf2, -⟩ := flushBitpack_frame enc
    rw [flushRle, if_neg (by omega)]
    refine ⟨⟨hwidth, htotal, before ++ List.replicate enc.repeatCount enc.prevValue, ?_, ?_⟩, hnil⟩
    · simp only [hf1, hf2, hwidth, List.map_append, List.map_replicate]
      rw [hd, hnil, List.append_nil]
      exact hdone.append (holds_rleRun _ (by omega) hcount)
    · simp [hnil]
  · obtain ⟨⟨h1, h2, h3⟩, h4⟩ := buffered_pushRepeats hshort hbuf
    exact ⟨⟨h1, h2, h3⟩, h4⟩

theorem given_put {enc : RleEncoder} {w : Nat} {values : List Nat} (value : Nat)
    (hcount : enc.repeatCount < 2147483648) (h : enc.Given w values) :
    (rleEncoderPut enc value).Given w (values ++ [value]) := by
  obtain ⟨hrle, hpush, hpshort⟩ := buffered_endRun hcount h
  obtain ⟨hshort, hrun, before, hbuf, hvals⟩ := h
  rw [rleEncoderPut]
  by_cases hprev : enc.hasPrev = true
  · rw [if_pos hprev] at hrun
    rw [if_neg (by simp [hprev])]
    by_cases heq : value = enc.prevValue
    · rw [if_pos heq]
      refine ⟨hshort, ?_, before, ⟨hbuf.1, hbuf.2, hbuf.3⟩, ?_⟩
      · simp only [hprev, if_true]
        omega
      · rw [hvals, List.replicate_succ', ← List.append_assoc, heq]
    · rw [if_neg heq]
      by_cases h8 : 8 ≤ enc.repeatCount
      · obtain ⟨hb, hnil⟩ := hrle h8
        have hhas : (flushRle (flushBitpack enc)).hasPrev = true := by
          rw [flushRle]
          split
          · rw [(flushBitpack_frame enc).2.2, hprev]
          · rw [(flushBitpack_frame enc).2.2, hprev]
        simp only [if_pos h8]
        refine ⟨by rw [hnil]; simp, ?_, values, ⟨hb.1, hb.2, hb.3⟩, by simp⟩
        simp only [hhas, if_true]
        exact Nat.one_pos
      · simp only [if_neg h8]
        refine ⟨hpshort, ?_, values, ⟨hpush.1, hpush.2, hpush.3⟩, by simp⟩
        simp only [endShortRun, (pushRepeats_frame _ enc).2.2, hprev, if_true]
        exact Nat.one_pos
  · rw [if_neg hprev] at hrun
    rw [if_pos (by simpa using hprev)]
    refine ⟨hshort, ?_, before, ⟨hbuf.1, hbuf.2, hbuf.3⟩, ?_⟩
    · simp only [if_true]
      exact Nat.one_pos
    · rw [hvals, hrun.1]
      simp

/-- After a `put` the run is that of its value. -/
theorem rleEncoderPut_run (enc : RleEncoder) (value : Nat) :
    (rleEncoderPut enc value).prevValue = value ∧ (rleEncoderPut enc value).hasPrev = true := by
  unfold rleEncoderPut
  split
  · exact ⟨rfl, rfl⟩
  · rename_i hprev
    have hprev' : enc.hasPrev = true := by simpa using hprev
    split
    · rename_i heq
      exact ⟨heq.symm, hprev'⟩
    · refine ⟨rfl, ?_⟩
      dsimp only
      split
      · unfold flushRle
        split <;> exact (flushBitpack_frame enc).2.2.trans hprev'
      · exact (pushRepeats_frame _ enc).2.2.trans hprev'

/-- A run that goes on. -/
theorem RleEncoder.Given.extend {enc : RleEncoder} {w : Nat} {values : List Nat}
    (h : enc.Given w values) (hprev : enc.hasPrev = true) (n : Nat) :
    ({ enc with repeatCount := enc.repeatCount + n } : RleEncoder).Given w
      (values ++ List.replicate n enc.prevValue) := by
  obtain ⟨hshort, hrun, before, hbuf, rfl⟩ := h
  rw [if_pos hprev] at hrun
  refine ⟨hshort, ?_, before, ⟨hbuf.1, hbuf.2, hbuf.3⟩, ?_⟩
  · dsimp only
    rw [if_pos hprev]
    omega
  · dsimp only
    rw [List.append_assoc, List.replicate_append_replicate]

/-- The values a call puts. -/
def RleOp.values : RleOp → List Nat
  | .put value => [value]
  | .putRepeat value count => List.replicate count.toNat value

/-- The values a sequence of calls puts. -/
def valuesPut (ops : List RleOp) : List Nat := ops.flatMap RleOp.values

/-- **One call.** -/
theorem given_step {enc : RleEncoder} {w : Nat} {values : List Nat} (op : RleOp)
    (hcount : enc.repeatCount < 2147483648) (h : enc.Given w values) :
    (enc.step op).Given w (values ++ op.values) := by
  cases op with
  | put value => exact given_put value hcount h
  | putRepeat value count =>
    unfold RleEncoder.step rleEncoderPutRepeat RleOp.values
    dsimp only
    by_cases hpos : count ≤ 0
    · rw [if_pos hpos, Int.toNat_of_nonpos hpos, List.replicate_zero, List.append_nil]
      exact h
    · rw [if_neg hpos]
      have hone : count.toNat = 1 + (count.toNat - 1) := by omega
      by_cases hprev : enc.hasPrev = true
      · by_cases heq : value = enc.prevValue
        · rw [if_pos ⟨hprev, heq⟩, heq]
          exact h.extend hprev _
        · rw [if_neg fun hand => heq hand.2, if_pos hprev]
          obtain ⟨hvalue, hhas⟩ := rleEncoderPut_run enc value
          have hput := (given_put value hcount h).extend hhas (count.toNat - 1)
          have hruns : [value] ++ List.replicate (count.toNat - 1) (rleEncoderPut enc value).prevValue =
              List.replicate count.toNat value := by
            rw [hvalue, ← List.replicate_one, List.replicate_append_replicate, ← hone]
          rw [List.append_assoc, hruns] at hput
          exact hput
      · rw [if_neg fun hand => hprev hand.1, if_neg hprev]
        obtain ⟨hshort, hrun, before, hbuf, rfl⟩ := h
        rw [if_neg hprev] at hrun
        refine ⟨hshort, ?_, before, ⟨hbuf.1, hbuf.2, hbuf.3⟩, ?_⟩
        · dsimp only
          rw [if_pos rfl]
          omega
        · dsimp only
          rw [hrun.1, List.replicate_zero, List.append_nil]

/-- No value stands `2^31` times in a row. -/
def RunsBelow (values : List Nat) : Prop :=
  ∀ n v, List.replicate n v <:+: values → n < 2147483648

theorem RunsBelow.of_length {values : List Nat} (h : values.length < 2147483648) :
    RunsBelow values := fun n v hrun => by
  have hle := hrun.length_le
  rw [List.length_replicate] at hle
  omega

theorem RleEncoder.Given.repeatCount_lt {enc : RleEncoder} {w : Nat} {values more : List Nat}
    (h : enc.Given w values) (hruns : RunsBelow (values ++ more)) :
    enc.repeatCount < 2147483648 := by
  obtain ⟨before, -, rfl⟩ := h.buffered
  exact hruns _ enc.prevValue ⟨before, more, rfl⟩

theorem given_foldl {w : Nat} (ops : List RleOp) {enc : RleEncoder} {values : List Nat}
    (hruns : RunsBelow (values ++ valuesPut ops)) (h : enc.Given w values) :
    (ops.foldl RleEncoder.step enc).Given w (values ++ valuesPut ops) := by
  induction ops generalizing enc values with
  | nil => simpa [valuesPut] using h
  | cons op ops ih =>
    have hassoc : values ++ valuesPut (op :: ops) = values ++ op.values ++ valuesPut ops := by
      rw [valuesPut, List.flatMap_cons, List.append_assoc, valuesPut]
    have hcount := h.repeatCount_lt hruns
    rw [hassoc] at hruns ⊢
    exact ih hruns (given_step op hcount h)

/-- What a flush leaves is written. -/
theorem holds_flush {enc : RleEncoder} {w : Nat} {values : List Nat} (h : enc.Given w values)
    (hcount : enc.repeatCount < 2147483648) :
    Holds w (rleEncoderFlush enc).out (values.map (· % 2 ^ w)) := by
  obtain ⟨hrle, hpush, hpshort⟩ := buffered_endRun hcount h
  have hdone : ∀ e : RleEncoder, e.Buffered w values → e.bitpackBuffer = [] →
      Holds w e.out (values.map (· % 2 ^ w)) := by
    rintro e ⟨-, -, done, hd, rfl⟩ hnil
    rwa [hnil, List.append_nil]
  unfold rleEncoderFlush
  split
  · rename_i h8
    exact hdone _ (hrle h8).1 (hrle h8).2
  · split
    · obtain ⟨hb, hnil⟩ := buffered_flushBitpack (Nat.le_of_lt hpshort) hpush
      exact hdone _ hb hnil
    · rename_i h0
      obtain ⟨-, hrun, before, hbuf, rfl⟩ := h
      have hno : ¬ enc.hasPrev = true := by
        intro hp
        rw [if_pos hp] at hrun
        omega
      rw [if_neg hno] at hrun
      rw [hrun.1, List.replicate_zero, List.append_nil] at hdone ⊢
      exact hdone _ hbuf hrun.2

/-- **What the encoder writes** holds exactly the values put, modulo `2^bit_width`, whatever
follows. -/
theorem holds_rleEncodeOps (w : Nat) (ops : List RleOp) (hruns : RunsBelow (valuesPut ops)) :
    Holds w (rleEncodeOps w ops) ((valuesPut ops).map (· % 2 ^ w)) := by
  have hinit : (rleEncoderInit w).Given w [] :=
    ⟨by simp [rleEncoderInit], by simp [rleEncoderInit], [],
      ⟨rfl, rfl, [], holds_nil w, rfl⟩, by simp [rleEncoderInit]⟩
  have hgiven := given_foldl ops hruns hinit
  rw [List.nil_append] at hgiven
  exact holds_flush hgiven
    (hgiven.repeatCount_lt (show RunsBelow (valuesPut ops ++ []) by rwa [List.append_nil]))

/-- The encoder of a whole list is a sequence of `put`. -/
theorem holds_rleEncodeAll_of_runs {w : Nat} {input : List Nat} (hv : ∀ v ∈ input, v < 2 ^ w)
    (hruns : RunsBelow input) : Holds w (rleEncodeAll w input) input := by
  have hops : rleEncodeAll w input = rleEncodeOps w (input.map RleOp.put) := by
    rw [rleEncodeOps, List.foldl_map]
    rfl
  have hput : valuesPut (input.map RleOp.put) = input := by
    rw [valuesPut, List.flatMap_map]
    exact List.flatMap_singleton' input
  have hholds := holds_rleEncodeOps w (input.map RleOp.put) (by rwa [hput])
  rw [hput] at hholds
  rw [hops]
  convert hholds
  calc input = input.map id := (List.map_id input).symm
    _ = input.map (· % 2 ^ w) := List.map_congr_left fun v hm => (Nat.mod_eq_of_lt (hv v hm)).symm

theorem holds_rleEncodeAll {w : Nat} {input : List Nat} (hv : ∀ v ∈ input, v < 2 ^ w)
    (hlen : input.length < 2147483648) : Holds w (rleEncodeAll w input) input :=
  holds_rleEncodeAll_of_runs hv (.of_length hlen)

/-- **RLE round trips** every sequence of calls with runs below `2^31`: the decoder yields the
values put, modulo `2^bit_width`, as many as it is asked for. -/
theorem rle_roundTrips (w : Nat) (ops : List RleOp) (hw : w ≤ 32)
    (hruns : RunsBelow (valuesPut ops)) :
    ∀ maxValues, rleDecodeAll (rleEncodeOps w ops) w maxValues =
      ((valuesPut ops).map (· % 2 ^ w)).take maxValues := by
  intro maxValues
  have hholds := holds_rleEncodeOps w ops hruns []
  rw [List.append_nil, hybridValues_nil, List.append_nil] at hholds
  rw [rleDecodeAll_eq_take (by omega) (by omega), Int.toNat_natCast, hholds]

/-- A value that is too wide, a run, and a value that is left in the buffer. -/
theorem threeCalls_roundTrip :
    rleDecodeAll (rleEncodeOps 3 [.put 9, .putRepeat 2 10, .put 5]) 3 20 =
      [1, 2, 2, 2, 2, 2, 2, 2, 2, 2, 2, 5] :=
  rle_roundTrips 3 _ (by decide) (.of_length (by decide)) 20

/-! ## Level sections -/

theorem map_toI16_toU32 {levels : List Int} {maxLevel : Int} (hmax : maxLevel < 32768)
    (h : ∀ l ∈ levels, 0 ≤ l ∧ l ≤ maxLevel) :
    (levels.map toU32).map (fun v : Nat => toI16 v) = levels := by
  rw [List.map_map]
  conv_rhs => rw [← List.map_id levels]
  apply List.map_congr_left
  intro l hl
  obtain ⟨h1, h2⟩ := h l hl
  simp only [Function.comp, toU32, toI16, id]
  omega

/-- Levels written in one section or several read back in order. -/
theorem rleDecodeLevels_of_holds {w : Nat} (hw : w ≤ 32) {bytes : Bytes} {levels : List Int}
    {maxLevel : Int} (hmax : maxLevel < 32768) (h : ∀ l ∈ levels, 0 ≤ l ∧ l ≤ maxLevel)
    (hholds : Holds w bytes (levels.map toU32)) :
    rleDecodeLevels bytes w levels.length = levels := by
  have hval : hybridValues w bytes = levels.map toU32 := by
    simpa using hholds []
  have hnat : ((w : Int)).toNat = w := Int.toNat_natCast w
  rw [rleDecodeLevels_eq_take (by omega) (by omega) (by rw [hnat, hval]; simp), hnat, hval,
    List.take_of_length_le (by simp), map_toI16_toU32 hmax h]

theorem holds_rleEncodeLevels {w : Nat} {levels : List Int} (hlen : levels.length < 2147483648)
    (h : ∀ l ∈ levels, toU32 l < 2 ^ w) :
    Holds w (rleEncodeLevels w levels) (levels.map toU32) := by
  apply holds_rleEncodeAll
  · intro v hv
    obtain ⟨l, hl, rfl⟩ := List.mem_map.mp hv
    exact h l hl
  · simpa using hlen

end Carquet
