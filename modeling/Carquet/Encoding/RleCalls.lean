import Carquet.Encoding.RleDecodeSpec

/-!
# RLE / bit-packed hybrid: one decoder, many calls

`carquet_rle_decoder_get`, `carquet_rle_decoder_get_batch` and `carquet_rle_decoder_skip`
(rle.c:147-268) share a decoder: the run that is open, how much of it is left and the group that
was unpacked. Skipping leaves the decoder that reading leaves (`rleDecoderSkip_eq`) and a single
value is a batch of one (`rleDecoderGet_eq`), so a decoder in the middle of anything is a cursor
on the values of the stream, and a run of calls answers what that cursor does (`answers_eq`).
-/

namespace Carquet

open LittleEndian Leb128

/-! ## The calls -/

/-- "Need new run?": every call opens one when none is. -/
def RleDecoder.openRun (dec : RleDecoder) : Bool × RleDecoder :=
  if dec.runRemaining = 0 then startNewRun dec.rest.length dec else (true, dec)

/-- Inside a bit-packed run every call unpacks a group when none is left of the last. -/
def RleDecoder.openGroup (dec : RleDecoder) : Bool × RleDecoder :=
  if dec.bitpack.isEmpty then fillBitpackBuffer dec else (true, dec)

/-- `carquet_rle_decoder_get_batch` (rle.c:175-222): the values and the decoder it leaves. -/
def rleDecoderGetBatch : Nat → Nat → RleDecoder → List Nat × RleDecoder
  | 0, _, dec => ([], dec)
  | fuel + 1, count, dec =>
    if 0 < count ∧ dec.hasNext then
      let (started, dec) := dec.openRun
      if started then
        let (values, dec) := getFromRun count dec
        let (more, dec) := rleDecoderGetBatch fuel (count - values.length) dec
        (values ++ more, dec)
      else ([], dec)
    else ([], dec)

/-- `carquet_rle_decoder_get` (rle.c:147-173). -/
def rleDecoderGet (dec : RleDecoder) : Nat × RleDecoder :=
  if dec.status ≠ .ok then (0, dec)
  else
    let (started, dec) := dec.openRun
    if started then
      if dec.inRleRun then (dec.rleValue, { dec with runRemaining := dec.runRemaining - 1 })
      else
        let (filled, dec) := dec.openGroup
        if filled then
          (dec.bitpack.headD 0,
            { dec with bitpack := dec.bitpack.tail, runRemaining := dec.runRemaining - 1 })
        else (0, dec)
    else (0, dec)

/-- The loop of `carquet_rle_decoder_skip` over a bit-packed run (rle.c:248-263). -/
def skipPacked : Nat → Nat → RleDecoder → Nat × RleDecoder
  | 0, _, dec => (0, dec)
  | fuel + 1, toSkip, dec =>
    if 0 < toSkip ∧ 0 < dec.runRemaining then
      let (filled, dec) := dec.openGroup
      if filled then
        let canSkip := min (min dec.bitpack.length toSkip) dec.runRemaining
        let (more, dec') := skipPacked fuel (toSkip - canSkip)
          { dec with bitpack := dec.bitpack.drop canSkip
                     runRemaining := dec.runRemaining - canSkip }
        (canSkip + more, dec')
      else (0, dec)
    else (0, dec)

/-- One pass of the skip loop once a run is open (rle.c:237-264). -/
def skipFromRun (count : Nat) (dec : RleDecoder) : Nat × RleDecoder :=
  let toSkip := min count dec.runRemaining
  if dec.inRleRun then (toSkip, { dec with runRemaining := dec.runRemaining - toSkip })
  else skipPacked toSkip toSkip dec

/-- `carquet_rle_decoder_skip` (rle.c:224-268): how many values were skipped. -/
def rleDecoderSkip : Nat → Nat → RleDecoder → Nat × RleDecoder
  | 0, _, dec => (0, dec)
  | fuel + 1, count, dec =>
    if 0 < count ∧ dec.hasNext then
      let (started, dec) := dec.openRun
      if started then
        let (skipped, dec) := skipFromRun count dec
        let (more, dec) := rleDecoderSkip fuel (count - skipped) dec
        (skipped + more, dec)
      else (0, dec)
    else (0, dec)

/-- A call on a decoder. A negative count is one of zero: the loops are not entered. -/
inductive RleCall where
  | get
  | getBatch (count : Int)
  | skip (count : Int)
  deriving DecidableEq, Repr

/-- What a call returns. -/
inductive RleAnswer where
  | value (v : Nat)
  | values (vs : List Nat)
  | skipped (n : Nat)
  deriving DecidableEq, Repr

/-- How many values a call asks for. -/
def RleCall.count : RleCall → Nat
  | .get => 1
  | .getBatch count => count.toNat
  | .skip count => count.toNat

/-- One call. -/
def RleDecoder.call (dec : RleDecoder) : RleCall → RleAnswer × RleDecoder
  | .get => ((.value (rleDecoderGet dec).1), (rleDecoderGet dec).2)
  | .getBatch count =>
    let r := rleDecoderGetBatch (count.toNat + 1) count.toNat dec
    (.values r.1, r.2)
  | .skip count =>
    let r := rleDecoderSkip (count.toNat + 1) count.toNat dec
    (.skipped r.1, r.2)

/-- What a run of calls returns, and the decoder it leaves. -/
def RleDecoder.calls : RleDecoder → List RleCall → List RleAnswer × RleDecoder
  | dec, [] => ([], dec)
  | dec, call :: calls =>
    let (answer, dec) := dec.call call
    let (answers, dec) := dec.calls calls
    (answer :: answers, dec)

/-! ## The cursor -/

/-- What a call returns at position `pos` of these values. -/
def RleCall.answerAt (whole : List Nat) (pos : Nat) : RleCall → RleAnswer
  | .get => .value (whole.getD pos 0)
  | .getBatch count => .values ((whole.drop pos).take count.toNat)
  | .skip count => .skipped (min count.toNat (whole.length - pos))

/-- What a run of calls returns from position `pos` on, each call where the last one stopped. -/
def answersFrom (whole : List Nat) : Nat → List RleCall → List RleAnswer
  | _, [] => []
  | pos, call :: calls =>
    call.answerAt whole pos :: answersFrom whole (pos + call.count) calls

/-- How many values a run of calls asks for. -/
def askedFor (calls : List RleCall) : Nat := (calls.map RleCall.count).sum

/-! ## Opening a run, opening a group -/

theorem getPacked_succ (fuel count : Nat) (dec : RleDecoder) :
    getPacked (fuel + 1) count dec =
      if 0 < count ∧ 0 < dec.runRemaining then
        if dec.openGroup.1 then
          let n := min count (min dec.openGroup.2.bitpack.length dec.openGroup.2.runRemaining)
          let r := getPacked fuel (count - n) { dec.openGroup.2 with
            bitpack := dec.openGroup.2.bitpack.drop n
            runRemaining := dec.openGroup.2.runRemaining - n }
          (dec.openGroup.2.bitpack.take n ++ r.1, r.2)
        else ([], dec.openGroup.2)
      else ([], dec) := rfl

theorem rleDecoderGetBatch_fst (fuel count : Nat) (dec : RleDecoder) :
    (rleDecoderGetBatch fuel count dec).1 = getBatch fuel count dec := by
  induction fuel generalizing count dec with
  | zero => rfl
  | succ fuel ih =>
    have hbatch : getBatch (fuel + 1) count dec =
        if 0 < count ∧ dec.hasNext then
          if dec.openRun.1 then
            (getFromRun count dec.openRun.2).1 ++ getBatch fuel
              (count - (getFromRun count dec.openRun.2).1.length) (getFromRun count dec.openRun.2).2
          else []
        else [] := rfl
    rw [rleDecoderGetBatch, hbatch]
    split
    · dsimp only
      split
      · rw [ih]
      · rfl
    · rfl

/-- Where no run can be opened, the stream has ended or is broken. -/
theorem startNewRun_fails {fuel : Nat} {dec : RleDecoder} (hfuel : dec.rest.length ≤ fuel)
    (hr : dec.runRemaining = 0) (h : (startNewRun fuel dec).1 = false) :
    (startNewRun fuel dec).2.status ≠ .ok ∨
      (startNewRun fuel dec).2.runRemaining = 0 ∧ (startNewRun fuel dec).2.rest = [] := by
  induction fuel generalizing dec with
  | zero =>
    have hnil : dec.rest = [] := List.length_eq_zero_iff.mp (by omega)
    exact Or.inr ⟨hr, hnil⟩
  | succ fuel ih =>
    rw [startNewRun] at h ⊢
    by_cases hempty : dec.rest.isEmpty = true
    · rw [if_pos hempty]
      exact Or.inr ⟨hr, by simpa using hempty⟩
    · rw [if_neg hempty] at h ⊢
      cases hv : readVarint dec.rest with
      | none => exact Or.inl (by simp)
      | some p =>
        obtain ⟨header, rest⟩ := p
        have hlt : rest.length ≤ fuel := by
          have := length_readUleb hv
          omega
        simp only [hv] at h ⊢
        split at h
        · rename_i heven
          rw [if_pos heven]
          split at h
          · rename_i hn
            rw [if_pos hn]
            exact ih hlt hn h
          · rename_i hn
            rw [if_neg hn]
            split at h
            · rename_i hshort
              rw [if_pos hshort]
              exact Or.inl (by simp)
            · cases h
        · rename_i hodd
          rw [if_neg hodd]
          split at h
          · rename_i hn
            rw [if_pos hn]
            exact ih hlt hn h
          · cases h

/-- What a decoder must keep between calls, as long as it has not failed. -/
def RleDecoder.Sound (dec : RleDecoder) : Prop := dec.status = .ok → dec.Aligned

theorem sound_of_status {dec : RleDecoder} (h : dec.status ≠ .ok) : dec.Sound :=
  fun hok => absurd hok h

theorem openRun_spec {dec : RleDecoder} (hs : dec.status = .ok) (ha : dec.Aligned) :
    if dec.openRun.1 then
      dec.openRun.2.pending = dec.pending ∧ dec.openRun.2.Aligned ∧
        dec.openRun.2.status = .ok ∧ 0 < dec.openRun.2.runRemaining
    else dec.pending = [] ∧ dec.openRun.2.pending = [] ∧ dec.openRun.2.Sound := by
  unfold RleDecoder.openRun
  by_cases hz : dec.runRemaining = 0
  · rw [if_pos hz]
    have hspec := startNewRun_spec (Nat.le_refl _) hs hz (Prod.mk.eta).symm
    split at hspec
    · rename_i hstarted
      rw [if_pos hstarted]
      exact hspec
    · rename_i hfailed
      rw [if_neg hfailed]
      refine ⟨hspec, ?_⟩
      rcases startNewRun_fails (Nat.le_refl _) hz (by simpa using hfailed) with hbad | ⟨hr, hend⟩
      · exact ⟨pending_of_status hbad, sound_of_status hbad⟩
      · constructor
        · rw [RleDecoder.pending, hr, hend]
          simp
        · intro _ _ hpos
          omega
  · rw [if_neg hz]
    exact ⟨rfl, ha, hs, by simp only; omega⟩

/-! ## A batch leaves the rest of the stream -/

theorem rleDecoderGetBatch_of_status {fuel count : Nat} {dec : RleDecoder}
    (h : dec.status ≠ .ok) : rleDecoderGetBatch fuel count dec = ([], dec) := by
  cases fuel with
  | zero => rfl
  | succ fuel =>
    have hnext : dec.hasNext = false := by simp [RleDecoder.hasNext, h]
    rw [rleDecoderGetBatch, if_neg (by simp [hnext])]

theorem pending_of_not_hasNext {dec : RleDecoder} (h : dec.hasNext = false) :
    dec.pending = [] := by
  by_cases hs : dec.status = .ok
  · simp only [RleDecoder.hasNext, hs, beq_self_eq_true, Bool.true_and, Bool.or_eq_false_iff,
      decide_eq_false_iff_not, Bool.not_eq_false', List.isEmpty_iff] at h
    simp [RleDecoder.pending, hs, Nat.eq_zero_of_not_pos h.1, h.2]
  · exact pending_of_status hs

/-- A batch hands out what it can of what the decoder holds, and leaves the rest. -/
theorem rleDecoderGetBatch_spec {fuel count : Nat} {dec : RleDecoder} (hfuel : count < fuel)
    (hsound : dec.Sound) :
    let r := rleDecoderGetBatch fuel count dec
    dec.pending = r.1 ++ r.2.pending ∧ r.1.length ≤ count ∧
      (r.1.length < count → r.2.pending = []) ∧ r.2.Sound := by
  induction fuel generalizing count dec with
  | zero => omega
  | succ fuel ih =>
    rw [rleDecoderGetBatch]
    by_cases hgo : 0 < count ∧ dec.hasNext = true
    · rw [if_pos hgo]
      have hs : dec.status = .ok := by
        by_contra hbad
        simp [RleDecoder.hasNext, hbad] at hgo
      have hopen := openRun_spec hs (hsound hs)
      dsimp only
      by_cases hstarted : dec.openRun.1 = true
      · rw [if_pos hstarted] at hopen ⊢
        obtain ⟨hp₁, ha₁, hs₁, hr₁⟩ := hopen
        obtain ⟨hp₂, ha₂, hle, hprog⟩ :=
          @getFromRun_spec count dec.openRun.2 _ _ hs₁ ha₁ hr₁ (Prod.mk.eta).symm
        generalize getFromRun count dec.openRun.2 = run at hp₂ ha₂ hle hprog ⊢
        obtain ⟨values, dec₂⟩ := run
        dsimp only at hp₂ ha₂ hle hprog ⊢
        by_cases hs₂ : dec₂.status = .ok
        · have hlen : 0 < values.length := (hprog hgo.1).resolve_right (not_not.mpr hs₂)
          obtain ⟨hp₃, hle₃, hend, hsound₃⟩ := @ih (count - values.length) dec₂ (by omega)
            fun _ => ha₂
          refine ⟨?_, ?_, fun hshort => hend ?_, hsound₃⟩
          · rw [← hp₁, hp₂, hp₃, List.append_assoc]
          · rw [List.length_append]
            omega
          · rw [List.length_append] at hshort
            omega
        · rw [rleDecoderGetBatch_of_status hs₂, List.append_nil]
          exact ⟨by rw [← hp₁, hp₂], hle, fun _ => pending_of_status hs₂, sound_of_status hs₂⟩
      · rw [if_neg hstarted] at hopen ⊢
        obtain ⟨hnone, hend, hsound'⟩ := hopen
        exact ⟨by rw [hnone, hend]; rfl, Nat.zero_le _, fun _ => hend, hsound'⟩
    · rw [if_neg hgo]
      refine ⟨rfl, Nat.zero_le _, fun hpos => pending_of_not_hasNext ?_, hsound⟩
      have hpos' : 0 < count := hpos
      simpa [hpos'] using hgo

/-! ## Skipping is reading, one value is a batch of one -/

/-- Unpacking a group leaves the count of the run alone, and a value in the buffer. -/
theorem openGroup_spec (dec : RleDecoder) :
    dec.openGroup.2.runRemaining = dec.runRemaining ∧
      (dec.openGroup.1 = true → 0 < dec.openGroup.2.bitpack.length) := by
  unfold RleDecoder.openGroup
  split
  · unfold fillBitpackBuffer
    split
    · simp
    · split <;> simp
  · rename_i hne
    exact ⟨rfl, fun _ => List.length_pos_iff.mpr (by simpa using hne)⟩

theorem getPacked_done {fuel count : Nat} {dec : RleDecoder}
    (h : min count dec.runRemaining = 0) : getPacked fuel count dec = ([], dec) := by
  cases fuel with
  | zero => rfl
  | succ fuel => rw [getPacked_succ, if_neg (by omega)]

/-- In a bit-packed run no more is handed out than is left of it, a value a turn at least. -/
theorem getPacked_min {fuel fuel' count : Nat} {dec : RleDecoder}
    (h : min count dec.runRemaining ≤ fuel) (h' : min count dec.runRemaining ≤ fuel') :
    getPacked fuel (min count dec.runRemaining) dec = getPacked fuel' count dec := by
  induction fuel generalizing fuel' count dec with
  | zero =>
    rw [getPacked_done (by omega), getPacked_done (Nat.le_zero.mp h)]
  | succ fuel ih =>
    cases fuel' with
    | zero =>
      rw [getPacked_done (by omega), getPacked_done (Nat.le_zero.mp h')]
    | succ fuel' =>
      obtain ⟨hrun, hvalue⟩ := openGroup_spec dec
      rw [getPacked_succ, getPacked_succ]
      by_cases hgo : 0 < count ∧ 0 < dec.runRemaining
      · rw [if_pos hgo, if_pos (by omega)]
        by_cases hfilled : dec.openGroup.1 = true
        · have hlen := hvalue hfilled
          rw [if_pos hfilled, if_pos hfilled]
          dsimp only
          rw [hrun]
          have hn : min (min count dec.runRemaining)
              (min dec.openGroup.2.bitpack.length dec.runRemaining) =
                min count (min dec.openGroup.2.bitpack.length dec.runRemaining) := by omega
          rw [hn]
          generalize hm : min count (min dec.openGroup.2.bitpack.length dec.runRemaining) = n
          have hleft : min count dec.runRemaining - n = min (count - n) (dec.runRemaining - n) := by
            omega
          have hrec := @ih fuel' (count - n) { dec.openGroup.2 with
            bitpack := dec.openGroup.2.bitpack.drop n
            runRemaining := dec.runRemaining - n } (by dsimp only; omega) (by dsimp only; omega)
          rw [hleft, hrec]
        · rw [if_neg hfilled, if_neg hfilled]
      · rw [if_neg hgo, if_neg (by omega)]

theorem skipPacked_eq (fuel toSkip : Nat) (dec : RleDecoder) :
    skipPacked fuel toSkip dec =
      ((getPacked fuel toSkip dec).1.length, (getPacked fuel toSkip dec).2) := by
  induction fuel generalizing toSkip dec with
  | zero => rfl
  | succ fuel ih =>
    rw [skipPacked, getPacked_succ]
    split
    · dsimp only
      split
      · have hn : min (min dec.openGroup.2.bitpack.length toSkip) dec.openGroup.2.runRemaining =
            min toSkip (min dec.openGroup.2.bitpack.length dec.openGroup.2.runRemaining) := by
          omega
        rw [hn, ih, List.length_append, List.length_take]
        congr 2
        omega
      · rfl
    · rfl

theorem skipFromRun_eq (count : Nat) (dec : RleDecoder) :
    skipFromRun count dec = ((getFromRun count dec).1.length, (getFromRun count dec).2) := by
  unfold skipFromRun getFromRun
  by_cases hrle : dec.inRleRun = true
  · rw [if_pos hrle, if_pos hrle, List.length_replicate]
  · rw [if_neg hrle, if_neg hrle, skipPacked_eq,
      getPacked_min (Nat.le_refl _) (Nat.min_le_left count dec.runRemaining)]

/-- **Skipping advances as reading and discarding does.** -/
theorem rleDecoderSkip_eq (fuel count : Nat) (dec : RleDecoder) :
    rleDecoderSkip fuel count dec =
      ((rleDecoderGetBatch fuel count dec).1.length, (rleDecoderGetBatch fuel count dec).2) := by
  induction fuel generalizing count dec with
  | zero => rfl
  | succ fuel ih =>
    rw [rleDecoderSkip, rleDecoderGetBatch]
    split
    · dsimp only
      split
      · rw [skipFromRun_eq, ih, List.length_append]
      · rfl
    · rfl

theorem openGroup_fails {dec : RleDecoder} (hr : 0 < dec.runRemaining)
    (h : dec.openGroup.1 = false) : dec.openGroup.2.status ≠ .ok := by
  unfold RleDecoder.openGroup fillBitpackBuffer at *
  rw [if_neg (Nat.ne_of_gt hr)] at *
  split
  · rename_i hempty
    rw [if_pos hempty] at h
    split
    · simp
    · rename_i hroom
      rw [if_neg hroom] at h
      cases h
  · rename_i hbuffered
    rw [if_neg hbuffered] at h
    cases h

/-- Asking for nothing changes nothing. -/
theorem rleDecoderGetBatch_zero (fuel : Nat) (dec : RleDecoder) :
    rleDecoderGetBatch fuel 0 dec = ([], dec) := by
  cases fuel with
  | zero => rfl
  | succ fuel => rw [rleDecoderGetBatch, if_neg (by omega)]

theorem rleDecoderGet_packed {dec : RleDecoder} (hr : 0 < dec.runRemaining) :
    getPacked 1 1 dec =
      if dec.openGroup.1 then
        ([dec.openGroup.2.bitpack.headD 0], { dec.openGroup.2 with
          bitpack := dec.openGroup.2.bitpack.tail
          runRemaining := dec.openGroup.2.runRemaining - 1 })
      else ([], dec.openGroup.2) := by
  obtain ⟨hrun, hvalue⟩ := openGroup_spec dec
  rw [getPacked_succ, if_pos ⟨Nat.one_pos, hr⟩]
  by_cases hfilled : dec.openGroup.1 = true
  · have hlen := hvalue hfilled
    have hn : min 1 (min dec.openGroup.2.bitpack.length dec.openGroup.2.runRemaining) = 1 := by
      omega
    rw [if_pos hfilled, if_pos hfilled, hn]
    obtain ⟨v, vs, hbuffer⟩ := List.exists_cons_of_length_pos hlen
    simp [getPacked, hbuffer]
  · rw [if_neg hfilled, if_neg hfilled]

/-- **A single value is a batch of one**, and zero where the batch is empty. -/
theorem rleDecoderGet_eq {dec : RleDecoder} (hsound : dec.Sound) :
    rleDecoderGet dec =
      ((rleDecoderGetBatch 2 1 dec).1.headD 0, (rleDecoderGetBatch 2 1 dec).2) := by
  rw [rleDecoderGet]
  by_cases hs : dec.status = .ok
  · rw [if_neg (not_not.mpr hs)]
    have hopen := openRun_spec hs (hsound hs)
    cases hnext : dec.hasNext with
    | false =>
      simp only [RleDecoder.hasNext, hs, beq_self_eq_true, Bool.true_and, Bool.or_eq_false_iff,
        decide_eq_false_iff_not, Bool.not_eq_false', List.isEmpty_iff] at hnext
      have hrun : dec.openRun = (false, dec) := by
        rw [RleDecoder.openRun, if_pos (Nat.eq_zero_of_not_pos hnext.1), hnext.2]
        rfl
      have hstop : ¬(0 < 1 ∧ dec.hasNext = true) := by simp [RleDecoder.hasNext, hs, hnext]
      rw [hrun, rleDecoderGetBatch, if_neg hstop]
      rfl
    | true =>
      rw [rleDecoderGetBatch, if_pos ⟨Nat.one_pos, hnext⟩]
      dsimp only
      by_cases hstarted : dec.openRun.1 = true
      · rw [if_pos hstarted] at hopen
        obtain ⟨-, -, -, hr⟩ := hopen
        rw [if_pos hstarted, if_pos hstarted, getFromRun]
        by_cases hrle : dec.openRun.2.inRleRun = true
        · have hone : min 1 dec.openRun.2.runRemaining = 1 := by omega
          rw [if_pos hrle, if_pos hrle, hone]
          simp [rleDecoderGetBatch_zero]
        · rw [if_neg hrle, if_neg hrle, rleDecoderGet_packed hr]
          by_cases hfilled : dec.openRun.2.openGroup.1 = true
          · rw [if_pos hfilled, if_pos hfilled]
            simp [rleDecoderGetBatch_zero]
          · have hbad := openGroup_fails hr (by simpa using hfilled)
            rw [if_neg hfilled, if_neg hfilled]
            simp [rleDecoderGetBatch_of_status hbad]
      · rw [if_neg hstarted, if_neg hstarted]
        rfl
  · rw [if_pos hs, rleDecoderGetBatch_of_status hs]
    rfl

/-! ## A run of calls -/

theorem rleDecoderGetBatch_eq {fuel count : Nat} {dec : RleDecoder} (hfuel : count < fuel)
    (hsound : dec.Sound) :
    (rleDecoderGetBatch fuel count dec).1 = dec.pending.take count ∧
      (rleDecoderGetBatch fuel count dec).2.pending = dec.pending.drop count ∧
      (rleDecoderGetBatch fuel count dec).2.Sound := by
  obtain ⟨hp, hle, hend, hsound'⟩ := rleDecoderGetBatch_spec hfuel hsound
  generalize rleDecoderGetBatch fuel count dec = r at *
  rw [hp, List.take_append, List.drop_append, List.take_of_length_le hle,
    List.drop_of_length_le hle]
  by_cases hshort : r.1.length < count
  · rw [hend hshort]
    exact ⟨by simp, by simp, hsound'⟩
  · have hzero : count - r.1.length = 0 := by omega
    rw [hzero]
    exact ⟨by simp, by simp, hsound'⟩

/-- What a decoder answers is what a cursor on the values it holds does. -/
theorem call_spec {dec : RleDecoder} (hsound : dec.Sound) (call : RleCall) :
    (dec.call call).1 = call.answerAt dec.pending 0 ∧
      (dec.call call).2.pending = dec.pending.drop call.count ∧ (dec.call call).2.Sound := by
  cases call with
  | get =>
    obtain ⟨hvalues, hrest, hsound'⟩ := rleDecoderGetBatch_eq Nat.one_lt_two hsound
    simp only [RleDecoder.call, rleDecoderGet_eq hsound, RleCall.answerAt, RleCall.count]
    refine ⟨?_, hrest, hsound'⟩
    rw [hvalues]
    cases dec.pending <;> rfl
  | getBatch count =>
    obtain ⟨hvalues, hrest, hsound'⟩ :=
      rleDecoderGetBatch_eq (Nat.lt_succ_self count.toNat) hsound
    refine ⟨?_, hrest, hsound'⟩
    simp only [RleDecoder.call, RleCall.answerAt, hvalues, List.drop_zero]
  | skip count =>
    obtain ⟨hvalues, hrest, hsound'⟩ :=
      rleDecoderGetBatch_eq (Nat.lt_succ_self count.toNat) hsound
    simp only [RleDecoder.call, rleDecoderSkip_eq, RleCall.answerAt, RleCall.count]
    refine ⟨?_, hrest, hsound'⟩
    rw [hvalues, List.length_take, Nat.sub_zero]

theorem answerAt_drop (whole : List Nat) (start pos : Nat) (call : RleCall) :
    call.answerAt (whole.drop start) pos = call.answerAt whole (start + pos) := by
  cases call with
  | get => simp only [RleCall.answerAt, List.getD_eq_getElem?_getD, List.getElem?_drop]
  | getBatch count => simp only [RleCall.answerAt, List.drop_drop]
  | skip count => simp only [RleCall.answerAt, List.length_drop, Nat.sub_sub]

theorem answersFrom_drop (whole : List Nat) (start pos : Nat) (calls : List RleCall) :
    answersFrom (whole.drop start) pos calls = answersFrom whole (start + pos) calls := by
  induction calls generalizing pos with
  | nil => rfl
  | cons call calls ih => rw [answersFrom, answersFrom, answerAt_drop, ih, Nat.add_assoc]

/-- The values past those a call asks for do not matter to it. -/
theorem answerAt_take {whole : List Nat} {pos total : Nat} {call : RleCall}
    (h : pos + call.count ≤ total) :
    call.answerAt (whole.take total) pos = call.answerAt whole pos := by
  cases call with
  | get =>
    have hlt : pos < total := h
    simp only [RleCall.answerAt, List.getD_eq_getElem?_getD, List.getElem?_take_of_lt hlt]
  | getBatch count =>
    have hle : pos + count.toNat ≤ total := h
    rw [RleCall.answerAt, RleCall.answerAt, List.drop_take, List.take_take,
      Nat.min_eq_left (by omega)]
  | skip count =>
    have hle : pos + count.toNat ≤ total := h
    rw [RleCall.answerAt, RleCall.answerAt, List.length_take]
    congr 1
    omega

theorem answersFrom_take {whole : List Nat} {pos total : Nat} {calls : List RleCall}
    (h : pos + askedFor calls ≤ total) :
    answersFrom (whole.take total) pos calls = answersFrom whole pos calls := by
  induction calls generalizing pos with
  | nil => rfl
  | cons call calls ih =>
    have hcount : askedFor (call :: calls) = call.count + askedFor calls := by
      simp [askedFor]
    rw [answersFrom, answersFrom, answerAt_take (by omega), ih (by omega)]

/-- A run of calls on a decoder in the middle of anything. -/
theorem calls_spec {dec : RleDecoder} (hsound : dec.Sound) (calls : List RleCall) :
    (dec.calls calls).1 = answersFrom dec.pending 0 calls ∧ (dec.calls calls).2.Sound := by
  induction calls generalizing dec with
  | nil => exact ⟨rfl, hsound⟩
  | cons call calls ih =>
    obtain ⟨hanswer, hrest, hsound'⟩ := call_spec hsound call
    obtain ⟨hanswers, hsound''⟩ := ih hsound'
    rw [RleDecoder.calls, answersFrom]
    refine ⟨?_, hsound''⟩
    dsimp only
    rw [hanswer, hanswers, hrest, answersFrom_drop, Nat.zero_add, Nat.add_zero]

theorem rleDecoderInit_sound (input : Bytes) (bitWidth : Int) :
    (rleDecoderInit input bitWidth).Sound := by
  unfold rleDecoderInit
  split
  · exact sound_of_status (by simp)
  · intro _ _ hpos
    simp at hpos

/-- **Every interleaving of calls answers from one batch of the whole stream**, each at the position
the calls before it have come to: a batch the values there, a skip how many there are, a single
value the one there, or 0 past the last. Whatever the calls so far, skipping leaves the decoder
that a batch of as many leaves, and a single value the decoder that a batch of one leaves. -/
theorem answers_eq (input : Bytes) (bitWidth : Int) (calls : List RleCall) (more : Nat) :
    let run := (rleDecoderInit input bitWidth).calls calls
    let whole := rleDecodeAll input bitWidth (askedFor calls + more)
    run.1 = answersFrom whole 0 calls ∧
      (∀ count, (run.2.call (.skip count)).2 = (run.2.call (.getBatch count)).2) ∧
      (run.2.call .get).2 = (run.2.call (.getBatch 1)).2 := by
  intro run whole
  have hsound := rleDecoderInit_sound input bitWidth
  have hwhole : whole = (rleDecoderInit input bitWidth).pending.take (askedFor calls + more) := by
    rw [← (rleDecoderGetBatch_eq (Nat.lt_succ_self _) hsound).1, rleDecoderGetBatch_fst]
    rfl
  obtain ⟨hanswers, hsound'⟩ := calls_spec hsound calls
  refine ⟨?_, fun count => ?_, ?_⟩
  · rw [hwhole, answersFrom_take (by omega)]
    exact hanswers
  · simp only [RleDecoder.call, rleDecoderSkip_eq]
  · simp only [RleDecoder.call]
    rw [rleDecoderGet_eq hsound']
    rfl

/-- A single value asked of a stream that has none is 0, with no error; the batch has no value. -/
theorem endOfStream_value :
    ((rleDecoderInit [] 1).calls [.get]).1 = [.value 0] ∧
      ((rleDecoderInit [] 1).calls [.get]).2.status = .ok ∧
      ((rleDecoderInit [] 1).calls [.getBatch 1]).1 = [.values []] ∧
      ∀ n, rleDecodeAll [] 1 n = [] := by
  refine ⟨by decide, by decide, by decide, fun n => ?_⟩
  rw [rleDecodeAll_eq_take (by decide) (by decide), hybridValues_nil, List.take_nil]

end Carquet
