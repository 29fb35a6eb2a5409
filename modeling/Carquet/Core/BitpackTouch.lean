import Carquet.Core.BitpackKernels
import Carquet.Lib.Access
import Mathlib.Tactic.Ring

/-!
# The bytes that packing and unpacking touch

`carquet_bitunpack_32` and `carquet_bitpack_32` (bitpack.c:215-347) over arrays of fixed sizes: what
lies outside cannot be read or stored. `bitunpack32In` takes the wide path where the dispatch table
has a kernel, then groups of eight, then a tail from a zero-padded copy.

Both report `carquet_packed_size(count, bit_width)` bytes. Unpacking needs no other byte
(`bitunpack32In_eq`). Packing does: it packs the last values as a whole group, `bit_width` bytes,
where fewer are reported (`bitpack32In_eq`).
-/

namespace Carquet

open LittleEndian Access

/-! ## Model -/

/-- `carquet_packed_size` (bitpack.h:194-196). -/
def packedSize (count w : Nat) : Nat := (count * w + 7) / 8

/-- The kernels found in the dispatch table, among those that may be registered. -/
structure Dispatch where
  group : Nat → Option Kernel
  wide : Nat → Option Kernel
  group_mem : ∀ w k, group w = some k → k ∈ groupKernels w
  wide_mem : ∀ w k, wide w = some k → k ∈ wideKernels w

/-- What `carquet_bitunpack8_32` runs for a width that is not 0: the kernel, or the scalar code. -/
def Dispatch.groupKernel (d : Dispatch) (w : Nat) : Kernel :=
  match d.group w with
  | some k => k
  | none => ⟨8, w, bitunpack8 w⟩

/-- `n` calls of a kernel, from `pos` on and `step` bytes apart. -/
def readGroups (k : Kernel) (step : Nat) (input : Bytes) :
    Nat → Nat → Except (Fault Empty) (List Nat)
  | 0, _ => .ok []
  | n + 1, pos => do
    let bytes ← sliceAt input pos k.load
    let values ← readGroups k step input n (pos + step)
    .ok (k.run bytes ++ values)

/-- The wide path of `carquet_bitunpack_32` (bitpack.c:231-240): its values, how many there are,
and the bytes consumed. -/
def readWide (d : Dispatch) (w count : Nat) (input : Bytes) :
    Except (Fault Empty) (List Nat × Nat × Nat) :=
  match d.wide w with
  | none => .ok ([], 0, 0)
  | some k => do
    let wbytes := packedSize k.vals w
    let values ← readGroups k wbytes input (count / k.vals) 0
    .ok (values, count / k.vals * k.vals, count / k.vals * wbytes)

/-- `carquet_bitunpack_32` (bitpack.c:215-264). -/
def bitunpack32In (d : Dispatch) (w count : Nat) (input : Bytes) :
    Except (Fault Empty) (List Nat × Nat) :=
  if w = 0 then .ok (List.replicate count 0, 0)
  else do
    let (wide, i, consumed) ← readWide d w count input
    let n := (count - i) / 8
    let groups ← readGroups (d.groupKernel w) w input n consumed
    let i := i + n * 8
    let consumed := consumed + n * w
    if i < count then do
      let tailBytes := packedSize (count - i) w
      let tail ← sliceAt input consumed tailBytes
      let temp ← readGroups (d.groupKernel w) w (tail ++ List.replicate (32 - tailBytes) 0) 1 0
      .ok (wide ++ groups ++ temp.take (count - i), consumed + tailBytes)
    else .ok (wide ++ groups, consumed)

/-- The groups of `carquet_bitpack_32` (bitpack.c:329-333), each of which `carquet_bitpack8_32`
clears and fills. -/
def writeGroups (w : Nat) : Nat → List Nat → Bytes → Nat → Except (Fault Empty) Bytes
  | 0, _, output, _ => .ok output
  | n + 1, values, output, pos => do
    let output ← copyAt output pos (bitpack8 w (values.take 8))
    writeGroups w n (values.drop 8) output (pos + w)

/-- `carquet_bitpack_32` (bitpack.c:320-347): the output, and the bytes reported. -/
def bitpack32In (w : Nat) (values : List Nat) (output : Bytes) :
    Except (Fault Empty) (Bytes × Nat) :=
  if w = 0 ∨ values.length = 0 then .ok (output, 0)
  else do
    let n := values.length / 8
    let output ← writeGroups w n values output 0
    if n * 8 < values.length then do
      let rest := values.length - n * 8
      let temp := values.drop (n * 8) ++ List.replicate (8 - rest) 0
      let output ← copyAt output (n * w) (bitpack8 w temp)
      .ok (output, n * w + packedSize rest w)
    else .ok (output, n * w)

/-! ## Unpacking -/

theorem bitunpackGroups_add (w m n : Nat) (input : Bytes) :
    bitunpackGroups w (m + n) input =
      bitunpackGroups w m input ++ bitunpackGroups w n (input.drop (m * w)) := by
  induction m generalizing input with
  | zero => simp [bitunpackGroups]
  | succ m ih =>
    rw [Nat.add_right_comm, bitunpackGroups, bitunpackGroups, ih, List.append_assoc,
      List.drop_drop, Nat.succ_mul, Nat.add_comm w]

theorem bitunpackGroups_take {w n : Nat} {input : Bytes} (h : n * w ≤ input.length) :
    bitunpackGroups w n (input.take (n * w)) = bitunpackGroups w n input := by
  induction n generalizing input with
  | zero => rfl
  | succ n ih =>
    have hmul : (n + 1) * w = w + n * w := by rw [Nat.succ_mul, Nat.add_comm]
    have hfirst : bitunpack8 w (input.take (w + n * w)) = bitunpack8 w input := by
      rw [← bitunpack8_take w (input.take _) (by rw [List.length_take]; omega), List.take_take,
        Nat.min_eq_left (by omega), bitunpack8_take w input (by omega)]
    rw [hmul, bitunpackGroups, bitunpackGroups, hfirst, List.drop_take, Nat.add_sub_cancel_left,
      ih (by rw [List.length_drop]; omega)]

/-- Calls whose bytes are all there give the groups they stand for; others have no result. -/
theorem readGroups_eq {k : Kernel} {w : Nat} (hk : k.Unpacks w) {input : Bytes} (n : Nat) {pos : Nat}
    (hpos : pos ≤ input.length) :
    readGroups k (k.vals / 8 * w) input n pos =
      if pos + n * (k.vals / 8 * w) ≤ input.length then
        .ok (bitunpackGroups w (n * (k.vals / 8)) (input.drop pos))
      else .error .outside := by
  induction n generalizing pos with
  | zero =>
    rw [if_pos (by omega), Nat.zero_mul]
    rfl
  | succ n ih =>
    have hmul : (n + 1) * (k.vals / 8 * w) = k.vals / 8 * w + n * (k.vals / 8 * w) := by
      rw [Nat.succ_mul, Nat.add_comm]
    rw [readGroups, hk.load_eq, hmul]
    by_cases hone : pos + k.vals / 8 * w ≤ input.length
    · rw [sliceAt_of_le hone, ih hone]
      dsimp only [bind, Except.bind]
      by_cases hall : pos + (k.vals / 8 * w + n * (k.vals / 8 * w)) ≤ input.length
      · rw [if_pos (by omega), if_pos hall]
        dsimp only
        rw [hk.run_eq _ (by rw [List.length_take, List.length_drop, hk.load_eq]; omega),
          bitunpackGroups_take (by rw [List.length_drop]; omega), Nat.succ_mul,
          Nat.add_comm (n * _), bitunpackGroups_add, List.drop_drop]
      · rw [if_neg (by omega), if_neg hall]
    · rw [sliceAt, if_neg hone, if_neg (by omega)]
      rfl

theorem packedSize_groups {vals : Nat} (h : vals % 8 = 0) (w : Nat) :
    packedSize vals w = vals / 8 * w := by
  obtain ⟨m, rfl⟩ : ∃ m, vals = 8 * m := ⟨vals / 8, by omega⟩
  rw [packedSize, Nat.mul_div_cancel_left m (by decide), Nat.mul_assoc]
  omega

/-- Whole groups in front take whole bytes. -/
theorem packedSize_add (n rest w : Nat) :
    packedSize (n * 8 + rest) w = n * w + packedSize rest w := by
  have hmul : (n * 8 + rest) * w = 8 * (n * w) + rest * w := by ring
  rw [packedSize, packedSize, hmul]
  omega

theorem Dispatch.groupKernel_unpacks (d : Dispatch) (w : Nat) :
    (d.groupKernel w).vals = 8 ∧ (d.groupKernel w).Unpacks w := by
  unfold Dispatch.groupKernel
  split
  · rename_i k hk
    exact groupKernels_unpack (d.group_mem w k hk)
  · exact ⟨rfl, unpacks_group fun bytes _ => (bitunpackGroups_one w bytes).symm⟩

theorem readGroups_group (d : Dispatch) (w : Nat) {input : Bytes} (n : Nat) {pos : Nat}
    (hpos : pos ≤ input.length) :
    readGroups (d.groupKernel w) w input n pos =
      if pos + n * w ≤ input.length then .ok (bitunpackGroups w n (input.drop pos))
      else .error .outside := by
  obtain ⟨hvals, hunpacks⟩ := d.groupKernel_unpacks w
  have hread := @readGroups_eq _ w hunpacks input n pos hpos
  rwa [hvals, show 8 / 8 = 1 from rfl, Nat.one_mul, Nat.mul_one] at hread

/-- The wide path gives the groups in front, a number of them. -/
theorem readWide_eq (d : Dispatch) (w count : Nat) (input : Bytes) :
    ∃ m, m ≤ count / 8 ∧ readWide d w count input =
      if m * w ≤ input.length then .ok (bitunpackGroups w m input, m * 8, m * w)
      else .error .outside := by
  unfold readWide
  cases hwide : d.wide w with
  | none => exact ⟨0, Nat.zero_le _, by simp [bitunpackGroups]⟩
  | some k =>
    have hk := wideKernels_unpack (d.wide_mem w k hwide)
    obtain ⟨g, hg⟩ : ∃ g, k.vals = 8 * g := ⟨k.vals / 8, by have := hk.vals_mod; omega⟩
    have hg8 : k.vals / 8 = g := by omega
    have hle : count / k.vals * g ≤ count / 8 := by
      rw [Nat.le_div_iff_mul_le (by decide), Nat.mul_assoc, Nat.mul_comm g, ← hg]
      exact Nat.div_mul_le_self count k.vals
    have hread := @readGroups_eq k w hk input (count / k.vals) 0 (Nat.zero_le _)
    rw [hg8, Nat.zero_add, ← Nat.mul_assoc] at hread
    refine ⟨count / k.vals * g, hle, ?_⟩
    dsimp only
    rw [packedSize_groups hk.vals_mod, hg8, hread]
    by_cases hroom : count / k.vals * g * w ≤ input.length
    · rw [if_pos hroom, if_pos hroom]
      have hvals : count / k.vals * k.vals = count / k.vals * g * 8 := by rw [hg]; ring
      have hbytes : count / k.vals * (g * w) = count / k.vals * g * w := by ring
      dsimp only [bind, Except.bind]
      rw [hvals, hbytes, List.drop_zero]
    · rw [if_neg hroom, if_neg hroom]
      rfl

theorem leNat_append_zeros (bytes : Bytes) (n : Nat) :
    leNat (bytes ++ List.replicate n 0) = leNat bytes := by
  rw [leNat_append, leNat_replicate_zero, Nat.mul_zero, Nat.add_zero]

/-- Unpacking reads the bytes it reports, whatever kernels there are, and gives what groups of eight
give. -/
theorem bitunpack32In_eq (d : Dispatch) {w : Nat} (hw : w ≤ 32) (count : Nat) (input : Bytes) :
    bitunpack32In d w count input =
      if packedSize count w ≤ input.length then .ok (bitunpack32 w count input)
      else .error .outside := by
  unfold bitunpack32In bitunpack32
  by_cases hz : w = 0
  · subst hz
    rw [if_pos rfl, if_pos rfl, if_pos (by simp [packedSize])]
  · rw [if_neg hz, if_neg hz]
    obtain ⟨m, hm, hwide⟩ := readWide_eq d w count input
    have hsize := packedSize_add (count / 8) (count % 8) w
    rw [show count / 8 * 8 + count % 8 = count by omega] at hsize
    obtain ⟨n, hn⟩ : ∃ n, count / 8 = m + n := ⟨count / 8 - m, by omega⟩
    have hnw : count / 8 * w = m * w + n * w := by rw [hn, Nat.add_mul]
    have hgroups : (count - m * 8) / 8 = n := by omega
    have hi : m * 8 + n * 8 = count / 8 * 8 := by omega
    have hrest : count - count / 8 * 8 = count % 8 := by omega
    rw [hwide]
    by_cases hwhole : m * w ≤ input.length
    · rw [if_pos hwhole]
      dsimp only [bind, Except.bind]
      rw [hgroups, readGroups_group d w n hwhole, ← hnw]
      by_cases hall : count / 8 * w ≤ input.length
      · rw [if_pos hall]
        dsimp only
        rw [← bitunpackGroups_add, ← hn, hi, hrest]
        by_cases htail : count % 8 = 0
        · have hzero : packedSize 0 w = 0 := by simp [packedSize]
          rw [htail, hzero, Nat.add_zero] at hsize
          rw [if_neg (by omega), if_pos htail, if_pos (by omega)]
        · rw [if_pos (by omega), if_neg htail]
          by_cases hfits : count / 8 * w + packedSize (count % 8) w ≤ input.length
          · have hpadded : w ≤ (((input.drop (count / 8 * w)).take (packedSize (count % 8) w)) ++
                List.replicate (32 - packedSize (count % 8) w) (0 : UInt8)).length := by
              rw [List.length_append, List.length_take, List.length_drop, List.length_replicate]
              omega
            rw [sliceAt_of_le hfits, if_pos (by omega)]
            dsimp only
            rw [readGroups_group d w 1 (Nat.zero_le _), if_pos (by omega), List.drop_zero,
              bitunpackGroups_one, bitunpack8_eq, bitunpack8_eq, leNat_append_zeros]
            rfl
          · rw [sliceAt, if_neg hfits, if_neg (by omega)]
      · rw [if_neg hall, if_neg (by omega)]
    · rw [if_neg hwhole, if_neg (by omega)]
      rfl

/-! ## Packing -/

/-- The bytes that packing stores into: whole groups, the last one included. -/
def bytesStored (count w : Nat) : Nat := count / 8 * w + if count % 8 = 0 then 0 else w

theorem writeGroups_eq {w : Nat} (n : Nat) {values : List Nat} {output : Bytes} {pos : Nat}
    (hvalues : n * 8 ≤ values.length) (hpos : pos ≤ output.length) :
    writeGroups w n values output pos =
      if pos + n * w ≤ output.length then
        .ok (output.take pos ++ bitpackGroups w n values ++ output.drop (pos + n * w))
      else .error .outside := by
  induction n generalizing values output pos with
  | zero =>
    rw [if_pos (by omega), bitpackGroups, List.append_nil, Nat.zero_mul, Nat.add_zero,
      List.take_append_drop]
    rfl
  | succ n ih =>
    have hmul : (n + 1) * w = w + n * w := by rw [Nat.succ_mul, Nat.add_comm]
    have hlen : (bitpack8 w (values.take 8)).length = w :=
      length_bitpack8 (by rw [List.length_take]; omega)
    rw [writeGroups, hmul]
    by_cases hone : pos + w ≤ output.length
    · rw [copyAt_of_le (by rw [hlen]; exact hone), hlen]
      dsimp only [bind, Except.bind]
      have hfront : (output.take pos ++ bitpack8 w (values.take 8)).length = pos + w := by
        rw [List.length_append, List.length_take, hlen]
        omega
      have hout : (output.take pos ++ bitpack8 w (values.take 8) ++ output.drop (pos + w)).length =
          output.length := by
        rw [List.length_append, hfront, List.length_drop]
        omega
      rw [ih (by rw [List.length_drop]; omega) (by rw [hout]; exact hone), hout, bitpackGroups]
      by_cases hall : pos + (w + n * w) ≤ output.length
      · have hdrop : (output.take pos ++ bitpack8 w (values.take 8) ++ output.drop (pos + w)).drop
            (pos + w + n * w) = output.drop (pos + (w + n * w)) := by
          rw [← List.drop_drop, List.drop_left' hfront, List.drop_drop, Nat.add_assoc]
        rw [if_pos (by omega), if_pos hall, List.take_left' hfront, hdrop]
        simp only [List.append_assoc]
      · rw [if_neg (by omega), if_neg hall]
    · rw [copyAt, if_neg (by rw [hlen]; exact hone), if_neg (by omega)]
      rfl

theorem bitpack32_eq {w : Nat} (hw : w ≠ 0) (values : List Nat) : bitpack32 w values =
    bitpackGroups w (values.length / 8) values ++
      if values.length % 8 = 0 then []
      else (bitpack8 w (values.drop (values.length / 8 * 8) ++
        List.replicate (8 - values.length % 8) 0)).take (packedSize (values.length % 8) w) := by
  unfold bitpack32
  rw [if_neg hw]
  dsimp only
  split
  · rw [List.append_nil]
  · rfl

/-- The last values, filled up with zeros. -/
theorem length_lastGroup (values : List Nat) : (values.drop (values.length / 8 * 8) ++
    List.replicate (8 - values.length % 8) 0).length = 8 := by
  rw [List.length_append, List.length_drop, List.length_replicate]
  omega

theorem packedSize_le {rest w : Nat} (h : rest ≤ 8) : packedSize rest w ≤ w := by
  have := Nat.mul_le_mul_right w h
  rw [packedSize]
  omega

theorem packedSize_split (count w : Nat) :
    packedSize count w = count / 8 * w + packedSize (count % 8) w := by
  have hsize := packedSize_add (count / 8) (count % 8) w
  rwa [show count / 8 * 8 + count % 8 = count by omega] at hsize

theorem packedSize_zero_left (w : Nat) : packedSize 0 w = 0 := by simp [packedSize]

theorem length_bitpack32 (w : Nat) (values : List Nat) :
    (bitpack32 w values).length = packedSize values.length w := by
  by_cases hz : w = 0
  · subst hz
    simp [bitpack32, packedSize]
  · rw [bitpack32_eq hz, List.length_append, length_bitpackGroups (by omega),
      packedSize_split values.length w]
    by_cases htail : values.length % 8 = 0
    · rw [if_pos htail, htail, packedSize_zero_left]
      rfl
    · have hle : packedSize (values.length % 8) w ≤ w := packedSize_le (by omega)
      rw [if_neg htail, List.length_take, length_bitpack8 (length_lastGroup values),
        Nat.min_eq_left hle]

/-- Packing stores into whole groups, and reports the packed size. -/
theorem bitpack32In_eq (w : Nat) (values : List Nat) (output : Bytes) :
    ∃ stored : Bytes, stored.length = bytesStored values.length w ∧
      bitpack32 w values = stored.take (packedSize values.length w) ∧
      bitpack32In w values output =
        if bytesStored values.length w ≤ output.length then
          .ok (stored ++ output.drop (bytesStored values.length w), packedSize values.length w)
        else .error .outside := by
  unfold bitpack32In
  by_cases hnone : w = 0 ∨ values.length = 0
  · refine ⟨[], ?_, ?_, ?_⟩
    · rcases hnone with rfl | hnil
      · simp [bytesStored]
      · simp [bytesStored, hnil]
    · rw [List.take_nil]
      apply List.eq_nil_of_length_eq_zero
      rw [length_bitpack32]
      rcases hnone with rfl | hnil
      · simp [packedSize]
      · rw [hnil, packedSize_zero_left]
    · have hstored : bytesStored values.length w = 0 := by
        rcases hnone with rfl | hnil
        · simp [bytesStored]
        · simp [bytesStored, hnil]
      have hsize : packedSize values.length w = 0 := by
        rcases hnone with rfl | hnil
        · simp [packedSize]
        · rw [hnil, packedSize_zero_left]
      rw [if_pos hnone, hstored, hsize, if_pos (Nat.zero_le _)]
      rfl
  · obtain ⟨hw, hvalues⟩ := not_or.mp hnone
    have hgroups := @length_bitpackGroups w (values.length / 8) values (by omega)
    rw [if_neg hnone]
    dsimp only
    rw [writeGroups_eq _ (by omega) (Nat.zero_le _), Nat.zero_add, List.take_zero, List.nil_append]
    by_cases htail : values.length % 8 = 0
    · refine ⟨bitpackGroups w (values.length / 8) values, ?_, ?_, ?_⟩
      · rw [hgroups, bytesStored, if_pos htail, Nat.add_zero]
      · rw [bitpack32_eq hw, if_pos htail, List.append_nil, packedSize_split values.length, htail,
          packedSize_zero_left, Nat.add_zero, ← hgroups, List.take_length]
      · rw [bytesStored, if_pos htail, Nat.add_zero, packedSize_split values.length, htail, packedSize_zero_left,
          Nat.add_zero]
        by_cases hroom : values.length / 8 * w ≤ output.length
        · rw [if_pos hroom, if_pos hroom]
          dsimp only [bind, Except.bind]
          rw [if_neg (by omega)]
        · rw [if_neg hroom, if_neg hroom]
          rfl
    · have hrest : values.length - values.length / 8 * 8 = values.length % 8 := by omega
      have hlast := length_bitpack8 (w := w) (length_lastGroup values)
      refine ⟨bitpackGroups w (values.length / 8) values ++ bitpack8 w
        (values.drop (values.length / 8 * 8) ++ List.replicate (8 - values.length % 8) 0), ?_, ?_, ?_⟩
      · rw [List.length_append, hgroups, hlast, bytesStored, if_neg htail]
      · have hfront : (bitpackGroups w (values.length / 8) values).take (values.length / 8 * w +
            packedSize (values.length % 8) w) = bitpackGroups w (values.length / 8) values :=
          List.take_of_length_le (by omega)
        rw [bitpack32_eq hw, if_neg htail, packedSize_split values.length, List.take_append, hfront,
          hgroups, Nat.add_sub_cancel_left]
      · rw [bytesStored, if_neg htail, packedSize_split values.length w, hrest]
        by_cases hroom : values.length / 8 * w ≤ output.length
        · rw [if_pos hroom]
          dsimp only [bind, Except.bind]
          rw [if_pos (by omega)]
          have hout : (bitpackGroups w (values.length / 8) values ++
              output.drop (values.length / 8 * w)).length = output.length := by
            rw [List.length_append, hgroups, List.length_drop]
            omega
          by_cases hall : values.length / 8 * w + w ≤ output.length
          · rw [copyAt_of_le (by rw [hlast, hout]; exact hall), if_pos hall, hlast,
              List.take_left' hgroups, ← List.drop_drop, List.drop_left' hgroups, List.drop_drop]
          · rw [copyAt, if_neg (by rw [hlast, hout]; exact hall), if_neg hall]
        · rw [if_neg hroom, if_neg (by omega)]
          rfl

/-! ## Both together -/

/-- The first values of a group need only the bytes they are packed into. -/
theorem bitunpack8_take_packedSize {w rest : Nat} (group : Bytes) (h : rest ≤ 8) :
    (bitunpack8 w (group.take (packedSize rest w))).take rest = (bitunpack8 w group).take rest := by
  rw [bitunpack8_eq, bitunpack8_eq, ← List.map_take, ← List.map_take]
  apply List.map_congr_left
  intro i hi
  rw [List.take_range, List.mem_range, Nat.min_eq_left h] at hi
  apply Nat.eq_of_testBit_eq
  intro j
  rw [Nat.testBit_mod_two_pow, Nat.testBit_mod_two_pow]
  by_cases hj : j < w
  · have hbit : i * w + j < 8 * packedSize rest w := by
      have hle : (i + 1) * w ≤ rest * w := Nat.mul_le_mul_right w hi
      rw [Nat.succ_mul] at hle
      rw [packedSize]
      omega
    rw [Nat.testBit_shiftRight, Nat.testBit_shiftRight, leNat_take_mod,
      show (256 : Nat) = 2 ^ 8 from rfl, ← Nat.pow_mul, Nat.testBit_mod_two_pow]
    simp [hbit]
  · simp [hj]

theorem bitunpack32_bitpack32 (w : Nat) (values : List Nat) :
    bitunpack32 w values.length (bitpack32 w values) =
      (values.map (· % 2 ^ w), packedSize values.length w) := by
  by_cases hz : w = 0
  · subst hz
    simp [bitunpack32, packedSize, Nat.mod_one, List.map_const']
  · rw [bitpack32_eq hz, bitunpack32, if_neg hz, bitunpackGroups_bitpackGroups_mod (by omega)]
    dsimp only
    rw [packedSize_split values.length w]
    by_cases htail : values.length % 8 = 0
    · rw [if_pos htail, htail, packedSize_zero_left, Nat.add_zero,
        List.take_of_length_le (by omega)]
    · have hgroups := @length_bitpackGroups w (values.length / 8) values (by omega)
      rw [if_neg htail, if_neg htail, List.drop_left' hgroups,
        show (values.length % 8 * w + 7) / 8 = packedSize (values.length % 8) w from rfl,
        List.take_of_length_le (List.length_take_le _ _)]
      have hlast := bitunpack8_bitpack8 (w := w) (length_lastGroup values) []
      rw [List.append_nil] at hlast
      rw [bitunpack8_take_packedSize _ (by omega), hlast, ← List.map_take,
        List.take_left' (by rw [List.length_drop]; omega), ← List.map_append,
        List.take_append_drop]

/-- **Packing touches what it reports exactly when its last group is full of bytes.** For every
width up to 32, every list of values and every set of registered kernels: unpacking what was packed
gives the values modulo `2 ^ bit_width`; unpacking any count, in wide groups or not, gives what
groups of eight give and reads the bytes it reports and no other; packing stores into the bytes it
reports and no other if and only if there are no values behind the last whole group, or these need
all the bytes of a group. -/
theorem bitpack32_touches_iff (d : Dispatch) (w : Nat) (hw : w ≤ 32) (values : List Nat) :
    bitunpack32 w values.length (bitpack32 w values) =
        (values.map (· % 2 ^ w), packedSize values.length w) ∧
      (∀ (count : Nat) (input : Bytes), bitunpack32In d w count input =
        if packedSize count w ≤ input.length then .ok (bitunpack32 w count input)
        else .error .outside) ∧
      ((∀ output : Bytes, bitpack32In w values output =
        if packedSize values.length w ≤ output.length then
          .ok (bitpack32 w values ++ output.drop (packedSize values.length w),
            packedSize values.length w)
        else .error .outside) ↔
          values.length % 8 = 0 ∨ (8 - values.length % 8) * w < 8) := by
  refine ⟨bitunpack32_bitpack32 w values, bitunpack32In_eq d hw, ?_⟩
  have hsplit := packedSize_split values.length w
  have hfull : packedSize values.length w = bytesStored values.length w ↔
      values.length % 8 = 0 ∨ (8 - values.length % 8) * w < 8 := by
    rw [hsplit, bytesStored]
    by_cases htail : values.length % 8 = 0
    · rw [if_pos htail, htail, packedSize_zero_left]
      simp
    · have hmul : (8 - values.length % 8) * w + values.length % 8 * w = 8 * w := by
        rw [← Nat.add_mul, Nat.sub_add_cancel (by omega)]
      rw [if_neg htail, packedSize]
      omega
  rw [← hfull]
  constructor
  · intro hall
    obtain ⟨stored, hlen, -, heq⟩ := bitpack32In_eq w values
      (List.replicate (packedSize values.length w) 0)
    have hle : packedSize values.length w ≤ bytesStored values.length w := by
      rw [hsplit, bytesStored]
      by_cases htail : values.length % 8 = 0
      · rw [if_pos htail, htail, packedSize_zero_left]
      · rw [if_neg htail]
        exact Nat.add_le_add_left (packedSize_le (by omega)) _
    rw [hall, List.length_replicate, if_pos (Nat.le_refl _)] at heq
    by_contra hne
    rw [if_neg (by omega)] at heq
    cases heq
  · intro hsame output
    obtain ⟨stored, hlen, htake, heq⟩ := bitpack32In_eq w values output
    rw [heq, htake, hsame, ← hlen, List.take_length]

/-- Nothing registered. -/
def Dispatch.scalar : Dispatch where
  group _ := none
  wide _ := none
  group_mem _ _ h := nomatch h
  wide_mem _ _ h := nomatch h

/-- Five values of two bits need both bytes of a group. -/
theorem fiveValues_touch :
    bitunpack32 2 [1, 2, 3, 0, 5].length (bitpack32 2 [1, 2, 3, 0, 5]) =
        ([1, 2, 3, 0, 5].map (· % 2 ^ 2), packedSize [1, 2, 3, 0, 5].length 2) ∧
      (∀ (count : Nat) (input : Bytes), bitunpack32In .scalar 2 count input =
        if packedSize count 2 ≤ input.length then .ok (bitunpack32 2 count input)
        else .error .outside) ∧
      ((∀ output : Bytes, bitpack32In 2 [1, 2, 3, 0, 5] output =
        if packedSize [1, 2, 3, 0, 5].length 2 ≤ output.length then
          .ok (bitpack32 2 [1, 2, 3, 0, 5] ++ output.drop (packedSize [1, 2, 3, 0, 5].length 2),
            packedSize [1, 2, 3, 0, 5].length 2)
        else .error .outside) ↔ [1, 2, 3, 0, 5].length % 8 = 0 ∨ (8 - [1, 2, 3, 0, 5].length % 8) * 2 < 8) :=
  bitpack32_touches_iff .scalar 2 (by decide) [1, 2, 3, 0, 5]

/-- One value of 32 bits takes four bytes, and 28 more are cleared. -/
theorem oneValue_touchesMore :
    ¬ ∀ output : Bytes, bitpack32In 32 [7] output =
      if packedSize [7].length 32 ≤ output.length then
        .ok (bitpack32 32 [7] ++ output.drop (packedSize [7].length 32), packedSize [7].length 32)
      else .error .outside := by
  intro h
  exact absurd (h [0, 0, 0, 0]) (by decide)

end Carquet
