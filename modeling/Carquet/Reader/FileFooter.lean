import Carquet.Lib.Access
import Carquet.Lib.LittleEndian
import Carquet.Thrift.ParquetParse

/-!
# Opening a file

* `readFooter` — `read_footer` (src/reader/file_reader.c:256-366), on a `FILE*`.
* `readFooterMmap` — `read_footer_mmap` (file_reader.c:372-417), on the mapped bytes.
* `openBuffer` — `carquet_reader_open_buffer` (src/reader/buffer_reader.c:12-91).

All three look for the footer at the end of the file (`footerOf`). They differ in two things: only
the `FILE*` is taken without the magic at its start, and only there `footer_size + 8` is computed in
32 bits, to see whether the footer is in the 64 KB that were read already
(`readFooter_eq_mmap_iff`). Seeking, reading and allocating succeed, and the schema is built of the
metadata (`build_schema`).
-/

open Access

namespace Carquet

open LittleEndian

/-- `PARQUET_MAGIC`. -/
def parquetMagic : Bytes := [0x50, 0x41, 0x52, 0x31]

/-- `CARQUET_FOOTER_SPECULATIVE_SIZE` (file_reader.c:253). -/
def footerSpeculativeSize : Nat := 65536

/-- `n` bytes in front of the last `behind` of a buffer. -/
def sliceBack (buf : Bytes) (behind n : Nat) : Except (Fault Status) Bytes :=
  if behind + n ≤ buf.length then .ok ((buf.drop (buf.length - (behind + n))).take n)
  else .error .outside

/-- The end of the file, read in one go (file_reader.c:281-301). -/
def speculativeRead (file : Bytes) : Bytes := file.drop (file.length - footerSpeculativeSize)

/-- The magic and the size at the end of `buf`, which ends a file of `fileSize` bytes, and the footer
of that size (file_reader.c:303-355, 388-408; buffer_reader.c:60-83). -/
def readTail (buf : Bytes) (fileSize : Nat) (footerData : UInt32 → Except (Fault Status) Bytes) :
    Except (Fault Status) Parquet.FileMetadata := do
  let magic ← sliceBack buf 0 4
  if magic ≠ parquetMagic then .error (.refused .invalidMagic)
  else do
    let size ← sliceBack buf 4 4
    let footerSize : UInt32 := .ofNat (leNat size)
    if fileSize - 8 < footerSize.toNat then .error (.refused .invalidFooter)
    else do
      let footer ← footerData footerSize
      settle (Parquet.parseFileMetadata footer)

/-- `read_footer` (file_reader.c:256-366). The sum is a `uint32_t`, like `footer_size`. -/
def readFooter (file : Bytes) : Except (Fault Status) Parquet.FileMetadata :=
  if file.length < 12 then .error (.refused .invalidFooter)
  else
    let spec := speculativeRead file
    readTail spec file.length fun footerSize =>
      if (footerSize + 8).toNat ≤ spec.length then sliceBack spec 8 footerSize.toNat
      else sliceBack file 8 footerSize.toNat

/-- `read_footer_mmap` (file_reader.c:372-417). -/
def readFooterMmap (data : Bytes) : Except (Fault Status) Parquet.FileMetadata :=
  if data.length < 12 then .error (.refused .invalidFooter)
  else if data.take 4 ≠ parquetMagic then .error (.refused .invalidMagic)
  else readTail data data.length fun footerSize => sliceBack data 8 footerSize.toNat

/-- `carquet_reader_open_buffer` (buffer_reader.c:12-91). -/
def openBuffer (buffer : Bytes) : Except (Fault Status) Parquet.FileMetadata :=
  if buffer = [] then .error (.refused .invalidArgument) else readFooterMmap buffer

/-! ## The end of a file -/

/-- `footer_size`. -/
def footerSize (file : Bytes) : Nat := leNat ((file.drop (file.length - 8)).take 4)

/-- The file ends with the magic. -/
def EndsWithMagic (file : Bytes) : Prop := file.drop (file.length - 4) = parquetMagic

instance (file : Bytes) : Decidable (EndsWithMagic file) :=
  inferInstanceAs (Decidable (file.drop (file.length - 4) = parquetMagic))

/-- The footer, if the end of the file is one. -/
def footerOf (file : Bytes) : Except Status Parquet.FileMetadata :=
  if file.length < 12 then .error .invalidFooter
  else if ¬ EndsWithMagic file then .error .invalidMagic
  else if file.length - 8 < footerSize file then .error .invalidFooter
  else
    Parquet.parseFileMetadata
      ((file.drop (file.length - (8 + footerSize file))).take (footerSize file))

/-- The end of the file is a footer, of a size that is in the last 8 of its 32 bits' range. -/
structure FooterWraps (file : Bytes) : Prop where
  length : 12 ≤ file.length
  magic : EndsWithMagic file
  fits : footerSize file ≤ file.length - 8
  wraps : 4294967296 ≤ footerSize file + 8

/-! ## Windows from the end -/

theorem sliceBack_of_le {buf : Bytes} {behind n : Nat} (h : behind + n ≤ buf.length) :
    sliceBack buf behind n = .ok ((buf.drop (buf.length - (behind + n))).take n) := if_pos h

theorem sliceBack_of_lt {buf : Bytes} {behind n : Nat} (h : buf.length < behind + n) :
    sliceBack buf behind n = .error .outside := if_neg (Nat.not_le.mpr h)

/-- What a window from the end shows does not depend on how much is in front of it. -/
theorem sliceBack_append (front : Bytes) {back : Bytes} {behind n : Nat}
    (h : behind + n ≤ back.length) : sliceBack (front ++ back) behind n = sliceBack back behind n := by
  have hlength : (front ++ back).length = front.length + back.length := List.length_append
  rw [sliceBack_of_le h, sliceBack_of_le (by omega)]
  have hdrop : (front ++ back).length - (behind + n) = front.length + (back.length - (behind + n)) := by
    omega
  rw [hdrop, List.drop_append, List.drop_of_length_le (Nat.le_add_right _ _), List.nil_append,
    Nat.add_sub_cancel_left]

theorem length_speculativeRead (file : Bytes) :
    (speculativeRead file).length = min file.length footerSpeculativeSize := by
  rw [speculativeRead, List.length_drop]
  omega

theorem sliceBack_speculativeRead {file : Bytes} {behind n : Nat}
    (h : behind + n ≤ (speculativeRead file).length) :
    sliceBack (speculativeRead file) behind n = sliceBack file behind n := by
  conv_rhs => rw [← List.take_append_drop (file.length - footerSpeculativeSize) file]
  exact (sliceBack_append _ h).symm

theorem sliceBack_magic {file : Bytes} (h : 12 ≤ file.length) :
    sliceBack file 0 4 = .ok (file.drop (file.length - 4)) := by
  rw [sliceBack_of_le (by omega), Nat.zero_add, List.take_of_length_le]
  rw [List.length_drop]
  omega

theorem sliceBack_size {file : Bytes} (h : 12 ≤ file.length) :
    sliceBack file 4 4 = .ok ((file.drop (file.length - 8)).take 4) := sliceBack_of_le (by omega)

theorem footerSize_lt (file : Bytes) : footerSize file < 4294967296 := by
  have h := leNat_lt ((file.drop (file.length - 8)).take 4)
  exact Nat.lt_of_lt_of_le h (Nat.pow_le_pow_right (by decide) (List.length_take_le 4 _))

theorem toNat_footerSize (file : Bytes) : (UInt32.ofNat (footerSize file)).toNat = footerSize file := by
  rw [UInt32.toNat_ofNat']
  exact Nat.mod_eq_of_lt (footerSize_lt file)

/-! ## The three ways to open a file -/

/-- A tail is read of any window that shows the magic and the size. -/
theorem readTail_eq {file buf : Bytes} (hlength : 12 ≤ file.length)
    (hmagic : sliceBack buf 0 4 = sliceBack file 0 4) (hsize : sliceBack buf 4 4 = sliceBack file 4 4)
    (footerData : UInt32 → Except (Fault Status) Bytes) :
    readTail buf file.length footerData =
      if ¬ EndsWithMagic file then .error (.refused .invalidMagic)
      else if file.length - 8 < footerSize file then .error (.refused .invalidFooter)
      else footerData (.ofNat (footerSize file)) >>= fun footer =>
        settle (Parquet.parseFileMetadata footer) := by
  rw [readTail, hmagic, hsize, sliceBack_magic hlength, sliceBack_size hlength]
  show (if ¬ EndsWithMagic file then _
    else if file.length - 8 < (UInt32.ofNat (footerSize file)).toNat then _ else _) = _
  rw [toNat_footerSize]
  rfl

/-- The mapped bytes are the end of a file, behind the magic. -/
theorem readFooterMmap_eq (data : Bytes) :
    readFooterMmap data =
      if 12 ≤ data.length ∧ data.take 4 ≠ parquetMagic then .error (.refused .invalidMagic)
      else settle (footerOf data) := by
  unfold readFooterMmap footerOf
  by_cases hlength : data.length < 12
  · rw [if_pos hlength, if_pos hlength, if_neg (by omega)]
    rfl
  rw [if_neg hlength, if_neg hlength]
  have hle : 12 ≤ data.length := Nat.not_lt.mp hlength
  by_cases hfirst : data.take 4 = parquetMagic
  · rw [if_neg (not_not.mpr hfirst), if_neg fun h => h.2 hfirst, readTail_eq hle rfl rfl]
    split
    · rfl
    split
    · rfl
    rw [toNat_footerSize, sliceBack_of_le (by omega)]
    rfl
  · rw [if_pos hfirst, if_pos ⟨hle, hfirst⟩]

/-- So are those of a `FILE*`, but for a footer whose size wraps: it is taken from in front of the
bytes that were read. -/
theorem readFooter_eq (file : Bytes) :
    (¬ FooterWraps file → readFooter file = settle (footerOf file)) ∧
      (FooterWraps file → readFooter file = .error .outside) := by
  unfold readFooter footerOf
  by_cases hlength : file.length < 12
  · rw [if_pos hlength, if_pos hlength]
    exact ⟨fun _ => rfl, fun h => absurd h.length (Nat.not_le.mpr hlength)⟩
  rw [if_neg hlength, if_neg hlength]
  have hle : 12 ≤ file.length := Nat.not_lt.mp hlength
  have hspec := length_speculativeRead file
  have hwindow : footerSpeculativeSize = 65536 := rfl
  simp only
  rw [readTail_eq hle (sliceBack_speculativeRead (by omega)) (sliceBack_speculativeRead (by omega))]
  by_cases hmagic : EndsWithMagic file
  swap
  · rw [if_pos hmagic, if_pos hmagic]
    exact ⟨fun _ => rfl, fun h => absurd h.magic hmagic⟩
  rw [if_neg (not_not.mpr hmagic), if_neg (not_not.mpr hmagic)]
  by_cases hfits : file.length - 8 < footerSize file
  · rw [if_pos hfits, if_pos hfits]
    exact ⟨fun _ => rfl, fun h => absurd h.fits (Nat.not_le.mpr hfits)⟩
  rw [if_neg hfits, if_neg hfits, UInt32.toNat_add, toNat_footerSize]
  have hlt := footerSize_lt file
  have hfooter : sliceBack file 8 (footerSize file) =
      .ok ((file.drop (file.length - (8 + footerSize file))).take (footerSize file)) :=
    sliceBack_of_le (by omega)
  have height : (8 : UInt32).toNat = 8 := rfl
  rw [height]
  refine ⟨fun hwraps => ?_, fun h => ?_⟩
  · have hsum : footerSize file + 8 < 4294967296 := by
      by_contra hsum
      exact hwraps ⟨hle, hmagic, by omega, by omega⟩
    rw [Nat.mod_eq_of_lt hsum]
    split
    · rw [sliceBack_speculativeRead (by omega), hfooter]
      rfl
    · rw [hfooter]
      rfl
  · have hwraps := h.wraps
    rw [if_pos (by omega), sliceBack_of_lt (by omega)]
    rfl

theorem readFooterMmap_ne_outside (data : Bytes) : readFooterMmap data ≠ .error .outside := by
  rw [readFooterMmap_eq]
  split
  · simp
  · exact settle_ne_outside _

/-- **A file opens alike on every path**, a `FILE*`, a mapped one and a buffer, exactly where its
footer's size does not wrap, it begins with the magic or does not end with it either, and it is not
empty. Only on the `FILE*` is anything read in front of the bytes that are there. -/
theorem opens_alike_iff (file : Bytes) :
    (readFooter file = readFooterMmap file ↔ ¬ FooterWraps file ∧
      (12 ≤ file.length → file.take 4 = parquetMagic ∨ footerOf file = .error .invalidMagic)) ∧
    (openBuffer file = readFooterMmap file ↔ file ≠ []) ∧
    (readFooter file = .error .outside ↔ FooterWraps file) ∧
    readFooterMmap file ≠ .error .outside ∧ openBuffer file ≠ .error .outside := by
  have hmmap := readFooterMmap_ne_outside file
  refine ⟨?_, ?_, ?_, hmmap, ?_⟩
  · by_cases hwraps : FooterWraps file
    · rw [(readFooter_eq file).2 hwraps]
      exact iff_of_false hmmap.symm fun h => h.1 hwraps
    · rw [(readFooter_eq file).1 hwraps, readFooterMmap_eq]
      split
      · rename_i hfirst
        have hsettle : settle (footerOf file) = .error (.refused .invalidMagic) ↔
            footerOf file = .error .invalidMagic := by
          cases footerOf file <;> simp [settle]
        rw [hsettle]
        refine ⟨fun h => ⟨hwraps, fun _ => .inr h⟩, fun h => ?_⟩
        exact (h.2 hfirst.1).resolve_left hfirst.2
      · rename_i hfirst
        refine iff_of_true rfl ⟨hwraps, fun hle => .inl ?_⟩
        by_contra hne
        exact hfirst ⟨hle, hne⟩
  · unfold openBuffer
    split
    · rename_i hempty
      subst hempty
      exact iff_of_false (fun h => by cases h) (not_not.mpr rfl)
    · rename_i hne
      exact iff_of_true rfl hne
  · by_cases hwraps : FooterWraps file
    · exact iff_of_true ((readFooter_eq file).2 hwraps) hwraps
    · rw [(readFooter_eq file).1 hwraps]
      exact iff_of_false (settle_ne_outside _) hwraps
  · unfold openBuffer
    split
    · simp
    · exact hmmap

end Carquet
