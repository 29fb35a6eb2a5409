import Carquet.Compression.SnappyFormat

/-!
# The elements of a compressed stream

The elements that the compressor emits (snappy.c:622-673) are elements of the format
(`encoded_bytes`), so the decoder reads them back: `decodeElements_produces`. So is the length in front of
them (`preamble_snappyWriteVarint`, snappy.c:223-231).
-/

namespace Carquet

open LittleEndian BackReference

theorem length_lt_pow (n : Nat) : n < 256 ^ (n.log2 / 8 + 1) := by
  have h : n < 2 ^ (n.log2 + 1) := Nat.lt_log2_self
  calc n < 2 ^ (n.log2 + 1) := h
    _ ≤ 2 ^ (8 * (n.log2 / 8 + 1)) := Nat.pow_le_pow_right (by decide) (by omega)
    _ = 256 ^ (n.log2 / 8 + 1) := by rw [Nat.pow_mul]

theorem literal_count_le {n : Nat} (h : n < 65536) : n.log2 / 8 + 1 ≤ 2 := by
  by_cases hn : n = 0
  · subst hn
    decide
  · have : n.log2 < 16 := (Nat.log2_lt hn).mpr h
    omega

namespace SnappyElement

/-- How the compressor writes it. -/
def bytes : SnappyElement → Bytes
  | literal bytes => snappyEmitLiteral bytes
  | copy offset length => snappyCopyTail offset length

/-- What the compressor emits when `op` bytes are out. -/
def Valid (op : Nat) : SnappyElement → Prop
  | literal bytes => bytes ≠ [] ∧ bytes.length ≤ 65536
  | copy offset length => 0 < offset ∧ offset ≤ op ∧ offset < 65536 ∧ 4 ≤ length ∧ length ≤ 64

theorem Valid.reaches {e : SnappyElement} {op : Nat} (h : e.Valid op) : e.Reaches op := by
  cases e with
  | literal bytes => exact trivial
  | copy offset length => exact ⟨h.1, h.2.1⟩

/-- **What the compressor emits** is of the format. -/
theorem encoded_bytes {e : SnappyElement} {op : Nat} (h : e.Valid op) : e.Encoded e.bytes := by
  cases e with
  | literal literal =>
    obtain ⟨hne, hlen⟩ := h
    have hpos := List.length_pos_of_ne_nil hne
    unfold bytes snappyEmitLiteral
    dsimp only
    split
    · exact .short hne (by omega)
    · have hcount := literal_count_le (n := literal.length - 1) (by omega)
      have hpow := length_lt_pow (literal.length - 1)
      exact .long (by omega) (by omega) hne (by omega)
  | copy offset length =>
    obtain ⟨-, -, hlt, hmin, hmax⟩ := h
    show (copy offset length).Encoded (snappyCopyTail offset length)
    unfold snappyCopyTail
    by_cases hshort : length < 12 ∧ offset < 2048
    · rw [if_pos hshort]
      exact .copy1 hmin (by omega) hshort.2
    · rw [if_neg hshort]
      exact .copy2 (by omega) hmax hlt

end SnappyElement

/-- The elements lead from one output to the other. -/
def Produces : Bytes → List SnappyElement → Bytes → Prop
  | out, [], out' => out = out'
  | out, e :: es, out' => e.Valid out.length ∧ Produces (e.apply out) es out'

theorem Produces.append {es es' : List SnappyElement} {out out' out'' : Bytes}
    (h : Produces out es out') (h' : Produces out' es' out'') :
    Produces out (es ++ es') out'' := by
  induction es generalizing out with
  | nil => exact (show out = out' from h) ▸ h'
  | cons e es ih => exact ⟨h.1, ih h.2⟩

theorem Produces.decodes {es : List SnappyElement} {out out' : Bytes} (h : Produces out es out') :
    Decodes out es out' ∧
      List.Forall₂ SnappyElement.Encoded es (es.map SnappyElement.bytes) := by
  induction es generalizing out with
  | nil => exact ⟨h, .nil⟩
  | cons e es ih =>
    obtain ⟨hdecodes, hencoded⟩ := ih h.2
    exact ⟨⟨h.1.reaches, hdecodes⟩, .cons (SnappyElement.encoded_bytes h.1) hencoded⟩

theorem Produces.length_le {es : List SnappyElement} {out out' : Bytes}
    (h : Produces out es out') : out.length ≤ out'.length := by
  have := decodes_length h.decodes.1
  omega

/-- **The decoder does what the elements mean.** -/
theorem decodeElements_produces (v : Bool) {opEnd : Nat} (hend : opEnd < 4294967296)
    (es : List SnappyElement) (fuel : Nat) {op : Nat} {m : Memory} {out' : Bytes}
    (h : Produces (cells m op) es out') (hroom : out'.length ≤ opEnd)
    (hfuel : (es.flatMap SnappyElement.bytes).length ≤ fuel)
    (hsafe : v = true ∨ StreamSafe opEnd op es) :
    ∃ m', decodeElements v opEnd fuel ⟨es.flatMap SnappyElement.bytes, op, m⟩ =
        .ok ⟨[], out'.length, m'⟩ ∧ cells m' out'.length = out' := by
  rw [List.flatMap_def] at hfuel ⊢
  exact decodeElements_encoded v hend h.decodes.2 fuel h.decodes.1 hroom hfuel hsafe

/-! ## The length -/

theorem numeral_snappyWriteVarint (value : Nat) : Leb128.Numeral (snappyWriteVarint value) value := by
  induction value using Nat.strongRecOn with
  | ind value ih =>
    rw [snappyWriteVarint]
    split
    · have hbyte := toNat_ofNat_of_lt (n := value) (by omega)
      have hlast := Leb128.Numeral.last (b := UInt8.ofNat value) (by omega)
      rwa [hbyte] at hlast
    · have hbyte := toNat_ofNat_of_lt (n := value % 128 + 128) (by omega)
      have hmore := Leb128.Numeral.more (b := UInt8.ofNat (value % 128 + 128)) (by omega)
        (ih (value / 128) (by omega))
      rwa [hbyte, show (value % 128 + 128) % 128 + 128 * (value / 128) = value by omega] at hmore

theorem length_snappyWriteVarint_le (n : Nat) {value : Nat} (h : value < 2 ^ (7 * (n + 1))) :
    (snappyWriteVarint value).length ≤ n + 1 := by
  induction n generalizing value with
  | zero =>
    rw [snappyWriteVarint, if_pos (show value < 128 from h)]
    exact Nat.le_refl 1
  | succ n ih =>
    rw [snappyWriteVarint]
    split
    · simp
    · have hnext : value / 128 < 2 ^ (7 * (n + 1)) := by
        rw [Nat.div_lt_iff_lt_mul (by decide)]
        calc value < 2 ^ (7 * (n + 1 + 1)) := h
          _ = 2 ^ (7 * (n + 1)) * 128 := by
            rw [show 7 * (n + 1 + 1) = 7 * (n + 1) + 7 by omega, Nat.pow_add]
      rw [List.length_cons]
      exact Nat.succ_le_succ (ih hnext)

/-- The length as the compressor writes it. -/
theorem preamble_snappyWriteVarint {value : Nat} (h : value < 4294967296) :
    Preamble (snappyWriteVarint value) value where
  numeral := numeral_snappyWriteVarint value
  bytes_le := length_snappyWriteVarint_le 4 (by omega)
  length_lt := h

end Carquet
