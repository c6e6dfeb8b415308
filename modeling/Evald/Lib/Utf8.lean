import Evald.Lib.Text

/-! # Texts and their bytes

The bytes of a text are those of its characters one after the other, so a text can be read
from them, and its length in bytes is the sum of those of its characters.
-/

namespace Evald.Lib

theorem utf8_inj {s t : String} (same : utf8 s = utf8 t) : s = t := by
  unfold utf8 at same
  have bytes : s.toUTF8 = t.toUTF8 := ByteArray.ext (Array.toList_inj.mp same)
  exact String.toByteArray_inj.mp bytes

theorem utf8_eq_flatMap (s : String) : utf8 s = s.toList.flatMap String.utf8EncodeChar := by
  have encoded : s.toUTF8 = s.toList.utf8Encode := String.utf8Encode_toList.symm
  rw [utf8, encoded]
  simp [List.utf8Encode]

theorem utf8_append (s t : String) : utf8 (s ++ t) = utf8 s ++ utf8 t := by
  rw [utf8_eq_flatMap, String.toList_append, List.flatMap_append, ← utf8_eq_flatMap,
    ← utf8_eq_flatMap]

/-- The bytes of a run of characters. -/
def byteLength (chars : List Char) : Nat := (chars.map Char.utf8Size).sum

@[simp] theorem byteLength_cons (c : Char) (chars : List Char) :
    byteLength (c :: chars) = c.utf8Size + byteLength chars := by
  simp [byteLength]

theorem length_utf8_eq (s : String) : (utf8 s).length = byteLength s.toList := by
  rw [utf8_eq_flatMap, List.length_flatMap, byteLength]
  simp

theorem byteLength_sublist {chars others : List Char} (sub : chars.Sublist others) :
    byteLength chars ≤ byteLength others := by
  induction sub with
  | slnil => rfl
  | cons c sub inductionHypothesis =>
    rw [byteLength_cons]
    omega
  | cons_cons c sub inductionHypothesis =>
    rw [byteLength_cons, byteLength_cons]
    omega

/-- A first byte of 192 or more is not below 128. -/
theorem not_small_of_ofNat {n : Nat} (high : 128 ≤ n) (fits : n < 256) : ¬ UInt8.ofNat n < 128 := by
  have value : (UInt8.ofNat n).toNat = n := UInt8.toNat_ofNat_of_lt fits
  rw [UInt8.lt_iff_toNat_lt, value]
  show ¬ n < 128
  omega

/-- A character whose bytes are all below 128 is one byte, its own number. -/
theorem encode_of_ascii {c : Char} (ascii : ∀ b ∈ String.utf8EncodeChar c, b < 128) :
    String.utf8EncodeChar c = [UInt8.ofNat c.toNat] ∧ c.toNat < 128 := by
  unfold String.utf8EncodeChar at ascii ⊢
  simp only at ascii ⊢
  split at ascii
  · next small =>
    rw [if_pos small]
    exact ⟨rfl, Nat.lt_succ_of_le small⟩
  · split at ascii
    · have first := ascii _ List.mem_cons_self
      exact absurd first (not_small_of_ofNat (by omega) (by omega))
    · split at ascii
      · have first := ascii _ List.mem_cons_self
        exact absurd first (not_small_of_ofNat (by omega) (by omega))
      · have first := ascii _ List.mem_cons_self
        exact absurd first (not_small_of_ofNat (by omega) (by omega))

/-- The characters of a text of plain bytes, each its own byte. -/
theorem mem_utf8_of_ascii {s : String} (ascii : ∀ b ∈ utf8 s, b < 128) {c : Char}
    (member : c ∈ s.toList) : UInt8.ofNat c.toNat ∈ utf8 s ∧ c.toNat < 128 := by
  rw [utf8_eq_flatMap] at ascii ⊢
  have bytes (b : UInt8) (inside : b ∈ String.utf8EncodeChar c) :
      b ∈ s.toList.flatMap String.utf8EncodeChar := List.mem_flatMap.mpr ⟨c, member, inside⟩
  obtain ⟨encoded, small⟩ := encode_of_ascii (fun b inside => ascii b (bytes b inside))
  refine ⟨bytes _ ?_, small⟩
  rw [encoded]
  exact List.mem_singleton.mpr rfl

end Evald.Lib
