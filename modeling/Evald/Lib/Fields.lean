import Evald.Lib.Digits

/-! # Fields with their length in front

Each field of a text stands behind its length in bytes and a colon.  Such a text determines
its fields, whatever characters are in them (`joined_inj`).
-/

namespace Evald.Lib

/-- A field behind its length. -/
def withLength (field : String) : List Char :=
  Nat.toDigits 10 field.utf8ByteSize ++ ':' :: field.toList

def joined (fields : List String) : List Char := fields.flatMap withLength

/-- Of a text, as many bytes as a field has are that field. -/
theorem append_inj_of_size {f g : String} {rest rest' : List Char}
    (size : f.utf8ByteSize = g.utf8ByteSize) (same : f.toList ++ rest = g.toList ++ rest') :
    f = g ∧ rest = rest' := by
  -- where one field starts the other, what is left of the other has no bytes
  have longer {f g : String} {more : List Char} (size : f.utf8ByteSize = g.utf8ByteSize)
      (starts : g.toList = f.toList ++ more) : more = [] := by
    have whole : g = f ++ String.ofList more := by
      rw [← String.toList_inj, String.toList_append, String.toList_ofList, starts]
    have none : (String.ofList more).utf8ByteSize = 0 := by
      rw [whole, String.utf8ByteSize_append] at size
      omega
    rw [String.utf8ByteSize_eq_zero_iff] at none
    simpa using congrArg String.toList none
  obtain ⟨more, starts, behind⟩ | ⟨more, starts, behind⟩ := List.append_eq_append_iff.mp same
  · have nothing := longer size starts
    rw [nothing, List.append_nil, String.toList_inj] at starts
    exact ⟨starts.symm, by rw [behind, nothing, List.nil_append]⟩
  · have nothing := longer size.symm starts
    rw [nothing, List.append_nil, String.toList_inj] at starts
    exact ⟨starts, by rw [behind, nothing, List.nil_append]⟩

theorem withLength_ne_nil (field : String) : withLength field ≠ [] := by simp [withLength]

/-- The first field of a text, and what is behind it. -/
theorem withLength_append_inj {f g : String} {rest rest' : List Char}
    (same : withLength f ++ rest = withLength g ++ rest') : f = g ∧ rest = rest' := by
  unfold withLength at same
  rw [List.append_assoc, List.append_assoc, List.cons_append, List.cons_append] at same
  have digits (n : Nat) : ∀ d ∈ Nat.toDigits 10 n, d.isDigit = true :=
    fun _ listed => Nat.isDigit_of_mem_toDigits (by decide) (by decide) listed
  obtain ⟨lengths, -, behind⟩ := digits_split (digits _) (digits _) rfl rfl same
  have size : f.utf8ByteSize = g.utf8ByteSize := by
    rw [← Nat.ofDigitChars_toDigits (b := 10) (n := f.utf8ByteSize) (by decide) (by decide), lengths,
      Nat.ofDigitChars_toDigits (by decide) (by decide)]
  exact append_inj_of_size size behind

/-- A text determines its fields. -/
theorem joined_inj {fs gs : List String} (same : joined fs = joined gs) : fs = gs := by
  induction fs generalizing gs with
  | nil =>
    cases gs with
    | nil => rfl
    | cons g gs => exact absurd same.symm (by simp [joined, withLength_ne_nil])
  | cons f fs inductionHypothesis =>
    cases gs with
    | nil => exact absurd same (by simp [joined, withLength_ne_nil])
    | cons g gs =>
      rw [joined, joined, List.flatMap_cons, List.flatMap_cons] at same
      obtain ⟨first, rest⟩ := withLength_append_inj same
      rw [first, inductionHypothesis rest]

end Evald.Lib
