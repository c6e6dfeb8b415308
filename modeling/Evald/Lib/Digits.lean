import Mathlib

/-! # Zero-padded decimal numbers in a larger text

`pad width n` is `n` in decimal with leading zeros up to `width`, as `{:0width}`
prints it.  A text built from padded numbers and separators is read back by
splitting at the first character that is not a digit (`digits_split`), so such a
text determines its numbers (`pad_inj`).
-/

namespace Evald.Lib

def pad (width n : Nat) : List Char :=
  let digits := Nat.toDigits 10 n
  List.replicate (width - digits.length) '0' ++ digits

theorem isDigit_of_mem_pad {width n : Nat} {c : Char} (member : c ∈ pad width n) :
    c.isDigit = true := by
  rcases List.mem_append.mp member with zero | digit
  · rw [List.eq_of_mem_replicate zero]
    rfl
  · exact Nat.isDigit_of_mem_toDigits (by decide) (by decide) digit

theorem pad_ne_nil (width n : Nat) : pad width n ≠ [] := by
  simp [pad, Nat.toDigits_ne_nil]

theorem ofDigitChars_pad (width n : Nat) : Nat.ofDigitChars 10 (pad width n) 0 = n := by
  simp [pad, Nat.ofDigitChars_append]

theorem pad_inj {width width' n n' : Nat} (same : pad width n = pad width' n') : n = n' := by
  rw [← ofDigitChars_pad width n, same, ofDigitChars_pad]

/-- Digits up to the first character that is none: the split is determined. -/
theorem digits_split {c c' : Char} {digits digits' rest rest' : List Char}
    (isDigits : ∀ d ∈ digits, d.isDigit = true) (isDigits' : ∀ d ∈ digits', d.isDigit = true)
    (stop : c.isDigit = false) (stop' : c'.isDigit = false)
    (same : digits ++ c :: rest = digits' ++ c' :: rest') :
    digits = digits' ∧ c = c' ∧ rest = rest' := by
  induction digits generalizing digits' with
  | nil =>
    cases digits' with
    | nil =>
      simp only [List.nil_append, List.cons.injEq] at same
      exact ⟨rfl, same⟩
    | cons d ds =>
      simp only [List.nil_append, List.cons_append, List.cons.injEq] at same
      rw [same.1, isDigits' d (by simp)] at stop
      cases stop
  | cons d ds inductionHypothesis =>
    cases digits' with
    | nil =>
      simp only [List.nil_append, List.cons_append, List.cons.injEq] at same
      rw [← same.1, isDigits d (by simp)] at stop'
      cases stop'
    | cons d' ds' =>
      simp only [List.cons_append, List.cons.injEq] at same
      obtain ⟨tails, rest⟩ := inductionHypothesis
        (fun e member => isDigits e (by simp [member]))
        (fun e member => isDigits' e (by simp [member])) same.2
      exact ⟨by rw [same.1, tails], rest⟩

/-- A padded number followed by a separator is determined, and so is what follows. -/
theorem pad_split {width width' n n' : Nat} {c c' : Char} {rest rest' : List Char}
    (stop : c.isDigit = false) (stop' : c'.isDigit = false)
    (same : pad width n ++ c :: rest = pad width' n' ++ c' :: rest') :
    n = n' ∧ c = c' ∧ rest = rest' := by
  obtain ⟨numbers, separators⟩ := digits_split (fun _ => isDigit_of_mem_pad)
    (fun _ => isDigit_of_mem_pad) stop stop' same
  exact ⟨pad_inj numbers, separators⟩

/-- A padded number never reads as a text that starts with something else. -/
theorem pad_append_ne {width n : Nat} {c : Char} {rest rest' : List Char}
    (stop : c.isDigit = false) : pad width n ++ rest ≠ c :: rest' := by
  intro same
  cases digits : pad width n with
  | nil => exact pad_ne_nil width n digits
  | cons d ds =>
    rw [digits] at same
    injection same with first
    have isDigit := isDigit_of_mem_pad (digits ▸ List.mem_cons_self : d ∈ pad width n)
    rw [first, stop] at isDigit
    cases isDigit

end Evald.Lib
