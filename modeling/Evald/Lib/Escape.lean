import Mathlib

/-! # Escaped text between quotes

A text is written symbol by symbol, each by its code, up to a closing quote.  Where no code
is the start of another and none starts with the quote, the text and what follows it can be
told from the symbols (`Escapes.quoted_inj`).
-/

namespace Evald.Lib

variable {α β : Type}

/-- Symbols can be told apart by what their codes start with, and from the quote. -/
structure Escapes (code : α → List β) (quote : β) : Prop where
  apart : ∀ c d rest rest', code c ++ rest = code d ++ rest' → c = d
  opens : ∀ c rest rest', code c ++ rest ≠ quote :: rest'

theorem Escapes.quoted_inj {code : α → List β} {quote : β} (escapes : Escapes code quote)
    {text text' : List α} {rest rest' : List β}
    (same : text.flatMap code ++ quote :: rest = text'.flatMap code ++ quote :: rest') :
    text = text' ∧ rest = rest' := by
  induction text generalizing text' with
  | nil =>
    cases text' with
    | nil => exact ⟨rfl, (List.cons.inj same).2⟩
    | cons d text' =>
      rw [List.flatMap_nil, List.nil_append, List.flatMap_cons, List.append_assoc] at same
      exact absurd same.symm (escapes.opens d _ _)
  | cons c text inductionHypothesis =>
    cases text' with
    | nil =>
      rw [List.flatMap_nil, List.nil_append, List.flatMap_cons, List.append_assoc] at same
      exact absurd same (escapes.opens c _ _)
    | cons d text' =>
      rw [List.flatMap_cons, List.flatMap_cons, List.append_assoc, List.append_assoc] at same
      have head := escapes.apart c d _ _ same
      rw [head] at same
      obtain ⟨tail, after⟩ := inductionHypothesis (List.append_cancel_left same)
      exact ⟨by rw [head, tail], after⟩

end Evald.Lib
