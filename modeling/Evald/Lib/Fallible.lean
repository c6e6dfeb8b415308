import Mathlib.Data.List.Forall2

/-! # Steps that may fail

What succeeds in whole has succeeded in each step.
-/

namespace Evald.Lib

variable {ε α β : Type}

theorem bind_eq_ok {x : Except ε α} {f : α → Except ε β} {b : β} :
    (x >>= f) = .ok b ↔ ∃ a, x = .ok a ∧ f a = .ok b := by
  cases x with
  | error e => simp [bind, Except.bind]
  | ok a => simp [bind, Except.bind]

theorem mapM_eq_ok {f : α → Except ε β} {items : List α} {results : List β} :
    items.mapM f = .ok results ↔
      List.Forall₂ (fun item result => f item = .ok result) items results := by
  induction items generalizing results with
  | nil => simp [pure, Except.pure, eq_comm]
  | cons item items inductionHypothesis =>
    simp only [List.mapM_cons, bind_eq_ok, inductionHypothesis, List.forall₂_cons_left_iff]
    constructor
    · rintro ⟨result, here, rest, later, same⟩
      cases same
      exact ⟨result, rest, here, later, rfl⟩
    · rintro ⟨result, rest, here, later, rfl⟩
      exact ⟨result, here, rest, later, rfl⟩

theorem mapM_ok_mem {f : α → Except ε β} {items : List α} {results : List β} {result : β}
    (done : items.mapM f = .ok results) (listed : result ∈ results) :
    ∃ item ∈ items, f item = .ok result := by
  have each := mapM_eq_ok.mp done
  clear done
  induction each with
  | nil => cases listed
  | cons here later inductionHypothesis =>
    cases List.mem_cons.mp listed with
    | inl same => exact ⟨_, List.mem_cons_self, same ▸ here⟩
    | inr rest =>
      obtain ⟨item, isItem, found⟩ := inductionHypothesis rest
      exact ⟨item, List.mem_cons_of_mem _ isItem, found⟩

end Evald.Lib
