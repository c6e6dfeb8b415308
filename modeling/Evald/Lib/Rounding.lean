import Mathlib.Data.Rat.Cast.Order
import Mathlib.Tactic.Linarith
import Mathlib.Tactic.Positivity

/-! # Arithmetic with rounding

A rounding keeps the order and the whole numbers up to a bound.  A sum that is rounded after
each step stays within the bounds of its terms (`sum_mem_unit`), and is exact where the terms
are whole (`sum_whole`).
-/

namespace Evald.Lib

/-- A rounding that keeps the whole numbers up to `2 ^ digits`. -/
structure Rounding (digits : Nat) where
  round : ℚ → ℚ
  mono : Monotone round
  whole : ∀ n : ℤ, |n| ≤ 2 ^ digits → round n = n

namespace Rounding

variable {digits : Nat} (r : Rounding digits)

theorem nat {n : Nat} (small : n ≤ 2 ^ digits) : r.round n = n := by
  have kept := r.whole n (by rw [Nat.abs_cast]; exact_mod_cast small)
  exact_mod_cast kept

@[simp] theorem zero : r.round 0 = 0 := by
  simpa using r.nat (n := 0) (Nat.zero_le _)

@[simp] theorem one : r.round 1 = 1 := by
  simpa using r.nat (n := 1) Nat.one_le_two_pow

theorem nonneg {q : ℚ} (positive : 0 ≤ q) : 0 ≤ r.round q := by
  rw [← r.zero]
  exact r.mono positive

theorem le_nat {q : ℚ} {n : Nat} (small : n ≤ 2 ^ digits) (below : q ≤ n) : r.round q ≤ n := by
  rw [← r.nat small]
  exact r.mono below

theorem le_one {q : ℚ} (below : q ≤ 1) : r.round q ≤ 1 := by
  rw [← r.one]
  exact r.mono below

/-- A ratio of two rounded counts. -/
theorem ratio_mem_unit {a b : ℚ} (nonneg : 0 ≤ a) (below : a ≤ b) :
    0 ≤ r.round (r.round a / r.round b) ∧ r.round (r.round a / r.round b) ≤ 1 := by
  have low := r.nonneg nonneg
  have order := r.mono below
  exact ⟨r.nonneg (div_nonneg low (low.trans order)),
    r.le_one (div_le_one_of_le₀ order (low.trans order))⟩

/-- Each step of the sum is rounded. -/
def sum (start : ℚ) (terms : List ℚ) : ℚ := terms.foldl (fun acc q => r.round (acc + q)) start

theorem sum_mem_unit {terms : List ℚ} {start : ℚ} {n : Nat}
    (unit : ∀ q ∈ terms, 0 ≤ q ∧ q ≤ 1) (low : 0 ≤ start) (high : start ≤ n)
    (small : n + terms.length ≤ 2 ^ digits) :
    0 ≤ r.sum start terms ∧ r.sum start terms ≤ (n + terms.length : Nat) := by
  induction terms generalizing start n with
  | nil => exact ⟨low, by simpa [sum] using high⟩
  | cons q terms inductionHypothesis =>
    rw [List.forall_mem_cons] at unit
    obtain ⟨⟨qLow, qHigh⟩, rest⟩ := unit
    rw [List.length_cons] at small
    have stepHigh : r.round (start + q) ≤ (n + 1 : Nat) := by
      apply r.le_nat (by omega)
      push_cast
      linarith
    have done := inductionHypothesis rest (r.nonneg (add_nonneg low qLow)) stepHigh (by omega)
    rw [List.length_cons, Nat.add_comm terms.length, ← Nat.add_assoc]
    exact done

/-- A sum of noughts and ones counts the ones. -/
theorem sum_whole {α : Type} (holds : α → Bool) (items : List α) {n : Nat}
    (small : n + items.length ≤ 2 ^ digits) :
    r.sum n (items.map (fun item => if holds item then 1 else 0)) =
      (n + (items.filter holds).length : Nat) := by
  induction items generalizing n with
  | nil => simp [sum]
  | cons item items inductionHypothesis =>
    rw [List.length_cons] at small
    cases here : holds item with
    | false =>
      have kept : r.round (n + 0) = n := by rw [add_zero]; exact r.nat (by omega)
      have done := inductionHypothesis (n := n) (by omega)
      simp only [sum, List.map_cons, List.foldl_cons, here, Bool.false_eq_true, if_false, kept,
        List.filter_cons] at done ⊢
      exact done
    | true =>
      have kept : r.round ((n : ℚ) + 1) = (n + 1 : Nat) := by
        have exactly := r.nat (n := n + 1) (by omega)
        push_cast at exactly ⊢
        exact exactly
      have done := inductionHypothesis (n := n + 1) (by omega)
      simp only [sum, List.map_cons, List.foldl_cons, here, if_true, kept,
        List.filter_cons, List.length_cons] at done ⊢
      rw [done]
      congr 1
      omega

end Rounding

end Evald.Lib
