import Mathlib

/-! # Chains that end

Following a function within a finite set, from point to point: a chain that ends in a fixed
point has ended after as many steps as there are points.
-/

namespace Evald.Lib

open Function

variable {α : Type*} {f : α → α} {x : α}

/-- A point that comes back to itself moves nowhere when its chain ends. -/
theorem isFixedPt_of_periodic {k m : ℕ} (positive : 0 < k) (returns : IsPeriodicPt f k x)
    (ends : IsFixedPt f (f^[m] x)) : IsFixedPt f x := by
  have long : m ≤ m * k := Nat.le_mul_of_pos_right m positive
  have back : f^[m * k] x = x := returns.const_mul m
  have same : f^[m] x = x := by
    calc f^[m] x = f^[m * k - m] (f^[m] x) := (ends.iterate _).symm
      _ = f^[m * k - m + m] x := (iterate_add_apply f _ _ x).symm
      _ = x := by rw [Nat.sub_add_cancel long, back]
  rwa [same] at ends

/-- Past its end a chain stays where it is. -/
theorem isFixedPt_iterate_of_le {k n : ℕ} (ends : IsFixedPt f (f^[k] x)) (later : k ≤ n) :
    IsFixedPt f (f^[n] x) := by
  have same : f^[n] x = f^[k] x := by
    calc f^[n] x = f^[n - k] (f^[k] x) := by rw [← iterate_add_apply, Nat.sub_add_cancel later]
      _ = f^[k] x := ends.iterate _
  rwa [same]

theorem iterate_mem {s : Finset α} (within : ∀ y ∈ s, f y ∈ s) (start : x ∈ s) (k : ℕ) :
    f^[k] x ∈ s := by
  induction k with
  | zero => exact start
  | succ k inductionHypothesis =>
    rw [iterate_succ_apply']
    exact within _ inductionHypothesis

/-- The points of a chain are apart until it ends, so that it ends in time. -/
theorem isFixedPt_iterate_card [DecidableEq α] {s : Finset α} (within : ∀ y ∈ s, f y ∈ s)
    (start : x ∈ s) {m : ℕ} (ends : IsFixedPt f (f^[m] x)) : IsFixedPt f (f^[s.card] x) := by
  have more : s.card < (Finset.range (s.card + 1)).card := by simp
  obtain ⟨a, isA, b, isB, differ, same⟩ := Finset.exists_ne_map_eq_of_card_lt_of_maps_to more
    (f := fun k => f^[k] x) (fun k _ => iterate_mem within start k)
  -- two of them are the same point, which comes back to itself
  have meets {a b : ℕ} (less : a < b) (few : a ≤ s.card) (same : f^[a] x = f^[b] x) :
      IsFixedPt f (f^[s.card] x) := by
    have returns : IsPeriodicPt f (b - a) (f^[a] x) := by
      show f^[b - a] (f^[a] x) = f^[a] x
      rw [← iterate_add_apply, Nat.sub_add_cancel less.le, same]
    have later : IsFixedPt f (f^[m] (f^[a] x)) := by
      rw [← iterate_add_apply]
      exact isFixedPt_iterate_of_le ends (Nat.le_add_right m a)
    exact isFixedPt_iterate_of_le
      (isFixedPt_of_periodic (Nat.sub_pos_of_lt less) returns later) few
  have small {k : ℕ} (isK : k ∈ (Finset.range (s.card + 1) : Set ℕ)) : k ≤ s.card := by
    simp only [Finset.coe_range, Set.mem_Iio] at isK
    omega
  cases lt_or_gt_of_ne differ with
  | inl less => exact meets less (small isA) same
  | inr more => exact meets more (small isB) same.symm

end Evald.Lib
