import Mathlib.Algebra.BigOperators.Ring.List
import Mathlib.Algebra.Order.BigOperators.Group.List
import Mathlib.Algebra.Order.Field.Basic
import Mathlib.Tactic.FieldSimp
import Mathlib.Tactic.Linarith
import Mathlib.Tactic.LinearCombination
import Mathlib.Tactic.Positivity
import Mathlib.Tactic.Ring

/-! # Least squares on a list of points

The squared error of a line is that of the line through the mean with the best slope, plus
what its slope and its height at the mean are off (`squaredError_eq`): a line through the
mean whose slope solves the normal equation is a best one (`squaredError_le`).
-/

namespace Evald.Lib.LeastSquares

variable {K : Type*} [Field K] {α : Type*}

/-- The sum of a quantity over a list. -/
def total (f : α → K) (xs : List α) : K := (xs.map f).sum

def mean (f : α → K) (xs : List α) : K := total f xs / xs.length

/-! ## Sums -/

@[simp] theorem total_nil (f : α → K) : total f [] = 0 := rfl

@[simp] theorem total_cons (f : α → K) (x : α) (xs : List α) :
    total f (x :: xs) = f x + total f xs := by
  simp [total]

theorem total_add (f g : α → K) (xs : List α) :
    total (fun x => f x + g x) xs = total f xs + total g xs := List.sum_map_add

theorem total_mul (c : K) (f : α → K) (xs : List α) :
    total (fun x => c * f x) xs = c * total f xs := List.sum_map_mul_left _ _ _

theorem total_const (c : K) (xs : List α) : total (fun _ => c) xs = xs.length * c := by
  simp [total, List.map_const', nsmul_eq_mul]

theorem total_sub (f g : α → K) (xs : List α) :
    total (fun x => f x - g x) xs = total f xs - total g xs := by
  induction xs with
  | nil => simp
  | cons x xs inductionHypothesis =>
    rw [total_cons, total_cons, total_cons, inductionHypothesis]
    ring

theorem total_map {β : Type*} (f : α → K) (g : β → α) (xs : List β) :
    total f (xs.map g) = total (fun x => f (g x)) xs := by
  simp [total, Function.comp_def]

/-- What was added up in a loop. -/
theorem foldl_add (f : α → K) (xs : List α) (start : K) :
    xs.foldl (fun sum x => sum + f x) start = start + total f xs := by
  induction xs generalizing start with
  | nil => simp
  | cons x xs inductionHypothesis =>
    rw [List.foldl_cons, inductionHypothesis, total_cons]
    ring

/-! ## Sums of deviations -/

section Deviations

variable [CharZero K] {xs : List α}

theorem length_mul_mean (some : xs ≠ []) (f : α → K) : xs.length * mean f xs = total f xs := by
  have nonzero : (xs.length : K) ≠ 0 :=
    Nat.cast_ne_zero.mpr (fun empty => some (List.length_eq_zero_iff.mp empty))
  rw [mean]
  field_simp

/-- The deviations from the mean cancel. -/
theorem total_deviation (some : xs ≠ []) (f : α → K) :
    total (fun x => f x - mean f xs) xs = 0 := by
  rw [total_sub, total_const, length_mul_mean some, sub_self]

theorem total_sq_eq (some : xs ≠ []) (f : α → K) :
    total (fun x => f x ^ 2) xs =
      total (fun x => (f x - mean f xs) ^ 2) xs + xs.length * mean f xs ^ 2 := by
  have expanded : total (fun x => f x ^ 2) xs = total (fun x => (f x - mean f xs) ^ 2 +
      (2 * mean f xs * (f x - mean f xs) + mean f xs ^ 2)) xs := by
    congr 1
    funext x
    ring
  rw [expanded, total_add, total_add, total_mul, total_deviation some, total_const]
  ring

end Deviations

/-! ## Orders -/

section Order

variable [LinearOrder K] [IsStrictOrderedRing K] {xs : List α}

theorem total_nonneg {f : α → K} (nonneg : ∀ x ∈ xs, 0 ≤ f x) : 0 ≤ total f xs := by
  apply List.sum_nonneg
  intro v member
  obtain ⟨x, listed, rfl⟩ := List.mem_map.mp member
  exact nonneg x listed

theorem abs_total_le (f : α → K) (xs : List α) : |total f xs| ≤ total (fun x => |f x|) xs := by
  induction xs with
  | nil => simp
  | cons x xs inductionHypothesis =>
    rw [total_cons, total_cons]
    exact (abs_add_le _ _).trans (add_le_add_right inductionHypothesis _)

/-- A sum of squares vanishes only where everything squared does. -/
theorem eq_zero_of_total_sq {f : α → K} (vanishes : total (fun x => f x ^ 2) xs = 0) :
    ∀ x ∈ xs, f x = 0 := by
  induction xs with
  | nil => simp
  | cons x xs inductionHypothesis =>
    rw [total_cons] at vanishes
    have tail : 0 ≤ total (fun x => f x ^ 2) xs := total_nonneg (fun x _ => sq_nonneg (f x))
    have head := sq_nonneg (f x)
    intro y member
    cases member with
    | head => exact pow_eq_zero_iff (two_ne_zero) |>.mp (by linarith)
    | tail _ later => exact inductionHypothesis (by linarith) y later

theorem mean_abs_sq_le (some : xs ≠ []) (f : α → K) :
    mean (fun x => |f x|) xs ^ 2 ≤ mean (fun x => f x ^ 2) xs := by
  have positive : (0 : K) < xs.length :=
    Nat.cast_pos.mpr (List.length_pos_iff.mpr some)
  have spread := total_sq_eq some (fun x => |f x|)
  have nonneg : 0 ≤ total (fun x => (|f x| - mean (fun x => |f x|) xs) ^ 2) xs :=
    total_nonneg (fun x _ => sq_nonneg _)
  simp only [sq_abs] at spread
  rw [show mean (fun x => f x ^ 2) xs = total (fun x => f x ^ 2) xs / xs.length from rfl,
    le_div_iff₀ positive, spread]
  linarith [mul_comm (mean (fun x => |f x|) xs ^ 2) (xs.length : K)]

theorem abs_mean_le (f : α → K) (xs : List α) : |mean f xs| ≤ mean (fun x => |f x|) xs := by
  rw [mean, mean, abs_div, Nat.abs_cast]
  exact div_le_div_of_nonneg_right (abs_total_le f xs) (Nat.cast_nonneg _)

end Order

/-! ## Lines -/

/-- What is left of a point by the line `intercept + slope * x`. -/
def residual (intercept slope : K) (p : K × K) : K := p.2 - (intercept + slope * p.1)

def squaredError (intercept slope : K) (points : List (K × K)) : K :=
  total (fun p => residual intercept slope p ^ 2) points

def meanX (points : List (K × K)) : K := mean Prod.fst points
def meanY (points : List (K × K)) : K := mean Prod.snd points

/-- The sums of squared deviations, and of their products. -/
def sxx (points : List (K × K)) : K := total (fun p => (p.1 - meanX points) ^ 2) points
def syy (points : List (K × K)) : K := total (fun p => (p.2 - meanY points) ^ 2) points
def sxy (points : List (K × K)) : K :=
  total (fun p => (p.1 - meanX points) * (p.2 - meanY points)) points

section Lines

variable [CharZero K] {points : List (K × K)}

/-- The squared error of a line, by its slope and by its height at the mean. -/
theorem squaredError_eq (some : points ≠ []) (intercept slope : K) :
    squaredError intercept slope points =
      syy points - 2 * slope * sxy points + slope ^ 2 * sxx points +
        points.length * (meanY points - (intercept + slope * meanX points)) ^ 2 := by
  let off := meanY points - (intercept + slope * meanX points)
  have expanded : squaredError intercept slope points = total (fun p : K × K =>
      (p.2 - meanY points) ^ 2 +
        ((-(2 * slope)) * ((p.1 - meanX points) * (p.2 - meanY points)) +
          (slope ^ 2 * (p.1 - meanX points) ^ 2 +
            (2 * off * (p.2 - meanY points) +
              ((-(2 * off * slope)) * (p.1 - meanX points) + off ^ 2))))) points := by
    unfold squaredError
    congr 1
    funext p
    simp only [residual, off]
    ring
  have xs : total (fun p : K × K => p.1 - meanX points) points = 0 := total_deviation some Prod.fst
  have ys : total (fun p : K × K => p.2 - meanY points) points = 0 := total_deviation some Prod.snd
  rw [expanded, total_add, total_add, total_add, total_add, total_add, total_mul, total_mul,
    total_mul, total_mul, xs, ys, total_const]
  simp only [sxx, syy, sxy, off]
  ring

/-- The residuals of a line through the mean cancel. -/
theorem total_residual (some : points ≠ []) (slope : K) :
    total (residual (meanY points - slope * meanX points) slope) points = 0 := by
  have expanded : total (residual (meanY points - slope * meanX points) slope) points =
      total (fun p : K × K => (p.2 - meanY points) + (-slope) * (p.1 - meanX points)) points := by
    congr 1
    funext p
    simp only [residual]
    ring
  have xs : total (fun p : K × K => p.1 - meanX points) points = 0 := total_deviation some Prod.fst
  have ys : total (fun p : K × K => p.2 - meanY points) points = 0 := total_deviation some Prod.snd
  rw [expanded, total_add, total_mul, xs, ys]
  ring

end Lines

section Best

variable [LinearOrder K] [IsStrictOrderedRing K] {points : List (K × K)}

theorem sxx_nonneg (points : List (K × K)) : 0 ≤ sxx points :=
  total_nonneg (fun _ _ => sq_nonneg _)

/-- Without spread there is no covariance either. -/
theorem sxy_of_sxx (flat : sxx points = 0) : sxy points = 0 := by
  have still := eq_zero_of_total_sq (f := fun p : K × K => p.1 - meanX points) flat
  have zeros : total (fun p => (p.1 - meanX points) * (p.2 - meanY points)) points =
      total (fun _ => (0 : K)) points := by
    unfold total
    congr 1
    apply List.map_congr_left
    intro p listed
    rw [still p listed, zero_mul]
  rw [sxy, zeros, total_const, mul_zero]

/-- A line through the mean whose slope solves the normal equation is a best one. -/
theorem squaredError_le (some : points ≠ []) {slope : K}
    (normal : slope * sxx points = sxy points) (intercept' slope' : K) :
    squaredError (meanY points - slope * meanX points) slope points ≤
      squaredError intercept' slope' points := by
  rw [squaredError_eq some, squaredError_eq some, ← normal]
  have spread : 0 ≤ (slope' - slope) ^ 2 * sxx points :=
    mul_nonneg (sq_nonneg _) (sxx_nonneg points)
  have height : 0 ≤ points.length * (meanY points - (intercept' + slope' * meanX points)) ^ 2 :=
    mul_nonneg (Nat.cast_nonneg _) (sq_nonneg _)
  have through : meanY points - (meanY points - slope * meanX points + slope * meanX points) = 0 := by
    ring
  rw [through]
  linarith

end Best

/-! ## Points with their sides swapped -/

theorem meanX_swap (points : List (K × K)) : meanX (points.map Prod.swap) = meanY points := by
  rw [meanX, mean, total_map, List.length_map]
  rfl

theorem meanY_swap (points : List (K × K)) : meanY (points.map Prod.swap) = meanX points := by
  rw [meanY, mean, total_map, List.length_map]
  rfl

theorem sxx_swap (points : List (K × K)) : sxx (points.map Prod.swap) = syy points := by
  rw [sxx, total_map, meanX_swap]
  rfl

theorem syy_swap (points : List (K × K)) : syy (points.map Prod.swap) = sxx points := by
  rw [syy, total_map, meanY_swap]
  rfl

theorem sxy_swap (points : List (K × K)) : sxy (points.map Prod.swap) = sxy points := by
  rw [sxy, total_map, meanX_swap, meanY_swap]
  simp only [Prod.fst_swap, Prod.snd_swap, mul_comm]
  rfl

end Evald.Lib.LeastSquares
