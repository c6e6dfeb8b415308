import Evald.Lib.LeastSquares
import Mathlib.Analysis.Real.Sqrt

/-! # Judge calibration

How far a judge's scores drift from the human ones, and the affine map that corrects them.
The numbers are an ordered field with a square root, and Student's quantile is a parameter.
Over the reals the correction is the least-squares line of human on judge
(`calibrate_best_fit`).
-/

namespace Evald.Calibrate

open Evald.Lib.LeastSquares

/-- Whether the correlation is a measured one. -/
inductive PearsonNote where
  | defined
  | degenerate
  deriving DecidableEq

/-- The calibration of one judge; `bias` is judge − human. -/
structure Calibration (K : Type) where
  n : Nat
  bias : K
  mae : K
  rmse : K
  slopePearsonNote : PearsonNote
  pearson : K
  slope : K
  intercept : K
  biasCi : K × K
  biasSignificant : Bool
  recalibrate : Bool
  deriving DecidableEq

/-- What the loop over the pairs adds up. -/
structure Sums (K : Type) where
  cov : K
  ssJ : K
  ssH : K
  sumAbs : K
  sumSq : K
  ssD : K

section Definition

variable {K : Type} [Field K] [LinearOrder K]

def Sums.zero : Sums K := ⟨0, 0, 0, 0, 0, 0⟩

/-- One pair, with the means known before the loop. -/
def Sums.add (meanJ meanH bias : K) (sums : Sums K) (pair : K × K) : Sums K :=
  let dj := pair.1 - meanJ
  let dh := pair.2 - meanH
  let d := pair.1 - pair.2
  let dd := d - bias
  { cov := sums.cov + dj * dh
    ssJ := sums.ssJ + dj * dj
    ssH := sums.ssH + dh * dh
    sumAbs := sums.sumAbs + |d|
    sumSq := sums.sumSq + d * d
    ssD := sums.ssD + dd * dd }

/-- `v.clamp(low, high)` -/
def clamp (low high v : K) : K := if v < low then low else if high < v then high else v

variable (sqrt : K → K) (studentTQuantile : K → K → K)

/-- The calibration of a judge from its (judge, human) pairs; of fewer than two there is
none. -/
def calibrate (pairs : List (K × K)) (alpha divergenceThreshold : K) : Option (Calibration K) :=
  let n := pairs.length
  if n < 2 then none
  else
    let nf : K := n
    let meanJ := pairs.foldl (fun sum p => sum + p.1) 0 / nf
    let meanH := pairs.foldl (fun sum p => sum + p.2) 0 / nf
    let bias := meanJ - meanH
    let sums := pairs.foldl (Sums.add meanJ meanH bias) Sums.zero
    let mae := sums.sumAbs / nf
    let rmse := sqrt (sums.sumSq / nf)
    -- without spread there is nothing to correlate
    let (pearson, note) :=
      if 0 < sums.ssJ ∧ 0 < sums.ssH then
        (clamp (-1) 1 (sums.cov / (sqrt sums.ssJ * sqrt sums.ssH)), PearsonNote.defined)
      else (0, PearsonNote.degenerate)
    let slope := if 0 < sums.ssJ then sums.cov / sums.ssJ else 0
    let intercept := meanH - slope * meanJ
    let varD := sums.ssD / (nf - 1)
    let se := sqrt (varD / nf)
    let tcrit := studentTQuantile (1 - alpha / 2) (nf - 1)
    let biasCi := (bias - tcrit * se, bias + tcrit * se)
    let biasSignificant := decide (0 < biasCi.1) || decide (biasCi.2 < 0)
    some
      { n
        bias
        mae
        rmse
        slopePearsonNote := note
        pearson
        slope
        intercept
        biasCi
        biasSignificant
        recalibrate := decide (divergenceThreshold < mae) ||
          (decide (divergenceThreshold < |bias|) && biasSignificant) }

end Definition

/-! ## What the loop adds up -/

section Sums

variable {K : Type} [Field K] [LinearOrder K]

theorem foldl_add_sums (meanJ meanH bias : K) (pairs : List (K × K)) (start : Sums K) :
    pairs.foldl (Sums.add meanJ meanH bias) start =
      { cov := start.cov + total (fun p => (p.1 - meanJ) * (p.2 - meanH)) pairs
        ssJ := start.ssJ + total (fun p => (p.1 - meanJ) ^ 2) pairs
        ssH := start.ssH + total (fun p => (p.2 - meanH) ^ 2) pairs
        sumAbs := start.sumAbs + total (fun p => |p.1 - p.2|) pairs
        sumSq := start.sumSq + total (fun p => (p.1 - p.2) ^ 2) pairs
        ssD := start.ssD + total (fun p => (p.1 - p.2 - bias) ^ 2) pairs } := by
  induction pairs generalizing start with
  | nil => simp
  | cons p pairs inductionHypothesis =>
    rw [List.foldl_cons, inductionHypothesis]
    simp only [Sums.add, total_cons, Sums.mk.injEq]
    refine ⟨?_, ?_, ?_, ?_, ?_, ?_⟩ <;> ring

variable (sqrt : K → K) (studentTQuantile : K → K → K)

/-- The judge's scores and the human ones are the sides of the points. -/
structure Measures (pairs : List (K × K)) (c : Calibration K) : Prop where
  bias : c.bias = meanX pairs - meanY pairs
  mae : c.mae = mean (fun p => |p.1 - p.2|) pairs
  rmse : c.rmse = sqrt (mean (fun p => (p.1 - p.2) ^ 2) pairs)
  pearson : c.pearson = if 0 < sxx pairs ∧ 0 < syy pairs then
    clamp (-1) 1 (sxy pairs / (sqrt (sxx pairs) * sqrt (syy pairs))) else 0
  slope : c.slope = if 0 < sxx pairs then sxy pairs / sxx pairs else 0
  intercept : c.intercept = meanY pairs - c.slope * meanX pairs

theorem calibrate_measures {pairs : List (K × K)} (two : 2 ≤ pairs.length)
    (alpha divergenceThreshold : K) :
    ∃ c, calibrate sqrt studentTQuantile pairs alpha divergenceThreshold = some c ∧
      Measures sqrt pairs c := by
  unfold calibrate
  simp only [if_neg (Nat.not_lt.mpr two), Option.some.injEq, exists_eq_left']
  rw [foldl_add, foldl_add, foldl_add_sums]
  simp only [Sums.zero, zero_add]
  constructor
  · rfl
  · rfl
  · rfl
  · show (ite _ _ _ : K × PearsonNote).1 = _
    rw [apply_ite Prod.fst]
    rfl
  · rfl
  · rfl

end Sums

/-! ## The best fit -/

variable {pairs : List (ℝ × ℝ)} {c : Calibration ℝ}

theorem Measures.normal (measures : Measures Real.sqrt pairs c) :
    c.slope * sxx pairs = sxy pairs := by
  rw [measures.slope]
  split
  · next spread => exact div_mul_cancel₀ _ spread.ne'
  · next flat =>
    have none : sxx pairs = 0 := le_antisymm (not_lt.mp flat) (sxx_nonneg pairs)
    rw [sxy_of_sxx none, zero_mul]

/-- Without spread the correction is the mean of the human scores. -/
theorem Measures.constant (measures : Measures Real.sqrt pairs c) (some : pairs ≠ [])
    (flat : ∀ p ∈ pairs, ∀ q ∈ pairs, p.1 = q.1) : c.slope = 0 ∧ c.intercept = meanY pairs := by
  have still : ∀ p ∈ pairs, p.1 - meanX pairs = 0 := by
    intro p listed
    have same : total Prod.fst pairs = total (fun _ => p.1) pairs := by
      unfold total
      congr 1
      exact List.map_congr_left (fun q other => flat q other p listed)
    have nonzero : (pairs.length : ℝ) ≠ 0 :=
      Nat.cast_ne_zero.mpr (fun empty => some (List.length_eq_zero_iff.mp empty))
    rw [meanX, mean, same, total_const, mul_div_cancel_left₀ _ nonzero, sub_self]
  have none : sxx pairs = 0 := by
    have zeros : sxx pairs = total (fun _ => (0 : ℝ)) pairs := by
      unfold sxx total
      congr 1
      apply List.map_congr_left
      intro p listed
      rw [still p listed]
      ring
    rw [zeros, total_const, mul_zero]
  have slope : c.slope = 0 := by rw [measures.slope, none, if_neg (lt_irrefl _)]
  rw [measures.intercept, slope]
  simp

theorem Measures.bias_le_mae (measures : Measures Real.sqrt pairs c) : |c.bias| ≤ c.mae := by
  have difference : meanX pairs - meanY pairs = mean (fun p => p.1 - p.2) pairs := by
    rw [meanX, meanY, mean, mean, mean, total_sub, sub_div]
  rw [measures.bias, measures.mae, difference]
  exact abs_mean_le _ pairs

theorem Measures.mae_le_rmse (measures : Measures Real.sqrt pairs c) (some : pairs ≠ []) :
    c.mae ≤ c.rmse := by
  rw [measures.mae, measures.rmse]
  exact Real.le_sqrt_of_sq_le (mean_abs_sq_le some _)

/-- With the sides swapped the bias changes sign and the rest stays. -/
theorem Measures.swap (measures : Measures Real.sqrt pairs c) {c' : Calibration ℝ}
    (swapped : Measures Real.sqrt (pairs.map Prod.swap) c') :
    c'.bias = -c.bias ∧ c'.mae = c.mae ∧ c'.rmse = c.rmse ∧ c'.pearson = c.pearson := by
  have absolute : mean (fun p : ℝ × ℝ => |p.1 - p.2|) (pairs.map Prod.swap) =
      mean (fun p => |p.1 - p.2|) pairs := by
    rw [mean, mean, total_map, List.length_map]
    simp only [Prod.fst_swap, Prod.snd_swap, abs_sub_comm]
  have square : mean (fun p : ℝ × ℝ => (p.1 - p.2) ^ 2) (pairs.map Prod.swap) =
      mean (fun p => (p.1 - p.2) ^ 2) pairs := by
    rw [mean, mean, total_map, List.length_map]
    simp only [Prod.fst_swap, Prod.snd_swap, sub_sq_comm]
  refine ⟨?_, ?_, ?_, ?_⟩
  · rw [swapped.bias, measures.bias, meanX_swap, meanY_swap]
    ring
  · rw [swapped.mae, measures.mae, absolute]
  · rw [swapped.rmse, measures.rmse, square]
  · rw [swapped.pearson, measures.pearson, sxx_swap, syy_swap, sxy_swap,
      mul_comm (Real.sqrt (syy pairs))]
    exact if_congr and_comm rfl rfl

/-- The correction has the least squared error against the human scores of all affine maps,
and its residuals cancel; the errors are ordered, and swapping the sides of the pairs only
changes the sign of the bias. -/
theorem calibrate_best_fit (studentTQuantile : ℝ → ℝ → ℝ) (pairs : List (ℝ × ℝ))
    (alpha divergenceThreshold : ℝ) (two : 2 ≤ pairs.length) :
    ∃ c c', calibrate Real.sqrt studentTQuantile pairs alpha divergenceThreshold = some c ∧
      calibrate Real.sqrt studentTQuantile (pairs.map Prod.swap) alpha divergenceThreshold =
        some c' ∧
      (∀ intercept slope, squaredError c.intercept c.slope pairs ≤
        squaredError intercept slope pairs) ∧
      ((∀ p ∈ pairs, ∀ q ∈ pairs, p.1 = q.1) → c.slope = 0 ∧ c.intercept = meanY pairs) ∧
      (pairs.map (residual c.intercept c.slope)).sum = 0 ∧
      |c.bias| ≤ c.mae ∧ c.mae ≤ c.rmse ∧
      c'.bias = -c.bias ∧ c'.mae = c.mae ∧ c'.rmse = c.rmse ∧ c'.pearson = c.pearson := by
  have some : pairs ≠ [] := by
    intro empty
    simp [empty] at two
  obtain ⟨c, calibrated, measures⟩ :=
    calibrate_measures Real.sqrt studentTQuantile two alpha divergenceThreshold
  obtain ⟨c', calibrated', measures'⟩ := calibrate_measures Real.sqrt studentTQuantile
    (show 2 ≤ (pairs.map Prod.swap).length by rwa [List.length_map]) alpha divergenceThreshold
  refine ⟨c, c', calibrated, calibrated', ?_, measures.constant some, ?_, measures.bias_le_mae,
    measures.mae_le_rmse some, measures.swap measures'⟩
  · intro intercept slope
    rw [measures.intercept]
    exact squaredError_le some measures.normal intercept slope
  · rw [measures.intercept]
    exact total_residual some c.slope

/-- At `alpha` 1 the interval is the bias. -/
theorem calibrate_best_fit_twoPairs :
    ∃ c, calibrate Real.sqrt (fun _ _ => 0) [(1, 0), (3, 4)] 1 0 = some c ∧
      (∀ intercept slope, squaredError c.intercept c.slope [(1, 0), (3, 4)] ≤
        squaredError intercept slope [(1, 0), (3, 4)]) ∧ |c.bias| ≤ c.mae := by
  obtain ⟨c, -, calibrated, -, best, -, -, bias, -⟩ :=
    calibrate_best_fit (fun _ _ => 0) [(1, 0), (3, 4)] 1 0 (by simp)
  exact ⟨c, calibrated, best, bias⟩

/-- A constant offset, over the rationals. -/
example : (calibrate (fun v : ℚ => v) (fun _ _ => 0) [(1, 0), (3, 2)] 1 0).map
    (fun c => (c.slope, c.intercept, c.bias)) = some (1, -1, 1) := by decide +kernel

end Evald.Calibrate
