import Evald.Price
import Mathlib.Tactic.Linarith
import Mathlib.Tactic.NormNum
import Mathlib.Tactic.Positivity

/-! # Doubles that round

An operation on finite doubles is off its exact result by a small part of it.  So what is
nothing stays nothing, and what is something stays something (`roundUsd_pos`).
-/

namespace Evald

/-- The double nearest to an exact result, within the range of normal doubles. -/
def RoundsTo (exact : ℚ) (x : F64) : Prop :=
  exact = 0 ∨ 1 / 2 ^ 1000 ≤ |exact| ∧ |exact| ≤ 2 ^ 1000 →
    ∃ r, x = .finite r ∧ |r - exact| ≤ |exact| / 2 ^ 53

/-- IEEE arithmetic. -/
structure Floats.Rounds (float : Floats) : Prop where
  ofInt : ∀ n : ℤ, RoundsTo n (float.ofInt n)
  add : ∀ a b, RoundsTo (a + b) (float.add (.finite a) (.finite b))
  mul : ∀ a b, RoundsTo (a * b) (float.mul (.finite a) (.finite b))
  div : ∀ a b, b ≠ 0 → RoundsTo (a / b) (float.div (.finite a) (.finite b))
  round : ∀ a, float.round (.finite a) =
    .finite (if 0 ≤ a then ⌊a + 1 / 2⌋ else ⌈a - 1 / 2⌉)

theorem roundsTo_self (exact : ℚ) : RoundsTo exact (.finite exact) := by
  intro _
  refine ⟨exact, rfl, ?_⟩
  rw [sub_self, abs_zero]
  positivity

/-- Doubles that never round keep the promise. -/
theorem rounds_exact : Floats.exact.Rounds where
  ofInt n := roundsTo_self n
  add a b := roundsTo_self (a + b)
  mul a b := roundsTo_self (a * b)
  div a b _ := roundsTo_self (a / b)
  round a := by
    show F64.finite _ = _
    split <;> rfl

/-- Nothing is rounded to nothing. -/
theorem RoundsTo.zero {x : F64} (rounds : RoundsTo 0 x) : x = .finite 0 := by
  obtain ⟨r, isFinite, near⟩ := rounds (.inl rfl)
  rw [sub_zero, abs_zero, zero_div] at near
  rw [isFinite, abs_nonpos_iff.mp near]

theorem RoundsTo.bounds {exact : ℚ} {x : F64} (rounds : RoundsTo exact x)
    (low : 1 / 2 ^ 100 ≤ exact) (high : exact ≤ 2 ^ 200) :
    ∃ r, x = .finite r ∧ exact / 2 ≤ r ∧ r ≤ 2 * exact := by
  have positive : 0 < exact := lt_of_lt_of_le (by positivity) low
  have inRange : 1 / 2 ^ 1000 ≤ |exact| ∧ |exact| ≤ 2 ^ 1000 := by
    rw [abs_of_pos positive]
    have tiny : (1 : ℚ) / 2 ^ 1000 ≤ 1 / 2 ^ 100 :=
      one_div_le_one_div_of_le (by positivity) (pow_le_pow_right₀ (by norm_num) (by norm_num))
    have huge : (2 : ℚ) ^ 200 ≤ 2 ^ 1000 := pow_le_pow_right₀ (by norm_num) (by norm_num)
    exact ⟨le_trans tiny low, le_trans high huge⟩
  obtain ⟨r, isFinite, near⟩ := rounds (.inr inRange)
  rw [abs_of_pos positive, abs_le] at near
  have small : exact / 2 ^ 53 ≤ exact / 2 := by
    apply div_le_div_of_nonneg_left positive.le (by norm_num) (by norm_num)
  exact ⟨r, isFinite, by linarith [near.1], by linarith [near.2]⟩

/-! ## Sums of counts -/

/-- A double that is a whole number up to a few roundings. -/
def Near (k n : Nat) (x : F64) : Prop := ∃ r, x = .finite r ∧ n / 2 ^ k ≤ r ∧ r ≤ 2 ^ k * n

theorem Near.mono {k n : Nat} {x : F64} (near : Near k n x) : Near (k + 1) n x := by
  obtain ⟨r, isFinite, low, high⟩ := near
  have some : (0 : ℚ) ≤ n := Nat.cast_nonneg n
  refine ⟨r, isFinite, le_trans ?_ low, le_trans high ?_⟩
  · apply div_le_div_of_nonneg_left some (by positivity)
    exact pow_le_pow_right₀ (by norm_num) (by omega)
  · apply mul_le_mul_of_nonneg_right _ some
    exact pow_le_pow_right₀ (by norm_num) (by omega)

theorem near_zero (k : Nat) : Near k 0 (.finite 0) := ⟨0, rfl, by simp, by simp⟩

theorem Near.eq_zero {k : Nat} {x : F64} (near : Near k 0 x) : x = .finite 0 := by
  obtain ⟨r, isFinite, low, high⟩ := near
  simp only [Nat.cast_zero, zero_div, mul_zero] at low high
  rw [isFinite, le_antisymm high low]

/-- One more rounding of what is near a whole number. -/
theorem Near.rounded {k n : Nat} {r : ℚ} {x : F64} (few : k ≤ 10) (fits : n < 2 ^ 70)
    (low : n / 2 ^ k ≤ r) (high : r ≤ 2 ^ k * n) (rounds : RoundsTo r x) : Near (k + 1) n x := by
  have power : (2 : ℚ) ^ k ≤ 2 ^ 10 := pow_le_pow_right₀ (by norm_num) few
  have positive : (0 : ℚ) < 2 ^ k := by positivity
  cases Nat.eq_zero_or_pos n with
  | inl none =>
    subst none
    simp only [Nat.cast_zero, zero_div, mul_zero] at low high
    rw [le_antisymm high low] at rounds
    rw [rounds.zero]
    exact near_zero _
  | inr some =>
    have one : (1 : ℚ) ≤ n := by exact_mod_cast some
    have fitsRat : (n : ℚ) ≤ 2 ^ 70 := by exact_mod_cast fits.le
    have notTiny : 1 / 2 ^ 100 ≤ r := by
      refine le_trans ?_ low
      rw [div_le_div_iff₀ (by positivity) positive]
      nlinarith
    have notHuge : r ≤ 2 ^ 200 := by
      refine le_trans high ?_
      calc (2 : ℚ) ^ k * n ≤ 2 ^ 10 * 2 ^ 70 := mul_le_mul power fitsRat (by positivity) (by positivity)
        _ ≤ 2 ^ 200 := by norm_num
    obtain ⟨s, isFinite, below, above⟩ := rounds.bounds notTiny notHuge
    refine ⟨s, isFinite, ?_, ?_⟩
    · rw [pow_succ, ← div_div]
      linarith
    · rw [pow_succ]
      linarith

section Arithmetic

variable {float : Floats} (rounds : float.Rounds)

include rounds

theorem near_ofInt {n : Nat} (fits : n < 2 ^ 64) : Near 1 n (float.ofInt n) := by
  apply Near.rounded (k := 0) (r := n) (by omega) (by omega) (by simp) (by simp)
  exact_mod_cast rounds.ofInt n

theorem Near.times_one {k n : Nat} {x : F64} (near : Near k n x) (few : k ≤ 10)
    (fits : n < 2 ^ 70) : Near (k + 1) n (float.mul x (.finite 1)) := by
  obtain ⟨r, rfl, low, high⟩ := near
  apply Near.rounded few fits low high
  have product := rounds.mul r 1
  rwa [mul_one] at product

theorem Near.times_zero {k n : Nat} {x : F64} (near : Near k n x) :
    float.mul x (.finite 0) = .finite 0 := by
  obtain ⟨r, rfl, -, -⟩ := near
  have product := rounds.mul r 0
  rw [mul_zero] at product
  exact product.zero

theorem Near.add {k n m : Nat} {x y : F64} (first : Near k n x) (second : Near k m y)
    (few : k ≤ 10) (fits : n + m < 2 ^ 70) : Near (k + 1) (n + m) (float.add x y) := by
  obtain ⟨r, rfl, low, high⟩ := first
  obtain ⟨s, rfl, low', high'⟩ := second
  apply Near.rounded few fits _ _ (rounds.add r s)
  · push_cast
    rw [add_div]
    linarith
  · push_cast
    linarith

theorem roundUsd_zero : Pricing.roundUsd float (.finite 0) = .finite 0 := by
  have product := rounds.mul 0 (10 ^ 12)
  rw [zero_mul] at product
  have quotient := rounds.div 0 (10 ^ 12) (by norm_num)
  rw [zero_div] at quotient
  have half : ⌊(0 : ℚ) + 1 / 2⌋ = 0 := by norm_num
  rw [Pricing.roundUsd, product.zero, rounds.round, if_pos le_rfl, half, Int.cast_zero, quotient.zero]

/-- A sum of counts is worth something if the counts are some. -/
theorem roundUsd_pos {k n : Nat} {x : F64} (near : Near k n x) (few : k ≤ 10) (some : 0 < n)
    (fits : n < 2 ^ 70) : ∃ usd, 0 < usd ∧ Pricing.roundUsd float x = .finite usd := by
  obtain ⟨r, rfl, low, high⟩ := near
  have power : (2 : ℚ) ^ k ≤ 2 ^ 10 := pow_le_pow_right₀ (by norm_num) few
  have one : (1 : ℚ) ≤ n := by exact_mod_cast some
  have fitsRat : (n : ℚ) ≤ 2 ^ 70 := by exact_mod_cast fits.le
  have atLeast : 1 / 2 ^ 10 ≤ r := by
    refine le_trans ?_ low
    rw [div_le_div_iff₀ (by positivity) (by positivity)]
    nlinarith
  have atMost : r ≤ 2 ^ 80 := by
    refine le_trans high ?_
    calc (2 : ℚ) ^ k * n ≤ 2 ^ 10 * 2 ^ 70 := mul_le_mul power fitsRat (by positivity) (by positivity)
      _ ≤ 2 ^ 80 := by norm_num
  obtain ⟨s, product, below, above⟩ := (rounds.mul r (10 ^ 12)).bounds (by linarith) (by linarith)
  have whole : (1 : ℚ) ≤ ⌊s + 1 / 2⌋ := by
    exact_mod_cast Int.le_floor.mpr (by push_cast; linarith)
  have bounded : (⌊s + 1 / 2⌋ : ℚ) ≤ 2 ^ 130 := le_trans (Int.floor_le _) (by linarith)
  obtain ⟨usd, quotient, positive, -⟩ := (rounds.div ⌊s + 1 / 2⌋ (10 ^ 12) (by norm_num)).bounds
    (by rw [le_div_iff₀ (by norm_num)]; linarith) (by rw [div_le_iff₀ (by norm_num)]; linarith)
  refine ⟨usd, ?_, ?_⟩
  · have share : 0 < (⌊s + 1 / 2⌋ : ℚ) / 10 ^ 12 := by positivity
    linarith
  · rw [Pricing.roundUsd, product, rounds.round, if_pos (by linarith), quotient]

end Arithmetic

end Evald
