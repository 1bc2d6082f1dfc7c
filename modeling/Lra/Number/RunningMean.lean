import Mathlib.Algebra.Order.Field.Basic
import Mathlib.Tactic.FieldSimp
import Mathlib.Tactic.Positivity
import Mathlib.Tactic.Ring

/-!
# A running mean and its spread

The mean of some values and the sum of their squared deviations, updated with one value at a
time. The mean of positive values is positive and the sum never falls, whatever they began
with.
-/

namespace RunningMean

variable {K : Type*} [Field K] {mean x n : K}

/-- The mean after the `n`th value. -/
def next (mean x n : K) : K := mean + (x - mean) / n

/-- What the value adds to the sum of squared deviations. -/
def spread (mean x n : K) : K := (x - mean) * (x - next mean x n)

theorem next_eq (nonzero : n ≠ 0) : next mean x n = ((n - 1) * mean + x) / n := by
  rw [next]
  field_simp
  ring

theorem spread_eq (nonzero : n ≠ 0) : spread mean x n = (x - mean) ^ 2 * ((n - 1) / n) := by
  rw [spread, next]
  field_simp
  ring

/-- A value equal to the mean changes nothing. -/
theorem next_self (mean n : K) : next mean mean n = mean := by
  rw [next, sub_self, zero_div, add_zero]

theorem spread_self (mean n : K) : spread mean mean n = 0 := by
  rw [spread, sub_self, zero_mul]

variable [LinearOrder K] [IsStrictOrderedRing K]

theorem next_pos (mean_pos : 0 < mean) (x_pos : 0 < x) (one_le : 1 ≤ n) : 0 < next mean x n := by
  have n_pos : 0 < n := zero_lt_one.trans_le one_le
  have others : 0 ≤ (n - 1) * mean := mul_nonneg (sub_nonneg.mpr one_le) mean_pos.le
  rw [next_eq n_pos.ne']
  positivity

theorem spread_nonneg (one_le : 1 ≤ n) : 0 ≤ spread mean x n := by
  have n_pos : 0 < n := zero_lt_one.trans_le one_le
  have share : 0 ≤ (n - 1) / n := div_nonneg (sub_nonneg.mpr one_le) n_pos.le
  rw [spread_eq n_pos.ne']
  positivity

end RunningMean
