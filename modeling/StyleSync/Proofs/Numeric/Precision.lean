import Mathlib.Algebra.Order.Floor.Semifield
import Mathlib.Data.Rat.Floor
import StyleSync.Proofs.Numeric.Intervals

/-! # The interval of a double

`interval` is the interval in which the shortest digits of a double are sought. Stated here:

* `holds_interval_iff`: it holds just the numbers that are read as the double;
* `exists_holds_seventeen`: it has a point with at most seventeen digits inside.
-/

set_option autoImplicit false

namespace StyleSync

namespace Binary64

/-! ## The interval of a double -/

/-- The unit below a power of two is half the one above it, except at the least scale. -/
theorem scaleOf_pred (magnitude : ℕ) :
    scaleOf (magnitude - 1) =
      if significandOf magnitude = 2 ^ 52 ∧ -1074 < scaleOf magnitude then scaleOf magnitude - 1
      else scaleOf magnitude := by
  unfold scaleOf significandOf
  split_ifs <;> omega

/-- The real numbers that are read as a double. -/
def interval (x : Binary64) : RoundingInterval :=
  .ofDouble x.significand x.scale

/-- A quarter of the unit of the last place. -/
def quarter (x : Binary64) : ℚ :=
  2 ^ (x.scale - 2)

variable {x : Binary64}

theorem quarter_pos (x : Binary64) : 0 < x.quarter := by
  rw [quarter]
  positivity

theorem two_pow_scale (x : Binary64) : (2 : ℚ) ^ x.scale = 4 * x.quarter := by
  rw [quarter, zpow_sub₀ two_ne_zero]
  norm_num
  ring

/-- The numerators of the interval count quarters of the unit of the last place. -/
theorem quarters_div_den (x : Binary64) (quarters : ℕ) :
    ((quarters * Nat.pow 2 (x.scale - 2).toNat : ℕ) : ℚ) / x.interval.den = quarters * x.quarter := by
  have hden : x.interval.den = 2 ^ (-(x.scale - 2)).toNat := by
    rw [neg_sub]
    rfl
  rw [hden, quarter, zpow_eq_pow_div_pow, mul_div_assoc']
  norm_num

theorem center_eq_quarters (x : Binary64) :
    x.interval.center = 4 * x.significand * x.quarter := by
  have hcenter : x.interval.center = (4 * x.significand : ℕ) * x.quarter := quarters_div_den x _
  rw [hcenter]
  push_cast
  rfl

theorem high_eq_quarters (x : Binary64) :
    x.interval.high = (4 * x.significand + 2) * x.quarter := by
  have hhigh : x.interval.high = (4 * x.significand + 2 : ℕ) * x.quarter := quarters_div_den x _
  rw [hhigh]
  push_cast
  rfl

theorem low_eq_quarters (h : x.magnitude ≠ 0) :
    x.interval.low =
      (4 * x.significand - if x.significand = 2 ^ 52 ∧ -1074 < x.scale then 1 else 2) * x.quarter := by
  have hsignificand : 0 < x.significand := significandOf_pos h
  have hlow : x.interval.low =
      (4 * x.significand -
        if decide (x.significand = Nat.pow 2 52 ∧ -1074 < x.scale) then 1 else 2 : ℕ) * x.quarter :=
    quarters_div_den x _
  rw [hlow]
  by_cases hnarrow : x.significand = 2 ^ 52 ∧ -1074 < x.scale
  · have hdecide : decide (x.significand = Nat.pow 2 52 ∧ -1074 < x.scale) = true :=
      decide_eq_true hnarrow
    rw [if_pos hdecide, if_pos hnarrow, Nat.cast_sub (by omega)]
    push_cast
    rfl
  · have hdecide : decide (x.significand = Nat.pow 2 52 ∧ -1074 < x.scale) = false :=
      decide_eq_false hnarrow
    rw [hdecide, if_neg Bool.false_ne_true, if_neg hnarrow, Nat.cast_sub (by omega)]
    push_cast
    rfl

theorem modulus_eq_quarters (x : Binary64) : x.modulus = 4 * x.significand * x.quarter := by
  rw [modulus, two_pow_scale]
  ring

theorem center_interval (x : Binary64) : x.interval.center = x.modulus := by
  rw [center_eq_quarters, modulus_eq_quarters]

theorem high_interval (x : Binary64) : x.interval.high = halfwayAbove x.magnitude := by
  rw [high_eq_quarters, halfwayAbove, modulusOf_succ, ← modulus_eq, ← scale_eq, modulus_eq_quarters,
    two_pow_scale]
  ring

theorem low_interval (h : x.magnitude ≠ 0) : x.interval.low = halfwayAbove (x.magnitude - 1) := by
  have hsucc : x.magnitude - 1 + 1 = x.magnitude := Nat.succ_pred_eq_of_ne_zero h
  have hbefore := modulusOf_succ (x.magnitude - 1)
  rw [hsucc, scaleOf_pred, ← significand_eq, ← scale_eq, ← modulus_eq, modulus_eq_quarters] at hbefore
  rw [low_eq_quarters h, halfwayAbove, hsucc, ← modulus_eq, modulus_eq_quarters]
  split at hbefore
  · next hnarrow =>
    have hhalf : (2 : ℚ) ^ (x.scale - 1) = 2 * x.quarter := by
      rw [quarter, ← zpow_one_add₀ two_ne_zero]
      congr 1
      ring
    rw [hhalf] at hbefore
    rw [if_pos hnarrow]
    linarith
  · next hwide =>
    rw [two_pow_scale] at hbefore
    rw [if_neg hwide]
    linarith

theorem proper_interval (h : x.magnitude ≠ 0) : x.interval.Proper := by
  have hsignificand : 0 < x.significand := significandOf_pos h
  have hunit : 0 < Nat.pow 2 (x.scale - 2).toNat := Nat.pow_pos (by decide)
  refine ⟨Nat.pow_pos (by decide), Nat.mul_lt_mul_of_pos_right ?_ hunit,
    Nat.mul_lt_mul_of_pos_right ?_ hunit⟩
  · split <;> omega
  · omega

theorem holds_interval_iff (hfinite : x.magnitude < infinity) (hzero : x.magnitude ≠ 0) {v : ℚ} :
    x.interval.Holds v ↔ RoundsTo v x := by
  have hclosed : (x.interval.closed = true) = (x.significand % 2 = 0) := decide_eq_true_eq
  rw [roundsTo_iff hfinite hzero, RoundingInterval.Holds, hclosed, low_interval hzero, high_interval]

/-! ## Seventeen digits -/

/-- A grid that is finer than an interval is wide has a point inside. -/
theorem exists_mul_between {low high step : ℚ} (hstep : 0 < step) (hlow : 0 ≤ low)
    (hwide : step < high - low) : ∃ c : ℕ, low < c * step ∧ c * step < high := by
  refine ⟨⌊low / step⌋₊ + 1, ?_, ?_⟩
  · rw [← div_lt_iff₀ hstep, Nat.cast_add_one]
    exact Nat.lt_floor_add_one _
  · have hfloor : (⌊low / step⌋₊ : ℚ) * step ≤ low := by
      rw [← le_div_iff₀ hstep]
      exact Nat.floor_le (by positivity)
    push_cast
    linarith

theorem exists_holds_seventeen (hzero : x.magnitude ≠ 0) :
    ∃ coefficient : ℕ, x.interval.Holds (coefficient * 10 ^ (x.interval.decimalPoint - 17)) := by
  have hstep : (0 : ℚ) < 10 ^ (x.interval.decimalPoint - 17) := by positivity
  have hlow : 0 ≤ x.interval.low := by
    rw [low_interval hzero]
    exact (halfwayAbove_pos _).le
  have hquarter := x.quarter_pos
  have hsteps : (10 : ℚ) ^ (x.interval.decimalPoint - 17) * 10 ^ 16 ≤ 4 * x.significand * x.quarter := by
    have hpoint := (RoundingInterval.decimalPoint_spec (proper_interval hzero)).1
    rw [center_eq_quarters] at hpoint
    refine le_trans (le_of_eq ?_) hpoint
    rw [← zpow_natCast]
    exact ten_zpow_mul_ten_zpow (by push_cast; ring)
  have hwide : (10 : ℚ) ^ (x.interval.decimalPoint - 17) < x.interval.high - x.interval.low := by
    rw [high_eq_quarters, low_eq_quarters hzero, ← sub_mul]
    split
    · next hnarrow =>
      rw [hnarrow.1] at hsteps ⊢
      push_cast at hsteps ⊢
      linarith
    · have hsignificand : (x.significand : ℚ) * x.quarter ≤ 2 ^ 53 * x.quarter := by
        have hlt : (x.significand : ℚ) < 2 ^ 53 := by exact_mod_cast significandOf_lt x.magnitude
        exact mul_le_mul_of_nonneg_right hlt.le hquarter.le
      linarith
  obtain ⟨coefficient, habove, hbelow⟩ := exists_mul_between hstep hlow hwide
  exact ⟨coefficient, Between.of_lt habove hbelow⟩

end Binary64

end StyleSync
