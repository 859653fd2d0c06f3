import Mathlib.Algebra.Order.Field.Basic
import Mathlib.Data.Nat.Cast.Order.Field
import Mathlib.Tactic.FieldSimp
import StyleSync.Numeric.Shortest
import StyleSync.Proofs.Numeric.DigitRows
import StyleSync.Proofs.Numeric.Doubles

/-! # Rounding intervals

A `RoundingInterval` in rational numbers, and the search for its points on a decimal grid. Stated here:

* `covers_iff`: the integer comparisons decide whether a point of the grid belongs to the interval;
* `nearestOn_of_onGrid?`, `isSome_onGrid?`: on a grid that has points in the interval, the one is found that
  is `Preferred` to all others, the nearest and of two equally near the greater;
* `decimalPoint_spec`: the number lies between the powers of ten at its decimal point.
-/

set_option autoImplicit false

namespace StyleSync

open Binary64

/-! ## Powers -/

theorem zpow_eq_pow_div_pow (base : ℚ) (e : ℤ) : base ^ e = base ^ e.toNat / base ^ (-e).toNat := by
  rcases le_total 0 e with he | he
  · rw [Int.toNat_of_nonpos (by omega : -e ≤ 0), pow_zero, div_one, ← zpow_natCast,
      Int.toNat_of_nonneg he]
  · rw [Int.toNat_of_nonpos he, pow_zero, one_div, ← zpow_natCast, Int.toNat_of_nonneg (by omega),
      zpow_neg, inv_inv]

theorem ten_zpow_mul_ten_zpow {a b c : ℤ} (h : a + b = c) : (10 : ℚ) ^ a * 10 ^ b = 10 ^ c := by
  rw [← h, zpow_add₀ (by norm_num)]

theorem ten_pow_mul_ten_zpow {count : ℕ} {b c : ℤ} (h : count + b = c) :
    ((10 ^ count : ℕ) : ℚ) * 10 ^ b = 10 ^ c := by
  rw [Nat.cast_pow, Nat.cast_ofNat, ← zpow_natCast]
  exact ten_zpow_mul_ten_zpow h

/-! ## Nearness -/

/-- `v` is nearer to `x` than `w` is, or as near and not less than it. -/
def Preferred (x v w : ℚ) : Prop :=
  |v - x| < |w - x| ∨ |v - x| = |w - x| ∧ w ≤ v

section Preferred

variable {x v w : ℚ}

theorem preferred_of_le_of_le (hvw : w ≤ v) (hvx : v ≤ x) : Preferred x v w := by
  rw [Preferred, abs_of_nonpos (sub_nonpos.mpr hvx), abs_of_nonpos (sub_nonpos.mpr (hvw.trans hvx))]
  rcases hvw.lt_or_eq with hlt | rfl
  · exact .inl (by linarith)
  · exact .inr ⟨rfl, le_rfl⟩

theorem preferred_of_ge_of_ge (hvw : v ≤ w) (hvx : x ≤ v) : Preferred x v w := by
  rw [Preferred, abs_of_nonneg (sub_nonneg.mpr hvx), abs_of_nonneg (sub_nonneg.mpr (hvx.trans hvw))]
  rcases hvw.lt_or_eq with hlt | rfl
  · exact .inl (by linarith)
  · exact .inr ⟨rfl, le_rfl⟩

theorem preferred_of_below (hv : v ≤ x) (hw : x ≤ w) (h : x - v < w - x) : Preferred x v w := by
  rw [Preferred, abs_of_nonpos (sub_nonpos.mpr hv), abs_of_nonneg (sub_nonneg.mpr hw)]
  exact .inl (by linarith)

theorem preferred_of_above (hv : x ≤ v) (hw : w ≤ x) (h : v - x ≤ x - w) : Preferred x v w := by
  rw [Preferred, abs_of_nonneg (sub_nonneg.mpr hv), abs_of_nonpos (sub_nonpos.mpr hw)]
  rcases h.lt_or_eq with hlt | heq
  · exact .inl (by linarith)
  · exact .inr ⟨by linarith, hw.trans hv⟩

theorem Preferred.trans {u : ℚ} (hu : Preferred x u v) (hv : Preferred x v w) : Preferred x u w := by
  rcases hu with hu | ⟨hu, hle⟩ <;> rcases hv with hv | ⟨hv, hge⟩
  · exact .inl (hu.trans hv)
  · exact .inl (hu.trans_eq hv)
  · exact .inl (hu.trans_lt hv)
  · exact .inr ⟨hu.trans hv, hge.trans hle⟩

theorem Preferred.antisymm (hv : Preferred x v w) (hw : Preferred x w v) : v = w := by
  rcases hv with hv | ⟨hv, hle⟩
  · rcases hw with hw | ⟨hw, -⟩ <;> linarith
  · rcases hw with hw | ⟨-, hge⟩
    · linarith
    · exact le_antisymm hge hle

end Preferred

namespace RoundingInterval

/-! ## The interval in rational numbers -/

/-- The number in the interval. -/
def center (interval : RoundingInterval) : ℚ :=
  interval.num / interval.den

/-- The lower end. -/
def low (interval : RoundingInterval) : ℚ :=
  interval.below / interval.den

/-- The upper end. -/
def high (interval : RoundingInterval) : ℚ :=
  interval.above / interval.den

/-- Whether a number belongs to the interval. -/
def Holds (interval : RoundingInterval) (v : ℚ) : Prop :=
  Between (interval.closed = true) interval.low interval.high v

/-- The number of the interval is positive and lies inside. -/
structure Proper (interval : RoundingInterval) : Prop where
  den_pos : 0 < interval.den
  below_lt : interval.below < interval.num
  lt_above : interval.num < interval.above

variable {interval : RoundingInterval}

theorem Proper.holds_center (h : interval.Proper) : interval.Holds interval.center := by
  have hden : (0 : ℚ) < interval.den := Nat.cast_pos.mpr h.den_pos
  refine Between.of_lt ?_ ?_
  · exact (div_lt_div_iff_of_pos_right hden).mpr (Nat.cast_lt.mpr h.below_lt)
  · exact (div_lt_div_iff_of_pos_right hden).mpr (Nat.cast_lt.mpr h.lt_above)

/-! ## Decimal grids -/

theorem tenPower_eq (e : ℤ) : (10 : ℚ) ^ e = (tenPower e).1 / (tenPower e).2 := by
  rw [zpow_eq_pow_div_pow]
  simp [tenPower]

theorem tenPower_fst_pos (e : ℤ) : 0 < (tenPower e).1 :=
  Nat.pow_pos (by decide)

theorem tenPower_snd_pos (e : ℤ) : 0 < (tenPower e).2 :=
  Nat.pow_pos (by decide)

theorem covers_iff (h : interval.Proper) {grid : ℤ} {coefficient : ℕ} :
    interval.covers grid coefficient ↔ interval.Holds (coefficient * 10 ^ grid) := by
  obtain ⟨up, down, hpower, hdown⟩ : ∃ up down, tenPower grid = (up, down) ∧ 0 < down :=
    ⟨_, _, rfl, tenPower_snd_pos grid⟩
  have hden := h.den_pos
  have hcommon : (0 : ℚ) < interval.den * down := by positivity
  have hcandidate : (coefficient * 10 ^ grid : ℚ) =
      (coefficient * up * interval.den : ℕ) / (interval.den * down) := by
    rw [tenPower_eq, hpower]
    push_cast
    field_simp
  have hend : ∀ numerator : ℕ, (numerator / interval.den : ℚ) =
      (numerator * down : ℕ) / (interval.den * down) := by
    intro numerator
    push_cast
    field_simp
  simp only [Holds, between_iff, low, high, hcandidate, hend, div_lt_div_iff_of_pos_right hcommon,
    div_left_inj' hcommon.ne', Nat.cast_lt, Nat.cast_inj]
  unfold covers
  rw [hpower]
  cases interval.closed with
  | false => simp
  | true =>
    simp
    omega

/-! ## The point of a grid that stands for the number -/

/-- The grid point at or below the number. -/
def floorOn (interval : RoundingInterval) (grid : ℤ) : ℕ :=
  interval.num * (tenPower grid).2 / (interval.den * (tenPower grid).1)

theorem center_div_eq (h : interval.Proper) (grid : ℤ) :
    interval.center / 10 ^ grid =
      interval.floorOn grid +
        (interval.num * (tenPower grid).2 % (interval.den * (tenPower grid).1) : ℕ) /
          (interval.den * (tenPower grid).1 : ℕ) := by
  have hden := h.den_pos
  have hup := tenPower_fst_pos grid
  have hdown := tenPower_snd_pos grid
  have hsplit := Nat.div_add_mod (interval.num * (tenPower grid).2)
    (interval.den * (tenPower grid).1)
  have hwhole : (interval.den * (tenPower grid).1 : ℕ) * (interval.floorOn grid : ℚ) +
      (interval.num * (tenPower grid).2 % (interval.den * (tenPower grid).1) : ℕ) =
        (interval.num * (tenPower grid).2 : ℕ) := by
    rw [floorOn]
    exact_mod_cast hsplit
  have hpos : (0 : ℚ) < (interval.den * (tenPower grid).1 : ℕ) := by positivity
  rw [← mul_left_inj' hpos.ne', add_mul, div_mul_cancel₀ _ hpos.ne', mul_comm (interval.floorOn grid : ℚ),
    hwhole, center, tenPower_eq]
  push_cast
  field_simp

section OnGrid

variable (h : interval.Proper) (grid : ℤ)

include h

theorem floorOn_le_center : interval.floorOn grid * 10 ^ grid ≤ interval.center := by
  have hstep : (0 : ℚ) < 10 ^ grid := by positivity
  rw [← le_div_iff₀ hstep, center_div_eq h]
  exact le_add_of_nonneg_right (by positivity)

theorem center_lt_floorOn_succ : interval.center < (interval.floorOn grid + 1) * 10 ^ grid := by
  have hstep : (0 : ℚ) < 10 ^ grid := by positivity
  have hpos : 0 < interval.den * (tenPower grid).1 := Nat.mul_pos h.den_pos (tenPower_fst_pos grid)
  rw [← div_lt_iff₀ hstep, center_div_eq h, add_lt_add_iff_left,
    div_lt_one (Nat.cast_pos.mpr hpos), Nat.cast_lt]
  exact Nat.mod_lt _ hpos

theorem holds_floorOn {other : ℕ} (hother : interval.Holds (other * 10 ^ grid))
    (hle : other ≤ interval.floorOn grid) : interval.Holds (interval.floorOn grid * 10 ^ grid) :=
  hother.convex h.holds_center (by gcongr) (floorOn_le_center h grid)

theorem holds_floorOn_succ {other : ℕ} (hother : interval.Holds (other * 10 ^ grid))
    (hlt : interval.floorOn grid < other) :
    interval.Holds ((interval.floorOn grid + 1 : ℕ) * 10 ^ grid) := by
  refine h.holds_center.convex hother ?_ ?_
  · rw [Nat.cast_add_one]
    exact (center_lt_floorOn_succ h grid).le
  · gcongr
    exact hlt

/-- The greater neighbour is tried first unless the lesser one is nearer. -/
theorem onGrid?_greater :
    interval.onGrid? .greater grid =
      if 2 * (interval.center - interval.floorOn grid * 10 ^ grid) < 10 ^ grid then
        [interval.floorOn grid, interval.floorOn grid + 1].find? (interval.covers grid)
      else
        [interval.floorOn grid + 1, interval.floorOn grid].find? (interval.covers grid) := by
  have hstep : (0 : ℚ) < 10 ^ grid := by positivity
  have hpos : 0 < interval.den * (tenPower grid).1 := Nat.mul_pos h.den_pos (tenPower_fst_pos grid)
  have hnearer : 2 * (interval.center - interval.floorOn grid * 10 ^ grid) < 10 ^ grid ↔
      2 * (interval.num * (tenPower grid).2 % (interval.den * (tenPower grid).1)) <
        interval.den * (tenPower grid).1 := by
    have hcenter := center_div_eq h grid
    rw [div_eq_iff hstep.ne'] at hcenter
    rw [hcenter, add_mul, add_sub_cancel_left, ← mul_assoc, mul_lt_iff_lt_one_left hstep, ← mul_div_assoc,
      div_lt_one (Nat.cast_pos.mpr hpos)]
    exact_mod_cast Iff.rfl
  simp only [hnearer]
  unfold onGrid?
  simp only [Tie.takesFloor, Bool.and_false, Bool.or_false, decide_eq_true_eq]
  split <;> rfl

end OnGrid

/-- A point of a grid that lies in the interval and is preferred to all others that do. -/
structure NearestOn (interval : RoundingInterval) (grid : ℤ) (coefficient : ℕ) : Prop where
  holds : interval.Holds (coefficient * 10 ^ grid)
  preferred : ∀ other : ℕ, interval.Holds (other * 10 ^ grid) →
    Preferred interval.center (coefficient * 10 ^ grid) (other * 10 ^ grid)

theorem eq_of_find?_pair {α : Type} {p : α → Bool} {a b c : α} (h : [a, b].find? p = some c) :
    a = c ∧ p a ∨ b = c ∧ ¬p a ∧ p b := by
  cases ha : p a with
  | true =>
    rw [List.find?_cons_of_pos ha, Option.some.injEq] at h
    exact .inl ⟨h, rfl⟩
  | false =>
    rw [List.find?_cons_of_neg (by simp [ha]), List.find?_singleton] at h
    split at h
    · next hb => exact .inr ⟨Option.some.inj h, by simp, hb⟩
    · contradiction

section NearestOn

variable (h : interval.Proper) {grid : ℤ}

include h

theorem nearestOn_floorOn (hfirst : 2 * (interval.center - interval.floorOn grid * 10 ^ grid) < 10 ^ grid ∨
    ¬interval.Holds ((interval.floorOn grid + 1 : ℕ) * 10 ^ grid))
    (hholds : interval.Holds (interval.floorOn grid * 10 ^ grid)) :
    interval.NearestOn grid (interval.floorOn grid) := by
  refine ⟨hholds, fun other hother => ?_⟩
  rcases le_or_gt other (interval.floorOn grid) with hle | hlt
  · exact preferred_of_le_of_le (by gcongr) (floorOn_le_center h grid)
  · rcases hfirst with hnearer | hsucc
    · have hnext : ((interval.floorOn grid + 1 : ℕ) * 10 ^ grid : ℚ) ≤ other * 10 ^ grid := by
        gcongr
        exact hlt
      have hcenter := center_lt_floorOn_succ h grid
      rw [Nat.cast_add_one] at hnext
      exact preferred_of_below (floorOn_le_center h grid) (by linarith) (by linarith)
    · exact absurd (holds_floorOn_succ h grid hother hlt) hsucc

theorem nearestOn_floorOn_succ
    (hfirst : 10 ^ grid ≤ 2 * (interval.center - interval.floorOn grid * 10 ^ grid) ∨
      ¬interval.Holds (interval.floorOn grid * 10 ^ grid))
    (hholds : interval.Holds ((interval.floorOn grid + 1 : ℕ) * 10 ^ grid)) :
    interval.NearestOn grid (interval.floorOn grid + 1) := by
  have hcenter := center_lt_floorOn_succ h grid
  refine ⟨hholds, fun other hother => ?_⟩
  rcases le_or_gt other (interval.floorOn grid) with hle | hlt
  · rcases hfirst with hnearer | hfloor
    · have hbefore : (other * 10 ^ grid : ℚ) ≤ interval.floorOn grid * 10 ^ grid := by gcongr
      rw [Nat.cast_add_one]
      exact preferred_of_above hcenter.le (by linarith [floorOn_le_center h grid]) (by linarith)
    · exact absurd (holds_floorOn h grid hother hle) hfloor
  · refine preferred_of_ge_of_ge ?_ ?_
    · gcongr
      exact hlt
    · rw [Nat.cast_add_one]
      exact hcenter.le

theorem nearestOn_of_onGrid? {coefficient : ℕ}
    (hsome : interval.onGrid? .greater grid = some coefficient) :
    interval.NearestOn grid coefficient := by
  rw [onGrid?_greater h grid] at hsome
  split at hsome
  · next hnearer =>
    rcases eq_of_find?_pair hsome with ⟨rfl, hcovers⟩ | ⟨rfl, hfloor, hcovers⟩
    · exact nearestOn_floorOn h (.inl hnearer) ((covers_iff h).mp hcovers)
    · rw [covers_iff h] at hfloor
      exact nearestOn_floorOn_succ h (.inr hfloor) ((covers_iff h).mp hcovers)
  · next hnearer =>
    rcases eq_of_find?_pair hsome with ⟨rfl, hcovers⟩ | ⟨rfl, hsucc, hcovers⟩
    · exact nearestOn_floorOn_succ h (.inl (not_lt.mp hnearer)) ((covers_iff h).mp hcovers)
    · rw [covers_iff h] at hsucc
      exact nearestOn_floorOn h (.inr hsucc) ((covers_iff h).mp hcovers)

theorem isSome_onGrid? {coefficient : ℕ} (hholds : interval.Holds (coefficient * 10 ^ grid)) :
    (interval.onGrid? .greater grid).isSome := by
  have hneighbour : interval.covers grid (interval.floorOn grid) ∨
      interval.covers grid (interval.floorOn grid + 1) := by
    rw [covers_iff h, covers_iff h]
    rcases le_or_gt coefficient (interval.floorOn grid) with hle | hlt
    · exact .inl (holds_floorOn h grid hholds hle)
    · exact .inr (holds_floorOn_succ h grid hholds hlt)
  rw [onGrid?_greater h grid]
  split <;> rw [List.find?_isSome] <;> rcases hneighbour with hcovers | hcovers <;>
    exact ⟨_, by simp, hcovers⟩

end NearestOn

/-! ## The decimal point -/

theorem placesBelow_spec {fuel num den : ℕ} (h : den ≤ 10 ^ fuel * num) :
    den ≤ 10 ^ placesBelow fuel num den * num ∧
      ∀ places, places < placesBelow fuel num den → 10 ^ places * num < den := by
  induction fuel generalizing num with
  | zero =>
    rw [placesBelow]
    exact ⟨h, fun _ hplaces => absurd hplaces (Nat.not_lt_zero _)⟩
  | succ fuel ih =>
    rw [placesBelow]
    split
    · next hle => exact ⟨by simpa using hle, fun _ hplaces => absurd hplaces (Nat.not_lt_zero _)⟩
    · next hlt =>
      have hmul : ∀ places, 10 ^ (places + 1) * num = 10 ^ places * (10 * num) := by
        intro places
        rw [pow_succ, mul_assoc]
      rw [hmul] at h
      obtain ⟨henough, hleast⟩ := ih h
      refine ⟨by rwa [hmul], fun places hplaces => ?_⟩
      cases places with
      | zero => simpa using hlt
      | succ places =>
        rw [hmul]
        exact hleast places (Nat.lt_of_succ_lt_succ hplaces)

theorem decimalPoint_spec (h : interval.Proper) :
    (10 : ℚ) ^ (interval.decimalPoint - 1) ≤ interval.center ∧
      interval.center < 10 ^ interval.decimalPoint := by
  have hden : (0 : ℚ) < interval.den := Nat.cast_pos.mpr h.den_pos
  have hnum : 0 < interval.num := Nat.zero_lt_of_lt h.below_lt
  rw [center, le_div_iff₀ hden, div_lt_iff₀ hden, decimalPoint]
  split
  · next hle =>
    have hquotient : interval.num / interval.den ≠ 0 := (Nat.div_pos hle h.den_pos).ne'
    have hlow := pow_length_digitsOf_le (by decide : 2 ≤ 10) hquotient
    have hhigh := lt_pow_length_digitsOf (by decide : 2 ≤ 10) (interval.num / interval.den)
    rw [Nat.le_div_iff_mul_le h.den_pos] at hlow
    rw [Nat.div_lt_iff_lt_mul h.den_pos] at hhigh
    have hlength := List.length_pos_of_ne_nil (digitsOf_ne_nil 10 (interval.num / interval.den))
    have hpred : ((digitsOf 10 (interval.num / interval.den)).length : ℤ) - 1 =
        ((digitsOf 10 (interval.num / interval.den)).length - 1 : ℕ) := by omega
    rw [hpred, zpow_natCast, zpow_natCast]
    exact_mod_cast And.intro hlow hhigh
  · next hlt =>
    have hfuel : interval.den ≤ 10 ^ interval.den * interval.num :=
      (Nat.lt_pow_self (by decide)).le.trans (Nat.le_mul_of_pos_right _ hnum)
    obtain ⟨henough, hleast⟩ := placesBelow_spec hfuel
    cases hplaces : placesBelow interval.den interval.num interval.den with
    | zero =>
      rw [hplaces, pow_zero, one_mul] at henough
      exact absurd henough hlt
    | succ places =>
      have hbefore := hleast places (by omega)
      rw [hplaces] at henough
      have hlow : (1 - ((places + 1 : ℕ) : ℤ) - 1) = -((places + 1 : ℕ) : ℤ) := by omega
      have hhigh : (1 - ((places + 1 : ℕ) : ℤ)) = -(places : ℤ) := by omega
      rw [hlow, hhigh, zpow_neg, zpow_neg, zpow_natCast, zpow_natCast,
        inv_mul_le_iff₀ (by positivity), lt_inv_mul_iff₀ (by positivity)]
      exact_mod_cast And.intro henough hbefore

/-- The nearest point on the grid for so many digits has at most as many or is the next power of ten. -/
theorem NearestOn.le_pow (h : interval.Proper) {count coefficient : ℕ}
    (hnearest : interval.NearestOn (interval.decimalPoint - count) coefficient) :
    coefficient ≤ 10 ^ count := by
  by_contra hgreater
  have hpower : ((10 ^ count : ℕ) : ℚ) * 10 ^ (interval.decimalPoint - count) =
      10 ^ interval.decimalPoint := ten_pow_mul_ten_zpow (by omega)
  have hcenter := (decimalPoint_spec h).2
  have hless : (10 : ℚ) ^ interval.decimalPoint <
      coefficient * 10 ^ (interval.decimalPoint - count) := by
    rw [← hpower]
    exact mul_lt_mul_of_pos_right (Nat.cast_lt.mpr (not_le.mp hgreater)) (by positivity)
  have hholds : interval.Holds ((10 ^ count : ℕ) * 10 ^ (interval.decimalPoint - count)) := by
    rw [hpower]
    exact h.holds_center.convex hnearest.holds hcenter.le hless.le
  have hworse := hnearest.preferred _ hholds
  rw [hpower] at hworse
  exact hless.ne' (hworse.antisymm (preferred_of_ge_of_ge hless.le hcenter.le))

end RoundingInterval

end StyleSync
