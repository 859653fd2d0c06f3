import Mathlib.Data.List.TakeWhile
import StyleSync.Proofs.Numeric.Precision

/-! # The shortest digits of a double

`ShortestFor` says which decimal number stands for a double: it is read as the double, has the fewest digits
of all that are, and of those it is the nearest, the greater one of two equally near. Stated here:

* `shortestFor_shortest`: the search over decimal grids finds it, for every finite double other than zero;
* `Decimal.ShortestFor.unique`: there is only one.
-/

set_option autoImplicit false

namespace StyleSync

open Binary64

namespace Decimal

/-! ## Decimal numbers -/

/-- The number that the digits denote, the point standing in front of them and moved by `point` places. -/
def value (d : Decimal) : ℚ :=
  digitsValue 10 d.digits * 10 ^ (d.point - d.digits.length)

/-- All digits are below ten. -/
def HasDigits (d : Decimal) : Prop :=
  ∀ digit ∈ d.digits, digit < 10

theorem exists_eq_append_zeros (digits : List ℕ) :
    ∃ zeros, digits = (digits.reverse.dropWhile (· == 0)).reverse ++ List.replicate zeros 0 := by
  refine ⟨(digits.reverse.takeWhile (· == 0)).length, List.reverse_injective ?_⟩
  have hzeros : digits.reverse.takeWhile (· == 0) =
      List.replicate (digits.reverse.takeWhile (· == 0)).length 0 := by
    refine List.eq_replicate_of_mem fun digit hdigit => ?_
    simpa using List.mem_takeWhile_imp hdigit
  rw [List.reverse_append, List.reverse_reverse, List.reverse_replicate, ← hzeros,
    List.takeWhile_append_dropWhile]

section OfCoefficient

variable (coefficient : ℕ) (grid : ℤ)

theorem exists_digitsOf_eq_append :
    ∃ zeros, digitsOf 10 coefficient =
      (ofCoefficient coefficient grid).digits ++ List.replicate zeros 0 :=
  exists_eq_append_zeros (digitsOf 10 coefficient)

theorem value_ofCoefficient : (ofCoefficient coefficient grid).value = coefficient * 10 ^ grid := by
  obtain ⟨zeros, hdigits⟩ := exists_digitsOf_eq_append coefficient grid
  have hvalue := digitsValue_digitsOf (by decide : 2 ≤ 10) coefficient
  rw [hdigits, digitsValue_append, digitsValue_replicate_zero, List.length_replicate,
    Nat.add_zero] at hvalue
  have hpoint : (ofCoefficient coefficient grid).point -
      (ofCoefficient coefficient grid).digits.length = zeros + grid := by
    have hlength := congrArg List.length hdigits
    rw [List.length_append, List.length_replicate] at hlength
    have hdef : (ofCoefficient coefficient grid).point =
        grid + (digitsOf 10 coefficient).length := rfl
    rw [hdef, hlength]
    push_cast
    ring
  rw [value, hpoint, zpow_add₀ (by norm_num), zpow_natCast, ← mul_assoc]
  exact_mod_cast congrArg (fun n : ℕ => (n : ℚ) * 10 ^ grid) hvalue

theorem hasDigits_ofCoefficient : (ofCoefficient coefficient grid).HasDigits := by
  obtain ⟨zeros, hdigits⟩ := exists_digitsOf_eq_append coefficient grid
  intro digit hdigit
  have hmem : digit ∈ digitsOf 10 coefficient := by
    rw [hdigits]
    exact List.mem_append_left _ hdigit
  exact lt_of_mem_digitsOf (by decide) hmem

theorem exists_digits_eq_cons {coefficient : ℕ} (h : coefficient ≠ 0) (grid : ℤ) :
    ∃ first rest, first ≠ 0 ∧ (ofCoefficient coefficient grid).digits = first :: rest := by
  obtain ⟨zeros, hdigits⟩ := exists_digitsOf_eq_append coefficient grid
  obtain ⟨first, rest, hfirst, hcons⟩ := exists_digitsOf_eq_cons (by decide : 2 ≤ 10) h
  rw [hcons] at hdigits
  cases hstripped : (ofCoefficient coefficient grid).digits with
  | nil =>
    rw [hstripped, List.nil_append] at hdigits
    exact absurd (List.eq_of_mem_replicate (hdigits ▸ List.mem_cons_self)) hfirst
  | cons digit digits =>
    rw [hstripped, List.cons_append, List.cons.injEq] at hdigits
    exact ⟨digit, digits, hdigits.1 ▸ hfirst, rfl⟩

end OfCoefficient

theorem digitsOf_pow_ten (places : ℕ) : digitsOf 10 (10 ^ places) = 1 :: List.replicate places 0 := by
  induction places with
  | zero => exact digitsOf_of_lt (by decide)
  | succ places ih =>
    have hle : 10 ≤ 10 ^ (places + 1) := by
      rw [pow_succ]
      exact Nat.le_mul_of_pos_left _ (Nat.pow_pos (by decide))
    rw [digitsOf_of_le (by decide) hle, pow_succ, Nat.mul_div_cancel _ (by decide), ih,
      Nat.mul_mod_left, List.cons_append, ← List.replicate_succ']

theorem length_digits_le {coefficient count : ℕ} (hcount : 1 ≤ count) (h : coefficient ≤ 10 ^ count)
    (grid : ℤ) : (ofCoefficient coefficient grid).digits.length ≤ count := by
  rcases h.lt_or_eq with hlt | rfl
  · obtain ⟨zeros, hdigits⟩ := exists_digitsOf_eq_append coefficient grid
    have hlength := congrArg List.length hdigits
    rw [List.length_append] at hlength
    rcases Nat.eq_zero_or_pos coefficient with rfl | hpos
    · rw [digitsOf_of_lt (by decide), List.length_singleton] at hlength
      omega
    · have hpow := (pow_length_digitsOf_le (by decide : 2 ≤ 10) hpos.ne').trans_lt hlt
      have hless := (Nat.pow_lt_pow_iff_right (by decide)).mp hpow
      omega
  · have hdigits : (ofCoefficient (10 ^ count) grid).digits = [1] := by
      rw [ofCoefficient, digitsOf_pow_ten]
      dsimp only
      rw [List.reverse_cons, List.reverse_replicate, List.dropWhile_append_of_pos]
      · rfl
      · intro digit hdigit
        simpa using List.eq_of_mem_replicate hdigit
    rw [hdigits]
    exact hcount

/-- The point says below which power of ten the number lies. -/
theorem value_lt {d : Decimal} (hdigits : d.HasDigits) : d.value < 10 ^ d.point := by
  have hbound : (digitsValue 10 d.digits : ℚ) < 10 ^ (d.digits.length : ℤ) := by
    rw [zpow_natCast]
    exact_mod_cast digitsValue_lt_pow (by decide : 2 ≤ 10) hdigits
  calc d.value < 10 ^ (d.digits.length : ℤ) * 10 ^ (d.point - d.digits.length) :=
        mul_lt_mul_of_pos_right hbound (by positivity)
    _ = 10 ^ d.point := ten_zpow_mul_ten_zpow (by ring)

/-- If the first digit is not zero, the number reaches the power of ten before. -/
theorem le_value {d : Decimal} (hfirst : ∃ first rest, first ≠ 0 ∧ d.digits = first :: rest) :
    10 ^ (d.point - 1) ≤ d.value := by
  obtain ⟨first, rest, hne, hcons⟩ := hfirst
  have hbound : (10 : ℚ) ^ ((d.digits.length : ℤ) - 1) ≤ digitsValue 10 d.digits := by
    have hpower : 10 ^ rest.length ≤ digitsValue 10 (first :: rest) := pow_le_digitsValue hne rest
    rw [hcons, List.length_cons, Nat.cast_add_one, add_sub_cancel_right, zpow_natCast]
    exact_mod_cast hpower
  calc (10 : ℚ) ^ (d.point - 1) =
        10 ^ ((d.digits.length : ℤ) - 1) * 10 ^ (d.point - d.digits.length) :=
        (ten_zpow_mul_ten_zpow (by ring)).symm
    _ ≤ d.value := mul_le_mul_of_nonneg_right hbound (by positivity)

theorem pow_le_value_iff {d : Decimal} (hdigits : d.HasDigits)
    (hfirst : ∃ first rest, first ≠ 0 ∧ d.digits = first :: rest) {e : ℤ} :
    10 ^ e ≤ d.value ↔ e < d.point := by
  constructor
  · intro h
    exact (zpow_lt_zpow_iff_right₀ (by norm_num : (1 : ℚ) < 10)).mp (h.trans_lt (value_lt hdigits))
  · intro h
    exact (zpow_le_zpow_right₀ (by norm_num) (by omega)).trans (le_value hfirst)

theorem length_digits_pos {d : Decimal} (h : 0 < d.value) : 0 < d.digits.length := by
  refine List.length_pos_of_ne_nil fun hnil => ?_
  rw [value, hnil, digitsValue_nil, Nat.cast_zero, zero_mul] at h
  exact lt_irrefl _ h

/-- A number lies on the grids for as many digits as it has that begin at its point or below. -/
theorem exists_mul_eq_value {d : Decimal} {point : ℤ} (h : point ≤ d.point) :
    ∃ coefficient : ℕ, coefficient * 10 ^ (point - d.digits.length) = d.value := by
  obtain ⟨shift, hshift⟩ := Int.eq_ofNat_of_zero_le (sub_nonneg.mpr h)
  have hpower : ((10 ^ shift : ℕ) : ℚ) * 10 ^ (point - d.digits.length) =
      10 ^ (d.point - d.digits.length) := ten_pow_mul_ten_zpow (by omega)
  refine ⟨digitsValue 10 d.digits * 10 ^ shift, ?_⟩
  rw [value, Nat.cast_mul, mul_assoc, hpower]

end Decimal

/-! ## The shortest decimal number -/

/-- The shortest decimal number that is read as a double: it starts with a digit other than zero, it is
read as the double, no decimal number with fewer digits is, and of those with as many digits none is
preferred to it. -/
structure Decimal.ShortestFor (d : Decimal) (x : Binary64) : Prop where
  hasDigits : d.HasDigits
  exists_first : ∃ first rest, first ≠ 0 ∧ d.digits = first :: rest
  roundsTo : RoundsTo d.value x
  length_le : ∀ e : Decimal, e.HasDigits → RoundsTo e.value x → d.digits.length ≤ e.digits.length
  preferred : ∀ e : Decimal, e.HasDigits → RoundsTo e.value x →
    e.digits.length = d.digits.length → Preferred x.modulus d.value e.value

theorem exists_least_of_findSome?_range' {α : Type} {f : ℕ → Option α} {start length : ℕ} {a : α}
    (h : (List.range' start length).findSome? f = some a) :
    ∃ i, start ≤ i ∧ f i = some a ∧ ∀ j, start ≤ j → j < i → f j = none := by
  induction length generalizing start with
  | zero => cases h
  | succ length ih =>
    rw [List.range'_succ, List.findSome?_cons] at h
    split at h
    · next b hb =>
      exact ⟨start, le_rfl, hb.trans h, fun j hle hlt => absurd hle (Nat.not_le.mpr hlt)⟩
    · next hnone =>
      obtain ⟨i, hi, hsome, hleast⟩ := ih h
      refine ⟨i, by omega, hsome, fun j hle hlt => ?_⟩
      rcases hle.eq_or_lt with rfl | hgt
      · exact hnone
      · exact hleast j hgt hlt

section Search

variable {x : Binary64}

/-- Grids are tried from the coarsest on, and the first one with a point in the interval is taken. -/
theorem exists_shortest_eq (hzero : x.magnitude ≠ 0) :
    ∃ count coefficient : ℕ, 1 ≤ count ∧
      x.interval.onGrid? .greater (x.interval.decimalPoint - count) = some coefficient ∧
      (∀ fewer : ℕ, 1 ≤ fewer → fewer < count →
        x.interval.onGrid? .greater (x.interval.decimalPoint - fewer) = none) ∧
      x.shortest .greater = .ofCoefficient coefficient (x.interval.decimalPoint - count) := by
  obtain ⟨seventeenth, hholds⟩ := exists_holds_seventeen hzero
  have hsome := RoundingInterval.isSome_onGrid? (proper_interval hzero) hholds
  rw [Binary64.shortest, StyleSync.shortest]
  split
  · next d hfound =>
    obtain ⟨count, hcount, hattempt, hleast⟩ := exists_least_of_findSome?_range' hfound
    obtain ⟨coefficient, hcoefficient, hd⟩ := Option.map_eq_some_iff.mp hattempt
    refine ⟨count, coefficient, hcount, hcoefficient, fun fewer hpos hfewer => ?_, hd.symm⟩
    exact Option.map_eq_none_iff.mp (hleast fewer hpos hfewer)
  · next hnone =>
    have hseventeen := List.findSome?_eq_none_iff.mp hnone 17 (by decide)
    have hgrid : x.interval.onGrid? .greater (x.interval.decimalPoint - 17) = none :=
      Option.map_eq_none_iff.mp hseventeen
    rw [hgrid] at hsome
    contradiction

variable (hfinite : x.magnitude < infinity) (hzero : x.magnitude ≠ 0)

include hfinite hzero

/-- For each decimal number that is read as the double, the grid for as many digits has a point in the
interval that is no worse. -/
theorem exists_preferred_on_grid {e : Decimal} (hdigits : e.HasDigits) (h : RoundsTo e.value x) :
    1 ≤ e.digits.length ∧
      ∃ coefficient : ℕ,
        x.interval.Holds (coefficient * 10 ^ (x.interval.decimalPoint - e.digits.length)) ∧
          Preferred x.modulus (coefficient * 10 ^ (x.interval.decimalPoint - e.digits.length)) e.value := by
  have hholds := (holds_interval_iff hfinite hzero).mpr h
  have hlength := Decimal.length_digits_pos (h.pos hfinite hzero)
  refine ⟨hlength, ?_⟩
  rcases le_or_gt (x.interval.decimalPoint) e.point with hle | hlt
  · obtain ⟨coefficient, hvalue⟩ := Decimal.exists_mul_eq_value hle
    refine ⟨coefficient, ?_, ?_⟩
    · rwa [hvalue]
    · rw [hvalue]
      exact .inr ⟨rfl, le_rfl⟩
  · have hpower : ((10 ^ (e.digits.length - 1) : ℕ) : ℚ) *
        10 ^ (x.interval.decimalPoint - e.digits.length) = 10 ^ (x.interval.decimalPoint - 1) :=
      ten_pow_mul_ten_zpow (by omega)
    have hbelow : e.value ≤ 10 ^ (x.interval.decimalPoint - 1) :=
      (Decimal.value_lt hdigits).le.trans (zpow_le_zpow_right₀ (by norm_num) (by omega))
    have hcenter := (RoundingInterval.decimalPoint_spec (proper_interval hzero)).1
    refine ⟨10 ^ (e.digits.length - 1), ?_, ?_⟩
    · rw [hpower]
      exact hholds.convex (proper_interval hzero).holds_center hbelow hcenter
    · rw [hpower]
      rw [center_interval] at hcenter
      exact preferred_of_le_of_le hbelow hcenter

theorem shortestFor_shortest : (x.shortest .greater).ShortestFor x := by
  obtain ⟨count, coefficient, hcount, hfound, hleast, hshortest⟩ := exists_shortest_eq hzero
  have hnearest := RoundingInterval.nearestOn_of_onGrid? (proper_interval hzero) hfound
  have hround := (holds_interval_iff hfinite hzero).mp hnearest.holds
  have hcoefficient : coefficient ≠ 0 := by
    rintro rfl
    have hpos := hround.pos hfinite hzero
    rw [Nat.cast_zero, zero_mul] at hpos
    exact lt_irrefl _ hpos
  have hbound := hnearest.le_pow (proper_interval hzero)
  have hfewer : ∀ e : Decimal, e.HasDigits → RoundsTo e.value x → count ≤ e.digits.length := by
    intro e he hread
    obtain ⟨hpos, point, hpoint, -⟩ := exists_preferred_on_grid hfinite hzero he hread
    by_contra hless
    have hsome := RoundingInterval.isSome_onGrid? (proper_interval hzero) hpoint
    rw [hleast e.digits.length hpos (not_le.mp hless)] at hsome
    contradiction
  have hlength := Decimal.length_digits_le hcount hbound (x.interval.decimalPoint - count)
  rw [hshortest]
  refine ⟨Decimal.hasDigits_ofCoefficient _ _, Decimal.exists_digits_eq_cons hcoefficient _, ?_, ?_, ?_⟩
  · rwa [Decimal.value_ofCoefficient]
  · exact fun e he hread => hlength.trans (hfewer e he hread)
  · intro e he hread hsame
    obtain ⟨-, point, hpoint, hpreferred⟩ := exists_preferred_on_grid hfinite hzero he hread
    have hcountSame : e.digits.length = count := by
      have hle := hfewer e he hread
      omega
    rw [hcountSame] at hpoint hpreferred
    have hnear := hnearest.preferred point hpoint
    rw [center_interval] at hnear
    rw [Decimal.value_ofCoefficient]
    exact hnear.trans hpreferred

omit hfinite hzero in
theorem Decimal.ShortestFor.unique {d e : Decimal} (hd : d.ShortestFor x) (he : e.ShortestFor x) :
    d = e := by
  have hlength : d.digits.length = e.digits.length :=
    le_antisymm (hd.length_le e he.hasDigits he.roundsTo) (he.length_le d hd.hasDigits hd.roundsTo)
  have hvalue : d.value = e.value :=
    (hd.preferred e he.hasDigits he.roundsTo hlength.symm).antisymm
      (he.preferred d hd.hasDigits hd.roundsTo hlength)
  have hpoint : d.point = e.point := by
    have hbelow : ∀ power, power < d.point ↔ power < e.point := by
      intro power
      rw [← Decimal.pow_le_value_iff hd.hasDigits hd.exists_first,
        ← Decimal.pow_le_value_iff he.hasDigits he.exists_first, hvalue]
    have hd := hbelow d.point
    have he := hbelow e.point
    omega
  have hpower : (10 : ℚ) ^ (d.point - d.digits.length) ≠ 0 := by positivity
  rw [Decimal.value, Decimal.value, ← hpoint, ← hlength, mul_left_inj' hpower, Nat.cast_inj] at hvalue
  have hdigits := digitsValue_injective (by decide) hlength hd.hasDigits he.hasDigits hvalue
  exact congrArg₂ Decimal.mk hdigits hpoint

end Search

end StyleSync
