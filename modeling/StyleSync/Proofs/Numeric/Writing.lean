import Mathlib.Tactic.NormNum.Pow
import StyleSync.Numeric.Notation
import StyleSync.Proofs.Numeric.ShortestDigits
import StyleSync.Style.Block

/-! # Numbers as scripts write them

`Decimal.scripted` lays the digits of a number out as ECMA-262 does in `Number::toString`, which decides by
the place of the point alone. Stated here:

* `written_plainly_iff`: comparing the double with `1e-6` and `1e21` is looking where the point of its
  shortest digits stands, also next to the two bounds;
* `Scalar.render_number`: a number is written as its shortest digits, laid out in that way.
-/

set_option autoImplicit false

namespace StyleSync

open Binary64

/-! ## The layout -/

namespace Decimal

/-- How scripts write `0.d₁d₂…dₖ · 10 ^ n`: an integer of up to twenty-one places plainly, with zeros behind
the digits; a number with a fraction plainly, with at most five zeros behind the point; and any other with
an exponent. -/
def scripted (d : Decimal) : List Char :=
  let count := d.digits.length
  if count ≤ d.point ∧ d.point ≤ 21 then
    d.chars ++ List.replicate (d.point - count).toNat '0'
  else if 0 < d.point ∧ d.point ≤ 21 then
    d.chars.take d.point.toNat ++ '.' :: d.chars.drop d.point.toNat
  else if -6 < d.point ∧ d.point ≤ 0 then
    '0' :: '.' :: (List.replicate (-d.point).toNat '0' ++ d.chars)
  else
    d.chars.take 1 ++ (if 1 < count then '.' :: d.chars.drop 1 else []) ++
      'e' :: (if d.point - 1 < 0 then '-' else '+') :: numeral 10 (d.point - 1).natAbs

variable {d : Decimal} (h : 0 < d.digits.length)

include h

theorem plain_eq_scripted (hpoint : -6 < d.point ∧ d.point ≤ 21) : d.plain = d.scripted := by
  obtain ⟨hlow, hhigh⟩ := hpoint
  unfold plain scripted
  dsimp only
  rcases le_or_gt d.point 0 with hneg | hpos
  · rw [if_pos hneg, if_neg (by omega), if_neg (by omega), if_pos ⟨hlow, hneg⟩]
  · rw [if_neg (not_le.mpr hpos)]
    by_cases hinteger : d.digits.length ≤ d.point
    · rw [if_pos hinteger, if_pos ⟨hinteger, hhigh⟩]
    · rw [if_neg hinteger, if_neg (by omega), if_pos ⟨hpos, hhigh⟩]

theorem scientific_eq_scripted (hpoint : ¬(-6 < d.point ∧ d.point ≤ 21)) : d.scientific = d.scripted := by
  have hlength : (d.chars.drop 1).length = d.digits.length - 1 := by
    rw [chars, List.length_drop, List.length_map]
  have hinteger : ¬(d.digits.length ≤ d.point ∧ d.point ≤ 21) := by omega
  have hmixed : ¬(0 < d.point ∧ d.point ≤ 21) := by omega
  have hfraction : ¬(-6 < d.point ∧ d.point ≤ 0) := by omega
  unfold scientific scripted
  dsimp only
  rw [if_neg hinteger, if_neg hmixed, if_neg hfraction]
  cases hrest : d.chars.drop 1 with
  | nil =>
    rw [hrest, List.length_nil] at hlength
    rw [if_neg (by omega : ¬1 < d.digits.length)]
  | cons second others =>
    rw [hrest, List.length_cons] at hlength
    rw [if_pos (by omega : 1 < d.digits.length)]

end Decimal

/-! ## The bounds -/

/-- The double `t` stands for a power of ten: the power is read as it, and it is nearer to the power than to
any number of one digit below. -/
structure StandsForPower (t : Binary64) (e : ℤ) : Prop where
  finite : t.magnitude < infinity
  nonzero : t.magnitude ≠ 0
  roundsTo : RoundsTo (10 ^ e) t
  near : |10 ^ e - t.modulus| < 10 ^ (e - 1) / 2

namespace Decimal

/-- A power of ten has one digit. -/
def powerOfTen (e : ℤ) : Decimal :=
  ⟨[1], e + 1⟩

theorem value_powerOfTen (e : ℤ) : (powerOfTen e).value = 10 ^ e := by
  simp [powerOfTen, value, digitsValue]

theorem hasDigits_powerOfTen (e : ℤ) : (powerOfTen e).HasDigits := by
  simp [powerOfTen, HasDigits]

theorem value_le_of_length_eq_one {d : Decimal} {e : ℤ} (hdigits : d.HasDigits)
    (hlength : d.digits.length = 1) (hpoint : d.point ≤ e) : d.value ≤ 9 * 10 ^ (e - 1) := by
  obtain ⟨digit, hdigit⟩ := List.length_eq_one_iff.mp hlength
  have hnine : digit ≤ 9 := Nat.le_of_lt_succ (hdigits digit (by simp [hdigit]))
  have hvalue : d.value = digit * 10 ^ (d.point - 1) := by
    simp [value, hdigit, digitsValue]
  rw [hvalue]
  gcongr
  · exact_mod_cast hnine
  · norm_num

end Decimal

section Bounds

variable {x t : Binary64} {d : Decimal} {e : ℤ}

/-- Shortest digits below a power of ten are not those of the double for it: the power has one digit
itself, and lies nearer. -/
theorem StandsForPower.magnitude_ne (ht : StandsForPower t e) (hd : d.ShortestFor x)
    (h : d.value < 10 ^ e) : x.magnitude ≠ t.magnitude := by
  intro hsame
  have hmodulus : x.modulus = t.modulus := congrArg modulusOf hsame
  have hread : RoundsTo (Decimal.powerOfTen e).value x := by
    rw [Decimal.value_powerOfTen, roundsTo_iff (hsame ▸ ht.finite) (hsame ▸ ht.nonzero),
      significand_eq, hsame]
    exact (roundsTo_iff ht.finite ht.nonzero).mp ht.roundsTo
  have hlength : d.digits.length = 1 := by
    have hle : d.digits.length ≤ 1 := hd.length_le _ (Decimal.hasDigits_powerOfTen e) hread
    have hpos := Decimal.length_digits_pos (hd.roundsTo.pos (hsame ▸ ht.finite) (hsame ▸ ht.nonzero))
    omega
  have hnear : |d.value - x.modulus| ≤ |10 ^ e - x.modulus| := by
    have hpreferred := hd.preferred _ (Decimal.hasDigits_powerOfTen e) hread hlength.symm
    rw [Decimal.value_powerOfTen] at hpreferred
    exact hpreferred.elim le_of_lt fun hequal => hequal.1.le
  have hbelow : d.value ≤ 9 * 10 ^ (e - 1) := by
    rw [← not_le, Decimal.pow_le_value_iff hd.hasDigits hd.exists_first, not_lt] at h
    exact Decimal.value_le_of_length_eq_one hd.hasDigits hlength h
  have hpower : (10 : ℚ) ^ e = 10 * 10 ^ (e - 1) := by
    rw [← zpow_one_add₀ (by norm_num)]
    congr 1
    ring
  have hcenter := ht.near
  rw [← hmodulus] at hcenter
  have hdistance := hnear.trans_lt hcenter
  rw [abs_lt] at hcenter hdistance
  linarith [hcenter.2, hdistance.1]

/-- Comparing a double with the one for a power of ten is looking where the point of its digits stands. -/
theorem StandsForPower.le_magnitude_iff (ht : StandsForPower t e) (hfinite : x.magnitude < infinity)
    (hzero : x.magnitude ≠ 0) (hd : d.ShortestFor x) : t.magnitude ≤ x.magnitude ↔ e < d.point := by
  rw [← Decimal.pow_le_value_iff hd.hasDigits hd.exists_first]
  constructor
  · intro hle
    by_contra hless
    have hbelow := not_le.mp hless
    have hge := hd.roundsTo.mono hfinite hzero ht.finite ht.nonzero ht.roundsTo hbelow.le
    exact ht.magnitude_ne hd hbelow (hge.antisymm hle)
  · exact ht.roundsTo.mono ht.finite ht.nonzero hfinite hzero hd.roundsTo

theorem StandsForPower.of_bounds (magnitude : ℕ) (hfinite : magnitude < infinity) (hzero : magnitude ≠ 0)
    (hlow : halfwayAbove (magnitude - 1) < 10 ^ e) (hhigh : 10 ^ e < halfwayAbove magnitude)
    (hnear : |10 ^ e - modulusOf magnitude| < 10 ^ (e - 1) / 2) :
    StandsForPower ⟨UInt64.ofNat magnitude⟩ e := by
  have hsame : (⟨UInt64.ofNat magnitude⟩ : Binary64).magnitude = magnitude :=
    magnitude_pack false (hfinite.trans (by decide))
  refine ⟨hsame.trans_lt hfinite, hsame.trans_ne hzero, ?_, ?_⟩
  · rw [roundsTo_iff (hsame.trans_lt hfinite) (hsame.trans_ne hzero), hsame]
    exact .of_lt hlow hhigh
  · rwa [modulus_eq, hsame]

end Bounds

theorem standsForPower_plainFrom : StandsForPower ⟨UInt64.ofNat plainFrom⟩ (-6) := by
  refine .of_bounds plainFrom (by decide) (by decide) ?_ ?_ ?_ <;>
    norm_num [halfwayAbove, modulusOf, significandOf, scaleOf, plainFrom, abs_lt]

theorem standsForPower_plainBelow : StandsForPower ⟨UInt64.ofNat plainBelow⟩ 21 := by
  refine .of_bounds plainBelow (by decide) (by decide) ?_ ?_ ?_ <;>
    norm_num [halfwayAbove, modulusOf, significandOf, scaleOf, plainBelow, abs_lt]

/-! ## Numbers -/

namespace Binary64

variable {x : Binary64}

theorem modulus_pos (h : x.magnitude ≠ 0) : 0 < x.modulus :=
  modulusOf_pos h

theorem value_ne_zero_iff : x.value ≠ 0 ↔ x.magnitude ≠ 0 := by
  constructor
  · intro hvalue hzero
    rw [value, modulus_eq, hzero, modulusOf_zero, neg_zero, ite_self] at hvalue
    exact hvalue rfl
  · intro hzero
    have hpos := modulus_pos hzero
    rw [value]
    split
    · exact (neg_neg_of_pos hpos).ne
    · exact hpos.ne'

theorem value_neg_iff (hzero : x.magnitude ≠ 0) : x.value < 0 ↔ x.isNegative = true := by
  have hpos := modulus_pos hzero
  rw [value]
  split
  · next hnegative => exact iff_of_true (neg_neg_of_pos hpos) hnegative
  · next hnegative => exact iff_of_false hpos.le.not_gt hnegative

section Finite

variable (hfinite : x.magnitude < infinity) (hzero : x.magnitude ≠ 0)

include hfinite hzero

theorem written_plainly_iff {d : Decimal} (hd : d.ShortestFor x) :
    plainFrom ≤ x.magnitude ∧ x.magnitude < plainBelow ↔ -6 < d.point ∧ d.point ≤ 21 := by
  have hfrom : plainFrom ≤ x.magnitude ↔ -6 < d.point :=
    standsForPower_plainFrom.le_magnitude_iff hfinite hzero hd
  have hbelow : plainBelow ≤ x.magnitude ↔ 21 < d.point :=
    standsForPower_plainBelow.le_magnitude_iff hfinite hzero hd
  rw [hfrom, ← not_le (a := plainBelow), hbelow, not_lt]

theorem renderMagnitude_eq_scripted : x.renderMagnitude = (x.shortest .greater).scripted := by
  have hd := shortestFor_shortest hfinite hzero
  have hlength := Decimal.length_digits_pos (hd.roundsTo.pos hfinite hzero)
  rw [renderMagnitude]
  split
  · next hplain =>
    exact Decimal.plain_eq_scripted hlength ((written_plainly_iff hfinite hzero hd).mp hplain)
  · next hplain =>
    exact Decimal.scientific_eq_scripted hlength
      (mt (written_plainly_iff hfinite hzero hd).mpr hplain)

theorem render_of_finite : x.render = String.ofList (x.signed x.renderMagnitude) := by
  have hnumber : ¬x.isNaN = true := by
    simpa [isNaN] using hfinite.le
  have hnonzero : ¬x.isZero = true := by
    simpa [isZero] using hzero
  have hbounded : ¬x.isInfinite = true := by
    simpa [isInfinite] using hfinite.ne
  rw [render, if_neg hnumber, if_neg hnonzero, if_neg hbounded]

end Finite

end Binary64

/-- A finite number other than zero is written as a sign, if it is negative, and the digits of its shortest
decimal number, of which there is one, in the layout of scripts. -/
theorem Scalar.render_number {x : Binary64} (hfinite : x.magnitude < infinity) (hvalue : x.value ≠ 0) :
    ∃ d : Decimal, d.ShortestFor x ∧ (∀ e : Decimal, e.ShortestFor x → e = d) ∧
      (Scalar.number x).render =
        String.ofList ((if x.value < 0 then ['-'] else []) ++ d.scripted) := by
  have hzero := value_ne_zero_iff.mp hvalue
  have hd := shortestFor_shortest hfinite hzero
  refine ⟨x.shortest .greater, hd, fun e he => he.unique hd, ?_⟩
  rw [Scalar.render, render_of_finite hfinite hzero, renderMagnitude_eq_scripted hfinite hzero, signed]
  by_cases hnegative : x.isNegative = true
  · rw [if_pos hnegative, if_pos ((value_neg_iff hzero).mpr hnegative), List.singleton_append]
  · rw [if_neg hnegative, if_neg (mt (value_neg_iff hzero).mp hnegative), List.nil_append]

/-- The greatest number below `1e-6`, negated, has an exponent. -/
theorem Scalar.render_number_below_bound :
    (⟨0xbeb0c6f7a0b5ed8c⟩ : Binary64).magnitude < infinity ∧
      (⟨0xbeb0c6f7a0b5ed8c⟩ : Binary64).value ≠ 0 ∧
        ∃ d : Decimal, d.ShortestFor ⟨0xbeb0c6f7a0b5ed8c⟩ ∧
          (∀ e : Decimal, e.ShortestFor ⟨0xbeb0c6f7a0b5ed8c⟩ → e = d) ∧
          (Scalar.number ⟨0xbeb0c6f7a0b5ed8c⟩).render =
            String.ofList ((if (⟨0xbeb0c6f7a0b5ed8c⟩ : Binary64).value < 0 then ['-'] else []) ++
              d.scripted) :=
  have hfinite : (⟨0xbeb0c6f7a0b5ed8c⟩ : Binary64).magnitude < infinity := by decide
  have hvalue : (⟨0xbeb0c6f7a0b5ed8c⟩ : Binary64).value ≠ 0 := value_ne_zero_iff.mpr (by decide)
  ⟨hfinite, hvalue, Scalar.render_number hfinite hvalue⟩

example : (Scalar.number ⟨0xbeb0c6f7a0b5ed8c⟩).render = "-9.999999999999997e-7" := by decide +kernel

end StyleSync
