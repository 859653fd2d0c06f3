import Mathlib.Algebra.Order.Field.Power
import Mathlib.Order.Monotone.Basic
import Mathlib.Tactic.Linarith
import Mathlib.Tactic.NormNum
import Mathlib.Tactic.Positivity
import Mathlib.Tactic.Ring
import StyleSync.Numeric.Binary64

/-! # The numbers that doubles denote

`modulus` is the absolute value of a double as an exact rational number, and `RoundsTo v x` says that `v`
is read as a number with the absolute value of `x`. Stated here:

* `modulusOf_succ`: the next magnitude is one unit of the last place away, so that greater magnitudes
  denote greater numbers (`strictMono_modulusOf`);
* `roundsTo_iff`: what is read as a double lies between the points halfway to its two neighbours, and
  these points are read as the double whose significand is even;
* `RoundsTo.mono`, `RoundsTo.unique`: greater numbers are read as greater doubles, and a number is read as
  one absolute value only.
-/

set_option autoImplicit false

namespace StyleSync

namespace Binary64

/-! ## Exact values -/

/-- The absolute value of a finite number. The magnitude of the infinities has `2 ^ 1024` here, which is
where the next number would be. -/
def modulus (x : Binary64) : ℚ :=
  x.significand * 2 ^ x.scale

/-- The number that the bits denote. -/
def value (x : Binary64) : ℚ :=
  if x.isNegative then -x.modulus else x.modulus

/-- The positive number `v` is read as a number with the absolute value of `x`: no other double is nearer,
and of two equally near ones the significand of `x` is even. Where the next number would be the reader
has infinity. -/
def RoundsTo (v : ℚ) (x : Binary64) : Prop :=
  ∀ y : Binary64, y.magnitude ≤ infinity → y.magnitude ≠ x.magnitude →
    |v - x.modulus| < |v - y.modulus| ∨
      |v - x.modulus| = |v - y.modulus| ∧ x.significand % 2 = 0

/-! ## Magnitudes -/

/-- The significand of the numbers with a magnitude. -/
def significandOf (magnitude : ℕ) : ℕ :=
  if magnitude / 2 ^ 52 = 0 then magnitude % 2 ^ 52 else 2 ^ 52 + magnitude % 2 ^ 52

/-- The scale of the numbers with a magnitude. -/
def scaleOf (magnitude : ℕ) : ℤ :=
  if magnitude / 2 ^ 52 = 0 then -1074 else ((magnitude / 2 ^ 52 : ℕ) : ℤ) - 1075

/-- The absolute value of the numbers with a magnitude. -/
def modulusOf (magnitude : ℕ) : ℚ :=
  significandOf magnitude * 2 ^ scaleOf magnitude

theorem significand_eq (x : Binary64) : x.significand = significandOf x.magnitude := rfl

theorem scale_eq (x : Binary64) : x.scale = scaleOf x.magnitude := rfl

theorem modulus_eq (x : Binary64) : x.modulus = modulusOf x.magnitude := rfl

theorem modulusOf_zero : modulusOf 0 = 0 := by
  simp [modulusOf, significandOf]

theorem significandOf_mod_two (magnitude : ℕ) : significandOf magnitude % 2 = magnitude % 2 := by
  unfold significandOf
  split <;> omega

theorem significandOf_lt (magnitude : ℕ) : significandOf magnitude < 2 ^ 53 := by
  unfold significandOf
  split <;> omega

theorem significandOf_pos {magnitude : ℕ} (h : magnitude ≠ 0) : 0 < significandOf magnitude := by
  unfold significandOf
  split <;> omega

theorem modulusOf_succ (magnitude : ℕ) :
    modulusOf (magnitude + 1) = modulusOf magnitude + 2 ^ scaleOf magnitude := by
  by_cases hcarry : (magnitude + 1) % 2 ^ 52 = 0
  · have hexponent : (magnitude + 1) / 2 ^ 52 = magnitude / 2 ^ 52 + 1 := by omega
    have hfraction : magnitude % 2 ^ 52 = 2 ^ 52 - 1 := by omega
    rw [modulusOf, modulusOf, significandOf, significandOf, scaleOf, scaleOf, hcarry, hexponent,
      hfraction, if_neg (Nat.succ_ne_zero _), if_neg (Nat.succ_ne_zero _)]
    by_cases hleast : magnitude / 2 ^ 52 = 0
    · have hscale : ((0 + 1 : ℕ) : ℤ) - 1075 = -1074 := rfl
      rw [if_pos hleast, if_pos hleast, hleast, hscale]
      generalize (2 : ℚ) ^ (-1074 : ℤ) = unit
      norm_num
      ring
    · have hdouble : (2 : ℚ) ^ (((magnitude / 2 ^ 52 + 1 : ℕ) : ℤ) - 1075) =
          2 * 2 ^ (((magnitude / 2 ^ 52 : ℕ) : ℤ) - 1075) := by
        rw [← zpow_one_add₀ two_ne_zero]
        congr 1
        push_cast
        ring
      rw [if_neg hleast, if_neg hleast, hdouble]
      push_cast
      ring
  · have hexponent : (magnitude + 1) / 2 ^ 52 = magnitude / 2 ^ 52 := by omega
    have hfraction : (magnitude + 1) % 2 ^ 52 = magnitude % 2 ^ 52 + 1 := by omega
    have hsignificand : significandOf (magnitude + 1) = significandOf magnitude + 1 := by
      rw [significandOf, significandOf, hexponent, hfraction]
      split <;> rfl
    rw [modulusOf, modulusOf, hsignificand, scaleOf, scaleOf, hexponent]
    push_cast
    ring

theorem strictMono_modulusOf : StrictMono modulusOf := by
  refine strictMono_nat_of_lt_succ fun magnitude => ?_
  have hunit : (0 : ℚ) < 2 ^ scaleOf magnitude := by positivity
  rw [modulusOf_succ]
  linarith

theorem modulusOf_pos {magnitude : ℕ} (h : magnitude ≠ 0) : 0 < modulusOf magnitude := by
  rw [← modulusOf_zero]
  exact strictMono_modulusOf (Nat.pos_of_ne_zero h)

/-- A number is its sign and its magnitude. -/
theorem eq_of_isNegative_of_magnitude {x y : Binary64} (hsign : x.isNegative = y.isNegative)
    (hmagnitude : x.magnitude = y.magnitude) : x = y := by
  have hx := x.bits.toNat_lt
  have hy := y.bits.toNat_lt
  have hbits : x.bits.toNat = y.bits.toNat := by
    rw [isNegative, isNegative, decide_eq_decide, signBit, Nat.pow_eq] at hsign
    rw [magnitude, magnitude, signBit, Nat.pow_eq] at hmagnitude
    omega
  exact congrArg Binary64.mk (UInt64.toNat_inj.mp hbits)

theorem toNat_bits_pack (negative : Bool) {magnitude : ℕ} (h : magnitude < 2 ^ 63) :
    (pack negative magnitude).bits.toNat = if negative then 2 ^ 63 + magnitude else magnitude := by
  rw [pack, UInt64.toNat_ofNat', signBit, Nat.pow_eq]
  refine Nat.mod_eq_of_lt ?_
  split <;> omega

theorem magnitude_pack (negative : Bool) {magnitude : ℕ} (h : magnitude < 2 ^ 63) :
    (pack negative magnitude).magnitude = magnitude := by
  rw [Binary64.magnitude, toNat_bits_pack negative h, signBit, Nat.pow_eq]
  split <;> omega

theorem isNegative_pack (negative : Bool) {magnitude : ℕ} (h : magnitude < 2 ^ 63) :
    (pack negative magnitude).isNegative = negative := by
  rw [isNegative, toNat_bits_pack negative h, signBit, Nat.pow_eq]
  cases negative with
  | false => simpa using h
  | true => simp

theorem exists_magnitude {magnitude : ℕ} (h : magnitude < 2 ^ 63) :
    ∃ x : Binary64, x.magnitude = magnitude :=
  ⟨pack false magnitude, magnitude_pack false h⟩

/-! ## The nearest double -/

section Nearer

variable {a b v : ℚ} (h : a < b)

include h

theorem abs_sub_lt_abs_sub_left : |v - a| < |v - b| ↔ v < (a + b) / 2 := by
  rcases abs_cases (v - a) with ⟨ha, hva⟩ | ⟨ha, hva⟩ <;>
    rcases abs_cases (v - b) with ⟨hb, hvb⟩ | ⟨hb, hvb⟩ <;>
      rw [ha, hb] <;> constructor <;> intro _ <;> linarith

theorem abs_sub_lt_abs_sub_right : |v - b| < |v - a| ↔ (a + b) / 2 < v := by
  rcases abs_cases (v - a) with ⟨ha, hva⟩ | ⟨ha, hva⟩ <;>
    rcases abs_cases (v - b) with ⟨hb, hvb⟩ | ⟨hb, hvb⟩ <;>
      rw [ha, hb] <;> constructor <;> intro _ <;> linarith

theorem abs_sub_eq_abs_sub : |v - a| = |v - b| ↔ v = (a + b) / 2 := by
  rw [le_antisymm_iff, ← not_lt, ← not_lt, abs_sub_lt_abs_sub_left h, abs_sub_lt_abs_sub_right h,
    le_antisymm_iff (a := v), not_lt, not_lt, and_comm]

end Nearer

/-- The point halfway between a magnitude and the next one. -/
def halfwayAbove (magnitude : ℕ) : ℚ :=
  (modulusOf magnitude + modulusOf (magnitude + 1)) / 2

theorem strictMono_halfwayAbove : StrictMono halfwayAbove := by
  intro m n h
  have hm := strictMono_modulusOf h
  have hsucc := strictMono_modulusOf (Nat.succ_lt_succ h)
  rw [halfwayAbove, halfwayAbove]
  linarith

theorem halfwayAbove_pos (magnitude : ℕ) : 0 < halfwayAbove magnitude := by
  have hhere := strictMono_modulusOf.monotone (Nat.zero_le magnitude)
  have hnext := modulusOf_pos (Nat.succ_ne_zero magnitude)
  rw [modulusOf_zero] at hhere
  rw [halfwayAbove]
  positivity

theorem modulusOf_lt_halfwayAbove (magnitude : ℕ) : modulusOf magnitude < halfwayAbove magnitude := by
  have hnext := strictMono_modulusOf magnitude.lt_succ_self
  rw [halfwayAbove]
  linarith

theorem halfwayAbove_pred_lt {magnitude : ℕ} (h : magnitude ≠ 0) :
    halfwayAbove (magnitude - 1) < modulusOf magnitude := by
  have hsucc : magnitude - 1 + 1 = magnitude := Nat.succ_pred_eq_of_ne_zero h
  have hbefore := strictMono_modulusOf (Nat.sub_one_lt h)
  rw [halfwayAbove, hsucc]
  linarith

/-- A number between two ends, which belong to the range just if `ends` holds. -/
structure Between (ends : Prop) (low high v : ℚ) : Prop where
  above : low < v ∨ low = v ∧ ends
  below : v < high ∨ v = high ∧ ends

theorem between_iff {ends : Prop} {low high v : ℚ} :
    Between ends low high v ↔ (low < v ∨ low = v ∧ ends) ∧ (v < high ∨ v = high ∧ ends) :=
  ⟨fun h => ⟨h.above, h.below⟩, fun h => ⟨h.1, h.2⟩⟩

theorem Between.of_lt {ends : Prop} {low high v : ℚ} (hlow : low < v) (hhigh : v < high) :
    Between ends low high v :=
  ⟨.inl hlow, .inl hhigh⟩

theorem Between.convex {ends : Prop} {low high u v w : ℚ} (hu : Between ends low high u)
    (hw : Between ends low high w) (huv : u ≤ v) (hvw : v ≤ w) : Between ends low high v := by
  refine ⟨?_, ?_⟩
  · rcases hu.above with hlt | ⟨heq, hends⟩
    · exact .inl (hlt.trans_le huv)
    · exact (heq.trans_le huv).lt_or_eq.imp_right fun hsame => ⟨hsame, hends⟩
  · rcases hw.below with hlt | ⟨heq, hends⟩
    · exact .inl (hvw.trans_lt hlt)
    · exact (hvw.trans_eq heq).lt_or_eq.imp_right fun hsame => ⟨hsame, hends⟩

theorem roundsTo_of_halfway {x : Binary64} {v : ℚ}
    (hlow : x.magnitude ≠ 0 → halfwayAbove (x.magnitude - 1) < v ∨
      halfwayAbove (x.magnitude - 1) = v ∧ x.significand % 2 = 0)
    (hhigh : x.magnitude < infinity → v < halfwayAbove x.magnitude ∨
      v = halfwayAbove x.magnitude ∧ x.significand % 2 = 0) : RoundsTo v x := by
  intro y hy hne
  rcases Nat.lt_or_gt_of_ne hne with hlt | hgt
  · have hless : y.modulus < x.modulus := strictMono_modulusOf hlt
    have hsucc : x.magnitude - 1 + 1 = x.magnitude := Nat.succ_pred_eq_of_pos (Nat.zero_lt_of_lt hlt)
    have hhalf : (y.modulus + x.modulus) / 2 ≤ halfwayAbove (x.magnitude - 1) := by
      have hmono := strictMono_modulusOf.monotone (Nat.le_sub_one_of_lt hlt)
      rw [halfwayAbove, hsucc, modulus_eq, modulus_eq]
      linarith
    rw [abs_sub_lt_abs_sub_right hless, eq_comm, abs_sub_eq_abs_sub hless]
    rcases hlow (Nat.ne_zero_of_lt hlt) with hlow | ⟨rfl, heven⟩
    · exact .inl (hhalf.trans_lt hlow)
    · exact hhalf.lt_or_eq.imp_right fun hsame => ⟨hsame.symm, heven⟩
  · have hmore : x.modulus < y.modulus := strictMono_modulusOf hgt
    have hhalf : halfwayAbove x.magnitude ≤ (x.modulus + y.modulus) / 2 := by
      have hmono := strictMono_modulusOf.monotone (Nat.succ_le_of_lt hgt)
      rw [halfwayAbove, modulus_eq, modulus_eq]
      rw [Nat.succ_eq_add_one] at hmono
      linarith
    rw [abs_sub_lt_abs_sub_left hmore, abs_sub_eq_abs_sub hmore]
    rcases hhigh (hgt.trans_le hy) with hhigh | ⟨rfl, heven⟩
    · exact .inl (hhigh.trans_le hhalf)
    · exact hhalf.lt_or_eq.imp_right fun hsame => ⟨hsame, heven⟩

theorem roundsTo_iff {x : Binary64} (hfinite : x.magnitude < infinity) (hzero : x.magnitude ≠ 0)
    {v : ℚ} :
    RoundsTo v x ↔
      Between (x.significand % 2 = 0) (halfwayAbove (x.magnitude - 1)) (halfwayAbove x.magnitude) v := by
  have hinfinity : infinity < 2 ^ 63 := by decide
  have hsucc : x.magnitude - 1 + 1 = x.magnitude := Nat.succ_pred_eq_of_ne_zero hzero
  constructor
  · intro h
    obtain ⟨before, hbefore⟩ := exists_magnitude (by omega : x.magnitude - 1 < 2 ^ 63)
    obtain ⟨after, hafter⟩ := exists_magnitude (by omega : x.magnitude + 1 < 2 ^ 63)
    have hlow := h before (by omega) (by omega)
    have hhigh := h after (by omega) (by omega)
    have hbeforeLt : before.modulus < x.modulus := strictMono_modulusOf (by omega)
    have hafterLt : x.modulus < after.modulus := strictMono_modulusOf (by omega)
    rw [abs_sub_lt_abs_sub_right hbeforeLt, eq_comm, abs_sub_eq_abs_sub hbeforeLt, modulus_eq,
      modulus_eq, hbefore] at hlow
    rw [abs_sub_lt_abs_sub_left hafterLt, abs_sub_eq_abs_sub hafterLt, modulus_eq, modulus_eq,
      hafter] at hhigh
    rw [halfwayAbove, halfwayAbove, hsucc]
    exact ⟨hlow.imp_right (And.imp_left Eq.symm), hhigh⟩
  · intro h
    exact roundsTo_of_halfway (fun _ => h.above) fun _ => h.below

theorem RoundsTo.pos {x : Binary64} (hfinite : x.magnitude < infinity) (hzero : x.magnitude ≠ 0) {v : ℚ}
    (h : RoundsTo v x) : 0 < v := by
  have hhalf := halfwayAbove_pos (x.magnitude - 1)
  rcases ((roundsTo_iff hfinite hzero).mp h).above with habove | ⟨habove, -⟩ <;> linarith

theorem RoundsTo.mono {x y : Binary64} {v w : ℚ} (hx : x.magnitude < infinity)
    (hxzero : x.magnitude ≠ 0) (hy : y.magnitude < infinity) (hyzero : y.magnitude ≠ 0)
    (hv : RoundsTo v x) (hw : RoundsTo w y) (h : v ≤ w) : x.magnitude ≤ y.magnitude := by
  by_contra hless
  have habove := ((roundsTo_iff hx hxzero).mp hv).above
  have hbelow := ((roundsTo_iff hy hyzero).mp hw).below
  have hhalf := strictMono_halfwayAbove.monotone (show y.magnitude ≤ x.magnitude - 1 by omega)
  rcases habove with habove | ⟨hxhalf, hxeven⟩
  · rcases hbelow with hbelow | ⟨hyhalf, -⟩ <;> linarith
  · rcases hbelow with hbelow | ⟨hyhalf, hyeven⟩
    · linarith
    · have hsame : halfwayAbove y.magnitude = halfwayAbove (x.magnitude - 1) := by linarith
      have hneighbour := strictMono_halfwayAbove.injective hsame
      rw [significand_eq, significandOf_mod_two] at hxeven hyeven
      omega

theorem RoundsTo.lt {x y : Binary64} {v : ℚ} (h : RoundsTo v x) (hlt : y.magnitude < x.magnitude)
    (hy : y.magnitude ≤ infinity) : y.modulus < v := by
  have hless : y.modulus < x.modulus := strictMono_modulusOf hlt
  have hnearer := h y hy hlt.ne
  rw [abs_sub_lt_abs_sub_right hless, eq_comm, abs_sub_eq_abs_sub hless] at hnearer
  rcases hnearer with habove | ⟨habove, -⟩ <;> linarith

theorem RoundsTo.le {x y : Binary64} {v : ℚ} (hx : RoundsTo v x) (hy : RoundsTo v y)
    (hbound : y.magnitude ≤ infinity) : y.magnitude ≤ x.magnitude := by
  by_contra hgreater
  have hlt : x.magnitude < y.magnitude := not_le.mp hgreater
  have hinfinity : infinity < 2 ^ 63 := by decide
  have hless : x.modulus < y.modulus := strictMono_modulusOf hlt
  obtain ⟨hsame, hxeven, hyeven⟩ : |v - x.modulus| = |v - y.modulus| ∧
      x.significand % 2 = 0 ∧ y.significand % 2 = 0 := by
    rcases hx y hbound hlt.ne' with hxy | ⟨hsame, hxeven⟩ <;>
      rcases hy x (hlt.le.trans hbound) hlt.ne with hyx | ⟨hyx, hyeven⟩
    · linarith
    · linarith
    · linarith
    · exact ⟨hsame, hxeven, hyeven⟩
  rw [significand_eq, significandOf_mod_two] at hxeven hyeven
  obtain ⟨between, hbetween⟩ := exists_magnitude (by omega : x.magnitude + 1 < 2 ^ 63)
  have hxbetween : x.modulus < between.modulus := strictMono_modulusOf (by omega)
  have hbetweeny : between.modulus < y.modulus := strictMono_modulusOf (by omega)
  have hnearer := hx between (by omega) (by omega)
  rw [abs_sub_lt_abs_sub_left hxbetween, abs_sub_eq_abs_sub hxbetween] at hnearer
  rw [abs_sub_eq_abs_sub hless] at hsame
  rcases hnearer with hbelow | ⟨hbelow, -⟩ <;> linarith

theorem RoundsTo.unique {x y : Binary64} {v : ℚ} (hx : RoundsTo v x) (hy : RoundsTo v y)
    (hxbound : x.magnitude ≤ infinity) (hybound : y.magnitude ≤ infinity) :
    x.magnitude = y.magnitude :=
  le_antisymm (hy.le hx hxbound) (hx.le hy hybound)

end Binary64

end StyleSync
