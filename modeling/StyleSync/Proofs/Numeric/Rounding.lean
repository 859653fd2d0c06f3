import StyleSync.Proofs.Numeric.Intervals

/-! # Reading numbers as doubles

`ofRatio?` scales a fraction, rounds it to an integer and puts that beside the exponent. Stated here:

* `roundHalfEven_spec`, `unscale_eq`, `scaleFor_spec`: what each of these steps gives;
* `roundsTo_of_rounded`: a significand and an exponent make the nearest double, also where rounding carries
  into the exponent;
* `ofRatio?_spec`: so a fraction is read as the nearest double, and is too large just beyond the numbers;
* `IsNearest`, `isNearest_ofInt`: so is an integer, and no other double is the nearest
  (`IsNearest.unique`).
-/

set_option autoImplicit false

namespace StyleSync

namespace Binary64

/-! ## The significand -/

theorem roundHalfEven_spec (num : ℕ) {den : ℕ} (hden : 0 < den) :
    Between (roundHalfEven num den % 2 = 0) (roundHalfEven num den - 1 / 2)
      (roundHalfEven num den + 1 / 2) ((num : ℚ) / den) := by
  have hpos : (0 : ℚ) < den := Nat.cast_pos.mpr hden
  have hvalue : (num : ℚ) / den = (num / den : ℕ) + (num % den : ℕ) / den := by
    rw [div_eq_iff hpos.ne', add_mul, div_mul_cancel₀ _ hpos.ne', mul_comm]
    exact_mod_cast (Nat.div_add_mod num den).symm
  have hrest : ((num % den : ℕ) : ℚ) / den < 1 := by
    rw [div_lt_one hpos]
    exact_mod_cast Nat.mod_lt num hden
  have hnonneg : (0 : ℚ) ≤ (num % den : ℕ) / den := by positivity
  have hless : 2 * (num % den) < den ↔ ((num % den : ℕ) : ℚ) / den < 1 / 2 := by
    rw [div_lt_div_iff₀ hpos two_pos, one_mul, mul_comm]
    exact_mod_cast Iff.rfl
  have hmore : den < 2 * (num % den) ↔ 1 / 2 < ((num % den : ℕ) : ℚ) / den := by
    rw [div_lt_div_iff₀ two_pos hpos, one_mul, mul_comm (_ : ℚ) 2]
    exact_mod_cast Iff.rfl
  rw [hvalue, roundHalfEven]
  simp only [hless, hmore]
  split_ifs with hbelow habove heven
  · exact .of_lt (by linarith) (by linarith)
  · push_cast
    exact .of_lt (by linarith) (by linarith)
  · exact ⟨.inl (by linarith), .inr ⟨by linarith, heven⟩⟩
  · push_cast
    exact ⟨.inr ⟨by linarith, by omega⟩, .inl (by linarith)⟩

section Bounds

variable {ends : Prop} {q bound : ℕ} {v : ℚ} (h : Between ends (q - 1 / 2) (q + 1 / 2) v)

include h

theorem le_of_between (hv : v ≤ bound) : q ≤ bound := by
  by_contra hgreater
  have hcast : ((bound + 1 : ℕ) : ℚ) ≤ q := Nat.cast_le.mpr (not_le.mp hgreater)
  push_cast at hcast
  rcases h.above with habove | ⟨habove, -⟩ <;> linarith

theorem ge_of_between (hv : bound ≤ v) : bound ≤ q := by
  by_contra hless
  have hcast : ((q + 1 : ℕ) : ℚ) ≤ bound := Nat.cast_le.mpr (not_le.mp hless)
  push_cast at hcast
  rcases h.below with hbelow | ⟨hbelow, -⟩ <;> linarith

end Bounds

theorem unscale_eq (num den : ℕ) (scale : ℤ) :
    ((unscale num den scale).1 : ℚ) / (unscale num den scale).2 = num / den / 2 ^ scale := by
  rw [zpow_eq_pow_div_pow, unscale]
  split
  · next hneg =>
    rw [Int.toNat_of_nonpos hneg.le]
    simp [div_mul_eq_mul_div]
  · next hpos =>
    rw [Int.toNat_of_nonpos (by omega : -scale ≤ 0)]
    simp [div_div]

theorem unscale_snd_pos (num : ℕ) {den : ℕ} (hden : 0 < den) (scale : ℤ) : 0 < (unscale num den scale).2 := by
  rw [unscale]
  split
  · exact hden
  · exact Nat.mul_pos hden (Nat.pow_pos two_pos)

/-! ## The scale -/

theorem div_two_zpow_sub_one (v : ℚ) (e : ℤ) : v / 2 ^ (e - 1) = 2 * (v / 2 ^ e) := by
  rw [zpow_sub_one₀ two_ne_zero, div_mul_eq_div_div, div_inv_eq_mul, mul_comm]

/-- The numbers of binary digits tell the scale but for one binary digit. -/
theorem estimate_spec {num den : ℕ} (hnum : 0 < num) (hden : 0 < den) :
    2 ^ 51 ≤ (num : ℚ) / den / 2 ^ ((Nat.log2 num : ℤ) - Nat.log2 den - 52) ∧
      (num : ℚ) / den / 2 ^ ((Nat.log2 num : ℤ) - Nat.log2 den - 52) < 2 ^ 53 := by
  have hnumLow : (2 : ℚ) ^ Nat.log2 num ≤ num := by exact_mod_cast Nat.log2_self_le hnum.ne'
  have hdenLow : (2 : ℚ) ^ Nat.log2 den ≤ den := by exact_mod_cast Nat.log2_self_le hden.ne'
  have hnumHigh : (num : ℚ) < 2 * 2 ^ Nat.log2 num := by
    rw [← pow_succ']
    exact_mod_cast Nat.lt_log2_self
  have hdenHigh : (den : ℚ) < 2 * 2 ^ Nat.log2 den := by
    rw [← pow_succ']
    exact_mod_cast Nat.lt_log2_self
  have hunit : (2 : ℚ) ^ ((Nat.log2 num : ℤ) - Nat.log2 den - 52) =
      2 ^ Nat.log2 num / 2 ^ Nat.log2 den / 2 ^ 52 := by
    rw [zpow_sub₀ two_ne_zero, zpow_sub₀ two_ne_zero, zpow_natCast, zpow_natCast]
    rfl
  have hp : (0 : ℚ) < 2 ^ Nat.log2 num := by positivity
  have hq : (0 : ℚ) < 2 ^ Nat.log2 den := by positivity
  rw [hunit]
  generalize (2 : ℚ) ^ Nat.log2 num = p at *
  generalize (2 : ℚ) ^ Nat.log2 den = q at *
  have hden' : (0 : ℚ) < den := hq.trans_le hdenLow
  have hratio : (num : ℚ) / den / (p / q / 2 ^ 52) = 2 ^ 52 * (num * q / (p * den)) := by field_simp
  have hlow : 1 / 2 ≤ num * q / (p * den) := by
    rw [div_le_div_iff₀ two_pos (by positivity), one_mul]
    calc p * den ≤ num * (2 * q) := by gcongr
      _ = num * q * 2 := by ring
  have hhigh : num * q / (p * den) < 2 := by
    rw [div_lt_iff₀ (by positivity)]
    calc num * q < 2 * p * q := by gcongr
      _ ≤ 2 * p * den := by gcongr
      _ = 2 * (p * den) := by ring
  rw [hratio]
  constructor <;> linarith

theorem scaleFor_spec {num den : ℕ} (hnum : 0 < num) (hden : 0 < den) :
    -1074 ≤ scaleFor num den ∧ (num : ℚ) / den / 2 ^ scaleFor num den < 2 ^ 53 ∧
      (scaleFor num den = -1074 ∨ 2 ^ 52 ≤ (num : ℚ) / den / 2 ^ scaleFor num den) := by
  obtain ⟨hlow, hhigh⟩ := estimate_spec hnum hden
  have hscaled := unscale_eq num den ((Nat.log2 num : ℤ) - Nat.log2 den - 52)
  have hpos := unscale_snd_pos num hden ((Nat.log2 num : ℤ) - Nat.log2 den - 52)
  rw [scaleFor]
  generalize (Nat.log2 num : ℤ) - Nat.log2 den - 52 = estimate at *
  rcases hunscale : unscale num den estimate with ⟨n, d⟩
  rw [hunscale] at hscaled hpos
  have hless : n < Nat.pow 2 52 * d ↔ (num : ℚ) / den / 2 ^ estimate < 2 ^ 52 := by
    rw [← hscaled, div_lt_iff₀ (Nat.cast_pos.mpr hpos)]
    exact_mod_cast Iff.rfl
  obtain ⟨scale, hscale, hnormal⟩ : ∃ scale : ℤ,
      (if n < Nat.pow 2 52 * d then estimate - 1 else estimate) = scale ∧
        2 ^ 52 ≤ (num : ℚ) / den / 2 ^ scale ∧ (num : ℚ) / den / 2 ^ scale < 2 ^ 53 := by
    simp only [hless]
    split
    · next hbelow =>
      refine ⟨_, rfl, ?_⟩
      rw [div_two_zpow_sub_one]
      constructor <;> linarith
    · next habove => exact ⟨_, rfl, not_lt.mp habove, hhigh⟩
  simp only [hscale]
  rcases le_total (-1074) scale with hle | hge
  · rw [max_eq_right hle]
    exact ⟨hle, hnormal.2, .inr hnormal.1⟩
  · rw [max_eq_left hge]
    refine ⟨le_rfl, lt_of_le_of_lt ?_ hnormal.2, .inl rfl⟩
    gcongr
    exact one_le_two

/-! ## The magnitude -/

section Rounded

variable {k q : ℕ}

theorem significandOf_add (hq : q < 2 ^ 53) (hk : k = 0 ∨ 2 ^ 52 ≤ q) :
    significandOf (k * 2 ^ 52 + q) = q := by
  unfold significandOf
  split <;> omega

theorem scaleOf_add (hq : q < 2 ^ 53) (hk : k = 0 ∨ 2 ^ 52 ≤ q) :
    scaleOf (k * 2 ^ 52 + q) = k - 1074 := by
  unfold scaleOf
  split <;> omega

theorem modulusOf_add (hq : q ≤ 2 ^ 53) (hk : k = 0 ∨ 2 ^ 52 ≤ q) :
    modulusOf (k * 2 ^ 52 + q) = q * 2 ^ ((k : ℤ) - 1074) := by
  rcases hq.lt_or_eq with hlt | heq
  · rw [modulusOf, significandOf_add hlt hk, scaleOf_add hlt hk]
  · obtain ⟨last, rfl⟩ : ∃ last, q = last + 1 := ⟨q - 1, by omega⟩
    have hlt : last < 2 ^ 53 := by omega
    have hnormal : k = 0 ∨ 2 ^ 52 ≤ last := .inr (by omega)
    rw [← add_assoc, modulusOf_succ, modulusOf, significandOf_add hlt hnormal, scaleOf_add hlt hnormal]
    push_cast
    ring

theorem halfwayAbove_add (hq : q < 2 ^ 53) (hk : k = 0 ∨ 2 ^ 52 ≤ q) :
    halfwayAbove (k * 2 ^ 52 + q) = (q + 1 / 2) * 2 ^ ((k : ℤ) - 1074) := by
  rw [halfwayAbove, modulusOf_succ, modulusOf_add hq.le hk, scaleOf_add hq hk]
  ring

end Rounded

theorem roundsTo_of_min {x : Binary64} {magnitude : ℕ} {v : ℚ} (hx : x.magnitude = min magnitude infinity)
    (hlow : magnitude ≠ 0 → halfwayAbove (magnitude - 1) < v ∨
      halfwayAbove (magnitude - 1) = v ∧ magnitude % 2 = 0)
    (hhigh : v < halfwayAbove magnitude ∨ v = halfwayAbove magnitude ∧ magnitude % 2 = 0) :
    RoundsTo v x := by
  rcases le_or_gt magnitude infinity with hle | hgt
  · rw [min_eq_left hle] at hx
    have heven : x.significand % 2 = magnitude % 2 := by
      rw [significand_eq, significandOf_mod_two, hx]
    refine roundsTo_of_halfway ?_ ?_
    · rw [hx, heven]
      exact hlow
    · rw [hx, heven]
      exact fun _ => hhigh
  · rw [min_eq_right hgt.le] at hx
    have hless : halfwayAbove (infinity - 1) < halfwayAbove (magnitude - 1) :=
      strictMono_halfwayAbove (Nat.sub_lt_sub_right (by decide) hgt)
    refine roundsTo_of_halfway (fun _ => .inl ?_) fun hfinite => absurd hfinite (by omega)
    rw [hx]
    rcases hlow (Nat.ne_zero_of_lt hgt) with hlow | ⟨hlow, -⟩ <;> linarith

theorem roundsTo_of_rounded {x : Binary64} {k q : ℕ} {v : ℚ}
    (hx : x.magnitude = min (k * 2 ^ 52 + q) infinity) (hv : v / 2 ^ ((k : ℤ) - 1074) < 2 ^ 53)
    (hnormal : k = 0 ∨ 2 ^ 52 ≤ v / 2 ^ ((k : ℤ) - 1074))
    (hq : Between (q % 2 = 0) (q - 1 / 2) (q + 1 / 2) (v / 2 ^ ((k : ℤ) - 1074))) : RoundsTo v x := by
  have hunit : (0 : ℚ) < 2 ^ ((k : ℤ) - 1074) := by positivity
  have heven : (k * 2 ^ 52 + q) % 2 = q % 2 := by omega
  have hle : q ≤ 2 ^ 53 := le_of_between hq (by exact_mod_cast hv.le)
  have hk : k = 0 ∨ 2 ^ 52 ≤ q :=
    hnormal.imp_right fun hleast => ge_of_between hq (by exact_mod_cast hleast)
  rw [between_iff, lt_div_iff₀ hunit, eq_div_iff hunit.ne', div_lt_iff₀ hunit, div_eq_iff hunit.ne'] at hq
  refine roundsTo_of_min hx (fun hpos => ?_) ?_
  · by_cases hcarry : k ≠ 0 ∧ q = 2 ^ 52
    · have hleast := hnormal.resolve_left hcarry.1
      have hbefore := halfwayAbove_pred_lt hpos
      have hcast : (q : ℚ) = 2 ^ 52 := by exact_mod_cast hcarry.2
      rw [modulusOf_add hle hk, hcast] at hbefore
      rw [le_div_iff₀ hunit] at hleast
      exact .inl (hbefore.trans_le hleast)
    · have hpred : k * 2 ^ 52 + q - 1 = k * 2 ^ 52 + (q - 1) := by omega
      rw [hpred, halfwayAbove_add (by omega) (by omega), heven, Nat.cast_sub (by omega), Nat.cast_one,
        sub_add]
      norm_num only at hq ⊢
      exact hq.1
  · rcases hle.lt_or_eq with hlt | heq
    · rw [halfwayAbove_add hlt hk, heven]
      exact hq.2
    · have hafter := modulusOf_lt_halfwayAbove (k * 2 ^ 52 + q)
      have hcast : (q : ℚ) = 2 ^ 53 := by exact_mod_cast heq
      rw [modulusOf_add hle hk, hcast] at hafter
      rw [div_lt_iff₀ hunit] at hv
      exact .inl (hv.trans hafter)

theorem ofRatio?_spec (negative : Bool) (num : ℕ) {den : ℕ} (hden : 0 < den) :
    ∃ magnitude, ofRatio? negative num den = ofMagnitude? negative magnitude ∧
      ∀ x : Binary64, x.magnitude = min magnitude infinity → RoundsTo (num / den) x := by
  rw [ofRatio?]
  split
  · next hzero =>
    refine ⟨0, rfl, fun x hx => roundsTo_of_min hx (fun hne => absurd rfl hne) (.inl ?_)⟩
    rw [hzero, Nat.cast_zero, zero_div]
    exact halfwayAbove_pos 0
  · next hnum =>
    obtain ⟨hleast, hhigh, hnormal⟩ := scaleFor_spec (Nat.pos_of_ne_zero hnum) hden
    have hrounded := roundHalfEven_spec (unscale num den (scaleFor num den)).1
      (unscale_snd_pos num hden (scaleFor num den))
    rw [unscale_eq] at hrounded
    refine ⟨_, rfl, fun x hx => roundsTo_of_rounded hx ?_ ?_ ?_⟩
    all_goals rw [Int.toNat_of_nonneg (by omega), add_sub_cancel_right]
    · exact hhigh
    · exact hnormal.imp_left (by omega)
    · exact hrounded

/-! ## Integers -/

/-- A double stands for an integer: of all doubles it is the nearest one, and it has the sign of the integer,
zero being positive. -/
structure IsNearest (n : ℤ) (x : Binary64) : Prop where
  zero : n = 0 → x = ⟨0⟩
  nearest : n ≠ 0 → RoundsTo |(n : ℚ)| x
  sign : x.isNegative = true ↔ n < 0
  number : x.magnitude ≤ infinity
  finite : n.natAbs < 2 ^ 64 → x.magnitude < infinity

theorem getD_ofMagnitude? (negative : Bool) (magnitude : ℕ) :
    (ofMagnitude? negative magnitude).getD (pack negative infinity) =
      pack negative (min magnitude infinity) := by
  rw [ofMagnitude?]
  split
  · next hfinite => rw [Option.getD_some, min_eq_left hfinite.le]
  · next hlarge => rw [Option.getD_none, min_eq_right (not_lt.mp hlarge)]

theorem RoundsTo.finite {x : Binary64} {v : ℚ} (h : RoundsTo v x) (hv : v < 2 ^ 64)
    (hx : x.magnitude ≤ infinity) : x.magnitude < infinity := by
  refine hx.lt_of_ne fun hinfinite => ?_
  have hsignificand : (⟨0x43f0000000000000⟩ : Binary64).significand = 2 ^ 52 := by decide
  have hscale : (⟨0x43f0000000000000⟩ : Binary64).scale = 12 := by decide
  have hless : (⟨0x43f0000000000000⟩ : Binary64).magnitude < infinity := by decide
  have hmodulus := h.lt (hless.trans_eq hinfinite.symm) hless.le
  rw [modulus, hsignificand, hscale] at hmodulus
  norm_num at hmodulus hv
  linarith

theorem isNearest_ofInt (n : ℤ) : IsNearest n (ofInt n) := by
  obtain ⟨magnitude, hmagnitude, hnearest⟩ := ofRatio?_spec (decide (n < 0)) n.natAbs one_pos
  have hbound : min magnitude infinity < 2 ^ 63 := (min_le_right _ _).trans_lt (by decide)
  have hpack : ofInt n = pack (decide (n < 0)) (min magnitude infinity) := by
    rw [ofInt, hmagnitude, getD_ofMagnitude?]
  have hlimit : (ofInt n).magnitude = min magnitude infinity := by
    rw [hpack, magnitude_pack _ hbound]
  have hvalue : (n.natAbs : ℚ) / (1 : ℕ) = |(n : ℚ)| := by
    rw [Nat.cast_one, div_one, Nat.cast_natAbs, Int.cast_abs]
  have hrounds := hnearest (ofInt n) hlimit
  have hnumber : (ofInt n).magnitude ≤ infinity := hlimit.trans_le (min_le_right _ _)
  rw [hvalue] at hrounds
  refine ⟨?_, fun _ => hrounds, ?_, hnumber, fun hsmall => hrounds.finite ?_ hnumber⟩
  · rintro rfl
    rfl
  · rw [hpack, isNegative_pack _ hbound, decide_eq_true_eq]
  · rw [← Int.cast_abs, ← Nat.cast_natAbs]
    exact_mod_cast hsmall

theorem IsNearest.unique {n : ℤ} {x y : Binary64} (hx : IsNearest n x) (hy : IsNearest n y) : x = y := by
  by_cases hn : n = 0
  · rw [hx.zero hn, hy.zero hn]
  · refine eq_of_isNegative_of_magnitude ?_ ((hx.nearest hn).unique (hy.nearest hn) hx.number hy.number)
    rw [Bool.eq_iff_iff, hx.sign, hy.sign]

end Binary64

end StyleSync
