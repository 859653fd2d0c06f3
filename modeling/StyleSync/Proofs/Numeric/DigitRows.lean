import Mathlib.Data.List.Induction
import Mathlib.Data.List.Shortlex
import Mathlib.Data.Nat.Digits.Defs
import Mathlib.Tactic.Ring
import StyleSync.Numeric.Digits

/-! # Rows of digits

What the value of a row of digits says about the row, and how the digits of a number are counted out:

* `pow_le_digitsValue`, `digitsValue_lt_pow`: the value lies between the powers that belong to the length;
* `digitsValue_injective`: rows of one length with the same value are the same;
* `shortlex_digitsOf`: the digits of a greater number come later, shorter rows first and rows of one length
  by their first difference;
* `countsOut_digitsOf`: a loop that takes the last digit off a number until nothing is left ends with all
  digits of the number.
-/

set_option autoImplicit false

namespace StyleSync

/-! ## Values -/

theorem digitsValue_eq_ofDigits (base : ℕ) (digits : List ℕ) :
    digitsValue base digits = Nat.ofDigits base digits.reverse := by
  induction digits using List.reverseRecOn with
  | nil => rfl
  | append_singleton digits digit ih =>
    rw [digitsValue_concat, ih, List.reverse_concat, Nat.ofDigits_cons]
    ring

theorem digitsValue_append (base : ℕ) (front back : List ℕ) :
    digitsValue base (front ++ back) =
      digitsValue base front * base ^ back.length + digitsValue base back := by
  simp only [digitsValue_eq_ofDigits, List.reverse_append, Nat.ofDigits_append, List.length_reverse]
  ring

theorem digitsValue_cons (base digit : ℕ) (digits : List ℕ) :
    digitsValue base (digit :: digits) = digit * base ^ digits.length + digitsValue base digits := by
  have happend := digitsValue_append base [digit] digits
  rwa [show digitsValue base [digit] = digit by simp [digitsValue]] at happend

theorem digitsValue_replicate_zero (base count : ℕ) :
    digitsValue base (List.replicate count 0) = 0 := by
  rw [digitsValue_eq_ofDigits, List.reverse_replicate, Nat.ofDigits_replicate_zero]

theorem digitsValue_lt_pow {base : ℕ} (hbase : 2 ≤ base) {digits : List ℕ}
    (h : ∀ digit ∈ digits, digit < base) : digitsValue base digits < base ^ digits.length := by
  rw [digitsValue_eq_ofDigits, ← List.length_reverse]
  exact Nat.ofDigits_lt_base_pow_length hbase fun digit hdigit => h digit (List.mem_reverse.mp hdigit)

theorem pow_le_digitsValue {base first : ℕ} (hfirst : first ≠ 0) (digits : List ℕ) :
    base ^ digits.length ≤ digitsValue base (first :: digits) := by
  have hmul : 1 * base ^ digits.length ≤ first * base ^ digits.length :=
    Nat.mul_le_mul_right _ (Nat.pos_of_ne_zero hfirst)
  rw [digitsValue_cons]
  omega

section Rows

variable {base : ℕ} (hbase : 2 ≤ base) {row other : List ℕ}

include hbase

theorem digitsValue_injective (hlength : row.length = other.length)
    (hrow : ∀ digit ∈ row, digit < base) (hother : ∀ digit ∈ other, digit < base)
    (h : digitsValue base row = digitsValue base other) : row = other := by
  rw [digitsValue_eq_ofDigits, digitsValue_eq_ofDigits] at h
  refine List.reverse_injective (Nat.ofDigits_inj_of_len_eq hbase ?_ ?_ ?_ h)
  · simpa using hlength
  · simpa using hrow
  · simpa using hother

/-- The first difference of two rows of one length decides which has the greater value. -/
theorem lex_of_digitsValue_lt (hlength : row.length = other.length)
    (hrow : ∀ digit ∈ row, digit < base) (hother : ∀ digit ∈ other, digit < base)
    (h : digitsValue base row < digitsValue base other) : List.Lex (· < ·) row other := by
  induction row generalizing other with
  | nil =>
    rw [List.eq_nil_of_length_eq_zero hlength.symm] at h
    exact absurd h (Nat.lt_irrefl _)
  | cons digit row ih =>
    cases other with
    | nil => cases hlength
    | cons first other =>
      have hrest : row.length = other.length := Nat.succ.inj hlength
      rw [List.forall_mem_cons] at hrow hother
      rw [digitsValue_cons, digitsValue_cons, hrest] at h
      rcases Nat.lt_trichotomy digit first with hlt | rfl | hgt
      · exact List.Lex.rel hlt
      · exact List.Lex.cons (ih hrest hrow.2 hother.2 (Nat.lt_of_add_lt_add_left h))
      · have hbound := digitsValue_lt_pow hbase hother.2
        have hmul : (first + 1) * base ^ other.length ≤ digit * base ^ other.length :=
          Nat.mul_le_mul_right _ hgt
        rw [Nat.add_mul] at hmul
        omega

end Rows

/-! ## Digits of numbers -/

section DigitsOf

variable {base : ℕ} (hbase : 2 ≤ base)

include hbase

theorem lt_pow_length_digitsOf (n : ℕ) : n < base ^ (digitsOf base n).length := by
  have hbound := digitsValue_lt_pow hbase fun digit (hdigit : digit ∈ digitsOf base n) =>
    lt_of_mem_digitsOf hbase hdigit
  rwa [digitsValue_digitsOf hbase] at hbound

theorem exists_digitsOf_eq_cons {n : ℕ} (hn : n ≠ 0) :
    ∃ first rest, first ≠ 0 ∧ digitsOf base n = first :: rest := by
  have hhead := head_digitsOf hbase hn
  cases hdigits : digitsOf base n with
  | nil => exact absurd hdigits (digitsOf_ne_nil base n)
  | cons first rest =>
    rw [hdigits] at hhead
    exact ⟨first, rest, fun hzero => hhead (by rw [hzero]; rfl), rfl⟩

theorem pow_length_digitsOf_le {n : ℕ} (hn : n ≠ 0) : base ^ ((digitsOf base n).length - 1) ≤ n := by
  obtain ⟨first, rest, hfirst, hdigits⟩ := exists_digitsOf_eq_cons hbase hn
  have hbound : base ^ rest.length ≤ digitsValue base (first :: rest) :=
    pow_le_digitsValue hfirst rest
  rw [← hdigits, digitsValue_digitsOf hbase] at hbound
  rwa [hdigits, List.length_cons, Nat.add_sub_cancel]

theorem length_digitsOf_mono {m n : ℕ} (h : m ≤ n) :
    (digitsOf base m).length ≤ (digitsOf base n).length := by
  rcases Nat.eq_zero_or_pos m with rfl | hm
  · rw [digitsOf_of_lt (by omega)]
    exact List.length_pos_of_ne_nil (digitsOf_ne_nil base n)
  · have hpow := (pow_length_digitsOf_le hbase hm.ne').trans_lt (h.trans_lt (lt_pow_length_digitsOf hbase n))
    have hlt := (Nat.pow_lt_pow_iff_right hbase).mp hpow
    omega

theorem shortlex_digitsOf {m n : ℕ} (h : m < n) :
    List.Shortlex (· < ·) (digitsOf base m) (digitsOf base n) := by
  rcases (length_digitsOf_mono hbase h.le).lt_or_eq with hlength | hlength
  · exact List.Shortlex.of_length_lt hlength
  · refine List.Shortlex.of_lex hlength (lex_of_digitsValue_lt hbase hlength
      (fun _ => lt_of_mem_digitsOf hbase) (fun _ => lt_of_mem_digitsOf hbase) ?_)
    rwa [digitsValue_digitsOf hbase, digitsValue_digitsOf hbase]

end DigitsOf

/-! ## Counting out digits -/

/-- One round of counting out digits: the last digit of what is left is put behind those already found. -/
def digitRound (base : ℕ) : ℕ × List ℕ → ℕ × List ℕ
  | (left, found) => (left / base, found ++ [left % base])

theorem fst_iterate_digitRound (base rounds n : ℕ) (found : List ℕ) :
    ((digitRound base)^[rounds] (n, found)).1 = n / base ^ rounds := by
  induction rounds generalizing n found with
  | zero => simp
  | succ rounds ih => rw [Function.iterate_succ_apply, digitRound, ih, Nat.div_div_eq_div_mul, pow_succ']

theorem iterate_digitRound {base : ℕ} (hbase : 2 ≤ base) (n : ℕ) (found : List ℕ) :
    (digitRound base)^[(digitsOf base n).length] (n, found) =
      (0, found ++ (digitsOf base n).reverse) := by
  induction n using Nat.strongRecOn generalizing found with
  | ind n ih =>
    by_cases hn : n < base
    · rw [digitsOf_of_lt hn, List.length_singleton, Function.iterate_one, digitRound,
        Nat.div_eq_of_lt hn, Nat.mod_eq_of_lt hn, List.reverse_singleton]
    · have hle : base ≤ n := Nat.le_of_not_lt hn
      have hless : n / base < n := Nat.div_lt_self (by omega) hbase
      rw [digitsOf_of_le hbase hle, List.length_append, List.length_singleton,
        Function.iterate_succ_apply, digitRound, ih (n / base) hless, List.reverse_append,
        List.reverse_singleton, List.append_assoc]

theorem fst_iterate_digitRound_ne_zero {base : ℕ} (hbase : 2 ≤ base) {n rounds : ℕ}
    (hpos : 0 < rounds) (h : rounds < (digitsOf base n).length) (found : List ℕ) :
    ((digitRound base)^[rounds] (n, found)).1 ≠ 0 := by
  have hn : n ≠ 0 := by
    rintro rfl
    rw [digitsOf_of_lt (by omega), List.length_singleton] at h
    omega
  have hpow : base ^ rounds ≤ n :=
    (Nat.pow_le_pow_right (by omega) (by omega)).trans (pow_length_digitsOf_le hbase hn)
  rw [fst_iterate_digitRound]
  exact (Nat.div_pos hpow (Nat.pow_pos (by omega))).ne'

/-- A loop of rounds that is left as soon as a round leaves nothing of `n` ends with the digits `found`. -/
structure CountsOut (base n : ℕ) (found : List ℕ) : Prop where
  ne_nil : found ≠ []
  last_round : (digitRound base)^[found.length] (n, []) = (0, found)
  no_round_before : ∀ rounds, 0 < rounds → rounds < found.length →
    ((digitRound base)^[rounds] (n, [])).1 ≠ 0

theorem countsOut_digitsOf {base : ℕ} (hbase : 2 ≤ base) (n : ℕ) :
    CountsOut base n (digitsOf base n).reverse where
  ne_nil := List.reverse_ne_nil_iff.mpr (digitsOf_ne_nil base n)
  last_round := by
    rw [List.length_reverse, iterate_digitRound hbase, List.nil_append]
  no_round_before rounds hpos h := by
    rw [List.length_reverse] at h
    exact fst_iterate_digitRound_ne_zero hbase hpos h []

end StyleSync
