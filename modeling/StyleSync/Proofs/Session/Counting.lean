import StyleSync.Proofs.Numeric.DigitRows
import StyleSync.Proofs.Session.Suffixes

/-! # Counting in suffixes

A counter hands out the numerals of zero, one, two and so on, the digits being `0` to `9` and `a` to `z`
(`IsNumeral`). A later one comes later in the order of shorter texts first, and the loop that finds the
digits of one always ends (`CounterSuffix.nth_start_counts`).
-/

set_option autoImplicit false

namespace StyleSync

/-! ## Numerals of the base of suffixes -/

/-- The digits and the small letters in order. -/
def digitChars : List Char :=
  "0123456789abcdefghijklmnopqrstuvwxyz".toList

/-- The numeral of `n`: a row of digits with that value, without a zero in front. -/
structure IsNumeral (n : ℕ) (cs : List Char) : Prop where
  mem_digitChars : ∀ c ∈ cs, c ∈ digitChars
  value : readNumeral radix cs = n
  ne_nil : cs ≠ []
  no_zero_in_front : cs.head? = some '0' → cs = ['0']

theorem digitChar_mem_digitChars : ∀ digit < 36, digitChar digit ∈ digitChars := by
  decide

theorem digitChar_lt_digitChar : ∀ digit < 36, ∀ later < 36, digit < later →
    digitChar digit < digitChar later := by
  decide

theorem two_le_radix : 2 ≤ radix := by
  decide

theorem isNumeral_numeral (n : ℕ) : IsNumeral n (numeral radix n) where
  mem_digitChars c hc := by
    obtain ⟨digit, hdigit, rfl⟩ := exists_digit_of_mem_numeral two_le_radix le_rfl hc
    exact digitChar_mem_digitChars digit hdigit
  value := readNumeral_numeral two_le_radix le_rfl n
  ne_nil := by
    rw [numeral, ne_eq, List.map_eq_nil_iff]
    exact digitsOf_ne_nil radix n
  no_zero_in_front h := by
    by_cases hn : n = 0
    · rw [hn, numeral, digitsOf_of_lt (by decide)]
      rfl
    · obtain ⟨first, rest, hfirst, hdigits⟩ := exists_digitsOf_eq_cons two_le_radix hn
      have hlt : first < 36 := lt_of_mem_digitsOf two_le_radix (hdigits ▸ List.mem_cons_self)
      rw [numeral, hdigits, List.map_cons, List.head?_cons, Option.some.injEq] at h
      have hread := digitOf_digitChar first hlt
      rw [h] at hread
      exact absurd hread.symm hfirst

theorem lex_map {α β : Type} {r : α → α → Prop} {s : β → β → Prop} {f : α → β} {as bs : List α}
    (h : List.Lex r as bs) (hf : ∀ a ∈ as, ∀ b ∈ bs, r a b → s (f a) (f b)) :
    List.Lex s (as.map f) (bs.map f) := by
  induction h with
  | nil => exact List.Lex.nil
  | cons _ ih =>
    exact List.Lex.cons (ih fun a ha b hb => hf a (List.mem_cons_of_mem _ ha) b (List.mem_cons_of_mem _ hb))
  | rel hab => exact List.Lex.rel (hf _ List.mem_cons_self _ List.mem_cons_self hab)

theorem shortlex_numeral {m n : ℕ} (h : m < n) :
    List.Shortlex (· < ·) (numeral radix m) (numeral radix n) := by
  rw [List.shortlex_def, numeral, numeral, List.length_map, List.length_map]
  refine (List.shortlex_def.mp (shortlex_digitsOf two_le_radix h)).imp_right ?_
  rintro ⟨hlength, hlex⟩
  refine ⟨hlength, lex_map hlex fun digit hdigit later hlater => ?_⟩
  exact digitChar_lt_digitChar digit (lt_of_mem_digitsOf two_le_radix hdigit) later
    (lt_of_mem_digitsOf two_le_radix hlater)

/-! ## Suffixes of a counter -/

/-- The suffix that a source hands out after `count` others. -/
def SuffixSource.nth {ν : Type} [SuffixSource ν] (count : ℕ) (source : ν) : String :=
  (draw (drawMany count source).2).1

namespace CounterSuffix

open SuffixSource

theorem nth_start {n : ℕ} (hn : n < 2 ^ 64) : nth n start = String.ofList (numeral radix n) := by
  have hnext : (0 + UInt64.ofNat n).toNat = n := by
    rw [UInt64.zero_add, UInt64.toNat_ofNat', Nat.mod_eq_of_lt hn]
  rw [nth, drawMany_eq, draw_eq, start, hnext]

/-- A counter hands out the numerals of all its numbers in order, and finds the digits of each. -/
theorem nth_start_counts :
    (∀ n < 2 ^ 64, IsNumeral n (nth n start).toList ∧
      ∃ found, CountsOut radix n found ∧ (nth n start).toList = found.reverse.map digitChar) ∧
    ∀ m n, m < n → n < 2 ^ 64 →
      List.Shortlex (· < ·) (nth m start).toList (nth n start).toList := by
  refine ⟨fun n hn => ?_, fun m n hmn hn => ?_⟩
  · rw [nth_start hn, String.toList_ofList]
    refine ⟨isNumeral_numeral n, (digitsOf radix n).reverse, countsOut_digitsOf two_le_radix n, ?_⟩
    rw [List.reverse_reverse]
    rfl
  · rw [nth_start hn, nth_start (hmn.trans hn), String.toList_ofList, String.toList_ofList]
    exact shortlex_numeral hmn

theorem nth_start_counts_carried :
    36 ^ 12 - 1 < 36 ^ 12 ∧ 36 ^ 12 < 2 ^ 64 ∧
      IsNumeral (36 ^ 12) (nth (36 ^ 12) start).toList ∧ IsNumeral 0 (nth 0 start).toList ∧
      IsNumeral (2 ^ 64 - 1) (nth (2 ^ 64 - 1) start).toList ∧
      List.Shortlex (· < ·) (nth (36 ^ 12 - 1) start).toList (nth (36 ^ 12) start).toList := by
  obtain ⟨hnumeral, horder⟩ := nth_start_counts
  exact ⟨by norm_num, by norm_num, (hnumeral _ (by norm_num)).1, (hnumeral _ (by norm_num)).1,
    (hnumeral _ (by norm_num)).1, horder _ _ (by norm_num) (by norm_num)⟩

end CounterSuffix

end StyleSync
