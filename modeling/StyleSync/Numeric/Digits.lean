/-! # Positional numerals

The digits of a natural number in a base, most significant first, and the characters for digits up to
thirty-five.

* `digitsValue_digitsOf`: the digits of a number have that number as their value;
* `lt_of_mem_digitsOf`: every digit is below the base;
* `head_digitsOf`: the first digit is zero only for zero itself.
-/

set_option autoImplicit false

namespace StyleSync

/-! ## Digits -/

/-- The digits of `n` in a base, most significant first. Below two there are no numerals, and a number
is its only digit. -/
def digitsOf (base n : Nat) : List Nat :=
  if _h : base < 2 ∨ n < base then [n]
  else digitsOf base (n / base) ++ [n % base]
termination_by n
decreasing_by exact Nat.div_lt_self (by omega) (by omega)

/-- The value of a row of digits in a base. -/
def digitsValue (base : Nat) (digits : List Nat) : Nat :=
  digits.foldl (fun value digit => value * base + digit) 0

@[simp] theorem digitsValue_nil (base : Nat) : digitsValue base [] = 0 := rfl

/-- A further digit behind the others. -/
theorem digitsValue_concat (base : Nat) (digits : List Nat) (digit : Nat) :
    digitsValue base (digits ++ [digit]) = digitsValue base digits * base + digit := by
  simp [digitsValue]

theorem digitsOf_of_lt {base n : Nat} (h : n < base) : digitsOf base n = [n] := by
  rw [digitsOf, dif_pos (Or.inr h)]

theorem digitsOf_of_le {base n : Nat} (hbase : 2 ≤ base) (h : base ≤ n) :
    digitsOf base n = digitsOf base (n / base) ++ [n % base] := by
  rw [digitsOf, dif_neg (by omega)]

theorem digitsOf_ne_nil (base n : Nat) : digitsOf base n ≠ [] := by
  rw [digitsOf]
  split <;> simp

/-- The digits of a number have that number as their value. -/
theorem digitsValue_digitsOf {base : Nat} (hbase : 2 ≤ base) (n : Nat) :
    digitsValue base (digitsOf base n) = n := by
  induction n using Nat.strongRecOn with
  | ind n ih =>
    by_cases h : n < base
    · rw [digitsOf_of_lt h]
      simp [digitsValue]
    · have hle : base ≤ n := Nat.le_of_not_lt h
      rw [digitsOf_of_le hbase hle, digitsValue_concat,
        ih (n / base) (Nat.div_lt_self (by omega) (by omega)), Nat.mul_comm]
      exact Nat.div_add_mod n base

/-- Every digit is below the base. -/
theorem lt_of_mem_digitsOf {base : Nat} (hbase : 2 ≤ base) {n digit : Nat}
    (h : digit ∈ digitsOf base n) : digit < base := by
  induction n using Nat.strongRecOn with
  | ind n ih =>
    by_cases hn : n < base
    · rw [digitsOf_of_lt hn] at h
      simp at h
      exact h ▸ hn
    · have hle : base ≤ n := Nat.le_of_not_lt hn
      rw [digitsOf_of_le hbase hle, List.mem_append] at h
      rcases h with h | h
      · exact ih (n / base) (Nat.div_lt_self (by omega) (by omega)) h
      · simp at h
        exact h ▸ Nat.mod_lt n (by omega)

/-- The first digit is zero only for zero itself. -/
theorem head_digitsOf {base : Nat} (hbase : 2 ≤ base) {n : Nat} (hn : n ≠ 0) :
    (digitsOf base n).head? ≠ some 0 := by
  induction n using Nat.strongRecOn with
  | ind n ih =>
    by_cases h : n < base
    · rw [digitsOf_of_lt h]
      simpa using hn
    · have hle : base ≤ n := Nat.le_of_not_lt h
      have hdiv : n / base ≠ 0 := by
        have := Nat.div_pos hle (by omega)
        omega
      have := ih (n / base) (Nat.div_lt_self (by omega) (by omega)) hdiv
      rw [digitsOf_of_le hbase hle]
      cases hd : digitsOf base (n / base) with
      | nil => exact absurd hd (digitsOf_ne_nil _ _)
      | cons first rest =>
        rw [hd] at this
        simpa using this

/-! ## Characters -/

/-- The character of a digit below thirty-six: a decimal digit or a small letter. -/
def digitChar (digit : Nat) : Char :=
  if digit < 10 then Char.ofNat ('0'.toNat + digit) else Char.ofNat ('a'.toNat + (digit - 10))

/-- The value of a decimal digit's character. -/
def digitOfChar (c : Char) : Nat :=
  c.toNat - '0'.toNat

/-- The numeral of a natural number in a base up to thirty-six. -/
def numeral (base n : Nat) : List Char :=
  (digitsOf base n).map digitChar

end StyleSync
