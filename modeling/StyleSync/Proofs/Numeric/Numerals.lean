import StyleSync.Numeric.Digits

/-! # Reading numerals back

`digitOf` is the digit that a character stands for, and `readNumeral` the number that a numeral does. A
numeral in a base up to thirty-six is read back (`readNumeral_numeral`), so that it stands for one number
only (`numeral_injective`), and it consists of decimal digits and small letters (`exists_digit_of_mem_numeral`).
-/

set_option autoImplicit false

namespace StyleSync

/-- The digit that a decimal digit or a small letter stands for. -/
def digitOf (c : Char) : Nat :=
  if c.isDigit then c.toNat - '0'.toNat else c.toNat - 'a'.toNat + 10

/-- The number that a numeral stands for. -/
def readNumeral (base : Nat) (cs : List Char) : Nat :=
  digitsValue base (cs.map digitOf)

theorem digitOf_digitChar : ∀ digit < 36, digitOf (digitChar digit) = digit := by
  decide

theorem digitChar_ne_dash : ∀ digit < 36, digitChar digit ≠ '-' := by
  decide

variable {base : Nat} (hbase : 2 ≤ base) (hlarge : base ≤ 36)

include hbase hlarge

theorem exists_digit_of_mem_numeral {n : Nat} {c : Char} (h : c ∈ numeral base n) :
    ∃ digit < 36, c = digitChar digit := by
  obtain ⟨digit, hdigit, rfl⟩ := List.mem_map.mp h
  have hlt := lt_of_mem_digitsOf hbase hdigit
  exact ⟨digit, by omega, rfl⟩

theorem dash_not_mem_numeral (n : Nat) : '-' ∉ numeral base n := by
  intro hdash
  obtain ⟨digit, hdigit, hchar⟩ := exists_digit_of_mem_numeral hbase hlarge hdash
  exact digitChar_ne_dash digit hdigit hchar.symm

theorem readNumeral_numeral (n : Nat) : readNumeral base (numeral base n) = n := by
  have hread : ∀ digit ∈ digitsOf base n, (digitOf ∘ digitChar) digit = id digit := by
    intro digit hdigit
    have hlt := lt_of_mem_digitsOf hbase hdigit
    exact digitOf_digitChar digit (by omega)
  rw [readNumeral, numeral, List.map_map, List.map_congr_left hread, List.map_id,
    digitsValue_digitsOf hbase]

theorem numeral_injective {n m : Nat} (h : numeral base n = numeral base m) : n = m := by
  rw [← readNumeral_numeral hbase hlarge n, h, readNumeral_numeral hbase hlarge m]

end StyleSync
