/-! # Double-precision numbers

A number in the binary interchange format of 64 bits, kept as its bits: one bit of sign, eleven of
exponent, fifty-two of fraction. A finite number is `± significand · 2 ^ scale`. `ofDecimal?` reads a
decimal number and `ofInt` an integer as the nearest double, of two equally near ones as the one with the
even significand.
-/

set_option autoImplicit false

namespace StyleSync

/-- A double-precision number. -/
structure Binary64 where
  bits : UInt64
deriving Repr, DecidableEq, Inhabited

namespace Binary64

/-! ## Fields -/

/-- The place value of the sign bit. -/
def signBit : Nat := Nat.pow 2 63

/-- Whether the sign bit is set. -/
def isNegative (x : Binary64) : Bool :=
  signBit ≤ x.bits.toNat

/-- The bits without the sign: they order the numbers that are not negative. -/
def magnitude (x : Binary64) : Nat :=
  x.bits.toNat % signBit

/-- The eleven bits of exponent. -/
def exponentField (x : Binary64) : Nat :=
  x.magnitude / Nat.pow 2 52

/-- The fifty-two bits of fraction. -/
def fractionField (x : Binary64) : Nat :=
  x.magnitude % Nat.pow 2 52

/-- The magnitude of the infinities; greater magnitudes are not numbers. -/
def infinity : Nat := 0x7ff0000000000000

/-- Whether the bits denote no number. -/
def isNaN (x : Binary64) : Bool :=
  infinity < x.magnitude

/-- Whether the number is one of the two infinities. -/
def isInfinite (x : Binary64) : Bool :=
  x.magnitude == infinity

/-- Whether the number is one of the two zeros. -/
def isZero (x : Binary64) : Bool :=
  x.magnitude == 0

/-- The integer `m` in `m · 2 ^ scale`: subnormal numbers lack the leading bit. -/
def significand (x : Binary64) : Nat :=
  if x.exponentField = 0 then x.fractionField else Nat.pow 2 52 + x.fractionField

/-- The power of two that scales the significand. -/
def scale (x : Binary64) : Int :=
  if x.exponentField = 0 then -1074 else (x.exponentField : Int) - 1075

/-- Equality of numbers: the two zeros are equal, and what is not a number differs from itself. -/
def same (x y : Binary64) : Bool :=
  !x.isNaN && !y.isNaN && (x.bits == y.bits || x.isZero && y.isZero)

/-! ## Reading decimal numbers -/

/-- `num / den` rounded to an integer, a half to the even neighbour. -/
def roundHalfEven (num den : Nat) : Nat :=
  let quotient := num / den
  let twice := 2 * (num % den)
  if twice < den then quotient
  else if den < twice then quotient + 1
  else if quotient % 2 = 0 then quotient
  else quotient + 1

/-- `num / (den · 2 ^ scale)` as a fraction. -/
def unscale (num den : Nat) (scale : Int) : Nat × Nat :=
  if scale < 0 then (num * Nat.pow 2 (-scale).toNat, den) else (num, den * Nat.pow 2 scale.toNat)

/-- The scale at which a positive fraction has a significand of fifty-three bits, or the least scale. -/
def scaleFor (num den : Nat) : Int :=
  let estimate := (Nat.log2 num : Int) - Nat.log2 den - 52
  let (n, d) := unscale num den estimate
  max (-1074) (if n < Nat.pow 2 52 * d then estimate - 1 else estimate)

/-- The double with a sign and a magnitude. -/
def pack (negative : Bool) (magnitude : Nat) : Binary64 :=
  ⟨UInt64.ofNat (if negative then signBit + magnitude else magnitude)⟩

/-- A number from a sign and the magnitude of a finite number, `none` if it is too large. -/
def ofMagnitude? (negative : Bool) (magnitude : Nat) : Option Binary64 :=
  if magnitude < infinity then some (pack negative magnitude) else none

/-- The double nearest to `± num / den`, `none` if that is beyond the finite numbers. -/
def ofRatio? (negative : Bool) (num den : Nat) : Option Binary64 :=
  if num = 0 then
    ofMagnitude? negative 0
  else
    let scale := scaleFor num den
    let (n, d) := unscale num den scale
    ofMagnitude? negative ((scale + 1074).toNat * Nat.pow 2 52 + roundHalfEven n d)

/-- The double nearest to `± digits · 10 ^ exponent`, `none` if that is beyond the finite numbers.
What is sure to lie below `10 ^ -400` is read as zero and what is sure to lie above `10 ^ 400` is too
large, so exponents of any length are read without large powers. -/
def ofDecimal? (negative : Bool) (digits : Nat) (exponent : Int) : Option Binary64 :=
  let places := (Nat.log2 digits : Int)
  if digits = 0 ∨ exponent + places < -400 then
    ofMagnitude? negative 0
  else if 400 < exponent then
    none
  else if 0 ≤ exponent then
    ofRatio? negative (digits * Nat.pow 10 exponent.toNat) 1
  else
    ofRatio? negative digits (Nat.pow 10 (-exponent).toNat)

/-- The double nearest to an integer, an infinity if that is beyond the finite numbers. -/
def ofInt (n : Int) : Binary64 :=
  (ofRatio? (decide (n < 0)) n.natAbs 1).getD (pack (decide (n < 0)) infinity)

end Binary64

end StyleSync
