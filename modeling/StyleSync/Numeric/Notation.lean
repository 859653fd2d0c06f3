import StyleSync.Numeric.Shortest

/-! # How numbers are written

Scripts write a number with its shortest digits: plainly from `1e-6` on and below `1e21`, otherwise
with an exponent that has a sign (`1e+21`, `1e-7`). `Binary64.render` writes a number so.
`Binary64.renderPointed` is the notation of messages about JSON text, where a number that is not an
integer always shows a point or an exponent.
-/

set_option autoImplicit false

namespace StyleSync

/-! ## Layouts -/

namespace Decimal

/-- The digits as characters. -/
def chars (x : Decimal) : List Char :=
  x.digits.map digitChar

/-- The digits with a point where it belongs, zeros filling the places between. -/
def plain (x : Decimal) : List Char :=
  if x.point ≤ 0 then
    '0' :: '.' :: (List.replicate (-x.point).toNat '0' ++ x.chars)
  else if x.digits.length ≤ x.point then
    x.chars ++ List.replicate (x.point - x.digits.length).toNat '0'
  else
    x.chars.take x.point.toNat ++ '.' :: x.chars.drop x.point.toNat

/-- The first digit, the others behind a point if there are any, and the exponent with its sign. -/
def scientific (x : Decimal) : List Char :=
  let exponent := x.point - 1
  let fraction := match x.chars.drop 1 with
    | [] => []
    | others => '.' :: others
  x.chars.take 1 ++ fraction ++ 'e' :: (if exponent < 0 then '-' else '+') ::
    numeral 10 exponent.natAbs

end Decimal

/-! ## Numbers -/

namespace Binary64

/-- The magnitude of the double `1e-6`, the least that is written plainly. -/
def plainFrom : Nat := 0x3eb0c6f7a0b5ed8d

/-- The magnitude of the double `1e21`, the least above one that is written with an exponent. -/
def plainBelow : Nat := 0x444b1ae4d6e2ef50

/-- The absolute value of a finite number other than zero. Of two equally near shortest decimals the
greater is written. -/
def renderMagnitude (x : Binary64) : List Char :=
  let decimal := x.shortest .greater
  if plainFrom ≤ x.magnitude ∧ x.magnitude < plainBelow then decimal.plain
  else decimal.scientific

/-- A minus sign in front of what is negative. -/
def signed (x : Binary64) (text : List Char) : List Char :=
  if x.isNegative then '-' :: text else text

/-- A number as scripts write it. Both zeros are `0`. -/
def render (x : Binary64) : String :=
  if x.isNaN then "NaN"
  else if x.isZero then "0"
  else if x.isInfinite then String.ofList (x.signed "Infinity".toList)
  else String.ofList (x.signed x.renderMagnitude)

/-- The absolute value of a finite number other than zero, with a point or an exponent: plainly from
`1e-5` on and below `1e16`, with `.0` behind an integer. Of two equally near shortest decimals the one
with an even last digit is written. -/
def pointedMagnitude (x : Binary64) : List Char :=
  let decimal := x.shortest .even
  if -5 < decimal.point ∧ decimal.point ≤ 16 then
    if decimal.digits.length ≤ decimal.point then decimal.plain ++ ['.', '0']
    else decimal.plain
  else decimal.scientific

/-- A finite number with a point or an exponent. -/
def renderPointed (x : Binary64) : String :=
  String.ofList (x.signed (if x.isZero then ['0', '.', '0'] else x.pointedMagnitude))

end Binary64

end StyleSync
