import StyleSync.Numeric.Binary64
import StyleSync.Numeric.Digits

/-! # The shortest decimal digits of a double

The real numbers that are read as one double form an interval around it, whose ends belong to it just
if the significand is even. `shortest` finds the fewest significant digits of a decimal number in that
interval; of two such numbers it takes the nearer to the double, and a `Tie` decides between two equally
near.
-/

set_option autoImplicit false

namespace StyleSync

/-- Which of two equally near neighbours on a decimal grid is taken. -/
inductive Tie where
  /-- The greater one. -/
  | greater
  /-- The one with an even last digit. -/
  | even
deriving Repr, DecidableEq

/-- Whether the lesser of two equally near neighbours, `floor` and `floor + 1`, is taken. -/
def Tie.takesFloor (tie : Tie) (floor : Nat) : Bool :=
  match tie with
  | .greater => false
  | .even => floor % 2 == 0

/-- The positive decimal number `0.d₁d₂…dₖ · 10 ^ point`. -/
structure Decimal where
  digits : List Nat
  point : Int
deriving Repr, DecidableEq

/-! ## The interval of a double -/

/-- The positive fraction `num / den`, and whether the ends of its interval belong to it. The interval
reaches from `below` to `above`, fractions over the same `den`. -/
structure RoundingInterval where
  num : Nat
  den : Nat
  below : Nat
  above : Nat
  closed : Bool
deriving Repr

/-- The interval of `significand · 2 ^ scale`. The gap below a power of two is half as wide as the one
above it, except at the least scale. -/
def RoundingInterval.ofDouble (significand : Nat) (scale : Int) : RoundingInterval :=
  let narrow := decide (significand = Nat.pow 2 52 ∧ -1074 < scale)
  let unit := Nat.pow 2 (scale - 2).toNat
  { num := 4 * significand * unit
    den := Nat.pow 2 (2 - scale).toNat
    below := (4 * significand - if narrow then 1 else 2) * unit
    above := (4 * significand + 2) * unit
    closed := significand % 2 = 0 }

namespace RoundingInterval

/-- The powers of ten `10 ^ e` and `10 ^ -e` as numerator and denominator. -/
def tenPower (e : Int) : Nat × Nat :=
  (Nat.pow 10 e.toNat, Nat.pow 10 (-e).toNat)

/-- Whether `coefficient · 10 ^ grid` lies in the interval. -/
def covers (interval : RoundingInterval) (grid : Int) (coefficient : Nat) : Bool :=
  let (up, down) := tenPower grid
  let candidate := coefficient * up * interval.den
  let low := interval.below * down
  let high := interval.above * down
  if interval.closed then low ≤ candidate && candidate ≤ high
  else low < candidate && candidate < high

/-- The point of the decimal grid `10 ^ grid` that stands for the number: the neighbours of the number
are tried, the nearer first, or the one that `tie` takes. -/
def onGrid? (interval : RoundingInterval) (tie : Tie) (grid : Int) : Option Nat :=
  let (up, down) := tenPower grid
  let num := interval.num * down
  let den := interval.den * up
  let floor := num / den
  let takesFloor := decide (2 * (num % den) < den) ||
    (decide (2 * (num % den) = den) && tie.takesFloor floor)
  let candidates := if takesFloor then [floor, floor + 1] else [floor + 1, floor]
  candidates.find? (interval.covers grid)

/-- The number of decimal places that have to be shifted in until `num · 10 ^ places` reaches `den`. -/
def placesBelow (fuel num den : Nat) : Nat :=
  match fuel with
  | 0 => 0
  | fuel + 1 => if den ≤ num then 0 else placesBelow fuel (10 * num) den + 1

/-- The integer `p` with `10 ^ (p - 1) ≤ num / den < 10 ^ p`. -/
def decimalPoint (interval : RoundingInterval) : Int :=
  if interval.den ≤ interval.num then
    (digitsOf 10 (interval.num / interval.den)).length
  else
    1 - placesBelow interval.den interval.num interval.den

end RoundingInterval

/-- The coefficient on a decimal grid as a decimal number. -/
def Decimal.ofCoefficient (coefficient : Nat) (grid : Int) : Decimal :=
  let digits := digitsOf 10 coefficient
  { digits := (digits.reverse.dropWhile (· == 0)).reverse
    point := grid + digits.length }

/-- The number of digits that tell any two doubles apart. -/
def maxDigits : Nat := 17

/-- The shortest decimal number that is read as `significand · 2 ^ scale`, for a positive
significand. -/
def shortest (tie : Tie) (significand : Nat) (scale : Int) : Decimal :=
  let interval := RoundingInterval.ofDouble significand scale
  let point := interval.decimalPoint
  let attempt (count : Nat) : Option Decimal :=
    (interval.onGrid? tie (point - count)).map fun coefficient =>
      .ofCoefficient coefficient (point - count)
  match (List.range' 1 maxDigits).findSome? attempt with
  | some decimal => decimal
  | none => .ofCoefficient 0 0

/-- The shortest decimal number that is read as the absolute value of a finite number other than
zero. -/
def Binary64.shortest (x : Binary64) (tie : Tie) : Decimal :=
  StyleSync.shortest tie x.significand x.scale

end StyleSync
