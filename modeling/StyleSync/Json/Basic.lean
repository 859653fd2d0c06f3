import StyleSync.OrderedMap
import StyleSync.Numeric.Binary64

/-! # JSON values

Objects keep the order of their keys. A number is an integer where its text is one and sixty-four
bits suffice, otherwise a double.
-/

set_option autoImplicit false

namespace StyleSync

/-- A JSON value. -/
inductive Json where
  | null
  | bool (value : Bool)
  | integer (value : Int)
  | float (value : Binary64)
  | string (value : String)
  | array (items : List Json)
  | object (fields : List (String × Json))
deriving Inhabited

namespace Json

/-- The least and the greatest integer that is kept as one. -/
def integerRange : Int × Int := (-Int.pow 2 63, Int.pow 2 64 - 1)

/-- The integer if it is kept as one, else the double nearest to it. -/
def ofInteger? (value : Int) : Option Json :=
  if integerRange.1 ≤ value ∧ value ≤ integerRange.2 then
    some (.integer value)
  else
    (Binary64.ofDecimal? (decide (value < 0)) value.natAbs 0).map .float

/-- The double that a number stands for. -/
def number? : Json → Option Binary64
  | .integer value => some (.ofInt value)
  | .float value => some value
  | _ => none

/-- The fields of an object, a repeated key in its first place with its last value. -/
def ofFields (fields : List (String × Json)) : Json :=
  .object (Entries.insertAll [] fields)

/-- The value of a field of an object. -/
def field? (key : String) : Json → Option Json
  | .object fields => Entries.get? key fields
  | _ => none

end Json

end StyleSync
