import StyleSync.Json.Basic
import StyleSync.Fault
import StyleSync.Numeric.Notation
import StyleSync.Text.Quoted

/-! # Records from JSON

A record is read from an object, field by field in the order of its keys, or from an array of its
fields in their fixed order. `ReadFault` says what was wrong with the value.
-/

set_option autoImplicit false

namespace StyleSync

/-- Why a JSON value does not spell a record. -/
inductive ReadFault where
  /-- A block in it could not be read. -/
  | style (fault : Fault)
  /-- A field is missing that has to be there. -/
  | missingField (name : String)
  /-- A value is neither a text nor a number. -/
  | notScalar
  /-- An array has the wrong number of items. -/
  | wrongLength (length : Nat) (expected : String)
  /-- A value is of the wrong kind. -/
  | wrongKind (found : Json) (expected : String)

namespace Json

/-- How a message speaks of a value. -/
def describe : Json → String
  | .null => "null"
  | .bool value => "boolean `" ++ (if value then "true" else "false") ++ "`"
  | .integer value => "integer `" ++ toString value ++ "`"
  | .float value => "floating point `" ++ value.renderPointed ++ "`"
  | .string text => "string " ++ Text.quoted text
  | .array _ => "sequence"
  | .object _ => "map"

end Json

namespace ReadFault

/-- What a message expects of an array with too many items. -/
def fewerItems : String := "fewer elements in array"

/-- The message of a fault. -/
def message : ReadFault → String
  | .style cause => cause.message
  | .missingField name => "missing field `" ++ name ++ "`"
  | .notScalar => "data did not match any variant of untagged enum Scalar"
  | .wrongLength length expected =>
    "invalid length " ++ toString length ++ ", expected " ++ expected
  | .wrongKind found expected => "invalid type: " ++ found.describe ++ ", expected " ++ expected

end ReadFault

end StyleSync
