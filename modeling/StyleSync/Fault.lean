/-! # Faults

Why an operation on styles was refused, and the message that says so.
-/

set_option autoImplicit false

namespace StyleSync

/-- The cause of a refusal. -/
inductive Fault where
  /-- An entry inherits from one that does not exist. -/
  | unknownBase (entry base : String)
  /-- A chain of bases leads back to one of its own entries; the last name is the repeated one. -/
  | baseCycle (chain : List String)
  /-- An entry's name cannot be part of a class name. -/
  | invalidName (name : String)
  /-- The value under a key is neither a text nor a number nor a block. -/
  | invalidValue (key : String)
  /-- A record was to be removed that the sheet does not have. -/
  | outOfRange (index size : Nat)
deriving Repr, DecidableEq

namespace Fault

/-- The name that stands for a whole value in a message about it. -/
def wholeValue : String := "<root>"

/-- The message of a fault. -/
def message : Fault → String
  | .unknownBase entry base =>
    "can't extend " ++ entry ++ " with " ++ base ++ " because " ++ base ++ " does not exist"
  | .baseCycle chain => "extend chain forms a cycle: " ++ " -> ".intercalate chain
  | .invalidName name => name ++ " is not a valid classname"
  | .invalidValue key =>
    "value of '" ++ key ++ "' must be a string, a number or an object"
  | .outOfRange index size =>
    "rule index " ++ toString index ++ " is out of range for a sheet of " ++ toString size ++
      " rules"

end Fault

end StyleSync
