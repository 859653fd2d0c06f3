import StyleSync.Fault
import StyleSync.Json.Basic
import StyleSync.Style.Block

/-! # Blocks and descriptions from JSON

An object of strings, numbers and such objects is a block, an object of blocks a description. The
conversion goes through the keys in order, into each nested object before the next key, and the first
value that does not fit is the one it reports.
-/

set_option autoImplicit false

namespace StyleSync

/-- The scalar of a text or a number. -/
def Scalar.ofJson? : Json → Option Scalar
  | .string content => some (.text content)
  | json => json.number?.map .number

mutual

/-- The value that stands under a key. -/
def Value.ofJson (key : String) : Json → Except Fault Value
  | .object fields => (Value.ofFields fields).map fun pairs => .block (.ofList pairs)
  | json =>
    match Scalar.ofJson? json with
    | some scalar => .ok (.leaf scalar)
    | none => .error (.invalidValue key)

/-- The values of the fields of an object, in order. -/
def Value.ofFields : List (String × Json) → Except Fault (Entries Value)
  | [] => .ok []
  | (key, json) :: rest => do
    let value ← Value.ofJson key json
    let pairs ← Value.ofFields rest
    return (key, value) :: pairs

end

/-- The block of an object's fields. -/
def Block.ofFields (fields : List (String × Json)) : Except Fault Block :=
  (Value.ofFields fields).map .ofList

/-- The block that a JSON value spells. -/
def Block.ofJson : Json → Except Fault Block
  | .object fields => Block.ofFields fields
  | _ => .error (.invalidValue Fault.wholeValue)

namespace Description

/-- The named blocks of an object's fields, in order. -/
def ofFields : List (String × Json) → Except Fault (Entries Block)
  | [] => .ok []
  | (name, .object fields) :: rest => do
    let block ← Block.ofFields fields
    let pairs ← ofFields rest
    return (name, block) :: pairs
  | (name, _) :: _ => .error (.invalidValue name)

/-- The description that a JSON value spells. -/
def ofJson : Json → Except Fault Description
  | .object fields => (ofFields fields).map .ofList
  | _ => .error (.invalidValue Fault.wholeValue)

end Description

end StyleSync
