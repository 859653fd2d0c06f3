import StyleSync.Json.Basic
import StyleSync.Numeric.Notation

/-! # Writing JSON text

`compact` writes a value without any space, `pretty` over several lines with two spaces per level. In
strings the quote, the backslash and the control characters are escaped, all else stands as it is.
-/

set_option autoImplicit false

namespace StyleSync.Json

/-! ## Strings -/

/-- A code unit as four hexadecimal digits behind `\u`. -/
def unitEscape (unit : Nat) : List Char :=
  ['\\', 'u', digitChar (unit / 4096 % 16), digitChar (unit / 256 % 16), digitChar (unit / 16 % 16),
    digitChar (unit % 16)]

/-- A character inside a string. -/
def escapeChar (c : Char) : List Char :=
  if c = '"' then ['\\', '"']
  else if c = '\\' then ['\\', '\\']
  else if c = '\x08' then ['\\', 'b']
  else if c = '\x0c' then ['\\', 'f']
  else if c = '\n' then ['\\', 'n']
  else if c = '\r' then ['\\', 'r']
  else if c = '\t' then ['\\', 't']
  else if c < ' ' then unitEscape c.toNat
  else [c]

/-- A string in quotes. -/
def quote (text : String) : String :=
  "\"" ++ String.ofList (text.toList.flatMap escapeChar) ++ "\""

/-! ## Values -/

/-- A value that holds no others. -/
def scalarText : Json → String
  | .null => "null"
  | .bool true => "true"
  | .bool false => "false"
  | .integer value => toString value
  | .float value => if value.isNaN || value.isInfinite then "null" else value.renderPointed
  | .string text => quote text
  | .array _ => "[]"
  | .object _ => "\x7b\x7d"

mutual

/-- A value without any space. -/
def compact : Json → String
  | .array items => "[" ++ ",".intercalate (compactItems items) ++ "]"
  | .object fields => "\x7b" ++ ",".intercalate (compactFields fields) ++ "\x7d"
  | value => scalarText value

/-- The items of an array without any space. -/
def compactItems : List Json → List String
  | [] => []
  | item :: rest => compact item :: compactItems rest

/-- The members of an object without any space. -/
def compactFields : List (String × Json) → List String
  | [] => []
  | (key, value) :: rest => (quote key ++ ":" ++ compact value) :: compactFields rest

end

/-- The start of a line at a level. -/
def lineStart (level : Nat) : String :=
  "\n" ++ String.ofList (List.replicate (2 * level) ' ')

/-- Lines between brackets, each a level further in than the brackets. -/
def bracketLines (level : Nat) (opening closing : String) (lines : List String) : String :=
  match lines with
  | [] => opening ++ closing
  | lines =>
    opening ++ lineStart (level + 1) ++ ("," ++ lineStart (level + 1)).intercalate lines ++
      lineStart level ++ closing

mutual

/-- A value over several lines, its first at a level of indentation. -/
def prettyAt (level : Nat) : Json → String
  | .array items => bracketLines level "[" "]" (prettyItems (level + 1) items)
  | .object fields => bracketLines level "\x7b" "\x7d" (prettyFields (level + 1) fields)
  | value => scalarText value

/-- The items of an array over several lines. -/
def prettyItems (level : Nat) : List Json → List String
  | [] => []
  | item :: rest => prettyAt level item :: prettyItems level rest

/-- The members of an object over several lines. -/
def prettyFields (level : Nat) : List (String × Json) → List String
  | [] => []
  | (key, value) :: rest =>
    (quote key ++ ": " ++ prettyAt level value) :: prettyFields level rest

end

/-- A value over several lines. -/
def pretty (value : Json) : String :=
  prettyAt 0 value

end StyleSync.Json
