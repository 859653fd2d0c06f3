import StyleSync.Json.Basic
import StyleSync.Numeric.Digits

/-! # Reading JSON text

The grammar is the strict one: no comments, no trailing commas, no leading zeros, no raw control
characters in strings, nothing behind the value. `parse?` further refuses text that nests containers
deeper than a limit and numbers that are too large for a double.

Each reader takes the characters ahead and returns what it read with the characters after it.
-/

set_option autoImplicit false

namespace StyleSync.Json

/-- The characters that may stand between tokens. -/
def isSpace (c : Char) : Bool :=
  c == ' ' || c == '\t' || c == '\n' || c == '\r'

/-- The characters after the space in front. -/
def skipSpace (cs : List Char) : List Char :=
  cs.dropWhile isSpace

/-- The characters after a word that has to come next. -/
def word? (word : String) (cs : List Char) : Option (List Char) :=
  word.toList.isPrefixOf? cs

/-! ## Strings -/

/-- The value of a hexadecimal digit. -/
def hexValue? (c : Char) : Option Nat :=
  if '0' ≤ c ∧ c ≤ '9' then some (c.toNat - '0'.toNat)
  else if 'a' ≤ c ∧ c ≤ 'f' then some (c.toNat - 'a'.toNat + 10)
  else if 'A' ≤ c ∧ c ≤ 'F' then some (c.toNat - 'A'.toNat + 10)
  else none

/-- Four hexadecimal digits. -/
def hexUnit : List Char → Option (Nat × List Char)
  | a :: b :: c :: d :: cs => do
    let a ← hexValue? a
    let b ← hexValue? b
    let c ← hexValue? c
    let d ← hexValue? d
    some (((a * 16 + b) * 16 + c) * 16 + d, cs)
  | _ => none

/-- The character behind `\u`: one unit, or two where the first is the high half of a pair. A half on
its own is refused. -/
def unicodeEscape (cs : List Char) : Option (Char × List Char) := do
  let (high, cs) ← hexUnit cs
  if 0xd800 ≤ high ∧ high < 0xdc00 then
    match cs with
    | '\\' :: 'u' :: cs =>
      let (low, cs) ← hexUnit cs
      if 0xdc00 ≤ low ∧ low < 0xe000 then
        some (Char.ofNat (0x10000 + (high - 0xd800) * 0x400 + (low - 0xdc00)), cs)
      else
        none
    | _ => none
  else if 0xdc00 ≤ high ∧ high < 0xe000 then
    none
  else
    some (Char.ofNat high, cs)

/-- The character behind a backslash. -/
def escape : List Char → Option (Char × List Char)
  | '"' :: cs => some ('"', cs)
  | '\\' :: cs => some ('\\', cs)
  | '/' :: cs => some ('/', cs)
  | 'b' :: cs => some ('\x08', cs)
  | 'f' :: cs => some ('\x0c', cs)
  | 'n' :: cs => some ('\n', cs)
  | 'r' :: cs => some ('\r', cs)
  | 't' :: cs => some ('\t', cs)
  | 'u' :: cs => unicodeEscape cs
  | _ => none

/-- A string behind its opening quote, `acc` read before in reverse; `fuel` exceeds the number of
characters. -/
def stringBody : Nat → List Char → List Char → Option (String × List Char)
  | 0, _, _ => none
  | _, _, [] => none
  | fuel + 1, acc, c :: cs =>
    if c = '"' then some (String.ofList acc.reverse, cs)
    else if c = '\\' then do
      let (c, cs) ← escape cs
      stringBody fuel (c :: acc) cs
    else if c < ' ' then none
    else stringBody fuel (c :: acc) cs

/-! ## Numbers -/

/-- Whether a character is a decimal digit. -/
def isDecimal (c : Char) : Bool :=
  '0' ≤ c && c ≤ '9'

/-- The digits in front and the characters after them. -/
def digits (cs : List Char) : List Char × List Char :=
  (cs.takeWhile isDecimal, cs.dropWhile isDecimal)

/-- The value of a row of decimal digits. -/
def decimalValue (cs : List Char) : Nat :=
  digitsValue 10 (cs.map digitOfChar)

/-- At least one digit. -/
def someDigits (cs : List Char) : Option (List Char × List Char) :=
  match digits cs with
  | ([], _) => none
  | found => some found

/-- The digits before the point: a zero stands alone. -/
def wholePart (cs : List Char) : Option (List Char × List Char) :=
  match someDigits cs with
  | some ('0' :: _ :: _, _) => none
  | found => found

/-- The digits behind a point, none if there is no point. -/
def fractionPart : List Char → Option (List Char × List Char)
  | '.' :: cs => someDigits cs
  | cs => some ([], cs)

/-- The exponent, `none` if there is none. -/
def exponentPart : List Char → Option (Option Int × List Char)
  | c :: cs =>
    if c = 'e' ∨ c = 'E' then
      let (negative, cs) := match cs with
        | '-' :: cs => (true, cs)
        | '+' :: cs => (false, cs)
        | cs => (false, cs)
      (someDigits cs).map fun (found, cs) =>
        let value : Int := decimalValue found
        (some (if negative then -value else value), cs)
    else
      some (none, c :: cs)
  | [] => some (none, [])

/-- The value of a number from its parts. Minus zero is a double. -/
def numberOf? (negative : Bool) (whole fraction : List Char) (exponent : Option Int) :
    Option Json :=
  let mantissa := decimalValue (whole ++ fraction)
  match fraction, exponent with
  | [], none =>
    if negative ∧ mantissa = 0 then (Binary64.ofDecimal? true 0 0).map .float
    else ofInteger? (if negative then -mantissa else mantissa)
  | _, _ =>
    (Binary64.ofDecimal? negative mantissa (exponent.getD 0 - fraction.length)).map .float

/-- A number. -/
def number (cs : List Char) : Option (Json × List Char) := do
  let (negative, cs) := match cs with
    | '-' :: cs => (true, cs)
    | cs => (false, cs)
  let (whole, cs) ← wholePart cs
  let (fraction, cs) ← fractionPart cs
  let (exponent, cs) ← exponentPart cs
  let value ← numberOf? negative whole fraction exponent
  some (value, cs)

/-! ## Values -/

mutual

/-- A value; `depth` is the number of containers that may still be opened, and `fuel` exceeds twice the
number of characters. -/
def value : Nat → Nat → List Char → Option (Json × List Char)
  | 0, _, _ => none
  | fuel + 1, depth, cs =>
    match skipSpace cs with
    | '"' :: cs => (stringBody fuel [] cs).map fun (text, cs) => (.string text, cs)
    | '[' :: cs =>
      match depth with
      | 0 => none
      | depth + 1 =>
        match skipSpace cs with
        | ']' :: cs => some (.array [], cs)
        | cs => items fuel depth [] cs
    | '\x7b' :: cs =>
      match depth with
      | 0 => none
      | depth + 1 =>
        match skipSpace cs with
        | '\x7d' :: cs => some (.object [], cs)
        | cs => members fuel depth [] cs
    | cs =>
      match word? "null" cs, word? "true" cs, word? "false" cs with
      | some cs, _, _ => some (.null, cs)
      | _, some cs, _ => some (.bool true, cs)
      | _, _, some cs => some (.bool false, cs)
      | _, _, _ => number cs

/-- The items of an array from the next on, `acc` read before in reverse. -/
def items : Nat → Nat → List Json → List Char → Option (Json × List Char)
  | 0, _, _, _ => none
  | fuel + 1, depth, acc, cs => do
    let (item, cs) ← value fuel depth cs
    match skipSpace cs with
    | ',' :: cs => items fuel depth (item :: acc) cs
    | ']' :: cs => some (.array (item :: acc).reverse, cs)
    | _ => none

/-- The members of an object from the next on, `acc` read before in reverse. -/
def members : Nat → Nat → List (String × Json) → List Char → Option (Json × List Char)
  | 0, _, _, _ => none
  | fuel + 1, depth, acc, cs => do
    let '"' :: cs := skipSpace cs | none
    let (key, cs) ← stringBody fuel [] cs
    let ':' :: cs := skipSpace cs | none
    let (item, cs) ← value fuel depth cs
    match skipSpace cs with
    | ',' :: cs => members fuel depth ((key, item) :: acc) cs
    | '\x7d' :: cs => some (ofFields ((key, item) :: acc).reverse, cs)
    | _ => none

end

/-- The number of containers that JSON text may open inside one another. -/
def maxDepth : Nat := 127

/-- The value of a JSON text, `none` if it is not one. -/
def parse? (depth : Nat) (text : String) : Option Json :=
  let cs := text.toList
  match value (2 * cs.length + 2) depth cs with
  | some (result, rest) => if (skipSpace rest).isEmpty then some result else none
  | none => none

end StyleSync.Json
