import StyleSync.Text.Letter

/-! # Property names

Descriptions spell properties as script code does (`backgroundColor`, `WebkitBackdropFilter`), a
style sheet with dashes (`background-color`, `-webkit-backdrop-filter`).
-/

set_option autoImplicit false

namespace StyleSync

open Text

/-- An ASCII capital inside a name becomes a dash and its small form. -/
def dashCapital (c : Char) : List Char :=
  if c.isUpper then ['-', asciiSmall c] else [c]

/-- The spelling of a property name with dashes. A capital at the start marks a vendor's own property
and gets a dash in front; there any capital letter counts, further on only those of ASCII. -/
def dashedChars : List Char → List Char
  | [] => []
  | first :: rest =>
    (match smallForm? first with
      | some small => '-' :: small
      | none => [first]) ++ rest.flatMap dashCapital

/-- The spelling of a property in a style sheet. -/
def dashedName (key : String) : String :=
  String.ofList (dashedChars key.toList)

end StyleSync
