import StyleSync.Css.Rule

/-! # Records of a style sheet

A sheet stores each rule as a record that it reads from two texts: the header and the block of the
rule. `Record.read` does the reading, `Record.cssText` writes a record as it stands in a file.
-/

set_option autoImplicit false

namespace StyleSync

open Text

/-- The keyword of keyframe rules. -/
def keyframesKeyword : String := "@keyframes"

/-- The header of keyframe rules: the keyword and a name. -/
def keyframesHeader (name : String) : String :=
  keyframesKeyword ++ " " ++ name

/-! ## Style rules -/

/-- A style rule in a sheet. -/
structure StyleRecord where
  selector : String
  declarations : List Declaration
deriving Repr, DecidableEq, Inhabited

namespace StyleRecord

/-- The style rule with the given selector and block. -/
def read (selector block : String) : StyleRecord :=
  ⟨trim selector, Declaration.parse block⟩

/-- The rule as it stands in a file. -/
def cssText (rule : StyleRecord) : String :=
  braced rule.selector (Declaration.render rule.declarations)

end StyleRecord

/-! ## Records -/

/-- A record of a sheet. -/
inductive Record where
  | style (rule : StyleRecord)
  /-- A style rule under a media condition. -/
  | media (condition : String) (rule : StyleRecord)
  /-- Keyframes with their blocks as text. -/
  | keyframes (name body : String)
deriving Repr, DecidableEq, Inhabited

/-- What stands before the last closing brace, everything if there is none. -/
def beforeLastBrace (cs : List Char) : List Char :=
  match cs.reverse.dropWhile (· != '\x7d') with
  | [] => cs
  | _ :: before => before.reverse

/-- A prelude and the block in braces behind it, without the blanks around either. Text without an
opening brace is all prelude; the block ends at the last closing brace. -/
def splitBraced (text : String) : String × String :=
  let cs := text.toList
  match cs.dropWhile (· != '\x7b') with
  | [] => (trim text, "")
  | _ :: inside =>
    (String.ofList (trimChars (cs.takeWhile (· != '\x7b'))),
      String.ofList (trimChars (beforeLastBrace inside)))

namespace Record

/-- The record that a sheet makes of a header and a block. -/
def read (header block : String) : Record :=
  let cs := trimChars header.toList
  match mediaKeyword.toList.isPrefixOf? cs with
  | some condition =>
    let (selector, inner) := splitBraced block
    .media (String.ofList (trimChars condition)) (.read selector inner)
  | none =>
    match keyframesKeyword.toList.isPrefixOf? cs with
    | some name => .keyframes (String.ofList (trimChars name)) (trim block)
    | none => .style (.read (String.ofList cs) block)

/-- The style rule that the record holds; keyframes hold none. -/
def style? : Record → Option StyleRecord
  | .style rule => some rule
  | .media _ rule => some rule
  | .keyframes _ _ => none

/-- The media condition of the record, if it has one. -/
def condition? : Record → Option String
  | .media condition _ => some condition
  | _ => none

/-- The declarations of the style rule that the record holds. -/
def declarations (record : Record) : List Declaration :=
  match record.style? with
  | some rule => rule.declarations
  | none => []

/-- The record as it stands in a file. -/
def cssText : Record → String
  | .style rule => rule.cssText
  | .media condition rule => braced (mediaHeader condition) rule.cssText
  | .keyframes name body => braced (keyframesHeader name) body

/-- The text by which a rule finds the record; keyframes are never found. -/
def key? (record : Record) : Option String :=
  record.style?.map fun rule => matchKey rule.selector record.condition?

end Record

end StyleSync
