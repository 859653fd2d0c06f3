import StyleSync.Css.Declaration
import StyleSync.Style.Role

/-! # Flat rules

A rule gives declarations to a selector, possibly under a media condition. A style sheet takes it as
two texts, its header and its block.
-/

set_option autoImplicit false

namespace StyleSync

/-- Where a rule applies. -/
inductive Target where
  /-- Wherever the selector matches. -/
  | style (selector : String)
  /-- Where the selector matches while the media condition holds. -/
  | media (condition selector : String)
deriving Repr, DecidableEq, Inhabited

namespace Target

/-- The selector. -/
def selector : Target → String
  | .style selector => selector
  | .media _ selector => selector

/-- The media condition, if there is one. -/
def condition? : Target → Option String
  | .style _ => none
  | .media condition _ => some condition

/-- The target of a selector under an optional condition. -/
def of (selector : String) : Option String → Target
  | none => .style selector
  | some condition => .media condition selector

end Target

/-- The header of media rules: the keyword and a condition. -/
def mediaHeader (condition : String) : String :=
  mediaKeyword ++ " " ++ condition

/-- The text by which rules and records are matched: the selector, followed by the header of the media
rule if there is a condition. -/
def matchKey (selector : String) : Option String → String
  | none => selector
  | some condition => selector ++ mediaHeader condition

/-- A flat rule. -/
structure Rule where
  target : Target
  declarations : List Declaration
deriving Repr, DecidableEq, Inhabited

namespace Rule

/-- The text in front of the rule's block. -/
def header (rule : Rule) : String :=
  match rule.target with
  | .style selector => selector
  | .media condition _ => mediaHeader condition

/-- The text of the rule's block: declarations, in a media rule those of one style rule. -/
def block (rule : Rule) : String :=
  match rule.target with
  | .style _ => Declaration.render rule.declarations
  | .media _ selector => braced selector (Declaration.render rule.declarations)

/-- The text by which the rule finds its record in a sheet. -/
def key (rule : Rule) : String :=
  matchKey rule.target.selector rule.target.condition?

end Rule

end StyleSync
