import StyleSync.Style.Block
import StyleSync.Text.Blank

/-! # The role of an entry

The spelling of a key and the kind of its value decide what an entry of a block stands for:

| key | value | role |
|---|---|---|
| `extend` | text | the base that the block inherits from |
| anything else | scalar | a property |
| begins with `@` | block | an at-rule |
| anything else | block | a further part of the selector |

Only `@media` at-rules are supported. The keyword has to be followed by a blank or an opening
parenthesis, and the condition behind it must not be blank.
-/

set_option autoImplicit false

namespace StyleSync

open Text

/-- The key that names the base of an entry. -/
def baseKey : String := "extend"

/-- The keyword of media rules. -/
def mediaKeyword : String := "@media"

/-- What an entry of a block stands for. -/
inductive Role where
  /-- A declaration of the block's selector. -/
  | property (value : Scalar)
  /-- A block whose selector is the outer one followed by the key. -/
  | combinator (body : Block)
  /-- A block of the same selector that applies under a condition. -/
  | media (condition : String) (body : Block)
  /-- A block under an at-rule that is not supported. -/
  | unsupported (body : Block)
  /-- The name of the entry to inherit from. -/
  | base (name : String)
deriving Repr, DecidableEq

/-- The condition that an at-rule key sets, `none` if it is not that of a media rule. -/
def mediaCondition? (key : String) : Option String :=
  match mediaKeyword.toList.isPrefixOf? key.toList with
  | some (c :: rest) =>
    let condition := trimChars (c :: rest)
    if (isBlank c || c == '(') && !condition.isEmpty then some (String.ofList condition) else none
  | _ => none

/-- Whether a key is that of an at-rule. -/
def isAtRule (key : String) : Bool :=
  key.toList.head? == some '@'

namespace Role

/-- The role of the entry with the given key and value. -/
def of (key : String) : Value → Role
  | .leaf (.text name) => if key = baseKey then .base name else .property (.text name)
  | .leaf value => .property value
  | .block body =>
    if isAtRule key then
      match mediaCondition? key with
      | some condition => .media condition body
      | none => .unsupported body
    else
      .combinator body

@[simp] theorem of_number (key : String) (x : Binary64) :
    Role.of key (.leaf (.number x)) = .property (.number x) := rfl

@[simp] theorem of_text (key text : String) :
    Role.of key (.leaf (.text text)) =
      if key = baseKey then .base text else .property (.text text) := rfl

@[simp] theorem of_block (key : String) (body : Block) :
    Role.of key (.block body) =
      if isAtRule key then
        match mediaCondition? key with
        | some condition => .media condition body
        | none => .unsupported body
      else
        .combinator body := rfl

/-- The name of a kind of role. Both kinds of at-rule have one name. -/
def kindName : Role → String
  | .property _ => "property"
  | .combinator _ => "combinator"
  | .media _ _ => "at-rule"
  | .unsupported _ => "at-rule"
  | .base _ => "extend"

/-- The name that the role carries if it is that of a base. -/
def base? : Role → Option String
  | .base name => some name
  | _ => none

end Role

/-- The name of the entry that a block inherits from, if it names one. -/
def Block.base? (block : Block) : Option String :=
  block.entries.findSome? fun entry => (Role.of entry.1 entry.2).base?

end StyleSync
