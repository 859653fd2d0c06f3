import StyleSync.Json.Fields

/-! # Generated names

Class names are made of a prefix, the name of an entry and a suffix, animation names of a prefix and a
suffix. `Options` holds the two prefixes, `ClassNames` the class names that entries got.
-/

set_option autoImplicit false

namespace StyleSync

/-! ## Prefixes -/

/-- The prefixes of generated names. -/
structure Options where
  classPrefix : String
  animationPrefix : String
deriving Repr, DecidableEq, Inhabited

namespace Options

/-- The prefixes where none are chosen. -/
def standard : Options := ⟨"otter", "otter-animation"⟩

/-- The class name of an entry. -/
def className (options : Options) (entry suffix : String) : String :=
  options.classPrefix ++ "-" ++ entry ++ "-" ++ suffix

/-- The name of an animation. -/
def animationName (options : Options) (suffix : String) : String :=
  options.animationPrefix ++ "-" ++ suffix

/-- The text of a value. -/
def textOf : Json → Except ReadFault String
  | .string text => .ok text
  | json => .error (.wrongKind json "a string")

/-- The options that an object's fields set, in order; fields of other names are passed over. -/
def ofFields (options : Options) : List (String × Json) → Except ReadFault Options
  | [] => .ok options
  | (key, json) :: rest =>
    if key = "classPrefix" then do
      let text ← textOf json
      ofFields { options with classPrefix := text } rest
    else if key = "animationPrefix" then do
      let text ← textOf json
      ofFields { options with animationPrefix := text } rest
    else
      ofFields options rest

/-- The options of an array's items: the class prefix, then the animation prefix. -/
def ofItems (items : List Json) : Except ReadFault Options :=
  match items with
  | [] => .ok standard
  | [first] => do
    let text ← textOf first
    return { standard with classPrefix := text }
  | first :: second :: rest => do
    let classPrefix ← textOf first
    let animationPrefix ← textOf second
    if rest.isEmpty then .ok ⟨classPrefix, animationPrefix⟩
    else .error (.wrongLength items.length ReadFault.fewerItems)

/-- The options that a JSON value spells. -/
def ofJson : Json → Except ReadFault Options
  | .object fields => ofFields standard fields
  | .array items => ofItems items
  | json => .error (.wrongKind json "struct RegistryOptions")

end Options

/-! ## Names of entries -/

/-- Whether a character can begin a name: an ASCII letter or an underscore. -/
def isNameStart (c : Char) : Bool :=
  c.isAlpha || c == '_'

/-- Whether a character can stand in a name: an ASCII letter or digit, a dash or an underscore. -/
def isNameChar (c : Char) : Bool :=
  c.isAlphanum || c == '-' || c == '_'

/-- Whether a text can be the part of a class name that stands for an entry. -/
def isName (text : String) : Bool :=
  match text.toList with
  | [] => false
  | first :: rest => isNameStart first && rest.all isNameChar

/-- Refuse a name that cannot be part of a class name. -/
def checkName (name : String) : Except Fault Unit :=
  if isName name then .ok () else .error (.invalidName name)

/-- Refuse the first of several names that cannot be part of a class name. -/
def checkNames : List String → Except Fault Unit
  | [] => .ok ()
  | name :: rest => do
    checkName name
    checkNames rest

/-- Class names under the names of their entries, in the order of the entries. -/
structure ClassNames where
  entries : Entries String
deriving Repr, DecidableEq, Inhabited

namespace ClassNames

/-- The class name of an entry. -/
def get? (names : ClassNames) (entry : String) : Option String :=
  names.entries.get? entry

/-- The number of entries. -/
def size (names : ClassNames) : Nat :=
  names.entries.length

/-- The object that maps entries to class names. -/
def toJson (names : ClassNames) : Json :=
  .object (names.entries.map fun entry => (entry.1, .string entry.2))

end ClassNames

end StyleSync
