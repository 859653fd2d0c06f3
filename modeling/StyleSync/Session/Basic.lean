import StyleSync.Animation
import StyleSync.Session.Options
import StyleSync.Sheet.Edit
import StyleSync.Style.Inheritance
import StyleSync.Suffix
import StyleSync.Warnings

/-! # Sessions

A session writes styles into the sheet of a host and makes up names for them. `define` gives every
entry of a description a class of its own and appends its rules; `restyle` brings the rules of a
selector in line with a changed block; `animate` appends keyframes. What styles and keyframes leave out
is warned about, once for each line. Operations run in `EStateM`, where a refused one leaves behind the
session as far as it was changed.
-/

set_option autoImplicit false

namespace StyleSync

/-- A host with a sheet, a source of suffixes, the prefixes of names and the warnings so far. -/
structure Session (σ ν : Type) where
  host : σ
  source : ν
  options : Options
  warnings : Warnings

namespace Session

variable {σ ν α : Type}

/-- A session in which nothing was warned about yet. -/
def start (host : σ) (source : ν) (options : Options) : Session σ ν :=
  ⟨host, source, options, .empty⟩

/-- What can be refused and otherwise yields an `α`. -/
abbrev Action (σ ν α : Type) : Type := EStateM Fault (Session σ ν) α

/-! ## Parts of actions -/

/-- A result that may be a fault. -/
def attempt (result : Except Fault α) : Action σ ν α :=
  match result with
  | .ok value => pure value
  | .error fault => throw fault

@[simp] theorem attempt_ok (value : α) (session : Session σ ν) :
    attempt (.ok value) session = .ok value session := rfl

@[simp] theorem attempt_error (fault : Fault) (session : Session σ ν) :
    (attempt (.error fault) : Action σ ν α) session = .error fault session := rfl

/-- An action of the host. -/
def onHost (action : EStateM Fault σ α) : Action σ ν α := fun session =>
  match action session.host with
  | .ok value host => .ok value { session with host }
  | .error fault host => .error fault { session with host }

/-- The next suffix. -/
def drawSuffix [SuffixSource ν] : Action σ ν String := fun session =>
  let (suffix, source) := SuffixSource.draw session.source
  .ok suffix { session with source }

/-- Append the record of a header and a block. -/
def append [Host σ] (header block : String) : Action σ ν Unit :=
  modify fun session => { session with host := Host.append header block session.host }

/-- Warn about what was left out. -/
def warn (messages : List String) : Action σ ν Unit :=
  modify fun session =>
    { session with warnings := (session.warnings.warnAll noticeComponent messages).2 }

theorem drawSuffix_eq [SuffixSource ν] (session : Session σ ν) :
    drawSuffix session =
      .ok (SuffixSource.draw session.source).1
        { session with source := (SuffixSource.draw session.source).2 } := rfl

theorem append_eq [Host σ] (header block : String) (session : Session σ ν) :
    append header block session =
      .ok () { session with host := Host.append header block session.host } := rfl

theorem warn_eq (messages : List String) (session : Session σ ν) :
    warn messages session =
      .ok ()
        { session with warnings := (session.warnings.warnAll noticeComponent messages).2 } := rfl

/-- Append the records of rules in turn. -/
def appendRules [Host σ] : List Rule → Action σ ν Unit
  | [] => pure ()
  | rule :: rules => do
    append rule.header rule.block
    appendRules rules

/-- Appending rules is never refused and changes the host alone. -/
theorem appendRules_eq [Host σ] (rules : List Rule) (session : Session σ ν) :
    appendRules rules session =
      .ok ()
        { session with
          host := rules.foldl (fun host rule => Host.append rule.header rule.block host)
            session.host } := by
  induction rules generalizing session with
  | nil => rfl
  | cons rule rules ih =>
    rw [appendRules]
    simp only [bind, EStateM.bind, append_eq]
    rw [ih]
    rfl

/-! ## Defining styles -/

/-- The selector of a class. -/
def classSelector (name : String) : String :=
  "." ++ name

/-- Entries with the class names that they get, in order. -/
def drawNames [SuffixSource ν] : Entries Block → Action σ ν (List (String × Block))
  | [] => pure []
  | (entry, block) :: rest => do
    let suffix ← drawSuffix
    let name := (← get).options.className entry suffix
    let named ← drawNames rest
    return (name, block) :: named

/-- The rules of blocks under their class names. -/
def classRules (named : List (String × Block)) : List Rule :=
  named.flatMap fun entry => flatten (classSelector entry.1) entry.2

/-- The notices about what the rules of blocks under their class names leave out. -/
def classNotices (named : List (String × Block)) : List String :=
  named.flatMap fun entry => notices (classSelector entry.1) entry.2

/-- Give every entry of a description a class, and append the rules of all of them. Nothing is
appended and no suffix drawn unless every name is valid and every base can be resolved. -/
def define [Host σ] [SuffixSource ν] (description : Description) : Action σ ν ClassNames := do
  attempt (checkNames description.keys)
  let resolved ← attempt description.resolve
  let named ← drawNames resolved
  warn (classNotices named)
  appendRules (classRules named)
  return ⟨resolved.keys.zip (named.map Prod.fst)⟩

/-- Append the rules of a block under a selector, whatever the sheet holds. -/
def place [Host σ] (selector : String) (block : Block) : Action σ ν Unit := do
  warn (notices selector block)
  appendRules (flatten selector block)

/-! ## Changing styles -/

/-- Bring the rules under a selector in line with a block. There are no other entries to inherit from,
so a block that names a base is refused. -/
def restyle [Host σ] (selector : String) (block : Block) : Action σ ν Unit := do
  match block.base? with
  | some base => throw (.unknownBase selector base)
  | none =>
    warn (notices selector block)
    onHost (Edit.runAll (edits selector block (Host.records (← get).host)))

/-- Bring the rules of a class in line with a block. -/
def restyleClass [Host σ] (name : String) (block : Block) : Action σ ν Unit :=
  restyle (classSelector name) block

/-! ## Animations -/

/-- Append the keyframes of an animation under a name made up for them. The result is the value for the
`animation` property. -/
def animate [Host σ] [SuffixSource ν] (animation : Animation) : Action σ ν String := do
  let suffix ← drawSuffix
  let name := (← get).options.animationName suffix
  warn animation.notices
  append (Animation.header name) animation.body
  return animation.shorthand name

end Session

end StyleSync
