import StyleSync.Css.Flattening
import StyleSync.Sheet.Host

/-! # Bringing a sheet in line with a block

`edits` compares the flat rules of a block with the records of a sheet. A rule without a record is
appended. A rule that has one is merged into it: the declarations of the rule win, those that only the
record has stay, and the merged rule replaces the record at the end of the sheet. Rules and records
meet by their keys; of several records with one key, the last is met.
-/

set_option autoImplicit false

namespace StyleSync

/-- A change to a sheet. -/
inductive Edit where
  /-- Append the record of a header and a block. -/
  | append (header block : String)
  /-- Remove the record at an index, counted when its turn comes. -/
  | removeAt (index : Nat)
deriving Repr, DecidableEq

namespace Edit

/-- The edit that appends a rule. -/
def ofRule (rule : Rule) : Edit :=
  .append rule.header rule.block

/-- Carry out an edit. -/
def run {σ : Type} [Host σ] : Edit → EStateM Fault σ Unit
  | .append header block => modify (Host.append header block)
  | .removeAt index => Host.removeAt index

/-- Carry out edits in turn, up to the first that is refused. -/
def runAll {σ : Type} [Host σ] : List Edit → EStateM Fault σ Unit
  | [] => pure ()
  | edit :: rest => do
    edit.run
    runAll rest

@[simp] theorem run_removeAt {σ : Type} [Host σ] (index : Nat) (host : σ) :
    (Edit.removeAt index).run host = Host.removeAt index host := rfl

/-- Edits are carried out in turn, and none after one that is refused. -/
theorem runAll_cons {σ : Type} [Host σ] (edit : Edit) (rest : List Edit) (host : σ) :
    runAll (edit :: rest) host =
      match edit.run host with
      | .ok () host => runAll rest host
      | .error fault host => .error fault host := by
  rw [runAll]
  simp only [bind, EStateM.bind]
  cases edit.run host <;> rfl

end Edit

/-! ## Outlines -/

/-- What matters of a record when rules look for theirs: its key, if it can be found, and its
declarations. -/
structure OutlineEntry where
  key : Option String
  declarations : List Declaration
deriving Repr, DecidableEq

/-- The outline of a record. -/
def Record.outline (record : Record) : OutlineEntry :=
  ⟨record.key?, record.declarations⟩

/-- The index of the last entry with a key, and its declarations. -/
def findLast? (key : String) : List OutlineEntry → Option (Nat × List Declaration)
  | [] => none
  | entry :: rest =>
    match findLast? key rest with
    | some (index, declarations) => some (index + 1, declarations)
    | none => if entry.key = some key then some (0, entry.declarations) else none

/-! ## Edits -/

/-- The edits that bring a sheet of a given outline in line with the rules, in turn. -/
def editsFor (outline : List OutlineEntry) : List Rule → List Edit
  | [] => []
  | rule :: rules =>
    match findLast? rule.key outline with
    | none =>
      Edit.ofRule rule :: editsFor (outline ++ [⟨some rule.key, rule.declarations⟩]) rules
    | some (index, old) =>
      let merged := { rule with declarations := Declaration.merge old rule.declarations }
      Edit.removeAt index :: Edit.ofRule merged ::
        editsFor (outline.eraseIdx index ++ [⟨some rule.key, merged.declarations⟩]) rules

/-- The edits that bring a sheet with the given records in line with a block under a selector. A block
without declarations leads to none. -/
def edits (selector : String) (block : Block) (records : List Record) : List Edit :=
  editsFor (records.map Record.outline) (flatten selector block)

end StyleSync
