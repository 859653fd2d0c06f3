import StyleSync.Sheet.Edit

/-! # A monitored sheet

A host that notes every call, and that can be told to refuse one removal. The refused removal leaves
the records as they are.
-/

set_option autoImplicit false

namespace StyleSync

/-- A sheet with the calls made to it, the latest first, and the removals that are let through before
one is refused; `none` if none will be. -/
structure MonitoredSheet where
  sheet : Sheet
  calls : List Edit
  allowance : Option Nat
deriving Repr, DecidableEq

namespace MonitoredSheet

/-- A sheet from now on, with the removal of the given number refused, counted from zero. -/
def watch (sheet : Sheet) (refused : Option Nat) : MonitoredSheet := ⟨sheet, [], refused⟩

/-- Append the record of a header and a block. -/
def append (header block : String) (monitored : MonitoredSheet) : MonitoredSheet :=
  { monitored with
    sheet := monitored.sheet.append header block
    calls := .append header block :: monitored.calls }

/-- Remove the record at an index, unless this is the removal to refuse. -/
def removeAt (index : Nat) : EStateM Fault MonitoredSheet Unit := fun monitored =>
  let calls := .removeAt index :: monitored.calls
  match monitored.allowance with
  | some 0 =>
    .error (.outOfRange index monitored.sheet.size) ⟨monitored.sheet, calls, none⟩
  | allowance =>
    let allowance := allowance.map (· - 1)
    match Sheet.removeAt index monitored.sheet with
    | .ok () sheet => .ok () ⟨sheet, calls, allowance⟩
    | .error fault sheet => .error fault ⟨sheet, calls, allowance⟩

instance : Host MonitoredSheet where
  records monitored := monitored.sheet.records
  append := append
  removeAt := removeAt

end MonitoredSheet

end StyleSync
