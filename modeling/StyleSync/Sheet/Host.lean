import StyleSync.Fault
import StyleSync.Sheet.Record

/-! # Sheets and their hosts

A sheet is an ordered list of records. Whoever keeps it offers three operations: to see the records,
to append one at the end, and to remove the one at an index. `Host` is what a keeper has to provide,
and `Sheet` is the keeper that holds the records in memory.
-/

set_option autoImplicit false

namespace StyleSync

/-- A keeper of a sheet. A removal can be refused; what the refusal changes is up to the keeper. -/
class Host (σ : Type) where
  /-- The records in order. -/
  records : σ → List Record
  /-- Append the record of a header and a block. -/
  append (header block : String) : σ → σ
  /-- Remove the record at an index. -/
  removeAt (index : Nat) : EStateM Fault σ Unit

/-- A sheet in memory. -/
structure Sheet where
  records : List Record
deriving Repr, DecidableEq, Inhabited

namespace Sheet

/-- The sheet without records. -/
def empty : Sheet := ⟨[]⟩

/-- The number of records. -/
def size (sheet : Sheet) : Nat :=
  sheet.records.length

/-- Append the record of a header and a block. -/
def append (header block : String) (sheet : Sheet) : Sheet :=
  ⟨sheet.records ++ [.read header block]⟩

/-- Remove the record at an index; the sheet stays as it is if there is none. -/
def removeAt (index : Nat) : EStateM Fault Sheet Unit := fun sheet =>
  if index < sheet.size then .ok () ⟨sheet.records.eraseIdx index⟩
  else .error (.outOfRange index sheet.size) sheet

@[simp] theorem records_append (header block : String) (sheet : Sheet) :
    (sheet.append header block).records = sheet.records ++ [.read header block] := rfl

theorem removeAt_of_lt {index : Nat} {sheet : Sheet} (h : index < sheet.size) :
    removeAt index sheet = .ok () ⟨sheet.records.eraseIdx index⟩ := by
  simp [removeAt, h]

theorem removeAt_of_le {index : Nat} {sheet : Sheet} (h : sheet.size ≤ index) :
    removeAt index sheet = .error (.outOfRange index sheet.size) sheet := by
  simp [removeAt, Nat.not_lt.mpr h]

instance : Host Sheet where
  records := records
  append := append
  removeAt := removeAt

/-- The sheet as a file, a record per line. -/
def css (sheet : Sheet) : String :=
  "\n".intercalate (sheet.records.map Record.cssText)

end Sheet

end StyleSync
