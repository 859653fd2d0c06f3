import StyleSync.Proofs.Results
import StyleSync.Proofs.Sheet.Encoding
import StyleSync.Proofs.Text.Parts
import StyleSync.Sheet.Edit

/-! # What every record of a sheet is like

A sheet takes headers and blocks of any text. `Record.Regular` says what its records have in common
nevertheless. Stated here:

* `Declaration.separate_of_mem_parse`: a declaration that is read from a block is not divided further, by
  itself, at the separators at which the block was divided;
* `regular_read`: every record that is read from two texts is regular;
* `Sheet.FromTexts.runCall` and `Sheet.FromTexts.runCalls`: whatever is done to a sheet, all of its records
  are read from texts;
* `regular_runAll`: so they are regular.
-/

set_option autoImplicit false

namespace StyleSync

open Text

/-! ## Declarations -/

namespace Declaration

/-- A declaration without blanks at the ends of its parts, and without a separator that would divide it
once more. Its quotes and parentheses need not be closed. -/
structure Separate (declaration : Declaration) : Prop where
  property_ne_empty : declaration.property ≠ ""
  trim_property : trim declaration.property = declaration.property
  trim_value : trim declaration.value = declaration.value
  colons_property : offsets ':' declaration.property.toList = []
  semicolons_property : offsets ';' declaration.property.toList = []
  semicolons_value : offsets ';' declaration.value.toList = []

theorem Separate.with_value {old new : Declaration} (hold : old.Separate) (hnew : new.Separate) :
    ({ old with value := new.value } : Declaration).Separate :=
  { hold with
    trim_value := hnew.trim_value
    semicolons_value := hnew.semicolons_value }

theorem separate_of_ofItem? {item : List Char} (hitem : offsets ';' item = [])
    {declaration : Declaration} (h : ofItem? item = some declaration) : declaration.Separate := by
  unfold ofItem? at h
  split at h
  · contradiction
  · next before after hbreak =>
    obtain ⟨rfl, hclosed, hcolons⟩ := breakAtTop_eq_some hbreak
    rw [hclosed.offsets_append_eq_nil_iff, offsets_cons_eq_nil_iff (by decide)] at hitem
    obtain ⟨hbefore, -, hafter⟩ := hitem
    split at h
    · contradiction
    · next hne =>
      rw [Option.some.injEq] at h
      subst h
      refine ⟨?_, trim_ofList_trimChars before, trim_ofList_trimChars after, ?_, ?_, ?_⟩
      · intro hempty
        exact hne (by simpa using congrArg String.toList hempty)
      · rw [String.toList_ofList]
        exact offsets_trimChars hcolons
      · rw [String.toList_ofList]
        exact offsets_trimChars hbefore
      · rw [String.toList_ofList]
        exact offsets_trimChars hafter

theorem separate_of_mem_parse {block : String} {declaration : Declaration}
    (h : declaration ∈ parse block) : declaration.Separate :=
  forall_mem_parse Separate.with_value
    (fun _ hitem _ => separate_of_ofItem? (offsets_of_mem_splitAtTop (by decide) hitem)) declaration h

theorem nodup_parse (block : String) : ((parse block).map property).Nodup :=
  nodup_merge (by simp) (items block)

end Declaration

/-! ## Records -/

/-- A style rule with separate declarations of distinct properties. -/
structure StyleRecord.Regular (rule : StyleRecord) : Prop where
  nodup : (rule.declarations.map Declaration.property).Nodup
  separate : ∀ declaration ∈ rule.declarations, declaration.Separate

/-- A record without blanks at the ends of its texts, which does not look like one of another kind, and
which holds a regular style rule unless it holds keyframes. -/
def Record.Regular : Record → Prop
  | .style rule => (Target.style rule.selector).Readable ∧ rule.Regular
  | .media condition rule => (Target.media condition rule.selector).Readable ∧ rule.Regular
  | .keyframes name body => trim name = name ∧ trim body = body

theorem regular_styleRead (selector block : String) : (StyleRecord.read selector block).Regular :=
  ⟨Declaration.nodup_parse block, fun _ => Declaration.separate_of_mem_parse⟩

theorem brace_not_mem_fst_splitBraced (text : String) :
    '\x7b' ∉ (trim (splitBraced text).1).toList := by
  intro hbrace
  rw [fst_splitBraced, trim_trim, toList_trim, String.toList_ofList] at hbrace
  have hplain := List.mem_takeWhile_imp (mem_of_mem_trimChars hbrace)
  simp at hplain

theorem regular_read (header block : String) : (Record.read header block).Regular := by
  cases hmedia : mediaKeyword.toList.isPrefixOf? (trimChars header.toList) with
  | some condition =>
    have hread : Record.read header block = .media (String.ofList (trimChars condition))
        (.read (splitBraced block).1 (splitBraced block).2) := by
      simp only [Record.read, hmedia]
    rw [hread]
    exact ⟨⟨trim_ofList_trimChars condition, trim_trim _, brace_not_mem_fst_splitBraced block⟩,
      regular_styleRead _ _⟩
  | none =>
    cases hkeyframes : keyframesKeyword.toList.isPrefixOf? (trimChars header.toList) with
    | some name =>
      have hread : Record.read header block =
          .keyframes (String.ofList (trimChars name)) (trim block) := by
        simp only [Record.read, hmedia, hkeyframes]
      rw [hread]
      exact ⟨trim_ofList_trimChars name, trim_trim block⟩
    | none =>
      rw [isPrefixOf?_eq_none_iff] at hmedia hkeyframes
      have hheader : (trim (trim header)).toList = trimChars header.toList := by
        rw [trim_trim, toList_trim]
      rw [read_of_no_keyword hmedia hkeyframes]
      rw [← hheader] at hmedia hkeyframes
      exact ⟨⟨trim_trim _, hmedia, hkeyframes⟩, regular_styleRead _ _⟩

/-! ## Sheets -/

/-- Every record of the sheet was read from two texts. -/
def Sheet.FromTexts (sheet : Sheet) : Prop :=
  ∀ record ∈ sheet.records, ∃ header block, record = .read header block

/-- A call on a sheet in memory. -/
inductive SheetCall where
  | append (header block : String)
  | removeAt (index : ℕ)
  | clear
  | apply (edits : List Edit)

namespace SheetCall

def run : SheetCall → EStateM Fault Sheet Unit
  | .append header block => modify (Sheet.append header block)
  | .removeAt index => Sheet.removeAt index
  | .clear => set Sheet.empty
  | .apply edits => Edit.runAll edits

/-- The sheet that calls leave, one after another, whether they are refused or not. -/
def runAll (sheet : Sheet) (calls : List SheetCall) : Sheet :=
  calls.foldl (fun sheet call => after call.run sheet) sheet

end SheetCall

namespace Sheet.FromTexts

variable {sheet : Sheet}

theorem empty : Sheet.empty.FromTexts := by
  intro record hrecord
  contradiction

theorem append (h : sheet.FromTexts) (header block : String) :
    (sheet.append header block).FromTexts := by
  intro record hrecord
  rw [records_append, List.mem_append, List.mem_singleton] at hrecord
  rcases hrecord with hold | hnew
  · exact h record hold
  · exact ⟨header, block, hnew⟩

theorem removeAt (h : sheet.FromTexts) (index : ℕ) : (after (Sheet.removeAt index) sheet).FromTexts := by
  by_cases hindex : index < sheet.size
  · rw [after_of_ok (removeAt_of_lt hindex)]
    intro record hrecord
    exact h record (List.mem_of_mem_eraseIdx hrecord)
  · rw [after_of_error (removeAt_of_le (Nat.le_of_not_lt hindex))]
    exact h

theorem runEdit (h : sheet.FromTexts) (edit : Edit) : (after edit.run sheet).FromTexts := by
  cases edit with
  | append header block => exact h.append header block
  | removeAt index => exact h.removeAt index

theorem runEdits (h : sheet.FromTexts) (edits : List Edit) :
    (after (Edit.runAll edits) sheet).FromTexts := by
  induction edits generalizing sheet with
  | nil => exact h
  | cons edit rest ih =>
    rw [Edit.runAll]
    exact holds_after_bind (h.runEdit edit) fun _ _ hmiddle => ih hmiddle

theorem runCall (h : sheet.FromTexts) (call : SheetCall) : (after call.run sheet).FromTexts := by
  cases call with
  | append header block => exact h.append header block
  | removeAt index => exact h.removeAt index
  | clear => exact empty
  | apply edits => exact h.runEdits edits

theorem runCalls (h : sheet.FromTexts) (calls : List SheetCall) :
    (SheetCall.runAll sheet calls).FromTexts := by
  induction calls generalizing sheet with
  | nil => exact h
  | cons call rest ih => exact ih (h.runCall call)

end Sheet.FromTexts

/-- **Records are regular.** Whatever is done to the empty sheet, with texts of any kind, the texts of its
records have no blanks at the ends, no record looks like one of another kind, and style rules have
separate declarations of distinct properties. -/
theorem regular_runAll (calls : List SheetCall) :
    ∀ record ∈ (SheetCall.runAll Sheet.empty calls).records, record.Regular := by
  intro record hrecord
  obtain ⟨header, block, rfl⟩ := Sheet.FromTexts.empty.runCalls calls record hrecord
  exact regular_read header block

/-- Calls with texts in which quotes, parentheses and braces do not match; the third call and the last
edit are refused. -/
def SheetCall.rough : List SheetCall :=
  [.append ".x" "color: red", .clear, .removeAt 0,
    .append "\u2003@mediaprint\n" "  .x[data-a=\"\x7b\"]\x7b ;; a(:;) : \"\\\";\" ; : 1; a(:;):\u00a0'\x7d; b:)(\x7d;c",
    .apply [.append "@keyframes" "\t from \x7b \x7d", .append ".y" "top: (1;2", .removeAt 1, .removeAt 9]]

theorem regular_runAll_rough :
    let record : Record :=
      .media "print" ⟨".x[data-a=\"", [⟨"a(:;)", "'\x7d; b:)("⟩]⟩
    record ∈ (SheetCall.runAll Sheet.empty SheetCall.rough).records ∧ record.Regular := by
  intro record
  have hrecord : record ∈ (SheetCall.runAll Sheet.empty SheetCall.rough).records := by decide +kernel
  exact ⟨hrecord, regular_runAll SheetCall.rough record hrecord⟩

end StyleSync
