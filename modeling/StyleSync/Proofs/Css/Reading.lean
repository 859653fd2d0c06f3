import StyleSync.Proofs.Css.Merging
import StyleSync.Proofs.Text.Separators
import StyleSync.Proofs.Text.Trimming

/-! # Reading a declaration block back

`Declaration.Clean` is what a declaration has to be like for its text to be told apart from the text
around it. A block that starts with a clean declaration is read as this one and the rest
(`items_render_cons`), so that reading a block of clean declarations merges them (`parse_render`). What is
true of whatever an item of a block can be read as is true of what the block is read as
(`forall_mem_parse`).
-/

set_option autoImplicit false

namespace StyleSync

open Text

namespace Declaration

/-! ## Clean declarations -/

/-- A declaration that its block does not break up: property and value have no blanks at the ends,
quotes and parentheses are closed in each of them, and outside these there is no semicolon, nor in the
property a colon. -/
structure Clean (declaration : Declaration) : Prop where
  property_ne_empty : declaration.property ≠ ""
  trim_property : trim declaration.property = declaration.property
  trim_value : trim declaration.value = declaration.value
  closed_property : Closed declaration.property.toList
  closed_value : Closed declaration.value.toList
  semicolons_property : offsets ';' declaration.property.toList = []
  semicolons_value : offsets ';' declaration.value.toList = []
  colons_property : offsets ':' declaration.property.toList = []

theorem clean_iff (declaration : Declaration) :
    declaration.Clean ↔
      (declaration.property ≠ "" ∧ trim declaration.property = declaration.property ∧
        trim declaration.value = declaration.value) ∧
      (Closed declaration.property.toList ∧ Closed declaration.value.toList) ∧
      offsets ';' declaration.property.toList = [] ∧ offsets ';' declaration.value.toList = [] ∧
      offsets ':' declaration.property.toList = [] :=
  ⟨fun h => ⟨⟨h.1, h.2, h.3⟩, ⟨h.4, h.5⟩, h.6, h.7, h.8⟩,
    fun ⟨⟨h1, h2, h3⟩, ⟨h4, h5⟩, h6, h7, h8⟩ => ⟨h1, h2, h3, h4, h5, h6, h7, h8⟩⟩

instance (declaration : Declaration) : Decidable declaration.Clean :=
  decidable_of_iff _ declaration.clean_iff.symm

theorem Clean.with_value {old new : Declaration} (hold : old.Clean) (hnew : new.Clean) :
    ({ old with value := new.value } : Declaration).Clean :=
  { hold with
    trim_value := hnew.trim_value
    closed_value := hnew.closed_value
    semicolons_value := hnew.semicolons_value }

theorem clean_merge {old new : List Declaration} (hold : ∀ declaration ∈ old, declaration.Clean)
    (hnew : ∀ declaration ∈ new, declaration.Clean) :
    ∀ declaration ∈ merge old new, declaration.Clean :=
  forall_mem_merge Clean.with_value hold hnew

theorem toList_text (declaration : Declaration) :
    declaration.text.toList =
      declaration.property.toList ++ ':' :: ' ' :: declaration.value.toList := by
  simp [text]

variable {declaration : Declaration}

theorem property_toList_ne_nil (h : declaration.property ≠ "") : declaration.property.toList ≠ [] := by
  intro hnil
  exact h (String.toList_inj.mp (by simpa using hnil))

theorem closed_text_iff (h : Closed declaration.property.toList) :
    Closed declaration.text.toList ↔ Closed declaration.value.toList := by
  rw [toList_text, h.append_iff, closed_cons_iff (by decide), closed_cons_iff (by decide)]

theorem semicolons_text_iff (h : Closed declaration.property.toList) :
    offsets ';' declaration.text.toList = [] ↔
      offsets ';' declaration.property.toList = [] ∧ offsets ';' declaration.value.toList = [] := by
  rw [toList_text, h.offsets_append_eq_nil_iff, offsets_cons_eq_nil_iff (by decide),
    offsets_cons_eq_nil_iff (by decide)]
  constructor
  · rintro ⟨hproperty, -, -, hvalue⟩
    exact ⟨hproperty, hvalue⟩
  · rintro ⟨hproperty, hvalue⟩
    exact ⟨hproperty, by decide, by decide, hvalue⟩

theorem Clean.closed_text (h : declaration.Clean) : Closed declaration.text.toList :=
  (closed_text_iff h.closed_property).mpr h.closed_value

theorem Clean.semicolons_text (h : declaration.Clean) : offsets ';' declaration.text.toList = [] :=
  (semicolons_text_iff h.closed_property).mpr ⟨h.semicolons_property, h.semicolons_value⟩

/-! ## One item -/

theorem ofItem?_append_colon {before : List Char} (hclosed : Closed before)
    (hcolons : offsets ':' before = []) (after : List Char) :
    ofItem? (before ++ ':' :: after) =
      if trimChars before = [] then none
      else some ⟨String.ofList (trimChars before), String.ofList (trimChars after)⟩ := by
  unfold ofItem?
  rw [breakAtTop_append_separator hclosed hcolons]
  dsimp only
  split
  · next htrim => rw [if_pos htrim]
  · next htrim => rw [if_neg htrim]

theorem Clean.ofItem?_text (h : declaration.Clean) :
    ofItem? declaration.text.toList = some declaration := by
  rw [toList_text, ofItem?_append_colon h.closed_property h.colons_property,
    trimChars_cons_space, trim_eq_self_iff.mp h.trim_property, trim_eq_self_iff.mp h.trim_value,
    if_neg (property_toList_ne_nil h.property_ne_empty), String.ofList_toList, String.ofList_toList]

/-- The space behind a semicolon is not part of the declaration. -/
theorem ofItem?_space (item : List Char) : ofItem? (' ' :: item) = ofItem? item := by
  have hspace : offsetsFrom ':' .top [' '] = [] := by decide
  have htop : Nesting.top.after [' '] = Nesting.top := rfl
  have hbreak := breakFrom_append hspace item
  rw [List.singleton_append, htop] at hbreak
  unfold ofItem? breakAtTop
  rw [hbreak]
  cases breakFrom ':' .top item with
  | none => rfl
  | some pair =>
    simp only [Option.map_some, List.singleton_append, trimChars_cons_space]

/-- What holds of the declarations of all items, and of each of them under the value of another one, holds of
the declarations of the block. -/
theorem forall_mem_parse {P : Declaration → Prop}
    (hvalue : ∀ {old new : Declaration}, P old → P new → P { old with value := new.value })
    {block : String}
    (hitem : ∀ item ∈ splitAtTop ';' block.toList, ∀ declaration, ofItem? item = some declaration →
      P declaration) :
    ∀ declaration ∈ parse block, P declaration := by
  refine forall_mem_merge hvalue (by simp) ?_
  intro declaration hdeclaration
  obtain ⟨item, hmem, hread⟩ := List.mem_filterMap.mp hdeclaration
  exact hitem item hmem declaration hread

/-! ## The items of a block -/

/-- What stands behind the first declaration of a block: a space before and a semicolon behind each of
the others. -/
def laterText (declarations : List Declaration) : List Char :=
  declarations.flatMap fun declaration => ' ' :: (declaration.text.toList ++ [';'])

theorem toList_render_cons (first : Declaration) (rest : List Declaration) :
    (render (first :: rest)).toList = first.text.toList ++ ';' :: laterText rest := by
  simp only [render, String.toList_append]
  induction rest generalizing first with
  | nil => simp [laterText]
  | cons second rest ih =>
    rw [List.map_cons, List.map_cons, String.intercalate_cons_cons, ← List.map_cons]
    simp only [String.toList_append, List.append_assoc, ih second]
    simp [laterText]

theorem exists_eq_concat_semicolon (declarations : List Declaration) :
    laterText declarations = [] ∨ ∃ cs, laterText declarations = cs ++ [';'] := by
  induction declarations with
  | nil => exact Or.inl rfl
  | cons declaration rest ih =>
    right
    rcases ih with hnil | ⟨cs, hcs⟩
    · exact ⟨' ' :: declaration.text.toList, by simp [laterText] at hnil ⊢; exact hnil⟩
    · refine ⟨' ' :: (declaration.text.toList ++ ';' :: cs), ?_⟩
      simp only [laterText, List.flatMap_cons] at hcs ⊢
      rw [hcs]
      simp

theorem trimChars_render {declarations : List Declaration}
    (h : ∀ declaration ∈ declarations, declaration.Clean) :
    trimChars (render declarations).toList = (render declarations).toList := by
  cases declarations with
  | nil => rfl
  | cons first rest =>
    have hfirst := h first List.mem_cons_self
    obtain ⟨hstart, -⟩ := trimChars_eq_self_iff.mp (trim_eq_self_iff.mp hfirst.trim_property)
    have hsemicolon : ∃ cs, (render (first :: rest)).toList = cs ++ [';'] := by
      rw [toList_render_cons]
      rcases exists_eq_concat_semicolon rest with hnil | ⟨cs, hcs⟩
      · exact ⟨first.text.toList, by rw [hnil]⟩
      · exact ⟨first.text.toList ++ ';' :: cs, by rw [hcs]; simp⟩
    refine trimChars_eq_self_iff.mpr ⟨?_, ?_⟩
    · rw [toList_render_cons, toList_text, List.append_assoc,
        trimStart_append_of_ne_nil (property_toList_ne_nil hfirst.property_ne_empty) hstart]
    · obtain ⟨cs, hcs⟩ := hsemicolon
      rw [hcs]
      exact trimEnd_append_of_ne_nil cs (by simp) (by decide)

theorem items_laterText (declarations : List Declaration) :
    (splitAtTop ';' (laterText declarations)).filterMap ofItem? = items (render declarations) := by
  cases declarations with
  | nil => rfl
  | cons first rest =>
    have hlater : laterText (first :: rest) = [' '] ++ (render (first :: rest)).toList := by
      rw [toList_render_cons]
      simp [laterText]
    have hspace : offsetsFrom ';' .top [' '] = [] := by decide
    have htop : Nesting.top.after [' '] = Nesting.top := rfl
    have hsplit := splitFrom_append hspace (render (first :: rest)).toList
    rw [← hlater, htop] at hsplit
    unfold items splitAtTop
    rw [hsplit]
    cases splitFrom ';' .top (render (first :: rest)).toList with
    | nil => rfl
    | cons part parts =>
      show ((' ' :: part) :: parts).filterMap ofItem? = (part :: parts).filterMap ofItem?
      rw [List.filterMap_cons, List.filterMap_cons, ofItem?_space]

/-- A clean declaration is read back, whatever is behind it. -/
theorem items_render_cons {first : Declaration} (h : first.Clean) (rest : List Declaration) :
    items (render (first :: rest)) = first :: items (render rest) := by
  rw [← items_laterText rest]
  unfold items
  rw [toList_render_cons, splitAtTop_append_separator (by decide) h.closed_text h.semicolons_text,
    List.filterMap_cons, h.ofItem?_text]

theorem items_render {declarations : List Declaration}
    (h : ∀ declaration ∈ declarations, declaration.Clean) :
    items (render declarations) = declarations := by
  induction declarations with
  | nil => rfl
  | cons first rest ih =>
    rw [List.forall_mem_cons] at h
    rw [items_render_cons h.1, ih h.2]

theorem parse_render {declarations : List Declaration}
    (h : ∀ declaration ∈ declarations, declaration.Clean) :
    parse (render declarations) = merge [] declarations := by
  rw [parse, items_render h]

end Declaration

end StyleSync
