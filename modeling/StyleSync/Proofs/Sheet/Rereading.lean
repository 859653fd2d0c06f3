import StyleSync.Proofs.Sheet.Regularity

/-! # Blocks that are read again

A sheet reads the declarations of a block, and an update writes them to a block that is read again. All
of them survive if each value is closed. Only the last item of a block can leave a quote or a parenthesis
open; written in front of others, its value takes these in. Stated here:

* `parse_append`: reading two blocks with a semicolon between them is merging what each of them says;
* `readBack_of_mem_parse`: what reading makes of any block, except that a value may be open;
* `items_render_ne`: an open value is not read back;
* `extents_items_le`, `extents_merge_le`: items take up the characters of the block, and merging them drops
  some of these wherever it drops a declaration;
* `parse_render_parse`: so a block is read again as it was just if all values in it are closed.
-/

set_option autoImplicit false

namespace StyleSync

open Text

namespace Declaration

/-! ## Two blocks -/

theorem items_append {before : String} (h : Closed before.toList) (after : String) :
    items (before ++ ";" ++ after) = items before ++ items after := by
  have htext : (before ++ ";" ++ after).toList = before.toList ++ ';' :: after.toList := by
    simp
  unfold items
  rw [htext, splitAtTop_append (by decide) h, List.filterMap_append]

/-- **Blocks put together.** Where the first block ends outside quotes and parentheses, reading it with
another one behind a semicolon is merging the declarations of the second into those of the first. -/
theorem parse_append {before : String} (h : Closed before.toList) (after : String) :
    parse (before ++ ";" ++ after) = merge (parse before) (parse after) := by
  calc parse (before ++ ";" ++ after)
      = merge [] (items before ++ items after) := by rw [parse, items_append h]
    _ = merge (parse before) (items after) := merge_append [] (items before) (items after)
    _ = merge (parse before) (parse after) := (merge_merge_nil _ _).symm

theorem parse_append_rough :
    Closed "color: red; ; top; a: \"x;(\\\"\"".toList ∧
      parse ("color: red; ; top; a: \"x;(\\\"\"" ++ ";" ++ "b: url(;:); color : blue; a:(;1") =
        merge [⟨"color", "red"⟩, ⟨"a", "\"x;(\\\"\""⟩]
          [⟨"b", "url(;:)"⟩, ⟨"color", "blue"⟩, ⟨"a", "(;1"⟩] := by
  have hclosed : Closed "color: red; ; top; a: \"x;(\\\"\"".toList := by decide
  refine ⟨hclosed, ?_⟩
  rw [parse_append hclosed]
  decide +kernel

/-! ## Declarations that were read -/

/-- A separate declaration with a closed property. Only its value may be open. -/
structure ReadBack (declaration : Declaration) : Prop extends declaration.Separate where
  closed_property : Closed declaration.property.toList

variable {declaration : Declaration}

theorem ReadBack.clean (h : declaration.ReadBack) (hvalue : Closed declaration.value.toList) :
    declaration.Clean :=
  { h.toSeparate with
    closed_property := h.closed_property
    closed_value := hvalue }

theorem closed_of_ofItem? {item : List Char} (h : ofItem? item = some declaration) :
    Closed declaration.property.toList ∧ (Closed declaration.value.toList ↔ Closed item) := by
  unfold ofItem? at h
  split at h
  · contradiction
  · next before after hbreak =>
    obtain ⟨rfl, hclosed, -⟩ := breakAtTop_eq_some hbreak
    split at h
    · contradiction
    · rw [Option.some.injEq] at h
      subst h
      rw [String.toList_ofList, String.toList_ofList, closed_trimChars_iff, closed_trimChars_iff,
        hclosed.append_iff, closed_cons_iff (by decide)]
      exact ⟨hclosed, Iff.rfl⟩

theorem ReadBack.with_value {old new : Declaration} (hold : old.ReadBack) (hnew : new.ReadBack) :
    ({ old with value := new.value } : Declaration).ReadBack :=
  ⟨hold.toSeparate.with_value hnew.toSeparate, hold.closed_property⟩

theorem Clean.readBack (h : declaration.Clean) : declaration.ReadBack :=
  { h with }

theorem readBack_of_mem_parse {block : String} :
    ∀ declaration ∈ parse block, declaration.ReadBack := by
  refine forall_mem_parse ReadBack.with_value ?_
  intro item hitem declaration hread
  have hsemicolons : offsets ';' item = [] := offsets_of_mem_splitAtTop (by decide) hitem
  exact ⟨separate_of_ofItem? hsemicolons hread, (closed_of_ofItem? hread).1⟩

/-- A block without an open quote or parenthesis has no value with one. -/
theorem closed_value_of_mem_parse {block : String} (h : Closed block.toList) :
    ∀ declaration ∈ parse block, Closed declaration.value.toList := by
  refine forall_mem_parse (fun _ hnew => hnew) ?_
  intro item hitem declaration hread
  have hclosed : Closed item := closed_of_mem_splitAtTop (by decide) h hitem
  exact (closed_of_ofItem? hread).2.mpr hclosed

/-! ## An open value -/

/-- An open value takes in the semicolon that is written behind it. -/
theorem items_render_ne (h : declaration.ReadBack) (hvalue : ¬ Closed declaration.value.toList)
    (rest others : List Declaration) :
    items (render (declaration :: rest)) ≠ declaration :: others := by
  have hopen : ¬ Closed declaration.text.toList := by
    rwa [closed_text_iff h.closed_property]
  have hsemicolons : offsets ';' declaration.text.toList = [] :=
    (semicolons_text_iff h.closed_property).mpr ⟨h.semicolons_property, h.semicolons_value⟩
  obtain ⟨part, parts, hparts⟩ :=
    splitAtTop_append_of_not_closed hopen hsemicolons (laterText rest)
  have hitem : ofItem? (declaration.text.toList ++ ';' :: part) =
      some ⟨declaration.property,
        String.ofList (trimChars (declaration.value.toList ++ ';' :: part))⟩ := by
    rw [toList_text, List.append_assoc, List.cons_append, List.cons_append,
      ofItem?_append_colon h.closed_property h.colons_property, trimChars_cons_space,
      trim_eq_self_iff.mp h.trim_property, if_neg (property_toList_ne_nil h.property_ne_empty),
      String.ofList_toList]
  intro hread
  rw [items, toList_render_cons, hparts, List.filterMap_cons, hitem] at hread
  have hsame := congrArg (fun declaration => solid declaration.value.toList) (List.cons.inj hread).1
  simp only [String.toList_ofList, solid_trimChars, solid_append] at hsame
  rw [solid_cons (by decide)] at hsame
  omega

/-! ## What the declarations of a block take up -/

/-- How many characters a declaration takes up in a block at least: its own but for blanks, a colon and a
semicolon. -/
def extent (declaration : Declaration) : Nat :=
  solid declaration.property.toList + solid declaration.value.toList + 2

def extents : List Declaration → Nat
  | [] => 0
  | first :: rest => first.extent + extents rest

@[simp] theorem extents_nil : extents [] = 0 := rfl

@[simp] theorem extents_cons (first : Declaration) (rest : List Declaration) :
    extents (first :: rest) = first.extent + extents rest := rfl

theorem extents_append (as bs : List Declaration) : extents (as ++ bs) = extents as + extents bs := by
  induction as with
  | nil => simp
  | cons first rest ih =>
    rw [List.cons_append, extents_cons, extents_cons, ih]
    omega

theorem extent_of_ofItem? {item : List Char} (h : ofItem? item = some declaration) :
    declaration.extent = solid item + 1 := by
  unfold ofItem? at h
  split at h
  · contradiction
  · next before after hbreak =>
    obtain ⟨rfl, -, -⟩ := breakAtTop_eq_some hbreak
    split at h
    · contradiction
    · rw [Option.some.injEq] at h
      subst h
      rw [extent, String.toList_ofList, String.toList_ofList, solid_trimChars, solid_trimChars,
        solid_append, solid_cons (by decide)]
      omega

/-- The last item of a block need not have a semicolon behind it. -/
theorem extents_items_le (block : String) : extents (items block) ≤ solid block.toList + 1 := by
  unfold items
  generalize block.toList = cs
  induction cs using divided_induction ';' with
  | whole cs hoffsets =>
    rw [splitAtTop_of_offsets_eq_nil hoffsets]
    cases hread : ofItem? cs with
    | none => simp [hread]
    | some declaration => simp [hread, extent_of_ofItem? hread]
  | divided part rest hclosed hoffsets ih =>
    rw [splitAtTop_append_separator (by decide) hclosed hoffsets, List.filterMap_cons, solid_append,
      solid_cons (by decide)]
    cases hread : ofItem? part with
    | none =>
      dsimp only
      omega
    | some declaration =>
      have hextent := extent_of_ofItem? hread
      rw [extents_cons]
      omega

theorem solid_text (declaration : Declaration) :
    solid declaration.text.toList + 1 = declaration.extent := by
  rw [toList_text, solid_append, solid_cons (by decide), solid_cons_space, extent]
  omega

theorem solid_laterText (declarations : List Declaration) :
    solid (laterText declarations) = extents declarations := by
  induction declarations with
  | nil => rfl
  | cons first rest ih =>
    have hlater : laterText (first :: rest) = ' ' :: (first.text.toList ++ ';' :: laterText rest) := by
      simp [laterText]
    have htext := solid_text first
    rw [hlater, solid_cons_space, solid_append, solid_cons (by decide), ih, extents_cons]
    omega

theorem solid_render (declarations : List Declaration) :
    solid (render declarations).toList = extents declarations := by
  cases declarations with
  | nil => rfl
  | cons first rest =>
    have htext := solid_text first
    rw [toList_render_cons, solid_append, solid_cons (by decide), solid_laterText, extents_cons]
    omega

/-! ## What a merge drops -/

theorem extents_put_of_mem {declarations : List Declaration}
    (h : declaration.property ∈ declarations.map property) :
    extents (put declaration declarations) + 2 ≤ extents declarations + declaration.extent := by
  induction declarations with
  | nil => contradiction
  | cons old rest ih =>
    by_cases hold : old.property = declaration.property
    · rw [put, if_pos hold, extents_cons, extents_cons, extent, extent, extent]
      dsimp only
      omega
    · have hrest : declaration.property ∈ rest.map property := by
        rw [List.map_cons, List.mem_cons] at h
        exact h.resolve_left (Ne.symm hold)
      have hput := ih hrest
      rw [put, if_neg hold, extents_cons, extents_cons]
      omega

theorem extents_put_of_not_mem {declarations : List Declaration}
    (h : declaration.property ∉ declarations.map property) :
    extents (put declaration declarations) = extents declarations + declaration.extent := by
  rw [put_of_not_mem h, extents_append, extents_cons]
  rfl

theorem extents_merge_le (old new : List Declaration) :
    extents (merge old new) ≤ extents old + extents new := by
  induction new generalizing old with
  | nil => exact Nat.le_refl _
  | cons first rest ih =>
    have hrest := ih (put first old)
    rw [merge_cons, extents_cons]
    by_cases hmem : first.property ∈ old.map property
    · have hput := extents_put_of_mem hmem
      omega
    · have hput := extents_put_of_not_mem hmem
      omega

/-- Each repeated property makes the merged declarations take up less. -/
theorem extents_merge_of_repeated {old new : List Declaration} (hold : (old.map property).Nodup)
    (h : ¬ ((old ++ new).map property).Nodup) :
    extents (merge old new) + 2 ≤ extents old + extents new := by
  induction new generalizing old with
  | nil => exact absurd hold (by simpa using h)
  | cons first rest ih =>
    rw [merge_cons, extents_cons]
    by_cases hmem : first.property ∈ old.map property
    · have hput := extents_put_of_mem hmem
      have hrest := extents_merge_le (put first old) rest
      omega
    · have hput := extents_put_of_not_mem hmem
      have hnodup : ((put first old).map property).Nodup := nodup_merge hold [first]
      have hrepeated : ¬ ((put first old ++ rest).map property).Nodup := by
        rwa [put_of_not_mem hmem, List.append_assoc, List.singleton_append]
      have hrest := ih hnodup hrepeated
      omega

/-! ## Reading what was written -/

/-- What a block is read as takes up all of it, so no item can have been dropped. -/
theorem items_render_of_parse_render {declarations : List Declaration}
    (h : parse (render declarations) = declarations) : items (render declarations) = declarations := by
  have hitems := extents_items_le (render declarations)
  rw [solid_render] at hitems
  have hnodup : (([] ++ items (render declarations)).map property).Nodup := by
    by_contra hrepeated
    have hmerge := extents_merge_of_repeated (by simp) hrepeated
    rw [parse] at h
    rw [h] at hmerge
    rw [extents_nil] at hmerge
    omega
  calc items (render declarations)
      = merge [] (items (render declarations)) := (merge_of_nodup hnodup).symm
    _ = declarations := h

theorem closed_of_items_render {declarations : List Declaration}
    (hread : ∀ declaration ∈ declarations, declaration.ReadBack)
    (h : items (render declarations) = declarations) :
    ∀ declaration ∈ declarations, Closed declaration.value.toList := by
  induction declarations with
  | nil => simp
  | cons first rest ih =>
    rw [List.forall_mem_cons] at hread
    have hfirst : Closed first.value.toList := by
      by_contra hvalue
      exact items_render_ne hread.1 hvalue rest rest h
    rw [items_render_cons (hread.1.clean hfirst)] at h
    exact List.forall_mem_cons.mpr ⟨hfirst, ih hread.2 (List.cons.inj h).2⟩

theorem parse_render_iff {declarations : List Declaration}
    (hnodup : (declarations.map property).Nodup)
    (hread : ∀ declaration ∈ declarations, declaration.ReadBack) :
    parse (render declarations) = declarations ↔
      ∀ declaration ∈ declarations, Closed declaration.value.toList := by
  constructor
  · intro h
    exact closed_of_items_render hread (items_render_of_parse_render h)
  · intro hclosed
    have hclean : ∀ declaration ∈ declarations, declaration.Clean := fun declaration hmem =>
      (hread declaration hmem).clean (hclosed declaration hmem)
    rw [parse_render hclean, merge_of_nodup (by simpa using hnodup), List.nil_append]

/-- **Reading again.** The declarations of a block are read back from what they are written to, just if no
value has an open quote or parenthesis, so in particular if the block has none. The same decides whether
they survive an update: with clean declarations merged in, all are read back just if no value that is left
is open. -/
theorem parse_render_parse (block : String) :
    (parse (render (parse block)) = parse block ↔
        ∀ declaration ∈ parse block, Closed declaration.value.toList) ∧
      (Closed block.toList → ∀ declaration ∈ parse block, Closed declaration.value.toList) ∧
      ∀ new : List Declaration, (∀ declaration ∈ new, declaration.Clean) →
        (parse (render (merge (parse block) new)) = merge (parse block) new ↔
          ∀ declaration ∈ merge (parse block) new, Closed declaration.value.toList) := by
  refine ⟨parse_render_iff (nodup_parse block) readBack_of_mem_parse, closed_value_of_mem_parse, ?_⟩
  intro new hnew
  have hread : ∀ declaration ∈ merge (parse block) new, declaration.ReadBack :=
    forall_mem_merge ReadBack.with_value readBack_of_mem_parse fun declaration hmem =>
      (hnew declaration hmem).readBack
  exact parse_render_iff (nodup_merge (nodup_parse block) new) hread

theorem parse_render_parse_closed :
    let block := "color: red; a: \"x;(\\\"\"; : 1; color: url(;)"
    let new : List Declaration := [⟨"top", "0"⟩, ⟨"a", "';'"⟩]
    Closed block.toList ∧ (∀ declaration ∈ new, declaration.Clean) ∧
      parse (render (parse block)) = parse block ∧
      parse (render (merge (parse block) new)) =
        [⟨"color", "url(;)"⟩, ⟨"a", "';'"⟩, ⟨"top", "0"⟩] := by
  intro block new
  have hblock : Closed block.toList := by decide
  have hnew : ∀ declaration ∈ new, declaration.Clean := by decide
  obtain ⟨hagain, hclosed, hupdate⟩ := parse_render_parse block
  refine ⟨hblock, hnew, hagain.mpr (hclosed hblock), ?_⟩
  have hmerged : ∀ declaration ∈ merge (parse block) new, Closed declaration.value.toList := by
    decide +kernel
  rw [(hupdate new hnew).mpr hmerged]
  decide +kernel

/-- The last value is open, and its property has a place before another one. -/
def unclosed : String := "color: red; width: 1px; color: \"x"

theorem parse_render_unclosed :
    parse unclosed = [⟨"color", "\"x"⟩, ⟨"width", "1px"⟩] ∧
      parse (render (parse unclosed)) = [⟨"color", "\"x; width: 1px;"⟩] ∧
      parse (render (parse unclosed)) ≠ parse unclosed ∧
      parse (render (merge (parse unclosed) [⟨"top", "0"⟩])) =
        [⟨"color", "\"x; width: 1px; top: 0;"⟩] := by
  decide +kernel

end Declaration

end StyleSync
