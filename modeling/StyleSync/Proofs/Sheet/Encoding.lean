import Mathlib.Data.List.Infix
import StyleSync.Proofs.Css.Merging
import StyleSync.Proofs.Css.Reading
import StyleSync.Sheet.Record

/-! # A sheet stores the rules that it is given

A rule goes to a sheet as two texts. `Target.Readable` is what its selector and condition have to be
like for the sheet to find them again in these texts. `read_eq_record` says what the sheet stores for a
readable rule, and `read_header_block` that this is the rule itself where no property is repeated.
-/

set_option autoImplicit false

namespace StyleSync

open Text

/-! ## Braces -/

theorem exists_toList_braced (prelude block : String) :
    ∃ inside,
      (braced prelude block).toList = prelude.toList ++ ' ' :: '\x7b' :: (inside ++ ['\x7d']) ∧
      trimChars inside = trimChars block.toList := by
  unfold braced
  by_cases h : block = ""
  · refine ⟨[' '], ?_, ?_⟩
    · rw [if_pos h, String.toList_append]
      rfl
    · rw [h]
      rfl
  · refine ⟨' ' :: (block.toList ++ [' ']), ?_, ?_⟩
    · rw [if_neg h]
      simp only [String.toList_append, List.append_assoc]
      simp
    · rw [trimChars_cons_space, trimChars_concat_space]

theorem beforeLastBrace_concat (cs : List Char) : beforeLastBrace (cs ++ ['\x7d']) = cs := by
  simp [beforeLastBrace]

theorem fst_splitBraced (text : String) :
    (splitBraced text).1 = trim (String.ofList (text.toList.takeWhile (· != '\x7b'))) := by
  unfold splitBraced
  dsimp only
  split
  · next hdrop =>
    rw [List.dropWhile_eq_nil_iff] at hdrop
    rw [List.takeWhile_eq_self_iff.mpr hdrop, String.ofList_toList]
  · rw [trim, String.toList_ofList]

theorem splitBraced_braced {prelude : String} (h : '\x7b' ∉ prelude.toList) (block : String) :
    splitBraced (braced prelude block) = (trim prelude, trim block) := by
  obtain ⟨inside, hbraced, hinside⟩ := exists_toList_braced prelude block
  have hplain : ∀ c ∈ prelude.toList ++ [' '], (c != '\x7b') = true := by
    intro c hc
    rcases List.mem_append.mp hc with hc | hc
    · exact bne_iff_ne.mpr fun e => h (e ▸ hc)
    · have hspace : c = ' ' := by simpa using hc
      rw [hspace]
      decide
  have hsplit : (braced prelude block).toList =
      (prelude.toList ++ [' ']) ++ '\x7b' :: (inside ++ ['\x7d']) := by
    rw [hbraced]
    simp
  unfold splitBraced
  simp only [hsplit, List.dropWhile_append_of_pos hplain, List.takeWhile_append_of_pos hplain]
  simp [beforeLastBrace_concat, hinside, trim]

/-! ## Readable targets -/

/-- A target that a sheet finds again in the texts of its rule: there are no blanks at the ends, the
selector of a style rule does not look like the header of another kind of rule, and the selector of a
media rule has no opening brace. -/
def Target.Readable : Target → Prop
  | .style selector =>
    trim selector = selector ∧ ¬mediaKeyword.toList <+: selector.toList ∧
      ¬keyframesKeyword.toList <+: selector.toList
  | .media condition selector =>
    trim condition = condition ∧ trim selector = selector ∧ '\x7b' ∉ selector.toList

instance (target : Target) : Decidable target.Readable :=
  match target with
  | .style _ => inferInstanceAs (Decidable (_ ∧ _ ∧ _))
  | .media _ _ => inferInstanceAs (Decidable (_ ∧ _ ∧ _))

/-- The record of a target with the given declarations. -/
def Target.record (declarations : List Declaration) : Target → Record
  | .style selector => .style ⟨selector, declarations⟩
  | .media condition selector => .media condition ⟨selector, declarations⟩

@[simp] theorem Target.declarations_record (declarations : List Declaration) (target : Target) :
    (target.record declarations).declarations = declarations := by
  cases target <;> rfl

@[simp] theorem Target.key?_record (declarations : List Declaration) (target : Target) :
    (target.record declarations).key? = some (matchKey target.selector target.condition?) := by
  cases target <;> rfl

theorem isPrefixOf?_eq_none_iff {as cs : List Char} : as.isPrefixOf? cs = none ↔ ¬as <+: cs := by
  cases hp : as.isPrefixOf? cs with
  | none =>
    refine iff_of_true rfl ?_
    rintro ⟨rest, hrest⟩
    rw [List.isPrefixOf?_eq_some_iff_append_eq.mpr hrest] at hp
    contradiction
  | some rest =>
    exact iff_of_false (by simp) (not_not_intro ⟨rest, List.append_eq_of_isPrefixOf?_eq_some hp⟩)

/-- A header that has neither keyword is the selector of a style rule. -/
theorem read_of_no_keyword {header : String}
    (hmedia : ¬mediaKeyword.toList <+: trimChars header.toList)
    (hkeyframes : ¬keyframesKeyword.toList <+: trimChars header.toList) (block : String) :
    Record.read header block = .style (.read (trim header) block) := by
  rw [← isPrefixOf?_eq_none_iff] at hmedia hkeyframes
  simp only [Record.read, hmedia, hkeyframes, trim]

theorem read_style {selector : String} (h : (Target.style selector).Readable) (block : String) :
    Record.read selector block = .style ⟨selector, Declaration.parse block⟩ := by
  obtain ⟨htrim, hmedia, hkeyframes⟩ := h
  have hchars := trim_eq_self_iff.mp htrim
  rw [← hchars] at hmedia hkeyframes
  rw [read_of_no_keyword hmedia hkeyframes, htrim, StyleRecord.read, htrim]

theorem read_mediaHeader (condition block : String) :
    Record.read (mediaHeader condition) block =
      .media (trim condition) (.read (splitBraced block).1 (splitBraced block).2) := by
  have hheader : trimChars (mediaHeader condition).toList =
      mediaKeyword.toList ++ trimEnd (' ' :: condition.toList) := by
    rw [← trimChars_append_of_ne_nil (by decide) (by decide)]
    simp [mediaHeader]
  have hkeyword : mediaKeyword.toList.isPrefixOf? (trimChars (mediaHeader condition).toList) =
      some (trimEnd (' ' :: condition.toList)) := by
    rw [List.isPrefixOf?_eq_some_iff_append_eq, hheader]
  unfold Record.read
  simp only [hkeyword, trimChars_trimEnd, trimChars_cons_space]
  rfl

/-! ## Rules -/

/-- A rule whose texts a sheet can read. -/
structure Rule.Readable (rule : Rule) : Prop where
  target : rule.target.Readable
  clean : ∀ declaration ∈ rule.declarations, declaration.Clean

instance (rule : Rule) : Decidable rule.Readable :=
  decidable_of_iff (rule.target.Readable ∧ ∀ declaration ∈ rule.declarations, declaration.Clean)
    ⟨fun ⟨htarget, hclean⟩ => ⟨htarget, hclean⟩, fun h => ⟨h.target, h.clean⟩⟩

theorem read_eq_record {rule : Rule} (h : rule.Readable) :
    Record.read rule.header rule.block =
      rule.target.record (Declaration.merge [] rule.declarations) := by
  obtain ⟨target, declarations⟩ := rule
  obtain ⟨htarget, hclean⟩ := h
  cases target with
  | style selector =>
    simp only [Rule.header, Rule.block, Target.record]
    rw [read_style htarget, Declaration.parse_render hclean]
  | media condition selector =>
    obtain ⟨hcondition, hselector, hbrace⟩ := htarget
    have hrender : trim (Declaration.render declarations) = Declaration.render declarations :=
      trim_eq_self_iff.mpr (Declaration.trimChars_render hclean)
    simp only [Rule.header, Rule.block, Target.record]
    rw [read_mediaHeader, hcondition, splitBraced_braced hbrace, hrender, hselector]
    rw [StyleRecord.read, hselector, Declaration.parse_render hclean]

/-- A rule that a sheet stores as it is: it is readable and declares no property twice. -/
structure Rule.WellFormed (rule : Rule) : Prop extends rule.Readable where
  nodup : (rule.declarations.map Declaration.property).Nodup

instance (rule : Rule) : Decidable rule.WellFormed :=
  decidable_of_iff (rule.Readable ∧ (rule.declarations.map Declaration.property).Nodup)
    ⟨fun ⟨hreadable, hnodup⟩ => ⟨hreadable, hnodup⟩, fun h => ⟨h.toReadable, h.nodup⟩⟩

/-- **Rules are read back.** The record that a sheet makes of the header and the block of a well-formed
rule has the rule's target and declarations, and so its key. -/
theorem read_header_block {rule : Rule} (h : rule.WellFormed) :
    Record.read rule.header rule.block = rule.target.record rule.declarations ∧
      (Record.read rule.header rule.block).key? = some rule.key ∧
      (Record.read rule.header rule.block).declarations = rule.declarations := by
  have hread : Record.read rule.header rule.block = rule.target.record rule.declarations := by
    rw [read_eq_record h.toReadable, Declaration.merge_of_nodup (by simpa using h.nodup),
      List.nil_append]
  rw [hread]
  exact ⟨rfl, Target.key?_record _ _, Target.declarations_record _ _⟩

/-- A media rule with braces, colons and semicolons in quotes and parentheses. -/
def quotedRule : Rule :=
  ⟨.media "(min-width: 10px) and print" ".x[data-a=\"1\"] > li",
    [⟨"content", "\"\x7d;\\\"(:\x7b\""⟩, ⟨"background", "url(data:image/png;base64,A:\x7d)"⟩]⟩

theorem read_header_block_quotedRule :
    quotedRule.WellFormed ∧
      Record.read quotedRule.header quotedRule.block =
        quotedRule.target.record quotedRule.declarations ∧
      (Record.read quotedRule.header quotedRule.block).key? = some quotedRule.key ∧
      (Record.read quotedRule.header quotedRule.block).declarations = quotedRule.declarations := by
  have h : quotedRule.WellFormed := by decide
  exact ⟨h, read_header_block h⟩

end StyleSync
