import StyleSync.Proofs.Css.Contexts
import StyleSync.Proofs.Logging

/-! # What flattening leaves out is warned about

The visits of a block leave out at-rules that are not supported, with all that is in them, and texts
under `extend`. Stated here:

* `Visited`: the blocks that flattening a block comes to, with their selectors, and `visited_iff`: these
  are the visits;
* `LeftOut`: the line about an entry that is left out, and `mem_notices_iff`: the notices make up these
  lines;
* `Block.pruned`: a block without what is below unsupported at-rules, and `sites_pruned`: the visits are
  the same without it;
* `flatten_warns`: what flattening a block adds to the warnings, and what it logs.
-/

set_option autoImplicit false

namespace StyleSync

/-! ## Visits -/

/-- The blocks that flattening a block under a selector comes to, with their selectors. -/
inductive Visited (root : String) (block : Block) : String → Block → Prop
  | root : Visited root block root block
  | part {selector key : String} {outer body : Block} : Visited root block selector outer →
      (key, .block body) ∈ outer.entries → key.toList.head? ≠ some '@' →
      Visited root block (selector ++ key) body
  | media {selector key condition : String} {outer body : Block} :
      Visited root block selector outer → (key, .block body) ∈ outer.entries →
      mediaCondition? key = some condition → Visited root block selector body

theorem head?_of_mediaCondition? {key condition : String} (h : mediaCondition? key = some condition) :
    key.toList.head? = some '@' := by
  simpa [isAtRule] using isAtRule_of_mediaCondition? h

theorem nested?_of_media {key condition : String} (h : mediaCondition? key = some condition)
    (selector : String) (media : Option String) :
    nested? selector media key = some (selector, some (narrow media condition)) := by
  unfold nested?
  rw [if_pos (head?_of_mediaCondition? h), h]
  cases media <;> rfl

theorem mem_sites_iff {root : String} {block : Block} {site : Site} :
    site ∈ sites root block ↔ ∃ d, site ∈ level root block d := by
  rw [visits_levels, List.mem_flatMap]
  constructor
  · rintro ⟨d, -, hsite⟩
    exact ⟨d, hsite⟩
  · rintro ⟨d, hsite⟩
    have hlt : d < block.height := by
      have hle := height_add_le_of_mem_level hsite
      have hpos := site.block.height_pos
      omega
    exact ⟨d, List.mem_range.mpr hlt, hsite⟩

theorem mem_sites_of_child {root : String} {block : Block} {site child : Site}
    (h : site ∈ sites root block) (hchild : child ∈ site.children) : child ∈ sites root block := by
  obtain ⟨d, hsite⟩ := mem_sites_iff.mp h
  refine mem_sites_iff.mpr ⟨d + 1, ?_⟩
  rw [level_succ]
  exact List.mem_flatMap.mpr ⟨site, hsite, hchild⟩

theorem visited_of_mem_sites {root : String} {block : Block} :
    ∀ site ∈ sites root block, Visited root block site.selector site.block := by
  refine forall_mem_visits (P := fun site => Visited root block site.selector site.block) ?_ ?_
  · intro site hsite child hchild
    obtain ⟨key, hentry, hnested⟩ := mem_children_iff.mp hchild
    rcases nested?_cases hnested with ⟨hat, hselector⟩ | ⟨condition, hcondition, hselector⟩
    · have hpart := Visited.part hsite hentry hat
      rwa [← hselector] at hpart
    · have hmedia := Visited.media hsite hentry hcondition
      rwa [← hselector] at hmedia
  · intro site hsite
    obtain rfl : site = ⟨root, none, block⟩ := List.mem_singleton.mp hsite
    exact .root

theorem visited_iff {root : String} {block : Block} {selector : String} {inner : Block} :
    Visited root block selector inner ↔ ∃ media, ⟨selector, media, inner⟩ ∈ sites root block := by
  constructor
  · intro h
    induction h with
    | root => exact ⟨none, mem_sites_iff.mpr ⟨0, List.mem_singleton_self _⟩⟩
    | @part selector key outer body _ hentry hat ih =>
      obtain ⟨media, hsite⟩ := ih
      have hnested : nested? selector media key = some (selector ++ key, media) := if_neg hat
      exact ⟨media, mem_sites_of_child hsite (mem_children_iff.mpr ⟨key, hentry, hnested⟩)⟩
    | @media selector key condition outer body _ hentry hcondition ih =>
      obtain ⟨media, hsite⟩ := ih
      have hnested := nested?_of_media hcondition selector media
      exact ⟨_, mem_sites_of_child hsite (mem_children_iff.mpr ⟨key, hentry, hnested⟩)⟩
  · rintro ⟨media, hsite⟩
    exact visited_of_mem_sites _ hsite

/-! ## Notices -/

/-- The notice about an entry of a block under a selector that is left out. -/
inductive LeftOut (selector : String) : String → Value → String → Prop
  | atRule {key : String} {body : Block} : key.toList.head? = some '@' → mediaCondition? key = none →
      LeftOut selector key (.block body) ("unsupported at-rule '" ++ key ++ "' ignored")
  | base {target : String} :
      LeftOut selector "extend" (.leaf (.text target))
        ("'extend: " ++ target ++ "' under " ++ selector ++
          " ignored; only top-level entries can extend")

theorem leftOut_iff (site : Site) {key : String} {value : Value} {message : String} :
    LeftOut site.selector key value message ↔ site.notice? key value = some message := by
  constructor
  · rintro (⟨hat, hcondition⟩ | _)
    · have hrole : isAtRule key := by simpa [isAtRule] using hat
      simp [Site.notice?, hrole, hcondition]
    · simp [Site.notice?, baseKey]
  · intro hnotice
    unfold Site.notice? at hnotice
    cases value with
    | leaf scalar =>
      cases scalar with
      | number x => simp at hnotice
      | text target =>
        by_cases hkey : key = "extend"
        · subst hkey
          obtain rfl : _ = message := by simpa [baseKey] using hnotice
          exact .base
        · simp [baseKey, hkey] at hnotice
    | block body =>
      cases hrole : isAtRule key with
      | false => simp [hrole] at hnotice
      | true =>
        have hat : key.toList.head? = some '@' := by simpa [isAtRule] using hrole
        cases hcondition : mediaCondition? key with
        | some condition => simp [hrole, hcondition] at hnotice
        | none =>
          obtain rfl : _ = message := by simpa [hrole, hcondition] using hnotice
          exact .atRule hat hcondition

theorem mem_notices_iff {root : String} {block : Block} {message : String} :
    message ∈ notices root block ↔
      ∃ selector inner, Visited root block selector inner ∧
        ∃ key value, (key, value) ∈ inner.entries ∧ LeftOut selector key value message := by
  unfold notices
  rw [List.mem_flatMap]
  constructor
  · rintro ⟨site, hsite, hmessage⟩
    obtain ⟨⟨key, value⟩, hentry, hnotice⟩ := List.mem_filterMap.mp hmessage
    exact ⟨site.selector, site.block, visited_of_mem_sites site hsite, key, value, hentry,
      (leftOut_iff site).mpr hnotice⟩
  · rintro ⟨selector, inner, hvisited, key, value, hentry, hleft⟩
    obtain ⟨media, hsite⟩ := visited_iff.mp hvisited
    exact ⟨_, hsite, List.mem_filterMap.mpr ⟨_, hentry, (leftOut_iff ⟨selector, media, inner⟩).mp hleft⟩⟩

/-! ## Below unsupported at-rules -/

/-- The block without what is below at-rules that are not supported. -/
def Block.pruned : Block → Block
  | .nil => .nil
  | .leaf key value rest => .leaf key value rest.pruned
  | .nest key body rest =>
    .nest key (if key.toList.head? = some '@' ∧ mediaCondition? key = none then .nil else body.pruned)
      rest.pruned

def Value.pruned (key : String) : Value → Value
  | .leaf value => .leaf value
  | .block body =>
    .block (if key.toList.head? = some '@' ∧ mediaCondition? key = none then .nil else body.pruned)

theorem entries_pruned (block : Block) :
    block.pruned.entries = block.entries.map fun entry => (entry.1, entry.2.pruned entry.1) := by
  induction block with
  | nil => rfl
  | leaf key value rest ih => rw [Block.pruned, Block.entries, ih]; rfl
  | nest key body rest _ ih => rw [Block.pruned, Block.entries, ih]; rfl

def Site.pruned (site : Site) : Site :=
  { site with block := site.block.pruned }

theorem leafRule?_pruned (site : Site) : site.pruned.leafRule? = site.leafRule? := by
  have hleaves : site.pruned.leaves = site.leaves := by
    simp only [Site.leaves, Site.pruned, entries_pruned, List.flatMap_map]
    congr 1
    funext entry
    cases entry.2 <;> rfl
  rw [Site.leafRule?, Site.leafRule?, hleaves]
  rfl

theorem notices_site_pruned (site : Site) : site.pruned.notices = site.notices := by
  have hnotice : ∀ (key : String) (value : Value),
      site.pruned.notice? key (value.pruned key) = site.notice? key value := by
    intro key value
    cases value with
    | leaf scalar => rfl
    | block body =>
      simp only [Site.notice?, Value.pruned, Role.of_block]
      cases isAtRule key with
      | false => rfl
      | true => cases mediaCondition? key <;> rfl
  have hentries : site.pruned.block.entries =
      site.block.entries.map fun entry => (entry.1, entry.2.pruned entry.1) := entries_pruned site.block
  rw [Site.notices, Site.notices, hentries, List.filterMap_map]
  exact List.filterMap_congr fun entry _ => hnotice entry.1 entry.2

theorem children_pruned (site : Site) : site.pruned.children = site.children.map Site.pruned := by
  rw [children_eq, children_eq, List.map_flatMap]
  simp only [Site.pruned, entries_pruned, List.flatMap_map]
  congr 1
  funext entry
  cases entry.2 with
  | leaf value => rfl
  | block body =>
    by_cases hleft : entry.1.toList.head? = some '@' ∧ mediaCondition? entry.1 = none
    · have hnone : nested? site.selector site.media entry.1 = none := by
        simp [nested?, hleft.1, hleft.2]
      simp only [Value.pruned, Site.below, hnone]
      rfl
    · simp only [Value.pruned, Site.below, if_neg hleft]
      split <;> rfl

theorem sites_pruned (root : String) (block : Block) :
    sites root block.pruned = (sites root block).map Site.pruned :=
  visits_map children_pruned [⟨root, none, block⟩]

theorem flatten_pruned (root : String) (block : Block) :
    flatten root block.pruned = flatten root block := by
  rw [flatten_eq_filterMap, flatten_eq_filterMap, sites_pruned, List.filterMap_map]
  exact List.filterMap_congr fun site _ => leafRule?_pruned site

theorem notices_pruned (root : String) (block : Block) :
    notices root block.pruned = notices root block := by
  rw [notices, notices, sites_pruned, List.flatMap_map]
  exact List.flatMap_congr fun site _ => notices_site_pruned site

/-! ## Warnings -/

/-- **Whatever is left out is warned about.** Flattening a block adds to the warnings the lines about the
entries that its visits leave out, and no others; what is below unsupported at-rules makes no difference to
the rules and to the warnings. A line is logged if it was not known, and only once. -/
theorem flatten_warns (warnings : Warnings) (root : String) (block : Block) :
    let raised := warnings.warnAll "CSS" (notices root block)
    (∀ line, line ∈ raised.2.lines ↔ line ∈ warnings.lines ∨
      ∃ selector inner, Visited root block selector inner ∧
        ∃ key value message, (key, value) ∈ inner.entries ∧ LeftOut selector key value message ∧
          line = Warnings.line "CSS" message) ∧
    raised.1.Nodup ∧
    (∀ line, line ∈ raised.1 ↔ line ∈ raised.2.lines ∧ line ∉ warnings.lines) ∧
    ∀ other : Block, other.pruned = block.pruned →
      flatten root other = flatten root block ∧ notices root other = notices root block := by
  intro raised
  have hlines : ∀ line, line ∈ raised.2.lines ↔ line ∈ warnings.lines ∨ line ∈ raised.1 := by
    intro line
    rw [Warnings.lines_warnAll, List.mem_append]
  have hlogged : ∀ line, line ∈ raised.1 ↔
      (∃ message ∈ notices root block, line = Warnings.line "CSS" message) ∧
        line ∉ warnings.lines := fun line => Warnings.mem_logged_iff warnings "CSS"
  refine ⟨fun line => ?_, Warnings.nodup_logged warnings "CSS" _, fun line => ?_, ?_⟩
  · rw [hlines, hlogged]
    simp only [mem_notices_iff]
    constructor
    · rintro (hold | ⟨⟨message, ⟨selector, inner, hvisited, key, value, hentry, hleft⟩, rfl⟩, -⟩)
      · exact Or.inl hold
      · exact Or.inr ⟨selector, inner, hvisited, key, value, message, hentry, hleft, rfl⟩
    · rintro (hold | ⟨selector, inner, hvisited, key, value, message, hentry, hleft, rfl⟩)
      · exact Or.inl hold
      · by_cases hold : Warnings.line "CSS" message ∈ warnings.lines
        · exact Or.inl hold
        · exact Or.inr ⟨⟨message, ⟨selector, inner, hvisited, key, value, hentry, hleft⟩, rfl⟩, hold⟩
  · rw [hlines, hlogged]
    tauto
  · intro other hother
    constructor
    · rw [← flatten_pruned root other, hother, flatten_pruned]
    · rw [← notices_pruned root other, hother, notices_pruned]

/-- A block that names a base at two places, with at-rules below an at-rule that is not supported. -/
def stray : Block :=
  .nest ":hover" (.leaf "extend" (.text "base") .nil)
    (.nest "@media print" (.leaf "extend" (.text "base") (.nest "@font-face" .nil .nil))
      (.nest "@font-face"
        (.leaf "top" (.text "0") (.nest "@page" .nil (.nest " li" (.leaf "left" (.text "0") .nil) .nil)))
        .nil))

/-- The same without what is below the at-rule. -/
def strayCut : Block :=
  .nest ":hover" (.leaf "extend" (.text "base") .nil)
    (.nest "@media print" (.leaf "extend" (.text "base") (.nest "@font-face" .nil .nil))
      (.nest "@font-face" .nil .nil))

theorem flatten_warns_stray :
    strayCut.pruned = stray.pruned ∧ flatten ".x" strayCut = flatten ".x" stray ∧
      (Warnings.empty.warnAll "CSS" (notices ".x" stray)).1 =
        ["[CSS] unsupported at-rule '@font-face' ignored",
          "[CSS] 'extend: base' under .x:hover ignored; only top-level entries can extend",
          "[CSS] 'extend: base' under .x ignored; only top-level entries can extend"] := by
  have hpruned : strayCut.pruned = stray.pruned := by decide
  obtain ⟨-, -, -, hbelow⟩ := flatten_warns .empty ".x" stray
  obtain ⟨hrules, hnotices⟩ := hbelow strayCut hpruned
  refine ⟨hpruned, hrules, ?_⟩
  rw [← hnotices]
  decide +kernel

end StyleSync
