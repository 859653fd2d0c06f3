import StyleSync.Proofs.Css.Levels

/-! # Blocks in a context

What a block is flattened to depends on the text before its selector and on the conditions around it only
in the targets of the rules. Stated here:

* `children_change`: the sites in a block take over a change of its selector and its condition;
* `rules_change`: so the change can be made on the rules;
* `flatten_lone`: a block that holds one block and nothing else;
* `flatten_in_context`: a text before the selector, a key around the block, a condition around the block.
-/

set_option autoImplicit false

namespace StyleSync

/-! ## Targets -/

/-- The target with a text before its selector. -/
def Target.behind (text : String) : Target → Target
  | .style selector => .style (text ++ selector)
  | .media condition selector => .media condition (text ++ selector)

/-- The target with a condition around it. -/
def Target.inside (outer : String) : Target → Target
  | .style selector => .media outer selector
  | .media condition selector => .media (outer ++ " and " ++ condition) selector

def Rule.retarget (change : Target → Target) (rule : Rule) : Rule :=
  { rule with target := change rule.target }

/-! ## Sites -/

def Site.change (selector : String → String) (media : Option String → Option String) (site : Site) :
    Site :=
  ⟨selector site.selector, media site.media, site.block⟩

section Change

variable {selector : String → String} {media : Option String → Option String}

theorem rule?_change {target : Target → Target}
    (htarget : ∀ inner outer, Target.of (selector inner) (media outer) = target (.of inner outer))
    (site : Site) :
    (site.change selector media).rule? = site.rule?.map (Rule.retarget target) := by
  have hdeclarations : (site.change selector media).declarations = site.declarations := rfl
  unfold Site.rule?
  rw [hdeclarations]
  cases site.declarations with
  | nil => rfl
  | cons first rest =>
    show some _ = some _
    rw [Rule.retarget, Site.target, Site.target, ← htarget]
    rfl

variable (hselector : ∀ outer key, selector (outer ++ key) = selector outer ++ key)
  (hmedia : ∀ outer inner, media (some (narrow outer inner)) = some (narrow (media outer) inner))

include hselector hmedia

theorem children_change (site : Site) :
    (site.change selector media).children = site.children.map (Site.change selector media) := by
  unfold Site.children
  rw [List.map_filterMap]
  apply List.filterMap_congr
  intro entry _
  unfold Site.child?
  cases Role.of entry.1 entry.2 with
  | combinator body =>
    show some _ = some _
    simp only [Site.change, hselector]
  | media condition body =>
    show some _ = some _
    simp only [Site.change, hmedia]
  | property value => rfl
  | unsupported body => rfl
  | base name => rfl

theorem rules_change {target : Target → Target}
    (htarget : ∀ inner outer, Target.of (selector inner) (media outer) = target (.of inner outer))
    (queue : List Site) :
    (visits (queue.map (Site.change selector media))).filterMap Site.rule? =
      ((visits queue).filterMap Site.rule?).map (Rule.retarget target) := by
  rw [visits_map (children_change hselector hmedia), List.filterMap_map, List.map_filterMap]
  apply List.filterMap_congr
  intro site _
  exact rule?_change htarget site

end Change

/-! ## Blocks with one entry -/

theorem flatten_lone {selector key : String} {block : Block} {child : Site}
    (h : Site.child? ⟨selector, none, .nest key block .nil⟩ key (.block block) = some child) :
    flatten selector (.nest key block .nil) = (visits [child]).filterMap Site.rule? := by
  have hchildren : Site.children ⟨selector, none, .nest key block .nil⟩ = [child] := by
    simp [Site.children, Block.entries, h]
  have hrule : Site.rule? ⟨selector, none, .nest key block .nil⟩ = none := by
    rw [rule?_eq_leafRule?]
    rfl
  rw [flatten, sites, visits_cons, List.nil_append, hchildren, List.filterMap_cons, hrule]

/-- A condition with another one around it. -/
def within (outer : String) : Option String → Option String
  | none => some outer
  | some condition => some (outer ++ " and " ++ condition)

theorem within_narrow (outer : String) (media : Option String) (inner : String) :
    within outer (some (narrow media inner)) = some (narrow (within outer media) inner) := by
  cases media with
  | none => rfl
  | some condition =>
    simp only [within, narrow, String.append_assoc]

theorem isAtRule_of_mediaCondition? {key condition : String} (h : mediaCondition? key = some condition) :
    isAtRule key := by
  unfold mediaCondition? at h
  split at h
  · next rest hkeyword =>
    rw [List.isPrefixOf?_eq_some_iff_append_eq] at hkeyword
    unfold isAtRule
    rw [← hkeyword]
    rfl
  · contradiction

/-- **Blocks in a context.** A text before the selector of a block stands before the selectors of all of
its rules. A key around the block that is not that of an at-rule is a further part of the selector, and a
condition around the block is around all of its rules, in front of the conditions inside it. -/
theorem flatten_in_context (before root selector : String) (block : Block) :
    flatten (before ++ root) block =
        (flatten root block).map (Rule.retarget (Target.behind before)) ∧
      (∀ key : String, key.toList.head? ≠ some '@' →
        flatten selector (.nest key block .nil) = flatten (selector ++ key) block) ∧
      ∀ key condition : String, mediaCondition? key = some condition →
        flatten selector (.nest key block .nil) =
          (flatten selector block).map (Rule.retarget (Target.inside condition)) := by
  refine ⟨?_, ?_, ?_⟩
  · have htarget : ∀ inner outer, Target.of (before ++ inner) outer =
        Target.behind before (.of inner outer) := by
      intro inner outer
      cases outer <;> rfl
    exact rules_change (fun _ _ => (String.append_assoc).symm) (fun _ _ => rfl) htarget
      [⟨root, none, block⟩]
  · intro key hkey
    have hat : isAtRule key = false := by simpa [isAtRule] using hkey
    have hchild : Site.child? ⟨selector, none, .nest key block .nil⟩ key (.block block) =
        some ⟨selector ++ key, none, block⟩ := by
      simp [Site.child?, hat]
    exact flatten_lone hchild
  · intro key condition hcondition
    have hat : isAtRule key := isAtRule_of_mediaCondition? hcondition
    have hchild : Site.child? ⟨selector, none, .nest key block .nil⟩ key (.block block) =
        some ⟨selector, some condition, block⟩ := by
      simp [Site.child?, hat, hcondition, narrow]
    have htarget : ∀ inner outer, Target.of inner (within condition outer) =
        Target.inside condition (.of inner outer) := by
      intro inner outer
      cases outer <;> rfl
    rw [flatten_lone hchild]
    exact rules_change (fun _ _ => rfl) (within_narrow condition) htarget [⟨selector, none, block⟩]

/-- A block with a condition in a condition and a key between them. -/
def paged : Block :=
  .leaf "top" (.text "0")
    (.nest "@media print"
      (.nest " li" (.nest "@media (color)" (.leaf "color" (.text "red") .nil) .nil)
        (.leaf "left" (.text "auto") .nil)) .nil)

theorem flatten_in_context_paged :
    ":hover".toList.head? ≠ some '@' ∧ mediaCondition? "@media(hover) " = some "(hover)" ∧
      flatten ".x" (.nest ":hover" paged .nil) = flatten ".x:hover" paged ∧
      flatten ".x" (.nest "@media(hover) " paged .nil) =
        [⟨.media "(hover)" ".x", [⟨"top", "0"⟩]⟩,
          ⟨.media "(hover) and print" ".x", [⟨"left", "auto"⟩]⟩,
          ⟨.media "(hover) and print and (color)" ".x li", [⟨"color", "red"⟩]⟩] := by
  have hkey : ":hover".toList.head? ≠ some '@' := by decide
  have hcondition : mediaCondition? "@media(hover) " = some "(hover)" := by decide
  obtain ⟨-, hcombinator, hmedia⟩ := flatten_in_context "" "" ".x" paged
  refine ⟨hkey, hcondition, hcombinator ":hover" hkey, ?_⟩
  rw [hmedia "@media(hover) " "(hover)" hcondition]
  decide +kernel

end StyleSync
