import StyleSync.Css.Rule
import StyleSync.Style.PropertyName

/-! # Flattening a block

A nested block becomes a list of flat rules. The blocks are visited in the order in which they are
discovered: those found in a block queue up behind all that already wait, so that the declarations of
a block come before those of any block inside it.

* `sites` is the list of visits;
* `flatten` has one rule for each visited block that declares something;
* `notices` names what the visits leave out.
-/

set_option autoImplicit false

namespace StyleSync

/-! ## Visits -/

/-- A block together with where its declarations apply. -/
structure Site where
  selector : String
  media : Option String
  block : Block
deriving Repr, DecidableEq

/-- A condition inside another one narrows it. -/
def narrow : Option String → String → String
  | none, inner => inner
  | some outer, inner => outer ++ " and " ++ inner

namespace Site

/-- The site of an entry of the block, if that is visited. -/
def child? (site : Site) (key : String) (value : Value) : Option Site :=
  match Role.of key value with
  | .combinator body => some ⟨site.selector ++ key, site.media, body⟩
  | .media condition body => some ⟨site.selector, some (narrow site.media condition), body⟩
  | _ => none

/-- The sites of the blocks nested directly in the block. -/
def children (site : Site) : List Site :=
  site.block.entries.filterMap fun entry => site.child? entry.1 entry.2

/-- The declaration of an entry of the block, if it is a property. -/
def declaration? (key : String) (value : Value) : Option Declaration :=
  match Role.of key value with
  | .property scalar => some ⟨dashedName key, scalar.render⟩
  | _ => none

/-- The declarations of the block itself. -/
def declarations (site : Site) : List Declaration :=
  site.block.entries.filterMap fun entry => declaration? entry.1 entry.2

/-- Where the declarations apply. -/
def target (site : Site) : Target :=
  .of site.selector site.media

/-- The rule of the block, unless it declares nothing. -/
def rule? (site : Site) : Option Rule :=
  match site.declarations with
  | [] => none
  | declarations => some ⟨site.target, declarations⟩

end Site

/-- The measures of the blocks of a list of sites, taken together. -/
def totalWeight : List Site → Nat
  | [] => 0
  | site :: rest => site.block.weight + totalWeight rest

theorem totalWeight_append (as bs : List Site) :
    totalWeight (as ++ bs) = totalWeight as + totalWeight bs := by
  induction as with
  | nil => simp [totalWeight]
  | cons site rest ih =>
    simp only [List.cons_append, totalWeight, ih]
    omega

theorem Site.block_of_child? {key : String} {value : Value} (site : Site) {child : Site}
    (h : site.child? key value = some child) : value = .block child.block := by
  unfold Site.child? at h
  cases value with
  | leaf scalar =>
    cases scalar with
    | text name => by_cases hk : key = baseKey <;> simp [Role.of, hk] at h
    | number x => simp [Role.of] at h
  | block body =>
    cases ha : isAtRule key with
    | false =>
      simp [Role.of, ha] at h
      simp [← h]
    | true =>
      cases hc : mediaCondition? key with
      | none => simp [Role.of, ha, hc] at h
      | some condition =>
        simp [Role.of, ha, hc] at h
        simp [← h]

theorem totalWeight_filterMap_lt (site : Site) (block : Block) :
    totalWeight (block.entries.filterMap fun entry => site.child? entry.1 entry.2) <
      block.weight := by
  induction block with
  | nil => simp [Block.entries, totalWeight, Block.weight]
  | leaf key value rest ih =>
    have hnone : site.child? key (.leaf value) = none := by
      cases h : site.child? key (.leaf value) with
      | none => rfl
      | some child => exact absurd (Site.block_of_child? site h) (by simp)
    simp only [Block.entries, List.filterMap_cons, hnone, Block.weight]
    omega
  | nest key body rest _ ih =>
    simp only [Block.entries, List.filterMap_cons, Block.weight]
    cases h : site.child? key (.block body) with
    | none =>
      have := body.weight_pos
      simp only
      omega
    | some child =>
      have hbody : child.block = body := by
        have := Site.block_of_child? site h
        simpa using this.symm
      simp only [totalWeight, hbody] at ih ⊢
      omega

/-- The blocks nested in a block weigh less than the block. -/
theorem totalWeight_children_lt (site : Site) :
    totalWeight site.children < site.block.weight :=
  totalWeight_filterMap_lt site site.block

/-- The visits that a queue of sites leads to, in order. -/
def visits : List Site → List Site
  | [] => []
  | site :: queue => site :: visits (queue ++ site.children)
termination_by queue => totalWeight queue
decreasing_by
  have := totalWeight_children_lt site
  rw [totalWeight_append]
  simp only [totalWeight] at this ⊢
  omega

@[simp] theorem visits_nil : visits [] = [] := by
  rw [visits]

theorem visits_cons (site : Site) (queue : List Site) :
    visits (site :: queue) = site :: visits (queue ++ site.children) := by
  rw [visits]

/-- The visits that flatten a block under a selector. -/
def sites (selector : String) (block : Block) : List Site :=
  visits [⟨selector, none, block⟩]

/-! ## Rules -/

/-- The flat rules of a block under a selector. -/
def flatten (selector : String) (block : Block) : List Rule :=
  (sites selector block).filterMap Site.rule?

/-! ## Notices -/

/-- The component whose notices are those about style input. -/
def noticeComponent : String := "CSS"

/-- The notice about an entry that a visit leaves out. -/
def Site.notice? (site : Site) (key : String) (value : Value) : Option String :=
  match Role.of key value with
  | .unsupported _ => some ("unsupported at-rule '" ++ key ++ "' ignored")
  | .base name =>
    some ("'extend: " ++ name ++ "' under " ++ site.selector ++
      " ignored; only top-level entries can extend")
  | _ => none

/-- The notices about the entries that a visit leaves out, in order. -/
def Site.notices (site : Site) : List String :=
  site.block.entries.filterMap fun entry => site.notice? entry.1 entry.2

/-- The notices that flattening a block under a selector gives rise to, in order. -/
def notices (selector : String) (block : Block) : List String :=
  (sites selector block).flatMap Site.notices

end StyleSync
