import Mathlib.Data.List.Basic
import StyleSync.Css.Flattening

/-! # Flattening goes level by level

The queue of `visits` puts the blocks of a tree in the order of their depth. Stated here:

* `Site.below`, `Site.leaves`, `Site.leafRule?`: what an entry leads to, what a block declares and
  the rule it makes, read off keys and values without the roles of entries;
* `mem_children_iff`: the children of a site, each from one of its keys;
* `level root block d`: the sites at depth `d`, each level from the one before it;
* `visits_append`: a queue is used up before anything that it leads to;
* `visits_map`: a change that children inherit can be made after the visits;
* `visits_levels`: the visits of a block are its levels one after another;
* `flatMap_visits_perm`: what the trees of a queue have in all is found at its visits;
* `Block.declared`: the declarations of a tree with their targets, by recursion on the tree, and
  `flatMap_own_visits`: the visits come to each of them once;
* `flatten_eq_levels`: the rules of a block are those of its levels.
-/

set_option autoImplicit false

namespace StyleSync

/-! ## Levels -/

/-- The selector and the media condition of a block under a key, if it applies anywhere. A key that
begins with an at sign is dropped unless it sets a media condition, which narrows the one outside; any
other key is a further part of the selector. -/
def nested? (selector : String) (media : Option String) (key : String) :
    Option (String × Option String) :=
  if key.toList.head? = some '@' then
    match mediaCondition? key, media with
    | none, _ => none
    | some condition, none => some (selector, some condition)
    | some condition, some outer => some (selector, some (outer ++ " and " ++ condition))
  else some (selector ++ key, media)

/-- The sites that an entry of a site's block leads to. -/
def Site.below (site : Site) (key : String) : Value → List Site
  | .leaf _ => []
  | .block body =>
    match nested? site.selector site.media key with
    | none => []
    | some (selector, media) => [⟨selector, media, body⟩]

/-- The sites at a depth of the tree of a block, from left to right. -/
def level (root : String) (block : Block) : Nat → List Site
  | 0 => [⟨root, none, block⟩]
  | d + 1 => (level root block d).flatMap fun site =>
      site.block.entries.flatMap fun entry => site.below entry.1 entry.2

/-- What a leaf declares; a text under `extend` names a base instead. -/
def Scalar.declared (key : String) : Scalar → List Declaration
  | .text value => if key = "extend" then [] else [⟨dashedName key, value⟩]
  | .number value => [⟨dashedName key, value.render⟩]

/-- The declarations of the leaves of a site's block. -/
def Site.leaves (site : Site) : List Declaration :=
  site.block.entries.flatMap fun entry =>
    match entry.2 with
    | .leaf value => value.declared entry.1
    | .block _ => []

/-- The rule of the leaves of a site's block, if there are any. -/
def Site.leafRule? (site : Site) : Option Rule :=
  if site.leaves = [] then none
  else match site.media with
    | none => some ⟨.style site.selector, site.leaves⟩
    | some condition => some ⟨.media condition site.selector, site.leaves⟩

theorem toList_child? (site : Site) (key : String) (value : Value) :
    (site.child? key value).toList = site.below key value := by
  cases value with
  | leaf scalar =>
    cases scalar with
    | text text => by_cases h : key = baseKey <;> simp [Site.child?, Site.below, h]
    | number x => simp [Site.child?, Site.below]
  | block body =>
    cases hat : isAtRule key with
    | false =>
      have hhead : key.toList.head? ≠ some '@' := by simpa [isAtRule] using hat
      simp [Site.child?, Site.below, nested?, hat, hhead]
    | true =>
      have hhead : key.toList.head? = some '@' := by simpa [isAtRule] using hat
      cases hc : mediaCondition? key with
      | none => simp [Site.child?, Site.below, nested?, hat, hhead, hc]
      | some condition =>
        cases hm : site.media <;>
          simp [Site.child?, Site.below, nested?, hat, hhead, hc, hm, narrow]

theorem children_eq (site : Site) :
    site.children = site.block.entries.flatMap fun entry => site.below entry.1 entry.2 := by
  unfold Site.children
  rw [List.filterMap_eq_flatMap_toList]
  simp only [toList_child?]

/-- A key that sets a condition leaves the selector, any other key that leads somewhere is added to it. -/
theorem nested?_cases {selector key : String} {media : Option String}
    {context : String × Option String} (h : nested? selector media key = some context) :
    (key.toList.head? ≠ some '@' ∧ context.1 = selector ++ key) ∨
      ∃ condition, mediaCondition? key = some condition ∧ context.1 = selector := by
  unfold nested? at h
  by_cases hat : key.toList.head? = some '@'
  · rw [if_pos hat] at h
    cases hcondition : mediaCondition? key with
    | none => simp [hcondition] at h
    | some condition =>
      refine Or.inr ⟨condition, rfl, ?_⟩
      cases media with
      | none => simp [hcondition] at h; rw [← h]
      | some outer => simp [hcondition] at h; rw [← h]
  · rw [if_neg hat, Option.some.injEq] at h
    exact Or.inl ⟨hat, by rw [← h]⟩

theorem mem_children_iff {site child : Site} :
    child ∈ site.children ↔ ∃ key, (key, .block child.block) ∈ site.block.entries ∧
      nested? site.selector site.media key = some (child.selector, child.media) := by
  rw [children_eq, List.mem_flatMap]
  constructor
  · rintro ⟨⟨key, value⟩, hentry, hbelow⟩
    cases value with
    | leaf value => exact absurd hbelow List.not_mem_nil
    | block body =>
      unfold Site.below at hbelow
      cases hnested : nested? site.selector site.media key with
      | none => simp [hnested] at hbelow
      | some context =>
        obtain rfl : child = ⟨context.1, context.2, body⟩ := by simpa [hnested] using hbelow
        exact ⟨key, hentry, hnested⟩
  · rintro ⟨key, hentry, hnested⟩
    exact ⟨_, hentry, by simp [Site.below, hnested]⟩

theorem level_succ (root : String) (block : Block) (d : Nat) :
    level root block (d + 1) = (level root block d).flatMap Site.children := by
  rw [level]
  simp only [← children_eq]

theorem declarations_eq_leaves (site : Site) : site.declarations = site.leaves := by
  unfold Site.declarations Site.leaves
  rw [List.filterMap_eq_flatMap_toList]
  congr 1
  funext ⟨key, value⟩
  cases value with
  | block body =>
    cases hat : isAtRule key with
    | false => simp [Site.declaration?, hat]
    | true => cases hc : mediaCondition? key <;> simp [Site.declaration?, hat, hc]
  | leaf scalar =>
    cases scalar with
    | number x => simp [Site.declaration?, Scalar.declared, Scalar.render]
    | text text =>
      by_cases h : key = "extend" <;>
        simp [Site.declaration?, Scalar.declared, Scalar.render, baseKey, h]

theorem rule?_eq_leafRule? (site : Site) : site.rule? = site.leafRule? := by
  unfold Site.rule? Site.leafRule?
  rw [declarations_eq_leaves]
  cases hl : site.leaves with
  | nil => simp
  | cons leaf leaves => cases hm : site.media <;> simp [Site.target, Target.of, hm]

/-! ## The queue -/

/-- A queue is used up before what it leads to is visited. -/
theorem visits_append (queue waiting : List Site) :
    visits (queue ++ waiting) = queue ++ visits (waiting ++ queue.flatMap Site.children) := by
  induction queue generalizing waiting with
  | nil => simp
  | cons site queue ih =>
    rw [List.cons_append, visits_cons, List.append_assoc, ih]
    simp

theorem visits_eq_append (queue : List Site) :
    visits queue = queue ++ visits (queue.flatMap Site.children) := by
  simpa using visits_append queue []

/-- What holds of a queue and is handed down to the blocks nested in a block holds of all visits. -/
theorem forall_mem_visits {P : Site → Prop}
    (hchildren : ∀ site, P site → ∀ child ∈ site.children, P child) {queue : List Site}
    (hqueue : ∀ site ∈ queue, P site) : ∀ site ∈ visits queue, P site := by
  fun_induction visits queue with
  | case1 => exact hqueue
  | case2 first queue ih =>
    rw [List.forall_mem_cons] at hqueue ⊢
    exact ⟨hqueue.1, ih (List.forall_mem_append.mpr ⟨hqueue.2, hchildren first hqueue.1⟩)⟩

/-- A change of sites that is handed down to the blocks nested in a block is the same for all visits. -/
theorem visits_map {change : Site → Site}
    (hchildren : ∀ site, (change site).children = site.children.map change) (queue : List Site) :
    visits (queue.map change) = (visits queue).map change := by
  fun_induction visits queue with
  | case1 => exact visits_nil
  | case2 site queue ih =>
    rw [List.map_cons, visits_cons, hchildren, ← List.map_append, ih, List.map_cons]

/-- The visits are the first levels and what the next one leads to. -/
theorem sites_eq_levels_append (root : String) (block : Block) (d : Nat) :
    sites root block = (List.range d).flatMap (level root block) ++ visits (level root block d) := by
  induction d with
  | zero => rfl
  | succ d ih =>
    rw [ih, visits_eq_append, ← level_succ, List.range_succ]
    simp

/-! ## Depth -/

/-- The number of levels of a block. -/
def Block.height : Block → Nat
  | .nil => 1
  | .leaf _ _ rest => rest.height
  | .nest _ body rest => max (body.height + 1) rest.height

theorem Block.height_pos (block : Block) : 0 < block.height := by
  induction block with
  | nil => exact Nat.one_pos
  | leaf _ _ rest ih => exact ih
  | nest _ body rest _ ih => exact Nat.lt_of_lt_of_le ih (Nat.le_max_right _ _)

theorem Block.height_lt_of_mem {block body : Block} {key : String}
    (h : (key, Value.block body) ∈ block.entries) : body.height < block.height := by
  induction block with
  | nil => simp [entries] at h
  | leaf k value rest ih =>
    have hrest : (key, Value.block body) ∈ rest.entries := by simpa [entries] using h
    exact ih hrest
  | nest k first rest _ ih =>
    simp only [entries, List.mem_cons, Prod.mk.injEq, Value.block.injEq] at h
    rcases h with ⟨-, rfl⟩ | hrest
    · exact Nat.lt_of_lt_of_le (Nat.lt_succ_self _) (Nat.le_max_left _ _)
    · exact Nat.lt_of_lt_of_le (ih hrest) (Nat.le_max_right _ _)

theorem height_lt_of_mem_children {site child : Site} (h : child ∈ site.children) :
    child.block.height < site.block.height := by
  obtain ⟨⟨key, value⟩, hentry, hchild⟩ := List.mem_filterMap.mp h
  have hvalue : value = .block child.block := Site.block_of_child? site hchild
  subst hvalue
  exact Block.height_lt_of_mem hentry

theorem height_add_le_of_mem_level {root : String} {block : Block} {d : Nat} {site : Site}
    (h : site ∈ level root block d) : site.block.height + d ≤ block.height := by
  induction d generalizing site with
  | zero =>
    have hsite : site = ⟨root, none, block⟩ := by simpa [level] using h
    subst hsite
    exact Nat.le_refl _
  | succ d ih =>
    rw [level_succ] at h
    obtain ⟨parent, hparent, hsite⟩ := List.mem_flatMap.mp h
    have hlt := height_lt_of_mem_children hsite
    have hle := ih hparent
    omega

theorem level_eq_nil {root : String} {block : Block} {d : Nat} (h : block.height ≤ d) :
    level root block d = [] := by
  rw [List.eq_nil_iff_forall_not_mem]
  intro site hsite
  have hle := height_add_le_of_mem_level hsite
  have hpos := site.block.height_pos
  omega

theorem visits_levels (root : String) (block : Block) :
    sites root block = (List.range block.height).flatMap (level root block) := by
  rw [sites_eq_levels_append root block block.height, level_eq_nil (Nat.le_refl _)]
  simp

/-! ## What a tree declares -/

/-- The declarations of a block and of the blocks in it with their targets, by recursion on the
tree. -/
def Block.declared (selector : String) (media : Option String) :
    Block → List (Target × Declaration)
  | .nil => []
  | .leaf key value rest =>
    (value.declared key).map (Target.of selector media, ·) ++ rest.declared selector media
  | .nest key body rest =>
    (match nested? selector media key with
      | none => []
      | some (selector, media) => body.declared selector media) ++ rest.declared selector media

/-- The declarations of a site's block with their target. -/
def Site.own (site : Site) : List (Target × Declaration) :=
  site.leaves.map (Target.of site.selector site.media, ·)

/-- The declarations of a site's block and of the blocks in it with their targets. -/
def Site.declared (site : Site) : List (Target × Declaration) :=
  site.block.declared site.selector site.media

theorem Site.declared_perm (site : Site) :
    site.declared.Perm (site.own ++ site.children.flatMap Site.declared) := by
  obtain ⟨selector, media, block⟩ := site
  rw [children_eq]
  simp only [Site.declared, Site.own, Site.leaves]
  induction block with
  | nil => simp [Block.declared, Block.entries]
  | leaf key value rest ih =>
    simp only [Block.declared, Block.entries, List.flatMap_cons, Site.below, List.nil_append,
      List.map_append, List.append_assoc]
    exact List.Perm.append_left _ ih
  | nest key body rest _ ih =>
    simp only [Block.declared, Block.entries, List.flatMap_cons, Site.below, List.nil_append,
      List.flatMap_append] at ih ⊢
    cases nested? selector media key with
    | none => simpa using ih
    | some context =>
      simp only [List.flatMap_cons, List.flatMap_nil, List.append_nil, Site.declared]
      exact (List.Perm.append_left _ ih).trans (List.perm_append_comm_assoc _ _ _)

/-- What the trees of a queue have in all, each of them its own part and that of the trees right below it, is
found at the visits of the queue in another order. -/
theorem flatMap_visits_perm {γ β : Type} {site : γ → Site} {inner : γ → List γ}
    (hinner : ∀ tree, (site tree).children = (inner tree).map site) {own : Site → List β}
    {total : γ → List β} (htotal : ∀ tree, (total tree).Perm (own (site tree) ++ (inner tree).flatMap total))
    {queue : List Site} {trees : List γ} (hqueue : queue = trees.map site) :
    ((visits queue).flatMap own).Perm (trees.flatMap total) := by
  fun_induction visits queue generalizing trees with
  | case1 =>
    obtain rfl : trees = [] := List.map_eq_nil_iff.mp hqueue.symm
    exact List.Perm.refl _
  | case2 first queue ih =>
    obtain ⟨tree, trees, rfl, rfl, rfl⟩ := List.map_eq_cons_iff.mp hqueue.symm
    have hlast : trees.map site ++ (site tree).children = (trees ++ inner tree).map site := by
      rw [List.map_append, hinner]
    have hbehind : ((trees ++ inner tree).flatMap total).Perm
        ((inner tree).flatMap total ++ trees.flatMap total) := by
      rw [List.flatMap_append]
      exact List.perm_append_comm
    rw [List.flatMap_cons, List.flatMap_cons]
    refine (List.Perm.append_left _ ((ih hlast).trans hbehind)).trans ?_
    rw [← List.append_assoc]
    exact List.Perm.append_right _ (htotal tree).symm

/-- The visits of a queue declare what the trees in the queue do, in another order. -/
theorem flatMap_own_visits (queue : List Site) :
    ((visits queue).flatMap Site.own).Perm (queue.flatMap Site.declared) := by
  have hinner : ∀ site : Site, (id site).children = site.children.map id := by
    intro site
    rw [List.map_id]
    rfl
  exact flatMap_visits_perm hinner Site.declared_perm (List.map_id queue).symm

theorem flatMap_leafRule? (sites : List Site) :
    (sites.filterMap Site.leafRule?).flatMap (fun rule =>
      rule.declarations.map (rule.target, ·)) = sites.flatMap Site.own := by
  induction sites with
  | nil => rfl
  | cons site sites ih =>
    rw [List.flatMap_cons, ← ih, List.filterMap_cons]
    unfold Site.leafRule? Site.own
    by_cases hl : site.leaves = []
    · simp [hl]
    · cases hm : site.media <;> simp [hl, Target.of]

theorem flatten_eq_filterMap (root : String) (block : Block) :
    flatten root block = (sites root block).filterMap Site.leafRule? := by
  unfold flatten
  congr 1
  funext site
  exact rule?_eq_leafRule? site

/-- **Flattening a block.** The levels end, and the flat rules are those of the levels one after
another, a rule for every site with leaves. Together they hold each declaration of the tree once, with
the target that its place in the tree gives it. -/
theorem flatten_eq_levels (root : String) (block : Block) :
    (∀ d, level root block (block.height + d) = []) ∧
    flatten root block =
      ((List.range block.height).flatMap (level root block)).filterMap Site.leafRule? ∧
    ((flatten root block).flatMap fun rule => rule.declarations.map (rule.target, ·)).Perm
      (block.declared root none) := by
  refine ⟨fun d => level_eq_nil (Nat.le_add_right _ d), ?_, ?_⟩
  · rw [flatten_eq_filterMap, visits_levels]
  · rw [flatten_eq_filterMap, flatMap_leafRule?]
    refine (flatMap_own_visits _).trans ?_
    rw [List.flatMap_singleton]
    exact List.Perm.refl _

end StyleSync
