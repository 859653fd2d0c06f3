import StyleSync.Proofs.Css.Levels

/-! # What conditions inside conditions mean

A condition is a list of queries between commas, and a query is a list of features joined by `and`. A block
under several conditions is given one text for all of them, in which the last query of one condition and the
first query of the next become one. Stated here:

* `Condition.queries`, `Condition.Holds`: what a condition says of features that are true or not;
* `Condition.queries_join`: the queries of two conditions joined by `and`;
* `places`: the blocks of a tree with the conditions around them, and `flatten_perm_places`: the rules are
  those of the places;
* `flatten_conditions`: when the condition of a rule says the same as all the conditions around its block.
-/

set_option autoImplicit false

namespace StyleSync

open Text

/-! ## Reading a condition -/

/-- The texts between the occurrences of `and` between blanks, which are found from the left. -/
def separate : List Char → List (List Char)
  | ' ' :: 'a' :: 'n' :: 'd' :: ' ' :: rest => [] :: separate rest
  | c :: rest => (separate rest).modifyHead (c :: ·)
  | [] => [[]]

theorem separate_ne_nil (cs : List Char) : separate cs ≠ [] := by
  fun_induction separate cs with
  | case1 rest ih => exact List.cons_ne_nil _ _
  | case2 c rest _ ih => exact fun h => ih (List.modifyHead_eq_nil_iff.mp h)
  | case3 => exact List.cons_ne_nil _ _

/-- A text whose end is the beginning of a joint. -/
def Dangling (cs : List Char) : Prop :=
  " and".toList <:+ cs

/-- The blank that begins a joint ends no joint before it, unless the text before it lacks just that blank. -/
theorem no_joint_append {c : Char} {rest : List Char}
    (hjoint : ∀ tail, c = ' ' → rest = 'a' :: 'n' :: 'd' :: ' ' :: tail → False)
    (hne : c :: rest ≠ " and".toList) (ds : List Char) :
    ∀ tail, c = ' ' → rest ++ " and ".toList ++ ds = 'a' :: 'n' :: 'd' :: ' ' :: tail → False := by
  rintro tail rfl htail
  rcases rest with _ | ⟨c₁, _ | ⟨c₂, _ | ⟨c₃, _ | ⟨c₄, rest⟩⟩⟩⟩
  · simp at htail
  · simp at htail
  · simp at htail
  · have hbeginning : [c₁, c₂, c₃] = ['a', 'n', 'd'] := congrArg (List.take 3) htail
    rw [hbeginning] at hne
    exact hne rfl
  · have hbeginning : [c₁, c₂, c₃, c₄] = ['a', 'n', 'd', ' '] := congrArg (List.take 4) htail
    cases hbeginning
    exact hjoint rest rfl rfl

theorem separate_append_joint {cs : List Char} (h : ∀ last ∈ (separate cs).getLast?, ¬ Dangling last)
    (ds : List Char) : separate (cs ++ " and ".toList ++ ds) = separate cs ++ separate ds := by
  fun_induction separate cs with
  | case1 rest ih =>
    have hlast : (separate rest).getLast? = ([] :: separate rest).getLast? :=
      (List.getLast?_cons_of_ne_nil (separate_ne_nil rest)).symm
    show [] :: separate (rest ++ " and ".toList ++ ds) = _
    rw [ih (hlast ▸ h)]
    rfl
  | case2 c rest hjoint ih =>
    have hne : c :: rest ≠ " and".toList := by
      intro heq
      obtain ⟨rfl, rfl⟩ := List.cons.inj heq
      exact h _ rfl (List.suffix_refl _)
    obtain ⟨piece, pieces, hpieces⟩ := List.exists_cons_of_ne_nil (separate_ne_nil rest)
    have hrest : ∀ last ∈ (separate rest).getLast?, ¬ Dangling last := by
      intro last hlast hdangling
      rw [hpieces] at h hlast
      cases pieces with
      | nil =>
        obtain rfl : piece = last := Option.some.inj hlast
        exact h (c :: piece) rfl (hdangling.trans (List.suffix_cons c piece))
      | cons next pieces => exact h last hlast hdangling
    rw [List.cons_append, List.cons_append, separate.eq_2 _ _ (no_joint_append hjoint hne ds), ih hrest,
      hpieces]
    rfl
  | case3 => rfl

/-- Two texts one behind the other share the part between the separators around the place where they meet. -/
theorem splitOn_append {α : Type} [BEq α] {a : α} {xs ys : List α} {init rest : List (List α)}
    {last first : List α} (hxs : xs.splitOn a = init ++ [last]) (hys : ys.splitOn a = first :: rest) :
    (xs ++ ys).splitOn a = init ++ (last ++ first) :: rest := by
  induction xs generalizing init last with
  | nil =>
    cases init with
    | nil =>
      obtain rfl : [] = last := List.singleton_inj.mp hxs
      exact hys
    | cons part init =>
      have hlength := congrArg List.length hxs
      simp at hlength
  | cons x xs ih =>
    rw [List.splitOn_cons_eq_if_modifyHead] at hxs
    rw [List.cons_append, List.splitOn_cons_eq_if_modifyHead]
    cases hx : x == a with
    | true =>
      rw [hx, if_pos rfl] at hxs
      rw [if_pos rfl]
      cases init with
      | nil => exact absurd (List.cons.inj hxs).2 (List.splitOn_ne_nil a xs)
      | cons _ init =>
        obtain ⟨rfl, htail⟩ := List.cons.inj hxs
        rw [ih htail]
        rfl
    | false =>
      obtain ⟨part, parts, hparts⟩ := List.exists_cons_of_ne_nil (List.splitOn_ne_nil a xs)
      rw [hx, if_neg Bool.false_ne_true, hparts] at hxs
      rw [if_neg Bool.false_ne_true]
      cases init with
      | nil =>
        obtain ⟨rfl, rfl⟩ := List.cons.inj hxs
        have happend : (xs ++ ys).splitOn a = [] ++ (part ++ first) :: rest := ih hparts
        rw [happend]
        rfl
      | cons _ init =>
        obtain ⟨rfl, rfl⟩ := List.cons.inj hxs
        have happend : (xs ++ ys).splitOn a = (part :: init) ++ (last ++ first) :: rest := ih hparts
        rw [happend]
        rfl

namespace Condition

/-- The features of the queries of a condition as they are spelled. -/
def pieces (condition : String) : List (List (List Char)) :=
  (condition.toList.splitOn ',').map separate

/-- Features without the blanks around them. -/
def features (query : List (List Char)) : List String :=
  query.map fun feature => String.ofList (trimChars feature)

/-- The queries of a condition, each with its features. -/
def queries (condition : String) : List (List String) :=
  (pieces condition).map features

/-- A condition is true if all features of one of its queries are. -/
def Holds (truth : String → Prop) (condition : String) : Prop :=
  ∃ query ∈ queries condition, ∀ feature ∈ query, truth feature

/-- The last feature of a condition does not run into a joint behind it. -/
def Joinable (condition : String) : Prop :=
  ∀ query ∈ (pieces condition).getLast?, ∀ feature ∈ query.getLast?, ¬ Dangling feature

instance (truth : String → Prop) [DecidablePred truth] (condition : String) :
    Decidable (Holds truth condition) :=
  inferInstanceAs (Decidable (∃ query ∈ queries condition, ∀ feature ∈ query, truth feature))

instance (condition : String) : Decidable (Joinable condition) :=
  inferInstanceAs (Decidable
    (∀ query ∈ (pieces condition).getLast?, ∀ feature ∈ query.getLast?, ¬ " and".toList <:+ feature))

/-! ## Two conditions -/

theorem pieces_join {outer : String} (h : Joinable outer) (inner : String) :
    ∃ init last first rest, pieces outer = init ++ [last] ∧ pieces inner = first :: rest ∧
      pieces (outer ++ " and " ++ inner) = init ++ (last ++ first) :: rest := by
  obtain ⟨init, last, houter⟩ : ∃ init last, outer.toList.splitOn ',' = init ++ [last] :=
    ⟨_, _, (List.dropLast_append_getLast (List.splitOn_ne_nil ',' outer.toList)).symm⟩
  obtain ⟨first, rest, hinner⟩ := List.exists_cons_of_ne_nil (List.splitOn_ne_nil ',' inner.toList)
  have hjoint : (" and ".toList).splitOn ',' = [" and ".toList] := List.splitOn_eq_singleton (by decide)
  have hsplit : (outer ++ " and " ++ inner).toList.splitOn ',' =
      init ++ (last ++ " and ".toList ++ first) :: rest := by
    rw [String.toList_append, String.toList_append]
    exact splitOn_append (splitOn_append houter hjoint) hinner
  have hpieces : pieces outer = init.map separate ++ [separate last] := by
    rw [pieces, houter, List.map_append]
    rfl
  have hlast : ∀ feature ∈ (separate last).getLast?, ¬ Dangling feature :=
    h (separate last) (by rw [hpieces, List.getLast?_concat]; rfl)
  refine ⟨init.map separate, separate last, separate first, rest.map separate, hpieces, ?_, ?_⟩
  · rw [pieces, hinner]
    rfl
  · rw [pieces, hsplit, List.map_append, List.map_cons, separate_append_joint hlast]

theorem queries_join {outer : String} (h : Joinable outer) (inner : String) :
    ∃ init last first rest, queries outer = init ++ [last] ∧ queries inner = first :: rest ∧
      queries (outer ++ " and " ++ inner) = init ++ (last ++ first) :: rest := by
  obtain ⟨init, last, first, rest, houter, hinner, hjoined⟩ := pieces_join h inner
  refine ⟨init.map features, features last, features first, rest.map features, ?_, ?_, ?_⟩
  · rw [queries, houter, List.map_append, List.map_singleton]
  · rw [queries, hinner, List.map_cons]
  · rw [queries, hjoined, List.map_append, List.map_cons, features, List.map_append]
    rfl

variable {truth : String → Prop}

theorem holds_join {outer inner : String} (h : Joinable outer) (houter : Holds truth outer)
    (hinner : Holds truth inner) : Holds truth (outer ++ " and " ++ inner) := by
  obtain ⟨init, last, first, rest, hqueries, hqueries', hjoined⟩ := queries_join h inner
  obtain ⟨query, hquery, htrue⟩ := houter
  obtain ⟨query', hquery', htrue'⟩ := hinner
  unfold Holds
  rw [hqueries, List.mem_append, List.mem_singleton] at hquery
  rw [hqueries', List.mem_cons] at hquery'
  rw [hjoined]
  rcases hquery with hinit | rfl
  · exact ⟨query, List.mem_append_left _ hinit, htrue⟩
  · rcases hquery' with rfl | hrest
    · refine ⟨query ++ query', List.mem_append_right _ List.mem_cons_self, ?_⟩
      exact List.forall_mem_append.mpr ⟨htrue, htrue'⟩
    · exact ⟨query', List.mem_append_right _ (List.mem_cons_of_mem _ hrest), htrue'⟩

theorem exists_query_of_comma_not_mem {condition : String} (h : ',' ∉ condition.toList) :
    ∃ query, queries condition = [query] := by
  refine ⟨features (separate condition.toList), ?_⟩
  rw [queries, pieces, List.splitOn_eq_singleton h]
  rfl

theorem holds_join_iff {outer inner : String} (h : Joinable outer) (houter : ',' ∉ outer.toList)
    (hinner : ',' ∉ inner.toList) :
    Holds truth (outer ++ " and " ++ inner) ↔ Holds truth outer ∧ Holds truth inner := by
  obtain ⟨init, last, first, rest, hqueries, hqueries', hjoined⟩ := queries_join h inner
  obtain ⟨query, hquery⟩ := exists_query_of_comma_not_mem houter
  obtain ⟨query', hquery'⟩ := exists_query_of_comma_not_mem hinner
  obtain rfl : init = [] := by
    have hlength := congrArg List.length (hqueries.symm.trans hquery)
    simpa using hlength
  obtain rfl : rest = [] := (List.cons.inj (hqueries'.symm.trans hquery')).2
  unfold Holds
  rw [hqueries, hqueries', hjoined]
  simp only [List.nil_append, List.mem_singleton, exists_eq_left]
  exact List.forall_mem_append

/-! ## Any number of conditions -/

theorem holds_joined {conditions : List String} (hne : conditions ≠ [])
    (hjoinable : ∀ condition ∈ conditions, Joinable condition)
    (h : ∀ condition ∈ conditions, Holds truth condition) :
    Holds truth (" and ".intercalate conditions) := by
  induction conditions with
  | nil => contradiction
  | cons outer rest ih =>
    cases rest with
    | nil =>
      rw [String.intercalate_singleton]
      exact h outer List.mem_cons_self
    | cons inner rest =>
      rw [List.forall_mem_cons] at hjoinable h
      rw [String.intercalate_cons_cons]
      exact holds_join hjoinable.1 h.1 (ih (List.cons_ne_nil _ _) hjoinable.2 h.2)

theorem comma_not_mem_joined {conditions : List String}
    (h : ∀ condition ∈ conditions, ',' ∉ condition.toList) :
    ',' ∉ (" and ".intercalate conditions).toList := by
  induction conditions with
  | nil => decide
  | cons outer rest ih =>
    rw [List.forall_mem_cons] at h
    cases rest with
    | nil =>
      rw [String.intercalate_singleton]
      exact h.1
    | cons inner rest =>
      have hjoint : ',' ∉ " and ".toList := by decide
      rw [String.intercalate_cons_cons, String.toList_append, String.toList_append]
      simp only [List.mem_append, not_or]
      exact ⟨⟨h.1, hjoint⟩, ih h.2⟩

theorem holds_joined_iff {conditions : List String} (hne : conditions ≠ [])
    (hjoinable : ∀ condition ∈ conditions, Joinable condition)
    (hcomma : ∀ condition ∈ conditions, ',' ∉ condition.toList) :
    Holds truth (" and ".intercalate conditions) ↔ ∀ condition ∈ conditions, Holds truth condition := by
  induction conditions with
  | nil => contradiction
  | cons outer rest ih =>
    cases rest with
    | nil => rw [String.intercalate_singleton, List.forall_mem_singleton]
    | cons inner rest =>
      rw [List.forall_mem_cons] at hjoinable hcomma ⊢
      have hinner := comma_not_mem_joined hcomma.2
      rw [String.intercalate_cons_cons, holds_join_iff hjoinable.1 hcomma.1 hinner,
        ih (List.cons_ne_nil _ _) hjoinable.2 hcomma.2]

/-- A condition is nowhere true without the others just if each of its queries has all features of some
query of every other. -/
theorem narrows_iff {narrowed : String} {conditions : List String} :
    (∀ truth, Holds truth narrowed → ∀ condition ∈ conditions, Holds truth condition) ↔
      ∀ query ∈ queries narrowed, ∀ condition ∈ conditions, ∃ part ∈ queries condition, part ⊆ query := by
  constructor
  · intro h query hquery
    exact h (· ∈ query) ⟨query, hquery, fun _ => id⟩
  · rintro h truth ⟨query, hquery, htrue⟩ condition hcondition
    obtain ⟨part, hpart, hsubset⟩ := h query hquery condition hcondition
    exact ⟨part, hpart, fun feature hfeature => htrue feature (hsubset hfeature)⟩

end Condition

/-! ## Places in a tree -/

/-- A block of a tree with the selector and the conditions around it, from the outside in. -/
structure Place where
  selector : String
  conditions : List String
  block : Block
deriving DecidableEq

/-- One text for the conditions around a block, if there are any. -/
def joined? : List String → Option String
  | [] => none
  | first :: rest => some (" and ".intercalate (first :: rest))

/-- What is around a block under a key, if it applies anywhere: the key of a media rule adds a condition,
and any other key that does not begin with an at sign is a further part of the selector. -/
def around? (selector : String) (conditions : List String) (key : String) :
    Option (String × List String) :=
  if key.toList.head? = some '@' then
    match mediaCondition? key with
    | none => none
    | some condition => some (selector, conditions ++ [condition])
  else some (selector ++ key, conditions)

/-- The places in a block. -/
def Block.places (selector : String) (conditions : List String) : Block → List Place
  | .nil => []
  | .leaf _ _ rest => rest.places selector conditions
  | .nest key body rest =>
    (match around? selector conditions key with
      | none => []
      | some (selector, conditions) =>
        ⟨selector, conditions, body⟩ :: body.places selector conditions) ++
      rest.places selector conditions

namespace Place

/-- A place and the places in its block. -/
def all (place : Place) : List Place :=
  place :: place.block.places place.selector place.conditions

def site (place : Place) : Site :=
  ⟨place.selector, joined? place.conditions, place.block⟩

/-- The condition of a place with conditions around it. -/
def condition (place : Place) : String :=
  " and ".intercalate place.conditions

/-- The rule of the block at a place. -/
def rule? (place : Place) : Option Rule :=
  place.site.rule?

def below (place : Place) (key : String) : Value → List Place
  | .leaf _ => []
  | .block body =>
    match around? place.selector place.conditions key with
    | none => []
    | some (selector, conditions) => [⟨selector, conditions, body⟩]

def children (place : Place) : List Place :=
  place.block.entries.flatMap fun entry => place.below entry.1 entry.2

end Place

/-- The places of a tree. -/
def places (root : String) (block : Block) : List Place :=
  Place.all ⟨root, [], block⟩

theorem joined?_concat (conditions : List String) (condition : String) :
    joined? (conditions ++ [condition]) = some (narrow (joined? conditions) condition) := by
  cases conditions with
  | nil => exact congrArg some String.intercalate_singleton
  | cons first rest =>
    have hjoined : " and ".intercalate (first :: rest ++ [condition]) =
        " and ".intercalate (first :: rest) ++ " and " ++ condition := by
      rw [String.intercalate_append_of_ne_nil (List.cons_ne_nil _ _) (List.cons_ne_nil _ _),
        String.intercalate_singleton]
    exact congrArg some hjoined

theorem nested?_joined? (selector : String) (conditions : List String) (key : String) :
    nested? selector (joined? conditions) key =
      (around? selector conditions key).map fun outer => (outer.1, joined? outer.2) := by
  unfold nested? around?
  split
  · cases mediaCondition? key with
    | none => rfl
    | some condition =>
      simp only [Option.map_some, joined?_concat]
      cases joined? conditions <;> rfl
  · rfl

namespace Place

theorem site_below (place : Place) (key : String) (value : Value) :
    place.site.below key value = (place.below key value).map site := by
  cases value with
  | leaf _ => rfl
  | block body =>
    simp only [Site.below, below, site, nested?_joined?]
    cases around? place.selector place.conditions key <;> rfl

theorem site_children (place : Place) : place.site.children = place.children.map site := by
  rw [children_eq, children, List.map_flatMap]
  simp only [site_below]
  rfl

theorem all_eq (place : Place) : place.all = place :: place.children.flatMap all := by
  obtain ⟨selector, conditions, block⟩ := place
  rw [all, children]
  congr 1
  dsimp only
  induction block with
  | nil => rfl
  | leaf key value rest ih =>
    rw [Block.places, Block.entries, List.flatMap_cons, ih]
    rfl
  | nest key body rest _ ih =>
    rw [Block.places, Block.entries, List.flatMap_cons, List.flatMap_append, ih]
    congr 1
    simp only [below]
    cases around? selector conditions key with
    | none => rfl
    | some outer => simp [all]

end Place

theorem sites_perm_places (root : String) (block : Block) :
    (sites root block).Perm ((places root block).map Place.site) := by
  have htotal : ∀ place : Place, (place.all.map Place.site).Perm
      ([place.site] ++ place.children.flatMap fun inner => inner.all.map Place.site) := by
    intro place
    rw [place.all_eq, List.map_cons, List.map_flatMap]
    exact List.Perm.refl _
  have hroot : [⟨root, none, block⟩] = [(⟨root, [], block⟩ : Place)].map Place.site := rfl
  have hvisits : ((sites root block).flatMap fun site => [site]).Perm
      ([(⟨root, [], block⟩ : Place)].flatMap fun place => place.all.map Place.site) :=
    flatMap_visits_perm Place.site_children htotal hroot
  rwa [List.flatMap_singleton', List.flatMap_singleton] at hvisits

theorem flatten_perm_places (root : String) (block : Block) :
    (flatten root block).Perm ((places root block).filterMap Place.rule?) := by
  have hrules := (sites_perm_places root block).filterMap Site.rule?
  rwa [List.filterMap_map] at hrules

theorem Place.target_of_rule? {place : Place} (hne : place.conditions ≠ []) {rule : Rule}
    (h : place.rule? = some rule) : rule.target = .media place.condition place.selector := by
  have hjoined : joined? place.conditions = some place.condition := by
    obtain ⟨first, rest, hconditions⟩ := List.exists_cons_of_ne_nil hne
    rw [condition, hconditions]
    rfl
  rw [rule?, Site.rule?] at h
  split at h
  · contradiction
  · obtain rfl := Option.some.inj h
    rw [Site.target, site, hjoined]
    rfl

open Condition

/-- **Conditions around a block.** The rules of a tree are those of its places. A rule under conditions has
one condition, which is true where all of them are. It is false elsewhere just if each of its queries has
all features of some query of every condition, so in particular if none of them is a list of several
queries. -/
theorem flatten_conditions (root : String) (block : Block) :
    (flatten root block).Perm ((places root block).filterMap Place.rule?) ∧
      ∀ place ∈ places root block, place.conditions ≠ [] →
        (∀ outer ∈ place.conditions, Joinable outer) →
          (∀ rule, place.rule? = some rule → rule.target = .media place.condition place.selector) ∧
          (∀ truth, (∀ outer ∈ place.conditions, Holds truth outer) → Holds truth place.condition) ∧
          ((∀ truth, Holds truth place.condition ↔ ∀ outer ∈ place.conditions, Holds truth outer) ↔
            ∀ query ∈ queries place.condition, ∀ outer ∈ place.conditions,
              ∃ part ∈ queries outer, part ⊆ query) ∧
          ((∀ outer ∈ place.conditions, ',' ∉ outer.toList) →
            ∀ truth, Holds truth place.condition ↔ ∀ outer ∈ place.conditions, Holds truth outer) := by
  refine ⟨flatten_perm_places root block, ?_⟩
  intro place _ hne hjoinable
  have hwide : ∀ truth, (∀ outer ∈ place.conditions, Holds truth outer) → Holds truth place.condition :=
    fun truth => holds_joined hne hjoinable
  refine ⟨fun rule => Place.target_of_rule? hne, hwide, ?_, ?_⟩
  · rw [← narrows_iff]
    constructor
    · intro h truth
      exact (h truth).mp
    · intro h truth
      exact ⟨h truth, hwide truth⟩
  · intro hcomma truth
    exact holds_joined_iff hne hjoinable hcomma

/-- Blocks under two conditions each, of which one is a list of two queries. -/
def screens : Block :=
  .nest "@media screen, print"
    (.nest "@media (min-width: 10px)" (.leaf "color" (.text "red") .nil) .nil)
    (.nest "@media screen"
      (.nest "@media (hover) and (color)" (.leaf "top" (.text "0") .nil) .nil) .nil)

theorem flatten_conditions_screens :
    let listed : Place :=
      ⟨".x", ["screen, print", "(min-width: 10px)"], .leaf "color" (.text "red") .nil⟩
    let single : Place := ⟨".x", ["screen", "(hover) and (color)"], .leaf "top" (.text "0") .nil⟩
    listed ∈ places ".x" screens ∧ single ∈ places ".x" screens ∧
      (¬ ∀ truth, Holds truth listed.condition ↔ ∀ outer ∈ listed.conditions, Holds truth outer) ∧
      ∀ truth, Holds truth single.condition ↔ ∀ outer ∈ single.conditions, Holds truth outer := by
  intro listed single
  have hlisted : listed ∈ places ".x" screens := by decide
  have hsingle : single ∈ places ".x" screens := by decide
  obtain ⟨-, -, hiff, -⟩ :=
    (flatten_conditions ".x" screens).2 listed hlisted (by decide) (by decide)
  obtain ⟨-, -, -, hplain⟩ :=
    (flatten_conditions ".x" screens).2 single hsingle (by decide) (by decide)
  refine ⟨hlisted, hsingle, ?_, hplain (by decide)⟩
  rw [hiff]
  decide

/-- Within a list of queries, a condition does not narrow all of them: here a rule for wide screens applies
to every screen. -/
theorem flatten_screens_widens :
    (flatten ".x" screens).map Rule.target =
        [.media "screen, print and (min-width: 10px)" ".x",
          .media "screen and (hover) and (color)" ".x"] ∧
      Holds (· = "screen") "screen, print and (min-width: 10px)" ∧
      ¬ Holds (· = "screen") "(min-width: 10px)" := by
  decide +kernel

end StyleSync
