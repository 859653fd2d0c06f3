import StyleSync.Proofs.Css.Levels
import StyleSync.Proofs.Style.Walks

/-! # Blocks that are the same

Two blocks are the same although one has the positive zero where the other has the negative one. `plain`
makes every zero positive. What is the same becomes equal (`plain_eq_of_same`), and the rules of a block
are not affected (`flatten_plain`), nor is what the blocks of a description inherit (`resolve_plain`).
What becomes equal was the same, as long as all of it was the same as itself (`Block.same_iff`).
-/

set_option autoImplicit false

namespace StyleSync

/-! ## Scalars -/

def Binary64.plain (x : Binary64) : Binary64 :=
  if x.isZero then ⟨0⟩ else x

theorem Binary64.plain_eq_of_same {x y : Binary64} (h : x.same y) : x.plain = y.plain := by
  simp only [same, Bool.and_eq_true, Bool.or_eq_true, beq_iff_eq] at h
  rcases h.2 with hbits | ⟨hx, hy⟩
  · have hsame : x = y := by
      cases x
      cases y
      exact congrArg Binary64.mk hbits
    rw [hsame]
  · rw [plain, plain, if_pos hx, if_pos hy]

theorem Binary64.isNaN_of_isZero {x : Binary64} (h : x.isZero) : x.isNaN = false := by
  have hmagnitude : x.magnitude = 0 := by simpa [isZero] using h
  simp [isNaN, hmagnitude]

theorem Binary64.isZero_of_plain {x : Binary64} (h : x.plain = ⟨0⟩) : x.isZero := by
  unfold plain at h
  split at h
  · assumption
  · rw [h]
    decide

theorem Binary64.same_iff {x y : Binary64} : x.same y ↔ x.plain = y.plain ∧ x.isNaN = false := by
  constructor
  · intro h
    refine ⟨plain_eq_of_same h, ?_⟩
    simp only [same, Bool.and_eq_true, Bool.not_eq_true'] at h
    exact h.1.1
  · rintro ⟨hplain, hx⟩
    by_cases hxz : x.isZero
    · have hyz : y.isZero := isZero_of_plain (by rw [← hplain, plain, if_pos hxz])
      simp [same, hx, isNaN_of_isZero hyz, hxz, hyz]
    · have hyz : ¬y.isZero := fun hyz => hxz (isZero_of_plain (by rw [hplain, plain, if_pos hyz]))
      rw [plain, plain, if_neg hxz, if_neg hyz] at hplain
      simp [same, hx, ← hplain]

theorem Binary64.render_plain (x : Binary64) : x.plain.render = x.render := by
  unfold plain
  split
  · next hzero =>
    have hrender : x.render = "0" := by
      simp only [render, isNaN_of_isZero hzero, hzero, Bool.false_eq_true, if_false, if_true]
    rw [hrender]
    decide
  · rfl

def Scalar.plain : Scalar → Scalar
  | .text value => .text value
  | .number value => .number value.plain

/-- Whether a scalar is the same as itself. -/
def Scalar.Definite : Scalar → Prop
  | .text _ => True
  | .number value => value.isNaN = false

theorem Scalar.same_iff {a b : Scalar} : a.same b ↔ a.plain = b.plain ∧ a.Definite := by
  cases a with
  | text value => cases b <;> simp [same, plain, Definite]
  | number value => cases b <;> simp [same, plain, Definite, Binary64.same_iff]

@[simp] theorem Scalar.declared_plain (key : String) (value : Scalar) :
    value.plain.declared key = value.declared key := by
  cases value with
  | text value => rfl
  | number value => simp only [plain, declared, Binary64.render_plain]

/-! ## Blocks -/

namespace Block

def plain : Block → Block
  | .nil => .nil
  | .leaf key value rest => .leaf key value.plain rest.plain
  | .nest key body rest => .nest key body.plain rest.plain

/-- Whether all scalars of a block are definite. -/
def Definite : Block → Prop
  | .nil => True
  | .leaf _ value rest => value.Definite ∧ rest.Definite
  | .nest _ body rest => body.Definite ∧ rest.Definite

theorem same_iff {a b : Block} : a.same b ↔ a.plain = b.plain ∧ a.Definite := by
  induction a generalizing b with
  | nil => cases b <;> simp [same, plain, Definite]
  | leaf key value rest ih =>
    cases b with
    | leaf key' value' rest' =>
      simp only [same, plain, Definite, Bool.and_eq_true, beq_iff_eq, leaf.injEq, ih, Scalar.same_iff]
      tauto
    | nil => simp [same, plain]
    | nest key' body' rest' => simp [same, plain]
  | nest key body rest ihBody ih =>
    cases b with
    | nest key' body' rest' =>
      simp only [same, plain, Definite, Bool.and_eq_true, beq_iff_eq, nest.injEq, ih, ihBody]
      tauto
    | nil => simp [same, plain]
    | leaf key' value' rest' => simp [same, plain]

theorem plain_eq_of_same {a b : Block} (h : a.same b) : a.plain = b.plain :=
  (same_iff.mp h).1

end Block

def Value.plain : Value → Value
  | .leaf value => .leaf value.plain
  | .block body => .block body.plain

def Value.Definite : Value → Prop
  | .leaf value => value.Definite
  | .block body => body.Definite

theorem Block.definite_iff {block : Block} :
    block.Definite ↔ ∀ entry ∈ block.entries, entry.2.Definite := by
  induction block with
  | nil => simp [Definite]
  | leaf key value rest ih => simp [Definite, entries, ih, Value.Definite]
  | nest key body rest _ ih => simp [Definite, entries, ih, Value.Definite]

/-- The values of entries with a function applied. -/
def Entries.mapValues {α β : Type} (f : α → β) (entries : Entries α) : Entries β :=
  entries.map fun entry => (entry.1, f entry.2)

namespace Entries

variable {α β : Type} (f : α → β)

@[simp] theorem keys_mapValues (entries : Entries α) : (entries.mapValues f).keys = entries.keys := by
  simp [mapValues, keys]

theorem get?_mapValues (entries : Entries α) (key : String) :
    (entries.mapValues f).get? key = (entries.get? key).map f := by
  induction entries with
  | nil => rfl
  | cons pair rest ih =>
    have hcons : mapValues f (pair :: rest) = (pair.1, f pair.2) :: mapValues f rest := rfl
    rw [hcons, get?, get?, ih]
    split <;> rfl

theorem insert_mapValues (key : String) (value : α) (entries : Entries α) :
    (entries.insert key value).mapValues f = (entries.mapValues f).insert key (f value) := by
  induction entries with
  | nil => rfl
  | cons pair rest ih =>
    have hcons : mapValues f (pair :: rest) = (pair.1, f pair.2) :: mapValues f rest := rfl
    rw [hcons, insert, insert, ← ih]
    split <;> rfl

theorem insertAll_mapValues (entries pairs : Entries α) :
    (entries.insertAll pairs).mapValues f =
      (entries.mapValues f).insertAll (pairs.mapValues f) := by
  induction pairs generalizing entries with
  | nil => rfl
  | cons pair rest ih =>
    have hcons : mapValues f (pair :: rest) = (pair.1, f pair.2) :: mapValues f rest := rfl
    rw [insertAll_cons, ih, insert_mapValues, hcons, insertAll_cons]

end Entries

namespace Block

theorem entries_plain (block : Block) : block.plain.entries = block.entries.mapValues Value.plain := by
  induction block with
  | nil => rfl
  | leaf key value rest ih => rw [plain, entries, ih]; rfl
  | nest key body rest _ ih => rw [plain, entries, ih]; rfl

theorem ofEntries_mapValues (pairs : Entries Value) :
    ofEntries (pairs.mapValues Value.plain) = (ofEntries pairs).plain := by
  rw [← ofEntries_entries (ofEntries pairs).plain, entries_plain, entries_ofEntries]

theorem base?_role_plain (key : String) (value : Value) :
    (Role.of key value.plain).base? = (Role.of key value).base? := by
  cases value with
  | leaf scalar => cases scalar <;> rfl
  | block body =>
    simp only [Value.plain, Role.of_block]
    split
    · split <;> rfl
    · rfl

theorem base?_plain (block : Block) : block.plain.base? = block.base? := by
  rw [base?, base?, entries_plain, Entries.mapValues, List.findSome?_map]
  simp only [Function.comp_def, base?_role_plain]

theorem over_plain (own base : Block) : (own.over base).plain = own.plain.over base.plain := by
  have hown : own.plain.ownEntries = own.ownEntries.mapValues Value.plain := by
    rw [ownEntries, ownEntries, entries_plain, Entries.mapValues, Entries.mapValues,
      List.filter_map]
    simp only [Function.comp_def, base?_role_plain]
  rw [Block.over, Block.over, insertAll, insertAll, ← ofEntries_mapValues, Entries.insertAll_mapValues, hown,
    entries_plain]

end Block

namespace Block

theorem Definite.over {own base : Block} (hown : own.Definite) (hbase : base.Definite) :
    (own.over base).Definite := by
  rw [definite_iff] at hown hbase ⊢
  intro entry hentry
  rw [Block.over, entries_insertAll] at hentry
  rcases Entries.mem_of_mem_insertAll hentry with hold | hnew
  · exact hbase entry hold
  · exact hown entry (List.mem_of_mem_filter hnew)

end Block

/-! ## Rules -/

def Site.plain (site : Site) : Site :=
  { site with block := site.block.plain }

theorem Site.leaves_plain (site : Site) : site.plain.leaves = site.leaves := by
  simp only [leaves, plain, Block.entries_plain, Entries.mapValues, List.flatMap_map]
  congr 1
  funext entry
  cases entry.2 with
  | leaf value => exact Scalar.declared_plain entry.1 value
  | block body => rfl

theorem Site.leafRule?_plain (site : Site) : site.plain.leafRule? = site.leafRule? := by
  rw [leafRule?, leafRule?, leaves_plain]
  rfl

theorem Site.children_plain (site : Site) : site.plain.children = site.children.map Site.plain := by
  rw [children_eq, children_eq, List.map_flatMap]
  simp only [plain, Block.entries_plain, Entries.mapValues, List.flatMap_map]
  congr 1
  funext entry
  cases entry.2 with
  | leaf value => rfl
  | block body =>
    simp only [Value.plain, Site.below]
    split <;> rfl

/-- The sign of zeros does not show in rules. -/
theorem flatten_plain (selector : String) (block : Block) :
    flatten selector block.plain = flatten selector block := by
  have hsites : sites selector block.plain = (sites selector block).map Site.plain :=
    visits_map Site.children_plain [⟨selector, none, block⟩]
  rw [flatten_eq_filterMap, flatten_eq_filterMap, hsites, List.filterMap_map]
  simp only [Function.comp_def, Site.leafRule?_plain]

theorem flatten_eq_of_same {a b : Block} (h : a.same b) (selector : String) :
    flatten selector a = flatten selector b := by
  rw [← flatten_plain selector a, Block.plain_eq_of_same h, flatten_plain]

/-! ## Descriptions -/

namespace Description

def plain (description : Description) : Description :=
  ⟨description.entries.mapValues Block.plain, by
    rw [Entries.keys_mapValues]
    exact description.nodup⟩

theorem sameEntries_iff {as bs : Entries Block} :
    sameEntries as bs ↔
      as.mapValues Block.plain = bs.mapValues Block.plain ∧ ∀ entry ∈ as, entry.2.Definite := by
  induction as generalizing bs with
  | nil => cases bs <;> simp [sameEntries, Entries.mapValues]
  | cons pair rest ih =>
    cases bs with
    | nil => simp [sameEntries, Entries.mapValues]
    | cons pair' rest' =>
      have hrest := @ih rest'
      simp only [Entries.mapValues] at hrest ⊢
      simp only [sameEntries, Bool.and_eq_true, beq_iff_eq, Block.same_iff, hrest, List.map_cons,
        List.cons.injEq, Prod.mk.injEq, List.forall_mem_cons]
      tauto

theorem same_iff {a b : Description} :
    a.same b ↔ a.plain = b.plain ∧ ∀ entry ∈ a.entries, entry.2.Definite := by
  have hplain : a.plain = b.plain ↔
      a.entries.mapValues Block.plain = b.entries.mapValues Block.plain := by
    simp [plain]
  rw [same, sameEntries_iff, hplain]

theorem plain_eq_of_same {a b : Description} (h : a.same b) : a.plain = b.plain :=
  (same_iff.mp h).1

variable (description : Description)

theorem keys_plain : description.plain.keys = description.keys :=
  Entries.keys_mapValues _ _

theorem get?_plain (name : String) :
    description.plain.get? name = (description.get? name).map Block.plain :=
  Entries.get?_mapValues _ _ name

theorem base?_plain (name : String) : description.plain.base? name = description.base? name := by
  rw [base?, base?, get?_plain, Option.bind_map]
  simp only [Function.comp_def, Block.base?_plain]

theorem walk_plain (path : List String) (name : String) :
    description.plain.walk path name = description.walk path name := by
  fun_induction walk description path name with
  | case1 path name hnone =>
    rw [walk]
    simp only [base?_plain, hnone]
  | case2 path name target htarget hkey =>
    rw [walk]
    simp only [base?_plain, htarget, keys_plain, hkey, not_false_eq_true, if_true]
  | case3 path name target htarget hkey hold =>
    rw [walk]
    simp only [base?_plain, htarget, keys_plain, hkey, hold, if_false, if_true]
  | case4 path name target htarget hkey hnew ih =>
    rw [walk]
    simp only [base?_plain, htarget, keys_plain, hkey, hnew, if_false, ih]

theorem block_plain (name : String) :
    description.plain.block name = (description.block name).plain := by
  rw [block, block, get?_plain]
  cases description.get? name <;> rfl

theorem mergedAlong_plain (path : List String) :
    description.plain.mergedAlong path = (description.mergedAlong path).plain := by
  induction path with
  | nil => rfl
  | cons name path ih =>
    cases path with
    | nil => exact block_plain description name
    | cons target path => rw [mergedAlong, mergedAlong, ih, block_plain, Block.over_plain]

/-- The sign of zeros does not matter for inheritance. -/
theorem resolve_plain :
    description.plain.resolve = description.resolve.map (Entries.mapValues Block.plain) := by
  have halone : ∀ entry : String × Block,
      description.plain.resolveAlone (entry.1, entry.2.plain) =
        (description.resolveAlone entry).map fun result => (result.1, result.2.plain) := by
    intro entry
    rw [resolveAlone, resolveAlone, walk_plain]
    cases description.walk [] entry.1 with
    | error fault => rfl
    | ok path => simp only [Except.map, mergedAlong_plain]
  rw [resolve_eq_mapM, resolve_eq_mapM]
  exact mapM_map halone description.entries

variable {description}

theorem definite_mergedAlong (h : ∀ entry ∈ description.entries, entry.2.Definite) (path : List String) :
    (description.mergedAlong path).Definite := by
  have hblock : ∀ name, (description.block name).Definite := by
    intro name
    unfold block
    cases hget : description.get? name with
    | none => trivial
    | some block => exact h _ (Entries.mem_of_get? hget)
  induction path with
  | nil => trivial
  | cons name path ih =>
    cases path with
    | nil => exact hblock name
    | cons target path => exact (hblock name).over ih

theorem same_of_mem_resolved {a b : Description} (h : a.same b) {before after : Entries Block}
    (hbefore : a.resolve = .ok before) (hafter : b.resolve = .ok after) {name : String}
    {shown block : Block} (hshown : before.get? name = some shown) (hblock : after.get? name = some block) :
    shown.same block := by
  have hplain : before.mapValues Block.plain = after.mapValues Block.plain := by
    have hresolve := congrArg resolve (plain_eq_of_same h)
    rw [resolve_plain, resolve_plain, hbefore, hafter] at hresolve
    exact Except.ok.inj hresolve
  have hvalues : shown.plain = block.plain := by
    have hget := congrArg (Entries.get? name) hplain
    rw [Entries.get?_mapValues, Entries.get?_mapValues, hshown, hblock] at hget
    exact Option.some.inj hget
  obtain ⟨path, -, -, hmerged⟩ := walk_of_mem_resolved hbefore (Entries.mem_of_get? hshown)
  have hdefinite : shown.Definite := by
    have hshown : shown = a.mergedAlong path := hmerged
    rw [hshown]
    exact definite_mergedAlong (same_iff.mp h).2 path
  exact Block.same_iff.mpr ⟨hvalues, hdefinite⟩

end Description

end StyleSync
