import StyleSync.Proofs.Style.Walks

/-! # What a resolved block holds

A block is resolved by putting the blocks of its walk over one another. Stated here:

* `Block.ownKeys`, `Block.ownValue?`: what a block has besides the name of its base, read off keys and
  values without the roles of entries;
* `keysAlong`, `valueAlong?`: the keys along a path from its end on, and the value that comes first on
  the path;
* `keys_mergedAlong`, `get?_mergedAlong`, `base?_mergedAlong`: these are the keys and values of the
  resolved block, and it names no base;
* `resolve_walks`: the result of resolving a description, said by walks alone.
-/

set_option autoImplicit false

namespace StyleSync

/-! ## What a block has of its own -/

/-- Whether the value under a key is the name of a base: a text under `extend`. -/
def namesBase (key : String) : Value → Bool
  | .leaf (.text _) => key == "extend"
  | _ => false

namespace Block

/-- The value of a block under a key, unless it is the name of a base. -/
def ownValue? (block : Block) (key : String) : Option Value :=
  (block.get? key).filter fun value => !namesBase key value

/-- The keys of a block in order, without that of the name of its base. -/
def ownKeys (block : Block) : List String :=
  block.keys.filter fun key => (block.ownValue? key).isSome

theorem base?_of_eq_some_iff {key name : String} {value : Value} :
    (Role.of key value).base? = some name ↔ key = "extend" ∧ value = .leaf (.text name) := by
  cases value with
  | leaf scalar =>
    cases scalar with
    | text text => by_cases h : key = "extend" <;> simp [baseKey, Role.base?, h]
    | number x => simp [Role.base?]
  | block body =>
    cases hat : isAtRule key with
    | false => simp [Role.base?, hat]
    | true => cases hc : mediaCondition? key <;> simp [Role.base?, hat, hc]

theorem isSome_base?_of (key : String) (value : Value) :
    (Role.of key value).base?.isSome = namesBase key value := by
  rw [Bool.eq_iff_iff, Option.isSome_iff_exists]
  simp only [base?_of_eq_some_iff]
  cases value with
  | leaf scalar => cases scalar <;> simp [namesBase]
  | block body => simp [namesBase]

theorem base?_eq_none_iff {block : Block} :
    block.base? = none ↔ ∀ entry ∈ block.entries, namesBase entry.1 entry.2 = false := by
  simp only [Block.base?, List.findSome?_eq_none_iff, ← isSome_base?_of, Option.isSome_eq_false_iff,
    Option.isNone_iff_eq_none]

theorem exists_base?_iff {block : Block} :
    (∃ target, block.base? = some target) ↔
      ∃ target, ("extend", .leaf (.text target)) ∈ block.entries := by
  constructor
  · rintro ⟨target, hbase⟩
    obtain ⟨⟨key, value⟩, hentry, hrole⟩ := List.exists_of_findSome?_eq_some hbase
    obtain ⟨rfl, rfl⟩ := base?_of_eq_some_iff.mp hrole
    exact ⟨target, hentry⟩
  · rintro ⟨target, hentry⟩
    rw [← Option.ne_none_iff_exists', Ne, base?_eq_none_iff]
    intro hplain
    have hname := hplain _ hentry
    simp [namesBase] at hname

/-- A block of distinct keys names the base that stands as a text under `extend`. -/
theorem base?_eq_some_iff {block : Block} (h : block.keys.Nodup) {name : String} :
    block.base? = some name ↔ block.get? "extend" = some (.leaf (.text name)) := by
  constructor
  · intro hbase
    obtain ⟨⟨key, value⟩, hentry, hrole⟩ := List.exists_of_findSome?_eq_some hbase
    obtain ⟨rfl, rfl⟩ := base?_of_eq_some_iff.mp hrole
    exact Entries.get?_of_mem h hentry
  · intro hget
    have hentry := Entries.mem_of_get? hget
    cases hbase : block.base? with
    | none =>
      have hplain := base?_eq_none_iff.mp hbase _ hentry
      simp [namesBase] at hplain
    | some other =>
      obtain ⟨⟨key, value⟩, hother, hrole⟩ := List.exists_of_findSome?_eq_some hbase
      obtain ⟨rfl, rfl⟩ := base?_of_eq_some_iff.mp hrole
      have hsame := (Entries.get?_of_mem h hother).symm.trans hget
      simpa using hsame

/-! ## Own entries -/

theorem ownEntries_eq_filter (block : Block) :
    block.ownEntries = block.entries.filter fun entry => !namesBase entry.1 entry.2 := by
  refine List.filter_congr fun entry _ => ?_
  rw [← isSome_base?_of, Option.not_isSome]

theorem base?_over {base : Block} (h : base.base? = none) (own : Block) :
    (own.over base).base? = none := by
  refine base?_eq_none_iff.mpr fun entry hentry => ?_
  rw [Block.over, entries_insertAll, ownEntries_eq_filter] at hentry
  rcases Entries.mem_of_mem_insertAll hentry with hbase | hown
  · exact base?_eq_none_iff.mp h entry hbase
  · simpa using (List.mem_filter.mp hown).2

variable {block : Block}

theorem nodup_keys_ownEntries (h : block.keys.Nodup) : block.ownEntries.keys.Nodup :=
  List.Nodup.sublist (List.filter_sublist.map Prod.fst) h

theorem get?_ownEntries (h : block.keys.Nodup) (key : String) :
    block.ownEntries.get? key = block.ownValue? key := by
  have hiff : ∀ value, block.ownEntries.get? key = some value ↔ block.ownValue? key = some value := by
    intro value
    rw [ownValue?, Option.filter_eq_some_iff]
    constructor
    · intro hget
      have hentry := Entries.mem_of_get? hget
      rw [ownEntries_eq_filter, List.mem_filter] at hentry
      exact ⟨Entries.get?_of_mem h hentry.1, hentry.2⟩
    · rintro ⟨hget, hplain⟩
      refine Entries.get?_of_mem (nodup_keys_ownEntries h) ?_
      rw [ownEntries_eq_filter, List.mem_filter]
      exact ⟨Entries.mem_of_get? hget, hplain⟩
  exact Option.ext hiff

theorem keys_ownEntries (h : block.keys.Nodup) : block.ownEntries.keys = block.ownKeys := by
  rw [ownKeys, keys, Entries.keys, Entries.keys, List.filter_map, ownEntries_eq_filter]
  congr 1
  refine List.filter_congr fun entry hentry => ?_
  have hget := Entries.get?_of_mem h hentry
  rw [Function.comp_apply, ownValue?, get?, hget]
  cases hplain : namesBase entry.1 entry.2 <;> simp [hplain]

theorem ownKeys_eq_keys (h : block.keys.Nodup) (hbase : block.base? = none) :
    block.ownKeys = block.keys := by
  rw [← keys_ownEntries h, ownEntries_eq_filter, List.filter_eq_self.mpr]
  · rfl
  · intro entry hentry
    rw [base?_eq_none_iff.mp hbase entry hentry, Bool.not_false]

theorem ownValue?_eq_get? (hbase : block.base? = none) (key : String) :
    block.ownValue? key = block.get? key := by
  rw [ownValue?]
  cases hvalue : block.get? key with
  | none => rfl
  | some value =>
    have hplain := base?_eq_none_iff.mp hbase _ (Entries.mem_of_get? hvalue)
    simp [hplain]

theorem keys_over {own base : Block} (h : own.keys.Nodup) :
    (own.over base).keys = base.keys ++ own.ownKeys.filter (· ∉ base.keys) := by
  rw [keys, Block.over, entries_insertAll, Entries.keys_insertAll (nodup_keys_ownEntries h),
    keys_ownEntries h]
  rfl

theorem get?_over {own base : Block} (h : own.keys.Nodup) (key : String) :
    (own.over base).get? key = (own.ownValue? key).or (base.get? key) := by
  rw [get?, Block.over, entries_insertAll, Entries.get?_insertAll (nodup_keys_ownEntries h),
    get?_ownEntries h]
  rfl

end Block

/-! ## Along a path -/

namespace Description

variable {description : Description}

/-- The keys along a path: those of its last block in order, then the further ones of the block before
that, and so on to the first. -/
def keysAlong (description : Description) : List String → List String
  | [] => []
  | name :: path =>
    let inherited := description.keysAlong path
    inherited ++ (description.block name).ownKeys.filter (· ∉ inherited)

/-- The value under a key in the first block on a path that has one of its own. -/
def valueAlong? (description : Description) (path : List String) (key : String) : Option Value :=
  path.findSome? fun name => (description.block name).ownValue? key

theorem keysAlong_cons (name : String) (path : List String) :
    description.keysAlong (name :: path) =
      description.keysAlong path ++
        (description.block name).ownKeys.filter (· ∉ description.keysAlong path) := rfl

theorem valueAlong?_cons (name : String) (path : List String) (key : String) :
    description.valueAlong? (name :: path) key =
      ((description.block name).ownValue? key).or (description.valueAlong? path key) := by
  rw [valueAlong?, List.findSome?_cons]
  cases (description.block name).ownValue? key <;> rfl

theorem block_base? {name : String} (h : description.base? name = none) :
    (description.block name).base? = none := by
  unfold Description.block
  cases hblock : description.get? name with
  | none => rfl
  | some block => exact (base?_of_get? hblock).symm.trans h

theorem base?_mergedAlong {path : List String} (h : description.Ends path) :
    (description.mergedAlong path).base? = none := by
  induction h with
  | root hbase => exact block_base? hbase
  | step _ _ ih => exact Block.base?_over ih _

theorem base?_of_mem_resolved {resolved : Entries Block} (h : description.resolve = .ok resolved)
    {entry : String × Block} (hentry : entry ∈ resolved) : entry.2.base? = none := by
  obtain ⟨path, -, hends, hmerged⟩ := walk_of_mem_resolved h hentry
  rw [hmerged]
  exact base?_mergedAlong hends

variable (hdistinct : ∀ entry ∈ description.entries, entry.2.keys.Nodup)

include hdistinct

theorem nodup_keys_block (name : String) : (description.block name).keys.Nodup := by
  unfold Description.block
  cases hblock : description.get? name with
  | none => exact List.nodup_nil
  | some block => exact hdistinct _ (Entries.mem_of_get? hblock)

theorem keys_mergedAlong {path : List String} (h : description.Ends path) :
    (description.mergedAlong path).keys = description.keysAlong path := by
  induction h with
  | @root name hbase =>
    have hown := Block.ownKeys_eq_keys (nodup_keys_block hdistinct name) (block_base? hbase)
    simp [mergedAlong, keysAlong, hown]
  | @step name target path _ _ ih =>
    rw [mergedAlong, Block.keys_over (nodup_keys_block hdistinct name), ih, keysAlong_cons name]

theorem get?_mergedAlong {path : List String} (h : description.Ends path) (key : String) :
    (description.mergedAlong path).get? key = description.valueAlong? path key := by
  induction h with
  | @root name hbase =>
    have hown := Block.ownValue?_eq_get? (block_base? hbase) key
    simp [mergedAlong, valueAlong?, hown]
  | @step name target path _ _ ih =>
    rw [mergedAlong, Block.get?_over (nodup_keys_block hdistinct name), ih, valueAlong?_cons name]

theorem base?_iff {name target : String} :
    description.base? name = some target ↔
      ∃ block, description.get? name = some block ∧
        block.get? "extend" = some (.leaf (.text target)) := by
  rw [base?, Option.bind_eq_some_iff]
  refine exists_congr fun block => and_congr_right fun hblock => ?_
  exact Block.base?_eq_some_iff (hdistinct _ (Entries.mem_of_get? hblock))

/-- **Inheritance follows the walks.** A description is resolved just if the walk from every entry ends;
else the first entry whose walk is stopped decides the fault. The blocks are listed in the order of the
entries. A resolved block has the keys along the walk from its end on, each with the value that comes
first on the walk, and names no base. What was resolved before makes no difference. -/
theorem resolve_walks :
    (∀ name target, description.base? name = some target ↔
      ∃ block, description.get? name = some block ∧
        block.get? "extend" = some (.leaf (.text target))) ∧
    ((∃ resolved, description.resolve = .ok resolved) ↔
      ∀ name ∈ description.keys, ∃ path, description.walk [] name = .ok path) ∧
    (∀ fault, description.resolve = .error fault ↔
      ∃ before name after, description.keys = before ++ name :: after ∧
        (∀ earlier ∈ before, ∃ path, description.walk [] earlier = .ok path) ∧
        description.walk [] name = .error fault) ∧
    (∀ resolved, description.resolve = .ok resolved →
      resolved.keys = description.keys ∧ ∀ entry ∈ resolved,
        ∃ path, description.walk [] entry.1 = .ok path ∧
          entry.2.keys = description.keysAlong path ∧
          (∀ key, entry.2.get? key = description.valueAlong? path key) ∧
          (∀ text, entry.2.get? "extend" ≠ some (.leaf (.text text))) ∧ entry.2.base? = none) ∧
    description.resolve = description.entries.mapM fun entry =>
      (Inheritance.resolveEntry description [] [] (description.keys.erase entry.1) entry.1
        entry.2).map fun result => (entry.1, result.1) := by
  refine ⟨fun name target => base?_iff hdistinct, exists_resolve_iff, fun _ => resolve_eq_error_iff,
    fun resolved hresolved => ⟨keys_resolved hresolved, fun entry hentry => ?_⟩, ?_⟩
  · obtain ⟨path, hpath, hends, hmerged⟩ := walk_of_mem_resolved hresolved hentry
    have hkeys := keys_mergedAlong hdistinct hends
    have hvalues := get?_mergedAlong hdistinct hends
    have hbase := base?_mergedAlong hends
    rw [← hmerged] at hkeys hvalues hbase
    refine ⟨path, hpath, hkeys, hvalues, fun text htext => ?_, hbase⟩
    · have hplain := Block.base?_eq_none_iff.mp hbase _ (Entries.mem_of_get? htext)
      simp [namesBase] at hplain
  · rw [resolve_eq_mapM]
    refine mapM_congr_of_mem fun entry hentry => ?_
    exact (resolveEntry_eq_alone sound_nil (get?_of_mem hentry)).symm

/-- Three entries of which each inherits from the one behind it. The last has a number under
`extend`. -/
def layered : Description :=
  .ofList
    [("link", .leaf "top" (.text "0") (.leaf "extend" (.text "button")
        (.leaf "color" (.text "blue") .nil))),
      ("button", .leaf "extend" (.text "base") (.leaf "margin" (.text "0") .nil)),
      ("base", .leaf "color" (.text "red") (.leaf "extend" (.number ⟨0⟩)
        (.nest ":hover" (.leaf "color" (.text "green") .nil) .nil)))]

omit hdistinct in
theorem resolve_walks_layered :
    (∀ entry ∈ layered.entries, entry.2.keys.Nodup) ∧
      ∃ resolved, layered.resolve = .ok resolved ∧ ∀ entry ∈ resolved, entry.1 = "link" →
        entry.2.keys = ["color", "extend", ":hover", "margin", "top"] ∧
        entry.2.get? "color" = some (.leaf (.text "blue")) ∧ entry.2.base? = none := by
  have hdistinct : ∀ entry ∈ layered.entries, entry.2.keys.Nodup := by decide
  have hbase : layered.Ends ["base"] := .root (by decide)
  have hbutton : layered.Ends ["button", "base"] := .step ⟨by decide, by decide⟩ hbase
  have hlink : layered.Ends ["link", "button", "base"] := .step ⟨by decide, by decide⟩ hbutton
  have hwalks : ∀ name ∈ layered.keys, ∃ path, layered.walk [] name = .ok path := by
    intro name hname
    have hnames : layered.keys = ["link", "button", "base"] := by decide
    simp only [hnames, List.mem_cons, List.not_mem_nil, or_false] at hname
    rcases hname with rfl | rfl | rfl
    · exact ⟨_, walk_of_ends (by exact hlink)⟩
    · exact ⟨_, walk_of_ends (by exact hbutton)⟩
    · exact ⟨_, walk_of_ends (by exact hbase)⟩
  obtain ⟨-, hok, -, hblocks, -⟩ := resolve_walks hdistinct
  obtain ⟨resolved, hresolved⟩ := hok.mpr hwalks
  refine ⟨hdistinct, resolved, hresolved, fun entry hentry hname => ?_⟩
  obtain ⟨path, hpath, hkeys, hvalues, -, hnone⟩ := (hblocks resolved hresolved).2 entry hentry
  have hsame : path = ["link", "button", "base"] := by
    have hwalk : layered.walk [] "link" = .ok ["link", "button", "base"] :=
      walk_of_ends (by exact hlink)
    rw [hname, hwalk] at hpath
    exact (Except.ok.inj hpath).symm
  rw [hkeys, hvalues, hsame]
  exact ⟨by decide, by decide, hnone⟩

end Description

end StyleSync
