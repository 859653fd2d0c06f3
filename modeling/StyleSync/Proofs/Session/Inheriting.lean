import StyleSync.Proofs.Css.Levels
import StyleSync.Proofs.Session.Defining
import StyleSync.Proofs.Session.Restyling
import StyleSync.Proofs.Sheet.Renewal
import StyleSync.Proofs.Style.Inherited

/-! # Inheriting and restyling do the same to flat blocks

A block can be put over another one before both are flattened, by inheritance, or the rule of the one can
be merged into the record of the other. Keys count in the first case, and properties as they are spelled
in a sheet in the second. Stated here:

* `flatten_flat`: a block of scalars makes at most one rule;
* `declarationsOf_insertAll`: setting keys and merging declarations agree where no two keys spell one
  property;
* `reconciled_flat`: a rule that meets the record placed last;
* `place_inherited`: placing a block and restyling it, or placing the block that inherits from it.
-/

set_option autoImplicit false

namespace StyleSync

open Declaration

/-! ## Flat blocks -/

/-- Whether a block holds scalars alone. -/
def Block.flat : Block → Bool
  | .nil => true
  | .leaf _ _ rest => rest.flat
  | .nest _ _ _ => false

/-- The declarations of entries. -/
def declarationsOf (entries : Entries Value) : List Declaration :=
  entries.filterMap fun entry => Site.declaration? entry.1 entry.2

/-- The rule of declarations, if there are any. -/
def styleRules (selector : String) : List Declaration → List Rule
  | [] => []
  | declarations => [⟨.style selector, declarations⟩]

theorem declarations_of_mem_styleRules {selector : String} {declarations : List Declaration} {rule : Rule}
    (h : rule ∈ styleRules selector declarations) : rule.declarations = declarations := by
  cases declarations with
  | nil => contradiction
  | cons first rest => rw [List.mem_singleton.mp h]

theorem flat_iff {block : Block} :
    block.flat ↔ ∀ entry ∈ block.entries, ∃ value, entry.2 = .leaf value := by
  induction block with
  | nil => simp [Block.flat]
  | leaf key value rest ih => simp [Block.flat, Block.entries, ih]
  | nest key body rest => simp [Block.flat, Block.entries]

theorem flatten_flat {block : Block} (h : block.flat) (selector : String) :
    flatten selector block = styleRules selector (declarationsOf block.entries) := by
  have hchildren : Site.children ⟨selector, none, block⟩ = [] := by
    rw [List.eq_nil_iff_forall_not_mem]
    intro child hchild
    obtain ⟨key, hentry, -⟩ := mem_children_iff.mp hchild
    obtain ⟨value, hvalue⟩ := flat_iff.mp h _ hentry
    contradiction
  have hdeclarations : Site.declarations ⟨selector, none, block⟩ = declarationsOf block.entries := rfl
  rw [flatten, sites, visits_cons, List.nil_append, hchildren, visits_nil, List.filterMap_cons,
    List.filterMap_nil, Site.rule?, hdeclarations]
  cases declarationsOf block.entries with
  | nil => rfl
  | cons first rest => rfl

/-! ## Setting keys and merging declarations -/

/-- Whether no two keys spell one property. -/
def SpelledApart (keys : List String) : Prop :=
  ∀ key ∈ keys, ∀ other ∈ keys, dashedName key = dashedName other → key = other

instance (keys : List String) : Decidable (SpelledApart keys) :=
  inferInstanceAs (Decidable (∀ key ∈ keys, ∀ other ∈ keys, _ → _))

theorem SpelledApart.mono {keys others : List String} (h : SpelledApart keys)
    (hothers : ∀ key ∈ others, key ∈ keys) : SpelledApart others :=
  fun key hkey other hother => h key (hothers key hkey) other (hothers other hother)

theorem property_of_declaration? {key : String} {value : Value} {declaration : Declaration}
    (h : Site.declaration? key value = some declaration) : declaration.property = dashedName key := by
  unfold Site.declaration? at h
  split at h
  · rw [← Option.some.inj h]
  · contradiction

theorem isSome_declaration? {block : Block} (hflat : block.flat) (hbase : block.base? = none) :
    ∀ entry ∈ block.entries, (Site.declaration? entry.1 entry.2).isSome := by
  intro entry hentry
  have hplain := Block.base?_eq_none_iff.mp hbase entry hentry
  obtain ⟨value, hvalue⟩ := flat_iff.mp hflat entry hentry
  rw [hvalue] at hplain ⊢
  cases value with
  | number x => rfl
  | text text =>
    have hkey : entry.1 ≠ "extend" := by simpa [namesBase] using hplain
    simp [Site.declaration?, baseKey, hkey]

section Spelling

variable {entries pairs : Entries Value}

theorem map_property_declarationsOf
    (h : ∀ entry ∈ entries, (Site.declaration? entry.1 entry.2).isSome) :
    (declarationsOf entries).map property = entries.keys.map dashedName := by
  induction entries with
  | nil => rfl
  | cons entry rest ih =>
    rw [List.forall_mem_cons] at h
    obtain ⟨declaration, hdeclaration⟩ := Option.isSome_iff_exists.mp h.1
    have hrest := ih h.2
    unfold declarationsOf at hrest ⊢
    rw [List.filterMap_cons, hdeclaration, List.map_cons, hrest, Entries.keys_cons, List.map_cons,
      property_of_declaration? hdeclaration]

theorem declarationsOf_insert {key : String} {value : Value} {new : Declaration}
    (hnew : Site.declaration? key value = some new)
    (hentries : ∀ entry ∈ entries, (Site.declaration? entry.1 entry.2).isSome)
    (hspelling : ∀ other ∈ entries.keys, dashedName other = dashedName key → other = key) :
    declarationsOf (entries.insert key value) = put new (declarationsOf entries) := by
  unfold declarationsOf
  induction entries with
  | nil => simp [Entries.insert, put, hnew]
  | cons entry rest ih =>
    obtain ⟨other, held⟩ := entry
    rw [List.forall_mem_cons] at hentries
    rw [Entries.keys_cons, List.forall_mem_cons] at hspelling
    obtain ⟨old, hold⟩ := Option.isSome_iff_exists.mp hentries.1
    have holdProperty : old.property = dashedName other := property_of_declaration? hold
    have hnewProperty : new.property = dashedName key := property_of_declaration? hnew
    rw [Entries.insert]
    by_cases hkey : other = key
    · subst hkey
      have hsame : old.property = new.property := holdProperty.trans hnewProperty.symm
      have hvalue : ({ old with value := new.value } : Declaration) = new := by rw [hsame]
      rw [if_pos rfl, List.filterMap_cons, List.filterMap_cons, hnew, hold]
      simp only
      rw [put, if_pos hsame, hvalue]
    · have hne : old.property ≠ new.property := by
        rw [holdProperty, hnewProperty]
        exact fun hspelled => hkey (hspelling.1 hspelled)
      rw [if_neg hkey, List.filterMap_cons, List.filterMap_cons, hold]
      simp only
      rw [put, if_neg hne, ih hentries.2 hspelling.2]

theorem declarationsOf_insertAll
    (hentries : ∀ entry ∈ entries, (Site.declaration? entry.1 entry.2).isSome)
    (hpairs : ∀ entry ∈ pairs, (Site.declaration? entry.1 entry.2).isSome)
    (hspelling : SpelledApart (entries.keys ++ pairs.keys)) :
    declarationsOf (entries.insertAll pairs) = merge (declarationsOf entries) (declarationsOf pairs) := by
  induction pairs generalizing entries with
  | nil => rfl
  | cons pair rest ih =>
    rw [List.forall_mem_cons] at hpairs
    obtain ⟨new, hnew⟩ := Option.isSome_iff_exists.mp hpairs.1
    have hinsert : declarationsOf (entries.insert pair.1 pair.2) = put new (declarationsOf entries) := by
      refine declarationsOf_insert hnew hentries fun other hother hspelled => ?_
      exact hspelling other (List.mem_append_left _ hother) pair.1 (by simp) hspelled
    have hkept : ∀ entry ∈ entries.insert pair.1 pair.2,
        (Site.declaration? entry.1 entry.2).isSome := by
      intro entry hentry
      rcases Entries.mem_of_mem_insert hentry with hold | rfl
      · exact hentries entry hold
      · exact hpairs.1
    have hkeys : ∀ key ∈ (entries.insert pair.1 pair.2).keys ++ Entries.keys rest,
        key ∈ entries.keys ++ Entries.keys (pair :: rest) := by
      intro key hkey
      rw [Entries.keys_cons, List.mem_append, List.mem_cons]
      rcases List.mem_append.mp hkey with hinserted | hlater
      · obtain ⟨entry, hentry, rfl⟩ := List.mem_map.mp hinserted
        rcases Entries.mem_of_mem_insert hentry with hold | rfl
        · exact Or.inl (List.mem_map_of_mem hold)
        · exact Or.inr (Or.inl rfl)
      · exact Or.inr (Or.inr hlater)
    have hrest := ih hkept hpairs.2 (hspelling.mono hkeys)
    have hfirst : declarationsOf (pair :: rest) = new :: declarationsOf rest := by
      simp [declarationsOf, hnew]
    rw [Entries.insertAll_cons, hrest, hinsert, hfirst, merge_cons]

theorem nodup_declarationsOf (hentries : ∀ entry ∈ entries, (Site.declaration? entry.1 entry.2).isSome)
    (hnodup : entries.keys.Nodup) (hspelling : SpelledApart entries.keys) :
    ((declarationsOf entries).map property).Nodup := by
  rw [map_property_declarationsOf hentries]
  exact List.Nodup.map_on hspelling hnodup

end Spelling

/-! ## A record and the rule that meets it -/

theorem merge_ne_nil {old : List Declaration} (h : old ≠ []) (new : List Declaration) :
    merge old new ≠ [] := by
  induction new generalizing old with
  | nil => exact h
  | cons declaration rest ih =>
    refine ih ?_
    obtain ⟨first, others, rfl⟩ := List.exists_cons_of_ne_nil h
    simp only [put]
    split <;> exact List.cons_ne_nil _ _

theorem reconciled_concat {records : List Record} {record : Record} {rule : Rule}
    (h : record.hasKey rule.key) :
    reconciled (records ++ [record]) [rule] =
      records ++ [.read rule.header
        (Rule.block ⟨rule.target, merge record.declarations rule.declarations⟩)] := by
  have herase : eraseLast (Record.hasKey rule.key) (records ++ [record]) = records := by
    rw [eraseLast_append_cons h records (by simp), List.append_nil]
  have hstored : stored? (records ++ [record]) rule.key = some record.declarations := by
    rw [stored?, find?_reverse_append_cons h records (by simp), Option.map_some]
  have hkeys : lastKeys [rule] = [rule.key] := rfl
  have hwith : rulesWith rule.key [rule] = [rule] := by simp [rulesWith]
  rw [reconciled, hkeys, mergedRules, hkeys]
  simp [withoutLast, herase, mergedAt, hstored, hwith, combine, Rule.header]

theorem reconciled_flat {records : List Record} {selector : String} {old new : List Declaration}
    (hfresh : ∀ record ∈ records, ¬record.hasKey selector)
    (hold : ∀ rule ∈ styleRules selector old, rule.WellFormed) (hnew : (new.map property).Nodup) :
    reconciled (records ++ (styleRules selector old).map fun rule => .read rule.header rule.block)
        (styleRules selector new) =
      records ++ (styleRules selector (merge old new)).map fun rule => .read rule.header rule.block := by
  cases new with
  | nil => exact List.append_nil _
  | cons first rest =>
    have hrule : styleRules selector (first :: rest) = [⟨.style selector, first :: rest⟩] := rfl
    cases old with
    | nil =>
      have hmerge : merge [] (first :: rest) = first :: rest := merge_of_nodup (by simpa using hnew)
      have hnone : styleRules selector [] = [] := rfl
      rw [hnone, List.map_nil, List.append_nil, hmerge, hrule]
      refine reconciled_of_fresh (List.pairwise_singleton _ _) fun rule hmem => ?_
      rw [List.mem_singleton.mp hmem]
      exact hfresh
    | cons head tail =>
      have hwell := hold ⟨.style selector, head :: tail⟩ List.mem_cons_self
      have hmet : (Record.read selector (render (head :: tail))).hasKey selector :=
        (hasKey_read_of_wellFormed hwell selector).mpr rfl
      have hstored : (Record.read selector (render (head :: tail))).declarations = head :: tail :=
        (read_header_block hwell).2.2
      have hmerged : styleRules selector (merge (head :: tail) (first :: rest)) =
          [⟨.style selector, merge (head :: tail) (first :: rest)⟩] := by
        obtain ⟨_, _, hcons⟩ := List.exists_cons_of_ne_nil
          (merge_ne_nil (List.cons_ne_nil head tail) (first :: rest))
        rw [hcons]
        rfl
      have hstep : reconciled (records ++ [Record.read selector (render (head :: tail))])
          [⟨.style selector, first :: rest⟩] = _ := reconciled_concat hmet
      rw [hstored] at hstep
      rw [hrule, hmerged]
      exact hstep

/-! ## Inheriting -/

namespace Description

variable {description : Description} {name base : String} {own above : Block}

theorem ends_of_base (hname : description.get? name = some own) (hbase : description.get? base = some above)
    (hown : own.base? = some base) (habove : above.base? = none) : description.Ends [name, base] := by
  have hlink : description.base? name = some base := (base?_of_get? hname).trans hown
  have hroot : description.base? base = none := (base?_of_get? hbase).trans habove
  exact .step ⟨hlink, mem_keys_of_get? hbase⟩ (.root hroot)

/-- What an entry that inherits from an entry without a base is resolved to. -/
theorem get?_resolved_of_base (hname : description.get? name = some own)
    (hbase : description.get? base = some above) (hown : own.base? = some base)
    (habove : above.base? = none) {resolved : Entries Block}
    (h : description.resolve = .ok resolved) : resolved.get? name = some (own.over above) := by
  have hnodup : resolved.keys.Nodup := keys_resolved h ▸ description.nodup
  have hkey : name ∈ resolved.keys := keys_resolved h ▸ mem_keys_of_get? hname
  refine Entries.get?_of_mem hnodup ?_
  obtain ⟨entry, hentry, rfl⟩ := List.mem_map.mp hkey
  obtain ⟨path, hpath, -, hmerged⟩ := walk_of_mem_resolved h hentry
  have hwalk : description.walk [] entry.1 = .ok [entry.1, base] :=
    walk_of_ends (ends_of_base hname hbase hown habove)
  rw [hwalk] at hpath
  have hover : description.mergedAlong [entry.1, base] = own.over above := by
    rw [mergedAlong, mergedAlong, block_of_get? hname, block_of_get? hbase]
  rw [← Except.ok.inj hpath, hover] at hmerged
  rw [← hmerged]
  exact hentry

theorem exists_resolve_of_base (hname : description.get? name = some own)
    (hbase : description.get? base = some above) (hown : own.base? = some base)
    (habove : above.base? = none)
    (hothers : ∀ entry ∈ description.entries, entry.1 = name ∨ entry.2.base? = none) :
    ∃ resolved, description.resolve = .ok resolved := by
  refine exists_resolve_iff.mpr fun other hother => ?_
  obtain ⟨entry, hentry, rfl⟩ := List.mem_map.mp hother
  rcases hothers entry hentry with hsame | hnone
  · rw [hsame]
    exact ⟨_, walk_of_ends (ends_of_base hname hbase hown habove)⟩
  · have hroot : description.base? entry.1 = none := (base?_of_get? (get?_of_mem hentry)).trans hnone
    have hends : description.Ends ([] ++ [entry.1]) := .root hroot
    exact ⟨_, walk_of_ends hends⟩

end Description

theorem namesBase_of_key_not_mem {entries : Entries Value} (h : "extend" ∉ entries.keys) :
    ∀ entry ∈ entries, namesBase entry.1 entry.2 = false := by
  intro entry hentry
  have hkey : entry.1 ≠ "extend" := fun hsame => h (hsame ▸ List.mem_map_of_mem hentry)
  unfold namesBase
  split
  · simpa using hkey
  · rfl

theorem ownEntries_of_split {own : Block} {before after : Entries Value} {base : String}
    (hown : own.entries = before ++ ("extend", .leaf (.text base)) :: after)
    (hplain : "extend" ∉ Entries.keys (before ++ after)) : own.ownEntries = before ++ after := by
  rw [Block.ownEntries_eq_filter, hown, List.filter_append, List.filter_cons_of_neg (by simp [namesBase]),
    ← List.filter_append, List.filter_eq_self]
  intro entry hentry
  rw [namesBase_of_key_not_mem hplain entry hentry, Bool.not_false]

theorem base?_of_split {own : Block} {before after : Entries Value} {base : String}
    (hown : own.entries = before ++ ("extend", .leaf (.text base)) :: after)
    (hplain : "extend" ∉ Entries.keys (before ++ after))
    (hnodup : (Entries.keys (before ++ after)).Nodup) : own.base? = some base := by
  have hkeys : own.keys.Nodup := by
    rw [Block.keys, hown, Entries.keys, List.map_append, List.map_cons, List.nodup_middle, List.nodup_cons,
      ← List.map_append]
    exact ⟨hplain, hnodup⟩
  refine (Block.base?_eq_some_iff hkeys).mpr (Entries.get?_of_mem hkeys ?_)
  rw [hown]
  simp

namespace Session

variable {ν : Type}

/-- **Inheriting is restyling** for blocks of scalars: a block that is placed and then restyled leaves the sheet
that the block leaves that is put over it by inheritance. -/
theorem place_inherited {selector : String} {a b own : Block} {before after : Entries Value}
    {name base : String} {description : Description} {session : Session Sheet ν}
    (hfresh : ∀ record ∈ session.host.records, ¬record.hasKey selector)
    (hflatA : a.flat) (hflatB : b.flat) (hnodupA : a.keys.Nodup) (hnodupB : b.keys.Nodup)
    (hbaseA : a.base? = none) (hplainB : "extend" ∉ b.keys)
    (hspelling : SpelledApart (a.keys ++ b.keys)) (hreadable : ∀ rule ∈ flatten selector a, rule.Readable)
    (hb : b.entries = before ++ after)
    (hown : own.entries = before ++ ("extend", .leaf (.text base)) :: after)
    (hname : description.get? name = some own) (hbase : description.get? base = some a) :
    ∃ merged,
      (∀ resolved, description.resolve = .ok resolved → resolved.get? name = some merged) ∧
      ((∀ entry ∈ description.entries, entry.1 = name ∨ entry.2.base? = none) →
        ∃ resolved, description.resolve = .ok resolved) ∧
      ∃ placed restyled inherited, place selector a session = .ok () placed ∧
        restyle selector b placed = .ok () restyled ∧
        place selector merged session = .ok () inherited ∧
        restyled.host = inherited.host := by
  have hplain : "extend" ∉ Entries.keys (before ++ after) := hb ▸ hplainB
  have hbaseOwn := base?_of_split hown hplain (hb ▸ hnodupB)
  have hbaseB : b.base? = none := Block.base?_eq_none_iff.mpr (namesBase_of_key_not_mem hplainB)
  refine ⟨own.over a, fun _ => Description.get?_resolved_of_base hname hbase hbaseOwn hbaseA,
    Description.exists_resolve_of_base hname hbase hbaseOwn hbaseA, _, _, _,
    place_eq selector a session, restyle_eq hbaseB selector _, place_eq selector _ session, ?_⟩
  have hover : (own.over a).entries = a.entries.insertAll b.entries := by
    rw [Block.over, Block.entries_insertAll, ownEntries_of_split hown hplain, hb]
  have hflat : (own.over a).flat := by
    refine flat_iff.mpr fun entry hentry => ?_
    rw [hover] at hentry
    rcases Entries.mem_of_mem_insertAll hentry with hentry | hentry
    · exact flat_iff.mp hflatA entry hentry
    · exact flat_iff.mp hflatB entry hentry
  have hdeclaredA := isSome_declaration? hflatA hbaseA
  have hdeclaredB := isSome_declaration? hflatB hbaseB
  have hmerge : declarationsOf (own.over a).entries =
      merge (declarationsOf a.entries) (declarationsOf b.entries) := by
    rw [hover]
    exact declarationsOf_insertAll hdeclaredA hdeclaredB hspelling
  have hspellingA : SpelledApart a.keys := hspelling.mono fun _ => List.mem_append_left _
  have hspellingB : SpelledApart b.keys := hspelling.mono fun _ => List.mem_append_right _
  have hold : ∀ rule ∈ styleRules selector (declarationsOf a.entries), rule.WellFormed := by
    intro rule hrule
    refine ⟨hreadable rule (flatten_flat hflatA selector ▸ hrule), ?_⟩
    rw [declarations_of_mem_styleRules hrule]
    exact nodup_declarationsOf hdeclaredA hnodupA hspellingA
  have hrecords := reconciled_flat hfresh hold (nodup_declarationsOf hdeclaredB hnodupB hspellingB)
  simp only [flatten_flat hflatA, flatten_flat hflatB, flatten_flat hflat, hmerge]
  exact congrArg Sheet.mk hrecords

/-- Margins and colors, under keys and values that a sheet keeps as they are. -/
def plainBox : Block :=
  .leaf "margin" (.text "0 auto") (.leaf "backgroundColor" (.text "red")
    (.leaf "extend" (.number (.ofInt 1)) .nil))

/-- A block for the same selector, with a value for one of the same keys and one for another key. -/
def tintedBox : Block :=
  .leaf "border-color" (.text "blue") (.leaf "backgroundColor" (.text "green") .nil)

/-- The second block with the name of a base among its keys. -/
def tintedPlain : Block :=
  .leaf "border-color" (.text "blue") (.leaf "extend" (.text "plain")
    (.leaf "backgroundColor" (.text "green") .nil))

/-- A description in which it inherits from the first block. -/
def tinting : Description :=
  .ofList [("tinted", tintedPlain), ("plain", plainBox)]

/-- A session on an empty sheet. -/
def untouched : Session Sheet Unit :=
  .start Sheet.empty () .standard

theorem place_inherited_tinted :
    ∃ resolved merged, tinting.resolve = .ok resolved ∧ resolved.get? "tinted" = some merged ∧
      ∃ placed restyled inherited, place ".x" plainBox untouched = .ok () placed ∧
        restyle ".x" tintedBox placed = .ok () restyled ∧
        place ".x" merged untouched = .ok () inherited ∧
        restyled.host = inherited.host := by
  have hfresh : ∀ record ∈ untouched.host.records, ¬record.hasKey ".x" := by decide
  have hspelling : SpelledApart (plainBox.keys ++ tintedBox.keys) := by decide
  have hreadable : ∀ rule ∈ flatten ".x" plainBox, rule.Readable := by decide +kernel
  have hentries : tintedBox.entries = [("border-color", .leaf (.text "blue"))] ++
      [("backgroundColor", .leaf (.text "green"))] := rfl
  have hname : tinting.get? "tinted" = some tintedPlain := rfl
  have hbase : tinting.get? "plain" = some plainBox := rfl
  obtain ⟨merged, hmerged, hresolves, hsame⟩ := place_inherited hfresh rfl rfl (by decide) (by decide)
    (by decide) (by decide) hspelling hreadable hentries rfl hname hbase
  obtain ⟨resolved, hresolved⟩ := hresolves (by decide)
  exact ⟨resolved, merged, hresolved, hmerged resolved hresolved, hsame⟩

end Session

end StyleSync
