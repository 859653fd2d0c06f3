import Mathlib.Data.List.Chain
import StyleSync.Style.Inheritance

/-! # Inheritance follows the walk along bases

`Description.resolve` goes from an entry to its base and on to the base of that, with a table of what was
resolved before. Stated here:

* `walk`: the way from an entry along bases, and the fault that stops it, without a table;
* `Ends path`: a path along bases up to an entry without one. Such a path never comes by an entry twice
  (`Ends.nodup`), so that the walk from any of its entries ends (`walk_of_ends`);
* `resolveEntry_spec`: what resolving an entry yields with a sound table, and that the table stays
  sound;
* `resolve_eq_mapM`: all entries are resolved by their walks alone, so that the first walk that is
  stopped decides the fault (`resolve_eq_error_iff`).
-/

set_option autoImplicit false

namespace StyleSync

/-! ## Results in turn -/

section Results

variable {ε α β : Type} {f : α → Except ε β}

theorem mapM_eq_ok_iff {l : List α} {results : List β} :
    l.mapM f = .ok results ↔ List.Forall₂ (fun a result => f a = .ok result) l results := by
  induction l generalizing results with
  | nil => cases results <;> simp [pure, Except.pure]
  | cons a l ih =>
    rw [List.mapM_cons, List.forall₂_cons_left_iff]
    cases ha : f a with
    | error fault => simp [bind, Except.bind]
    | ok result =>
      cases hl : l.mapM f with
      | error fault => simp [bind, Except.bind, ← ih, hl]
      | ok later => simp [bind, Except.bind, pure, Except.pure, ← ih, hl, eq_comm]

theorem mapM_congr_of_mem {g : α → Except ε β} {l : List α} (h : ∀ a ∈ l, f a = g a) :
    l.mapM f = l.mapM g := by
  induction l with
  | nil => rfl
  | cons a l ih =>
    rw [List.forall_mem_cons] at h
    rw [List.mapM_cons, List.mapM_cons, h.1, ih h.2]

theorem mapM_map {γ δ : Type} {g : α → γ} {f' : γ → Except ε δ} {k : β → δ}
    (h : ∀ a, f' (g a) = (f a).map k) (l : List α) :
    (l.map g).mapM f' = (l.mapM f).map (List.map k) := by
  induction l with
  | nil => rfl
  | cons a l ih =>
    rw [List.map_cons, List.mapM_cons, List.mapM_cons, h, ih]
    cases f a with
    | error fault => rfl
    | ok result => cases l.mapM f <;> rfl

theorem exists_of_mem_mapM {l : List α} {results : List β} (h : l.mapM f = .ok results) {result : β}
    (hmem : result ∈ results) : ∃ a ∈ l, f a = .ok result := by
  have hall := mapM_eq_ok_iff.mp h
  clear h
  induction hall with
  | nil => simp at hmem
  | cons ha _ ih =>
    rcases List.mem_cons.mp hmem with rfl | hrest
    · exact ⟨_, List.mem_cons_self, ha⟩
    · obtain ⟨b, hb, hresult⟩ := ih hrest
      exact ⟨b, List.mem_cons_of_mem _ hb, hresult⟩

theorem mapM_eq_error_iff {l : List α} {fault : ε} :
    l.mapM f = .error fault ↔
      ∃ before a after, l = before ++ a :: after ∧ (∀ b ∈ before, ∃ result, f b = .ok result) ∧
        f a = .error fault := by
  induction l with
  | nil => simp [pure, Except.pure]
  | cons a l ih =>
    rw [List.mapM_cons]
    cases ha : f a with
    | error first =>
      simp only [bind, Except.bind, Except.error.injEq]
      constructor
      · rintro rfl
        exact ⟨[], a, l, rfl, by simp, ha⟩
      · rintro ⟨before, b, after, hsplit, hbefore, hb⟩
        cases before with
        | nil =>
          obtain ⟨rfl, rfl⟩ := List.cons.inj hsplit
          exact Except.error.inj (ha.symm.trans hb)
        | cons c before =>
          obtain ⟨rfl, -⟩ := List.cons.inj hsplit
          obtain ⟨result, hresult⟩ := hbefore a List.mem_cons_self
          rw [ha] at hresult
          contradiction
    | ok result =>
      have hrest : (l.mapM f >>= fun results => pure (result :: results)) = .error fault ↔
          l.mapM f = .error fault := by
        cases l.mapM f <;> simp [bind, Except.bind, pure, Except.pure]
      refine hrest.trans (ih.trans ⟨?_, ?_⟩)
      · rintro ⟨before, b, after, rfl, hbefore, hb⟩
        refine ⟨a :: before, b, after, rfl, ?_, hb⟩
        exact List.forall_mem_cons.mpr ⟨⟨result, ha⟩, hbefore⟩
      · rintro ⟨before, b, after, hsplit, hbefore, hb⟩
        cases before with
        | nil =>
          obtain ⟨rfl, rfl⟩ := List.cons.inj hsplit
          rw [ha] at hb
          contradiction
        | cons c before =>
          obtain ⟨rfl, rfl⟩ := List.cons.inj hsplit
          exact ⟨before, b, after, rfl, (List.forall_mem_cons.mp hbefore).2, hb⟩

end Results

namespace Description

open Inheritance

variable {description : Description}

/-! ## Walks -/

/-- The name that an entry gives as that of its base. -/
def base? (description : Description) (name : String) : Option String :=
  (description.get? name).bind Block.base?

/-- The walk from an entry along bases, after it came by the entries of `path`: all entries that it
comes by, or the fault that stops it. It stops at a base that is no entry, and at a base that it has come
by. -/
def walk (description : Description) (path : List String) (name : String) :
    Except Fault (List String) :=
  match description.base? name with
  | none => .ok (path ++ [name])
  | some target =>
    if target ∉ description.keys then .error (.unknownBase name target)
    else if target ∈ path ++ [name] then .error (.baseCycle (path ++ [name, target]))
    else walk description (path ++ [name]) target
termination_by (description.keys.filter (· ∉ path ++ [name])).length
decreasing_by
  next hkey hnew =>
    have hmem : target ∈ description.keys.filter (· ∉ path ++ [name]) := by
      rw [List.mem_filter]
      exact ⟨not_not.mp hkey, by simpa using hnew⟩
    have hfilter : description.keys.filter (· ∉ path ++ [name] ++ [target]) =
        (description.keys.filter (· ∉ path ++ [name])).filter (· ≠ target) := by
      rw [List.filter_filter]
      refine List.filter_congr fun other _ => ?_
      simp only [List.mem_append, List.mem_singleton, not_or, Bool.decide_and]
      rw [Bool.and_comm]
    rw [hfilter]
    exact List.length_filter_lt_length_iff_exists.mpr ⟨target, hmem, by simp⟩

/-- One step of a walk. -/
def Link (description : Description) (name target : String) : Prop :=
  description.base? name = some target ∧ target ∈ description.keys

/-- A path along bases up to an entry without one. -/
inductive Ends (description : Description) : List String → Prop
  | root {name : String} : description.base? name = none → Ends description [name]
  | step {name target : String} {path : List String} : description.Link name target →
      Ends description (target :: path) → Ends description (name :: target :: path)

theorem Ends.unique {name : String} {path other : List String} (h : description.Ends (name :: path))
    (hother : description.Ends (name :: other)) : path = other := by
  induction path generalizing name other with
  | nil =>
    cases h with
    | root hnone =>
      cases hother with
      | root => rfl
      | step hlink => simp [hlink.1] at hnone
  | cons target path ih =>
    cases h with
    | step hlink hrest =>
      cases hother with
      | root hnone => simp [hlink.1] at hnone
      | step hlink' hrest' =>
        have htarget : target = _ := Option.some.inj (hlink.1.symm.trans hlink'.1)
        subst htarget
        rw [ih hrest hrest']

theorem Ends.of_append {before path : List String} {name : String}
    (h : description.Ends (before ++ name :: path)) : description.Ends (name :: path) := by
  induction before with
  | nil => exact h
  | cons first before ih =>
    cases hbefore : before ++ name :: path with
    | nil => simp at hbefore
    | cons target rest =>
      rw [List.cons_append, hbefore] at h
      cases h with
      | step _ hrest => exact ih (hbefore ▸ hrest)

/-- A path that ends comes by every entry once: from where it came back to it would go on for ever. -/
theorem Ends.nodup {path : List String} (h : description.Ends path) : path.Nodup := by
  induction h with
  | root => simp
  | @step name target path hlink hrest ih =>
    refine List.nodup_cons.mpr ⟨fun hmem => ?_, ih⟩
    obtain ⟨before, after, hsplit⟩ := List.append_of_mem hmem
    have hlater : description.Ends (name :: after) := Ends.of_append (hsplit ▸ hrest)
    have hsame := Ends.unique (.step hlink hrest) hlater
    have hlength := congrArg List.length hsplit
    rw [hsame, List.length_append, List.length_cons] at hlength
    omega

theorem walk_of_ends {path rest : List String} {name : String}
    (h : description.Ends (path ++ name :: rest)) :
    description.walk path name = .ok (path ++ name :: rest) := by
  induction rest generalizing path name with
  | nil =>
    cases Ends.of_append h with
    | root hnone =>
      rw [walk]
      simp only [hnone]
  | cons target rest ih =>
    cases Ends.of_append h with
    | step hlink hrest =>
      have hnew : target ∉ path ++ [name] := by
        have hnodup := h.nodup
        rw [← List.singleton_append, ← List.append_assoc, List.nodup_append] at hnodup
        exact fun hmem => hnodup.2.2 target hmem target List.mem_cons_self rfl
      have hstep : description.Ends ((path ++ [name]) ++ target :: rest) := by simpa using h
      rw [walk]
      simp only [hlink.1]
      rw [if_neg (not_not.mpr hlink.2), if_neg hnew, ih hstep]
      simp

theorem ends_of_walk {path visited : List String} {name : String}
    (h : description.walk path name = .ok visited) :
    ∃ rest, visited = path ++ name :: rest ∧ description.Ends (name :: rest) := by
  fun_induction walk description path name with
  | case1 path name hnone => exact ⟨[], (Except.ok.inj h).symm, .root hnone⟩
  | case2 path name target htarget hkey => cases h
  | case3 path name target htarget hkey hold => cases h
  | case4 path name target htarget hkey hnew ih =>
    obtain ⟨rest, hvisited, hends⟩ := ih h
    exact ⟨target :: rest, by simp [hvisited], .step ⟨htarget, not_not.mp hkey⟩ hends⟩

/-! ## The table -/

/-- The block of an entry. -/
def block (description : Description) (name : String) : Block :=
  (description.get? name).getD .nil

/-- The last block of a path with the others put over it, one after another. -/
def mergedAlong (description : Description) : List String → Block
  | [] => .nil
  | [name] => description.block name
  | name :: target :: path =>
    (description.block name).over (description.mergedAlong (target :: path))

/-- What a table holds is what the walks of its entries lead to. -/
def Sound (description : Description) (table : Table) : Prop :=
  ∀ name merged, table.get? name = some merged →
    ∃ path, description.Ends (name :: path) ∧ merged = description.mergedAlong (name :: path)

theorem sound_nil : description.Sound [] := by
  intro name merged h
  simp [Entries.get?] at h

theorem Sound.insert {table : Table} (h : description.Sound table) {name : String}
    {path : List String} (hends : description.Ends (name :: path)) :
    description.Sound (table.insert name (description.mergedAlong (name :: path))) := by
  intro other merged hmerged
  by_cases hname : name = other
  · subst hname
    rw [Entries.get?_insert_self, Option.some.injEq] at hmerged
    exact ⟨path, hends, hmerged.symm⟩
  · rw [Entries.get?_insert_of_ne hname] at hmerged
    exact h other merged hmerged

/-! ## Resolving -/

/-- Where resolution stands: `chain` leads to the entry, and the entries that neither are on the chain nor
are the entry itself are unvisited. -/
structure Frontier (description : Description) (chain unvisited : List String) (name : String) :
    Prop where
  links : (chain ++ [name]).IsChain description.Link
  nodup : unvisited.Nodup
  mem_unvisited : ∀ other, other ∈ unvisited ↔ other ∈ description.keys ∧ other ∉ chain ++ [name]

theorem Frontier.start (description : Description) (name : String) :
    description.Frontier [] (description.keys.erase name) name where
  links := .singleton name
  nodup := description.nodup.erase name
  mem_unvisited other := by
    rw [OrderedMap.keys, description.nodup.mem_erase_iff]
    simp [and_comm]

theorem Frontier.step {chain unvisited : List String} {name target : String}
    (h : description.Frontier chain unvisited name) (hbase : description.base? name = some target)
    (hnew : target ∈ unvisited) :
    description.Frontier (chain ++ [name]) (unvisited.erase target) target where
  links := by
    have hlink : description.Link name target := ⟨hbase, ((h.mem_unvisited target).mp hnew).1⟩
    refine List.isChain_append.mpr ⟨h.links, .singleton target, ?_⟩
    simpa using hlink
  nodup := h.nodup.erase target
  mem_unvisited other := by
    rw [h.nodup.mem_erase_iff, h.mem_unvisited]
    simp only [List.mem_append, List.mem_singleton]
    tauto

theorem mem_keys_of_get? {name : String} {block : Block} (h : description.get? name = some block) :
    name ∈ description.keys := by
  rw [OrderedMap.keys, ← Entries.isSome_get?]
  exact Option.isSome_of_eq_some h

theorem block_of_get? {name : String} {block : Block} (h : description.get? name = some block) :
    description.block name = block := by
  rw [Description.block, h, Option.getD_some]

theorem base?_of_get? {name : String} {block : Block} (h : description.get? name = some block) :
    description.base? name = block.base? := by
  rw [base?, h, Option.bind_some]

/-- With a sound table, resolving an entry yields what its walk leads to or the fault that stops the
walk, and leaves a sound table. -/
theorem resolveEntry_spec {table : Table} (htable : description.Sound table)
    {chain unvisited : List String} {name : String} {block : Block}
    (hblock : description.get? name = some block)
    (hfrontier : description.Frontier chain unvisited name) :
    (∀ merged later,
      resolveEntry description table chain unvisited name block = .ok (merged, later) →
        description.Sound later ∧ ∃ path, description.Ends (name :: path) ∧
          merged = description.mergedAlong (name :: path)) ∧
      ∀ fault, resolveEntry description table chain unvisited name block = .error fault →
        description.walk chain name = .error fault := by
  fun_induction resolveEntry description table chain unvisited name block with
  | case1 chain unvisited name block done hdone =>
    refine ⟨fun merged later h => ?_, by simp⟩
    obtain ⟨rfl, rfl⟩ := Prod.mk.inj (Except.ok.inj h)
    exact ⟨htable, htable name done hdone⟩
  | case2 chain unvisited name block hdone hbase =>
    have hname := (base?_of_get? hblock).trans hbase
    refine ⟨fun merged later h => ?_, by simp⟩
    obtain ⟨rfl, rfl⟩ := Prod.mk.inj (Except.ok.inj h)
    exact ⟨htable, [], .root hname, by rw [mergedAlong, block_of_get? hblock]⟩
  | case3 chain unvisited name block hdone target hbase htarget =>
    have hname := (base?_of_get? hblock).trans hbase
    have hkey : target ∉ description.keys := by
      rw [OrderedMap.keys, ← Entries.isSome_get?, Option.not_isSome_iff_eq_none]
      exact htarget
    refine ⟨by simp, fun fault h => ?_⟩
    rw [walk]
    simp only [hname]
    rw [if_pos hkey, ← Except.error.inj h]
  | case4 chain unvisited name block hdone target hbase base htarget hnew fault hfault ih =>
    have hname := (base?_of_get? hblock).trans hbase
    obtain ⟨hkey, hnot⟩ := (hfrontier.mem_unvisited target).mp hnew
    have hwalk := (ih htarget (hfrontier.step hname hnew)).2 fault hfault
    refine ⟨by simp, fun other h => ?_⟩
    rw [walk]
    simp only [hname]
    rw [if_neg (not_not.mpr hkey), if_neg hnot, hwalk, ← Except.error.inj h]
  | case5 chain unvisited name block hdone target hbase base htarget hnew inherited later hok merged
      ih =>
    have hname := (base?_of_get? hblock).trans hbase
    have hkey := ((hfrontier.mem_unvisited target).mp hnew).1
    obtain ⟨hlater, path, hends, hinherited⟩ :=
      (ih htarget (hfrontier.step hname hnew)).1 inherited later hok
    have hpath : description.Ends (name :: target :: path) := .step ⟨hname, hkey⟩ hends
    have hmerged : merged = description.mergedAlong (name :: target :: path) := by
      rw [mergedAlong, block_of_get? hblock, ← hinherited]
    refine ⟨fun result last h => ?_, by simp⟩
    obtain ⟨rfl, rfl⟩ := Prod.mk.inj (Except.ok.inj h)
    exact ⟨hmerged ▸ hlater.insert hpath, target :: path, hpath, hmerged⟩
  | case6 chain unvisited name block hdone target hbase base htarget hold =>
    have hname := (base?_of_get? hblock).trans hbase
    have hkey := mem_keys_of_get? htarget
    have hmem : target ∈ chain ++ [name] := by
      by_contra hnot
      exact hold ((hfrontier.mem_unvisited target).mpr ⟨hkey, hnot⟩)
    refine ⟨by simp, fun fault h => ?_⟩
    rw [walk]
    simp only [hname]
    rw [if_neg (not_not.mpr hkey), if_pos hmem, ← Except.error.inj h]

/-! ## All entries -/

/-- An entry with its resolved block, by its walk alone. -/
def resolveAlone (description : Description) (entry : String × Block) :
    Except Fault (String × Block) :=
  (description.walk [] entry.1).map fun path => (entry.1, description.mergedAlong path)

theorem resolveAlone_eq_ok_iff {entry result : String × Block} :
    description.resolveAlone entry = .ok result ↔
      ∃ path, description.walk [] entry.1 = .ok path ∧
        (entry.1, description.mergedAlong path) = result := by
  rw [resolveAlone]
  cases description.walk [] entry.1 <;> simp [Except.map]

theorem resolveAlone_eq_error_iff {entry : String × Block} {fault : Fault} :
    description.resolveAlone entry = .error fault ↔
      description.walk [] entry.1 = .error fault := by
  rw [resolveAlone]
  cases description.walk [] entry.1 <;> simp [Except.map]

theorem resolveEntry_eq_alone {table : Table} (htable : description.Sound table) {name : String}
    {block : Block} (hblock : description.get? name = some block) :
    (resolveEntry description table [] (description.keys.erase name) name block).map
        (fun result => (name, result.1)) = description.resolveAlone (name, block) := by
  obtain ⟨hok, herror⟩ := resolveEntry_spec htable hblock (.start description name)
  cases hresult : resolveEntry description table [] (description.keys.erase name) name block with
  | error fault =>
    rw [resolveAlone, herror fault hresult]
    rfl
  | ok result =>
    obtain ⟨merged, later⟩ := result
    obtain ⟨-, path, hends, hmerged⟩ := hok merged later hresult
    have hpath : description.Ends ([] ++ name :: path) := hends
    rw [resolveAlone, walk_of_ends hpath, hmerged]
    rfl

theorem resolveEntries_eq_mapM {table : Table} (htable : description.Sound table)
    {entries : Entries Block}
    (hentries : ∀ entry ∈ entries, description.get? entry.1 = some entry.2) :
    resolveEntries description table entries = entries.mapM description.resolveAlone := by
  induction entries generalizing table with
  | nil => rfl
  | cons entry rest ih =>
    obtain ⟨name, block⟩ := entry
    rw [List.forall_mem_cons] at hentries
    have halone := resolveEntry_eq_alone htable hentries.1
    rw [resolveEntries, List.mapM_cons, ← halone]
    cases hresult : resolveEntry description table [] (description.keys.erase name) name block with
    | error fault => rfl
    | ok result =>
      obtain ⟨merged, later⟩ := result
      have hspec := resolveEntry_spec htable hentries.1 (.start description name)
      have hlater := (hspec.1 merged later hresult).1
      simp only [bind, Except.bind, Except.map, ih hlater hentries.2]

theorem get?_of_mem {entry : String × Block} (h : entry ∈ description.entries) :
    description.get? entry.1 = some entry.2 :=
  Entries.get?_of_mem description.nodup h

theorem resolve_eq_mapM (description : Description) :
    description.resolve = description.entries.mapM description.resolveAlone :=
  resolveEntries_eq_mapM sound_nil fun _ => get?_of_mem

theorem resolve_eq_error_iff {fault : Fault} :
    description.resolve = .error fault ↔
      ∃ before name after, description.keys = before ++ name :: after ∧
        (∀ earlier ∈ before, ∃ path, description.walk [] earlier = .ok path) ∧
        description.walk [] name = .error fault := by
  rw [resolve_eq_mapM, mapM_eq_error_iff, OrderedMap.keys, Entries.keys]
  constructor
  · rintro ⟨before, entry, after, hentries, hbefore, hentry⟩
    refine ⟨before.map Prod.fst, entry.1, after.map Prod.fst, by simp [hentries], ?_,
      resolveAlone_eq_error_iff.mp hentry⟩
    intro earlier hearlier
    obtain ⟨other, hother, rfl⟩ := List.mem_map.mp hearlier
    obtain ⟨result, hresult⟩ := hbefore other hother
    obtain ⟨path, hpath, -⟩ := resolveAlone_eq_ok_iff.mp hresult
    exact ⟨path, hpath⟩
  · rintro ⟨before, name, after, hkeys, hbefore, hname⟩
    obtain ⟨earlier, rest, hentries, rfl, hrest⟩ := List.map_eq_append_iff.mp hkeys
    obtain ⟨entry, later, rfl, rfl, rfl⟩ := List.map_eq_cons_iff.mp hrest
    refine ⟨earlier, entry, later, hentries, ?_, resolveAlone_eq_error_iff.mpr hname⟩
    intro other hother
    obtain ⟨path, hpath⟩ := hbefore other.1 (List.mem_map_of_mem hother)
    exact ⟨_, resolveAlone_eq_ok_iff.mpr ⟨path, hpath, rfl⟩⟩

theorem walk_fault {path : List String} {name : String} {fault : Fault}
    (h : description.walk path name = .error fault) :
    (∃ entry target, fault = .unknownBase entry target) ∨ ∃ chain, fault = .baseCycle chain := by
  fun_induction walk description path name with
  | case1 path name hnone => cases h
  | case2 path name target htarget hkey => exact Or.inl ⟨name, target, (Except.error.inj h).symm⟩
  | case3 path name target htarget hkey hold => exact Or.inr ⟨_, (Except.error.inj h).symm⟩
  | case4 path name target htarget hkey hnew ih => exact ih h

/-- Resolution is refused for a base that is not there or for a cycle of bases, and for nothing else. -/
theorem resolve_fault {fault : Fault} (h : description.resolve = .error fault) :
    (∃ entry target, fault = .unknownBase entry target) ∨ ∃ chain, fault = .baseCycle chain := by
  obtain ⟨_, _, _, _, _, hwalk⟩ := resolve_eq_error_iff.mp h
  exact walk_fault hwalk

theorem resolve_of_base?_eq_none (h : ∀ entry ∈ description.entries, entry.2.base? = none) :
    description.resolve = .ok description.entries := by
  have halone : ∀ entry ∈ description.entries, description.resolveAlone entry = .ok entry := by
    intro entry hentry
    have hget := get?_of_mem hentry
    have hbase : description.base? entry.1 = none := (base?_of_get? hget).trans (h entry hentry)
    have hwalk : description.walk [] entry.1 = .ok [entry.1] := walk_of_ends (Ends.root hbase)
    exact resolveAlone_eq_ok_iff.mpr
      ⟨_, hwalk, by rw [mergedAlong, block_of_get? hget]⟩
  rw [resolve_eq_mapM, mapM_eq_ok_iff]
  exact List.forall₂_same.mpr halone

theorem walk_of_mem_resolved {resolved : Entries Block} (h : description.resolve = .ok resolved)
    {entry : String × Block} (hentry : entry ∈ resolved) :
    ∃ path, description.walk [] entry.1 = .ok path ∧ description.Ends path ∧
      entry.2 = description.mergedAlong path := by
  rw [resolve_eq_mapM] at h
  obtain ⟨other, -, hother⟩ := exists_of_mem_mapM h hentry
  obtain ⟨path, hpath, rfl⟩ := resolveAlone_eq_ok_iff.mp hother
  obtain ⟨rest, rfl, hends⟩ := ends_of_walk hpath
  exact ⟨_, hpath, hends, rfl⟩

theorem keys_resolved {resolved : Entries Block} (h : description.resolve = .ok resolved) :
    resolved.keys = description.keys := by
  rw [resolve_eq_mapM, mapM_eq_ok_iff] at h
  rw [OrderedMap.keys]
  generalize description.entries = entries at h
  induction h with
  | nil => rfl
  | cons hentry _ ih =>
    obtain ⟨path, -, rfl⟩ := resolveAlone_eq_ok_iff.mp hentry
    rw [Entries.keys_cons, Entries.keys_cons, ih]

theorem exists_resolve_iff :
    (∃ resolved, description.resolve = .ok resolved) ↔
      ∀ name ∈ description.keys, ∃ path, description.walk [] name = .ok path := by
  constructor
  · rintro ⟨resolved, hresolved⟩ name hname
    rw [← keys_resolved hresolved] at hname
    obtain ⟨entry, hentry, rfl⟩ := List.mem_map.mp hname
    obtain ⟨path, hpath, -⟩ := walk_of_mem_resolved hresolved hentry
    exact ⟨path, hpath⟩
  · intro hwalks
    cases hresolve : description.resolve with
    | ok resolved => exact ⟨resolved, rfl⟩
    | error fault =>
      obtain ⟨before, name, after, hkeys, -, hname⟩ := resolve_eq_error_iff.mp hresolve
      obtain ⟨path, hpath⟩ := hwalks name (by simp [hkeys])
      rw [hname] at hpath
      contradiction

end Description

end StyleSync
