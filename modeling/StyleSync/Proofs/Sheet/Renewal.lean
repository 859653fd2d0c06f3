import Mathlib.Data.List.Flatten
import Mathlib.Data.List.Nodup
import StyleSync.Proofs.Sheet.Absorption

/-! # Rules that take the place of records

What reconciliation leaves where the rules have distinct keys.

* `mergedRules_of_nodup`: the rules are not merged with each other, and not with a record either if it
  has no other properties;
* `reconciled_of_fresh`: rules whose keys no record has are appended;
* `reconciled_map_read`: rules that give new values to properties of older rules replace their records,
  and stand behind the others.
-/

set_option autoImplicit false

namespace StyleSync

open Declaration

/-! ## Merged rules with distinct keys -/

theorem rulesWith_of_nodup {rules : List Rule} (hkeys : (rules.map Rule.key).Nodup) {rule : Rule}
    (h : rule ∈ rules) : rulesWith rule.key rules = [rule] := by
  obtain ⟨before, after, rfl⟩ := List.append_of_mem h
  rw [List.map_append, List.map_cons, List.nodup_append, List.nodup_cons] at hkeys
  obtain ⟨-, ⟨hafter, -⟩, hbefore⟩ := hkeys
  have hnone : ∀ other ∈ before, other.key ≠ rule.key := by
    intro other hother
    exact hbefore _ (List.mem_map_of_mem hother) _ List.mem_cons_self
  have hnone' : ∀ other ∈ after, other.key ≠ rule.key := by
    intro other hother hsame
    exact hafter (hsame ▸ List.mem_map_of_mem hother)
  have hleft : rulesWith rule.key before = [] := List.filter_eq_nil_iff.mpr (by simpa using hnone)
  have hright : rulesWith rule.key after = [] := List.filter_eq_nil_iff.mpr (by simpa using hnone')
  rw [rulesWith_append, hleft, List.nil_append, rulesWith, List.filter_cons, if_pos (by simp),
    ← rulesWith, hright]

theorem mergedRules_of_nodup {records : List Record} {rules : List Rule}
    (hkeys : (rules.map Rule.key).Nodup)
    (h : ∀ rule ∈ rules, ∀ old ∈ stored? records rule.key,
      merge old rule.declarations = rule.declarations) :
    mergedRules records rules = rules := by
  have hmerged : ∀ rule ∈ rules, mergedAt records rules rule.key = some rule := by
    intro rule hrule
    rw [mergedAt, rulesWith_of_nodup hkeys hrule]
    cases hstored : stored? records rule.key with
    | none => rfl
    | some old =>
      have hold := h rule hrule old hstored
      simp [combine, hold]
  calc mergedRules records rules
      = rules.filterMap (mergedAt records rules ∘ Rule.key) := by
        rw [mergedRules, lastKeys, List.dedup_eq_self.mpr hkeys, List.filterMap_map]
    _ = rules.filterMap some := List.filterMap_congr hmerged
    _ = rules := List.filterMap_some

/-! ## Rules with keys of their own -/

theorem withoutLast_of_not {records : List Record} {keys : List String}
    (h : ∀ key ∈ keys, ∀ record ∈ records, ¬record.hasKey key) : withoutLast records keys = records := by
  induction keys with
  | nil => rfl
  | cons key keys ih =>
    rw [List.forall_mem_cons] at h
    have hfirst : eraseLast (Record.hasKey key) records = records := eraseLast_of_not h.1
    have hcons : withoutLast records (key :: keys) =
        withoutLast (eraseLast (Record.hasKey key) records) keys := rfl
    rw [hcons, hfirst, ih h.2]

theorem reconciled_of_fresh {records : List Record} {rules : List Rule}
    (hkeys : (rules.map Rule.key).Nodup)
    (hfresh : ∀ rule ∈ rules, ∀ record ∈ records, ¬record.hasKey rule.key) :
    reconciled records rules = records ++ rules.map fun rule => .read rule.header rule.block := by
  have hold : withoutLast records (lastKeys rules) = records := by
    refine withoutLast_of_not fun key hkey => ?_
    obtain ⟨rule, hrule, rfl⟩ := mem_lastKeys.mp hkey
    exact hfresh rule hrule
  have hnew : mergedRules records rules = rules := by
    refine mergedRules_of_nodup hkeys fun rule hrule old hstored => ?_
    have hnone : stored? records rule.key = none :=
      stored?_eq_none_iff.mpr (hfresh rule hrule)
    rw [hnone] at hstored
    contradiction
  rw [reconciled, hold, hnew]

/-! ## New values for older rules -/

/-- The target of a rule and the properties that it declares. -/
def Rule.shape (rule : Rule) : Target × List String :=
  (rule.target, rule.declarations.map property)

theorem Rule.key_eq_of_shape_eq {rule other : Rule} (h : rule.shape = other.shape) :
    rule.key = other.key := by
  have htarget : rule.target = other.target := congrArg Prod.fst h
  rw [Rule.key, Rule.key, htarget]

theorem map_key_of_map_shape {rules others : List Rule}
    (h : rules.map Rule.shape = others.map Rule.shape) : rules.map Rule.key = others.map Rule.key := by
  have hkeys : ∀ rules : List Rule, rules.map Rule.key =
      (rules.map Rule.shape).map fun shape => matchKey shape.1.selector shape.1.condition? := by
    intro rules
    rw [List.map_map]
    rfl
  rw [hkeys, hkeys, h]

theorem hasKey_read_of_wellFormed {rule : Rule} (h : rule.WellFormed) (key : String) :
    (Record.read rule.header rule.block).hasKey key ↔ rule.key = key := by
  rw [Record.hasKey, decide_eq_true_iff, (read_header_block h).2.1, Option.some.injEq]

theorem withoutLast_map_read {rules : List Rule} (hrules : ∀ rule ∈ rules, rule.WellFormed)
    (hkeys : (rules.map Rule.key).Nodup) (keys : List String) :
    withoutLast (rules.map fun rule => .read rule.header rule.block) keys =
      (rules.filter (·.key ∉ keys)).map fun rule => .read rule.header rule.block := by
  induction keys generalizing rules with
  | nil => simp [withoutLast]
  | cons key keys ih =>
    have hone : (rules.map fun rule => Record.read rule.header rule.block).Pairwise
        fun record later => record.hasKey key → ¬later.hasKey key := by
      rw [List.pairwise_map]
      rw [List.nodup_iff_pairwise_ne, List.pairwise_map] at hkeys
      refine hkeys.imp_of_mem fun {rule later} hrule hlater hne => ?_
      rw [hasKey_read_of_wellFormed (hrules rule hrule), hasKey_read_of_wellFormed (hrules later hlater)]
      rintro rfl
      exact Ne.symm hne
    have hfirst : eraseLast (Record.hasKey key) (rules.map fun rule => .read rule.header rule.block) =
        (rules.filter (·.key ≠ key)).map fun rule => .read rule.header rule.block := by
      rw [eraseLast_eq_filter hone, List.filter_map]
      congr 1
      refine List.filter_congr fun rule hrule => ?_
      have hrule := hasKey_read_of_wellFormed (hrules rule hrule) key
      simp [← hrule]
    have hcons : withoutLast (rules.map fun rule => .read rule.header rule.block) (key :: keys) =
        withoutLast (eraseLast (Record.hasKey key)
          (rules.map fun rule => .read rule.header rule.block)) keys := rfl
    have hrest : ∀ rule ∈ rules.filter (·.key ≠ key), rule.WellFormed := fun rule hrule =>
      hrules rule (List.mem_of_mem_filter hrule)
    rw [hcons, hfirst, ih hrest (hkeys.sublist (List.filter_sublist.map _)), List.filter_filter]
    congr 1
    refine List.filter_congr fun rule _ => ?_
    simp [Bool.and_comm]

/-- Rules with distinct keys, without those that have the keys of some parts: the rules of the other
parts. -/
theorem filter_key_not_mem {α : Type} {l : List α} {f : α → List Rule}
    (hkeys : ((l.flatMap f).map Rule.key).Nodup) (p : α → Bool) :
    (l.flatMap f).filter (·.key ∉ ((l.filter p).flatMap f).map Rule.key) =
      (l.filter (!p ·)).flatMap f := by
  induction l with
  | nil => rfl
  | cons a l ih =>
    rw [List.flatMap_cons, List.map_append, List.nodup_append] at hkeys
    obtain ⟨-, hrest, hapart⟩ := hkeys
    cases ha : p a with
    | true =>
      have hout : (a :: l).filter p = a :: l.filter p := List.filter_cons_of_pos ha
      have hkept : (a :: l).filter (!p ·) = l.filter (!p ·) := List.filter_cons_of_neg (by simp [ha])
      rw [hout, hkept, ← ih hrest, List.flatMap_cons, List.flatMap_cons, List.filter_append,
        List.map_append, List.filter_eq_nil_iff.mpr, List.nil_append]
      · refine List.filter_congr fun rule hrule => ?_
        have hnot : rule.key ∉ (f a).map Rule.key := fun hmem =>
          hapart _ hmem _ (List.mem_map_of_mem hrule) rfl
        simp only [List.mem_append, hnot, false_or]
      · intro rule hrule
        have hmem : rule.key ∈ (f a).map Rule.key := List.mem_map_of_mem hrule
        simp only [List.mem_append, hmem, true_or, not_true_eq_false, decide_false,
          Bool.false_eq_true, not_false_eq_true]
    | false =>
      have hout : (a :: l).filter p = l.filter p := List.filter_cons_of_neg (by simp [ha])
      have hkept : (a :: l).filter (!p ·) = a :: l.filter (!p ·) :=
        List.filter_cons_of_pos (by simp [ha])
      rw [hout, hkept, List.flatMap_cons, List.flatMap_cons, List.filter_append, ih hrest,
        List.filter_eq_self.mpr]
      intro rule hrule
      rw [decide_eq_true_eq]
      intro hmem
      have hlater : rule.key ∈ (l.flatMap f).map Rule.key :=
        ((List.filter_sublist.flatMap f).map Rule.key).subset hmem
      exact hapart _ (List.mem_map_of_mem hrule) _ hlater rfl

section Parts

variable {α : Type} {l : List α} {f g : α → List Rule}
  (hbefore : ∀ a ∈ l, ∀ rule ∈ f a, rule.WellFormed) (hafter : ∀ a ∈ l, ∀ rule ∈ g a, rule.WellFormed)
  (hshapes : ∀ a ∈ l, (f a).map Rule.shape = (g a).map Rule.shape)
  (hkeys : ((l.flatMap g).map Rule.key).Nodup)

include hshapes

theorem map_shape_flatMap : (l.flatMap f).map Rule.shape = (l.flatMap g).map Rule.shape := by
  rw [List.map_flatMap, List.map_flatMap]
  exact List.flatMap_congr hshapes

include hkeys

theorem nodup_keys_before : ((l.flatMap f).map Rule.key).Nodup := by
  rw [map_key_of_map_shape (map_shape_flatMap hshapes)]
  exact hkeys

include hbefore hafter

/-- What is stored under the key of a rule of the second kind has the properties of this rule. -/
theorem merge_stored?_map_read {rule : Rule} (hrule : rule ∈ l.flatMap g) {old : List Declaration}
    (hstored : stored? ((l.flatMap f).map fun rule => .read rule.header rule.block) rule.key = some old) :
    merge old rule.declarations = rule.declarations := by
  obtain ⟨record, hrecord, hkey, rfl⟩ := exists_of_stored? hstored
  obtain ⟨earlier, hearlier, rfl⟩ := List.mem_map.mp hrecord
  obtain ⟨a, ha, hmem⟩ := List.mem_flatMap.mp hearlier
  obtain ⟨b, hb, hmem'⟩ := List.mem_flatMap.mp hrule
  have hwell := hbefore a ha earlier hmem
  rw [hasKey_read_of_wellFormed hwell] at hkey
  have hshape : earlier.shape ∈ (l.flatMap g).map Rule.shape := by
    rw [← map_shape_flatMap hshapes]
    exact List.mem_map_of_mem hearlier
  obtain ⟨later, hlater, hsame⟩ := List.mem_map.mp hshape
  have hlaterKey : later.key = rule.key := (Rule.key_eq_of_shape_eq hsame).trans hkey
  obtain rfl : later = rule := List.inj_on_of_nodup_map hkeys hlater hrule hlaterKey
  rw [(read_header_block hwell).2.2]
  exact merge_of_map_property_eq (congrArg Prod.snd hsame).symm (hafter b hb later hmem').nodup

/-- Where some of the rules get new values, the records of the others stay in order, and those of the new
rules follow. -/
theorem reconciled_map_read (p : α → Bool) :
    reconciled ((l.flatMap f).map fun rule => .read rule.header rule.block) ((l.filter p).flatMap g) =
      ((l.filter (!p ·)).flatMap f ++ (l.filter p).flatMap g).map fun rule =>
        .read rule.header rule.block := by
  have hpart : ∀ a ∈ l.filter p, (f a).map Rule.shape = (g a).map Rule.shape := fun a ha =>
    hshapes a (List.mem_of_mem_filter ha)
  have hpartKeys : (((l.filter p).flatMap g).map Rule.key).Nodup :=
    hkeys.sublist ((List.filter_sublist.flatMap g).map Rule.key)
  have hnew : mergedRules ((l.flatMap f).map fun rule => .read rule.header rule.block)
      ((l.filter p).flatMap g) = (l.filter p).flatMap g := by
    refine mergedRules_of_nodup hpartKeys fun rule hrule old hold => ?_
    have hmem : rule ∈ l.flatMap g := (List.filter_sublist.flatMap g).subset hrule
    exact merge_stored?_map_read hbefore hafter hshapes hkeys hmem hold
  have hwell : ∀ rule ∈ l.flatMap f, rule.WellFormed := by
    intro rule hrule
    obtain ⟨a, ha, hmem⟩ := List.mem_flatMap.mp hrule
    exact hbefore a ha rule hmem
  have hnodup := nodup_keys_before hshapes hkeys
  rw [reconciled, hnew, lastKeys, List.dedup_eq_self.mpr hpartKeys,
    ← map_key_of_map_shape (map_shape_flatMap hpart), withoutLast_map_read hwell hnodup,
    filter_key_not_mem hnodup, List.map_append]

end Parts

end StyleSync
