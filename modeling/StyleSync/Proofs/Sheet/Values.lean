import StyleSync.Proofs.Css.Merging
import StyleSync.Proofs.Sheet.Encoding
import StyleSync.Proofs.Sheet.Reconciliation

/-! # The values of a sheet

`effective? records key property` is the value that counts for a property under a key: the one in the
last record with the key that declares the property. Stated here is what reconciliation makes of these
values:

* `value?_mergedAt`: the values of a merged rule;
* `effective?_reconciled`: new values win, and what the rules do not declare stays, but for values that
  are pinned;
* `effective?_reconciled_eq_iff`: when the exception does not matter.

A value is pinned where no record has the key and the first rule with it declares the property twice.
The first of these two declarations takes the values of later rules, but the second one counts.
-/

set_option autoImplicit false

namespace StyleSync

open Declaration

/-- The value that counts for a property under a key. -/
def effective? (records : List Record) (key property : String) : Option String :=
  last? (fun record => if record.hasKey key then value? record.declarations property else none)
    records

/-- A record with clean declarations of distinct properties. -/
structure Record.Sound (record : Record) : Prop where
  clean : ∀ declaration ∈ record.declarations, declaration.Clean
  nodup : (record.declarations.map Declaration.property).Nodup

instance (record : Record) : Decidable record.Sound :=
  decidable_of_iff ((∀ declaration ∈ record.declarations, declaration.Clean) ∧
      (record.declarations.map Declaration.property).Nodup)
    ⟨fun ⟨hclean, hnodup⟩ => ⟨hclean, hnodup⟩, fun h => ⟨h.clean, h.nodup⟩⟩

theorem Rule.WellFormed.sound_read {rule : Rule} (h : rule.WellFormed) :
    (Record.read rule.header rule.block).Sound := by
  obtain ⟨-, -, hdeclarations⟩ := read_header_block h
  exact ⟨hdeclarations ▸ h.clean, hdeclarations ▸ h.nodup⟩

theorem sound_map_read {rules : List Rule} (h : ∀ rule ∈ rules, rule.WellFormed) :
    ∀ record ∈ rules.map fun rule => Record.read rule.header rule.block, record.Sound := by
  intro record hrecord
  obtain ⟨rule, hrule, rfl⟩ := List.mem_map.mp hrecord
  exact (h rule hrule).sound_read

/-- What rules declare under a key, in order. -/
def spelled (rules : List Rule) (key : String) : List Declaration :=
  (rulesWith key rules).flatMap Rule.declarations

/-- The value that stays whatever later rules declare. -/
def pinned? (records : List Record) (rules : List Rule) (key property : String) : Option String :=
  match stored? records key, rulesWith key rules with
  | none, first :: _ =>
    if times property first.declarations ≤ 1 then none else value? first.declarations property
  | _, _ => none

/-! ## Records -/

theorem stored?_eq_none_iff {records : List Record} {key : String} :
    stored? records key = none ↔ ∀ record ∈ records, ¬record.hasKey key := by
  simp [stored?]

theorem exists_of_stored? {records : List Record} {key : String} {old : List Declaration}
    (h : stored? records key = some old) :
    ∃ record ∈ records, record.hasKey key ∧ record.declarations = old := by
  obtain ⟨record, hfind, hdeclarations⟩ := Option.map_eq_some_iff.mp h
  exact ⟨record, List.mem_reverse.mp (List.mem_of_find?_eq_some hfind), List.find?_some hfind,
    hdeclarations⟩

theorem effective?_append (as bs : List Record) (key property : String) :
    effective? (as ++ bs) key property =
      (effective? bs key property).or (effective? as key property) :=
  last?_append _ as bs

theorem effective?_eq_none {records : List Record} {key : String} (h : stored? records key = none)
    (property : String) : effective? records key property = none := by
  refine last?_eq_none fun record hrecord => ?_
  rw [if_neg (stored?_eq_none_iff.mp h record hrecord)]

theorem effective?_eq_or (records : List Record) (key property : String) :
    effective? records key property =
      ((stored? records key).bind fun old => value? old property).or
        (effective? (eraseLast (Record.hasKey key) records) key property) := by
  unfold effective? stored?
  rw [last?_eq_or_eraseLast fun record hrecord => if_neg hrecord]
  cases hfind : records.reverse.find? (Record.hasKey key) with
  | none => rfl
  | some record =>
    have hrecord := List.find?_some hfind
    rw [Option.bind_some, if_pos hrecord, Option.map_some, Option.bind_some]

theorem effective?_withoutLast_of_not_mem {keys : List String} {key : String} (h : key ∉ keys)
    (records : List Record) (property : String) :
    effective? (withoutLast records keys) key property = effective? records key property := by
  induction keys generalizing records with
  | nil => rfl
  | cons other keys ih =>
    rw [List.mem_cons, not_or] at h
    refine (ih h.2 _).trans (last?_eraseLast_of_none (fun record hrecord => ?_) records)
    rw [if_neg (not_hasKey_of_ne h.1 record hrecord)]

theorem effective?_withoutLast_of_mem {keys : List String} {key : String} (h : key ∈ keys)
    (hnodup : keys.Nodup) (records : List Record) (property : String) :
    effective? (withoutLast records keys) key property =
      effective? (eraseLast (Record.hasKey key) records) key property := by
  rw [withoutLast_perm records (List.perm_cons_erase h)]
  exact effective?_withoutLast_of_not_mem hnodup.not_mem_erase _ property

/-! ## Merged rules -/

theorem combine_cons (stored : Option (List Declaration)) (first : Rule) (rest : List Rule) :
    combine stored (first :: rest) =
      some ⟨(rest.getLastD first).target,
        match stored with
        | some old => merge old ((first :: rest).flatMap Rule.declarations)
        | none => merge first.declarations (rest.flatMap Rule.declarations)⟩ := by
  cases stored <;> rw [combine] <;> simp only [foldl_merge, ← List.flatMap_def]

theorem clean_flatMap {rules : List Rule} (h : ∀ rule ∈ rules, rule.Readable) :
    ∀ declaration ∈ rules.flatMap Rule.declarations, declaration.Clean := by
  intro declaration hdeclaration
  obtain ⟨rule, hrule, hmem⟩ := List.mem_flatMap.mp hdeclaration
  exact (h rule hrule).clean declaration hmem

theorem readable_mergedAt {records : List Record} {rules : List Rule} {key : String} {merged : Rule}
    (hrecords : ∀ record ∈ records, record.Sound) (hrules : ∀ rule ∈ rules, rule.Readable)
    (h : mergedAt records rules key = some merged) : merged.Readable := by
  obtain ⟨rule, hrule, -, htarget⟩ := exists_target_of_mergedAt h
  refine ⟨htarget ▸ (hrules rule hrule).target, ?_⟩
  have hwith : ∀ rule ∈ rulesWith key rules, rule.Readable :=
    fun rule hmem => hrules rule (mem_rulesWith.mp hmem).1
  unfold mergedAt at h
  cases hkey : rulesWith key rules with
  | nil => simp [hkey, combine] at h
  | cons first rest =>
    rw [hkey] at h hwith
    rw [combine_cons, Option.some.injEq] at h
    rw [← h]
    cases hstored : stored? records key with
    | none =>
      have hfirst := (hwith first List.mem_cons_self).clean
      exact clean_merge hfirst (clean_flatMap fun rule hmem => hwith rule (List.mem_cons_of_mem _ hmem))
    | some old =>
      obtain ⟨record, hrecord, -, rfl⟩ := exists_of_stored? hstored
      exact clean_merge (hrecords record hrecord).clean (clean_flatMap hwith)

/-- The values of a merged rule: new ones, else stored ones, unless they are pinned. -/
theorem value?_mergedAt {records : List Record} {rules : List Rule} {key : String} {merged : Rule}
    (hrecords : ∀ record ∈ records, record.Sound) (h : mergedAt records rules key = some merged)
    (property : String) :
    value? merged.declarations property =
      (pinned? records rules key property).or
        ((value? (spelled rules key) property).or
          ((stored? records key).bind fun old => value? old property)) := by
  unfold mergedAt at h
  unfold pinned? spelled
  cases hkey : rulesWith key rules with
  | nil => simp [hkey, combine] at h
  | cons first rest =>
    rw [hkey, combine_cons, Option.some.injEq] at h
    rw [← h]
    cases hstored : stored? records key with
    | none =>
      dsimp only
      rw [value?_merge, List.flatMap_cons, value?_append]
      by_cases htimes : times property first.declarations ≤ 1
      · simp [htimes]
      · have hvalue : value? first.declarations property ≠ none := fun hnone => by
          rw [value?_eq_none_iff] at hnone
          omega
        obtain ⟨value, hsome⟩ := Option.ne_none_iff_exists'.mp hvalue
        simp [htimes, hsome]
    | some old =>
      obtain ⟨record, hrecord, -, rfl⟩ := exists_of_stored? hstored
      have htimes := times_le_one_of_nodup property (hrecords record hrecord).nodup
      dsimp only
      rw [value?_merge, if_pos htimes, Option.none_or, Option.bind_some]

theorem rulesWith_append (key : String) (before after : List Rule) :
    rulesWith key (before ++ after) = rulesWith key before ++ rulesWith key after :=
  List.filter_append before after

theorem spelled_append (before after : List Rule) (key : String) :
    spelled (before ++ after) key = spelled before key ++ spelled after key := by
  rw [spelled, rulesWith_append, List.flatMap_append, spelled, spelled]

theorem spelled_eq_nil {rules : List Rule} {key : String} (h : ∀ rule ∈ rules, rule.key ≠ key) :
    spelled rules key = [] := by
  have hnone : rulesWith key rules = [] := by
    rw [rulesWith, List.filter_eq_nil_iff]
    intro rule hrule
    simpa using h rule hrule
  rw [spelled, hnone, List.flatMap_nil]

/-- What many lists of rules declare under a key that occurs in one of them only. -/
theorem spelled_flatMap_of_unique {α : Type} {l : List α} {f : α → List Rule} {a : α} {key : String}
    (hnodup : l.Nodup) (ha : a ∈ l) (h : ∀ b ∈ l, b ≠ a → ∀ rule ∈ f b, rule.key ≠ key) :
    spelled (l.flatMap f) key = spelled (f a) key := by
  obtain ⟨before, after, rfl⟩ := List.append_of_mem ha
  rw [List.nodup_middle, List.nodup_cons] at hnodup
  have hother : ∀ part, part ⊆ before ++ after → spelled (part.flatMap f) key = [] := by
    intro part hpart
    refine spelled_eq_nil fun rule hrule => ?_
    obtain ⟨b, hb, hmem⟩ := List.mem_flatMap.mp hrule
    have hne : b ≠ a := fun hsame => hnodup.1 (hsame ▸ hpart hb)
    have hl : b ∈ before ++ a :: after := by
      have hb' := hpart hb
      simp only [List.mem_append, List.mem_cons] at hb' ⊢
      exact hb'.imp_right Or.inr
    exact h b hl hne rule hmem
  rw [List.flatMap_append, List.flatMap_cons, spelled_append, spelled_append,
    hother before (List.subset_append_left before after),
    hother after (List.subset_append_right before after), List.nil_append, List.append_nil]

theorem value?_spelled_append_self (earlier rules : List Rule) (key property : String) :
    value? (spelled (earlier ++ rules ++ rules) key) property =
      value? (spelled (earlier ++ rules) key) property := by
  simp only [spelled_append, value?_append, ← Option.or_assoc, Option.or_self]

theorem effective?_map_read {rules : List Rule} (h : ∀ rule ∈ rules, rule.Readable)
    (key property : String) :
    effective? (rules.map fun rule => .read rule.header rule.block) key property =
      value? (spelled rules key) property := by
  induction rules with
  | nil => rfl
  | cons rule rest ih =>
    rw [List.forall_mem_cons] at h
    have hread := read_eq_record h.1
    have hhasKey : (Record.read rule.header rule.block).hasKey key = decide (rule.key = key) := by
      rw [hread, Record.hasKey, Target.key?_record, Rule.key]
      simp
    have hspelled : spelled (rule :: rest) key =
        (if rule.key = key then rule.declarations else []) ++ spelled rest key := by
      by_cases hkey : rule.key = key <;> simp [spelled, rulesWith, hkey]
    rw [List.map_cons, effective?, last?_cons, ← effective?, ih h.2, hhasKey, hread,
      Target.declarations_record, value?_merge_nil_left, hspelled, value?_append]
    by_cases hkey : rule.key = key <;> simp [hkey]

theorem rulesWith_mergedRules (records : List Record) (rules : List Rule) (key : String) :
    rulesWith key (mergedRules records rules) = (mergedAt records rules key).toList := by
  have hkeys : ∀ keys : List String, keys.Nodup →
      rulesWith key (keys.filterMap (mergedAt records rules)) =
        if key ∈ keys then (mergedAt records rules key).toList else [] := by
    intro keys hnodup
    induction keys with
    | nil => rfl
    | cons other keys ih =>
      rw [List.nodup_cons] at hnodup
      specialize ih hnodup.2
      rw [rulesWith] at ih ⊢
      by_cases hother : other = key
      · subst hother
        rw [if_neg hnodup.1] at ih
        cases hmerged : mergedAt records rules other with
        | none => simp [hmerged, ih]
        | some merged => simp [hmerged, ih, key_of_mergedAt hmerged]
      · cases hmerged : mergedAt records rules other with
        | none => simp [hmerged, ih, Ne.symm hother]
        | some merged => simp [hmerged, ih, key_of_mergedAt hmerged, hother, Ne.symm hother]
  rw [mergedRules, hkeys _ (nodup_lastKeys rules)]
  split
  · rfl
  · next hmem => rw [mergedAt_eq_none records hmem, Option.toList_none]

theorem effective?_mergedRules {records : List Record} {rules : List Rule}
    (hrecords : ∀ record ∈ records, record.Sound) (hrules : ∀ rule ∈ rules, rule.Readable)
    (key property : String) :
    effective? ((mergedRules records rules).map fun rule => .read rule.header rule.block) key
        property =
      (mergedAt records rules key).bind fun merged => value? merged.declarations property := by
  have hreadable : ∀ merged ∈ mergedRules records rules, merged.Readable := by
    intro merged hmem
    obtain ⟨key, -, hmerged⟩ := List.mem_filterMap.mp hmem
    exact readable_mergedAt hrecords hrules hmerged
  rw [effective?_map_read hreadable, spelled, rulesWith_mergedRules]
  cases mergedAt records rules key <;> simp

/-! ## Reconciled records -/

theorem pinned?_eq_none_of_not_mem (records : List Record) {rules : List Rule} {key : String}
    (h : key ∉ lastKeys rules) (property : String) : pinned? records rules key property = none := by
  unfold pinned?
  rw [rulesWith_eq_nil h]
  cases stored? records key <;> rfl

theorem pinned?_eq_none_of_nodup {records : List Record} {rules : List Rule}
    (h : ∀ rule ∈ rules, rule.WellFormed) (key property : String) :
    pinned? records rules key property = none := by
  unfold pinned?
  split
  · next first rest _ hwith =>
    have hmem : first ∈ rulesWith key rules := by simp [hwith]
    have hnodup := (h first (mem_rulesWith.mp hmem).1).nodup
    rw [if_pos (times_le_one_of_nodup property hnodup)]
  · rfl

/-- New values win and what the rules do not declare stays, but for pinned values. -/
theorem effective?_reconciled {records : List Record} {rules : List Rule}
    (hrecords : ∀ record ∈ records, record.Sound) (hrules : ∀ rule ∈ rules, rule.Readable)
    (key property : String) :
    effective? (reconciled records rules) key property =
      (pinned? records rules key property).or
        ((value? (spelled rules key) property).or (effective? records key property)) := by
  rw [reconciled, effective?_append, effective?_mergedRules hrecords hrules]
  by_cases hmem : key ∈ lastKeys rules
  · obtain ⟨merged, hmerged, -⟩ := exists_mergedAt records hmem
    rw [hmerged, Option.bind_some, value?_mergedAt hrecords hmerged,
      effective?_withoutLast_of_mem hmem (nodup_lastKeys rules), effective?_eq_or records]
    simp only [Option.or_assoc]
  · rw [mergedAt_eq_none records hmem, pinned?_eq_none_of_not_mem records hmem,
      effective?_withoutLast_of_not_mem hmem, spelled, rulesWith_eq_nil hmem]
    simp

theorem stored?_eq_none_of_pinned? {records : List Record} {rules : List Rule}
    {key property value : String} (h : pinned? records rules key property = some value) :
    stored? records key = none := by
  unfold pinned? at h
  cases hstored : stored? records key with
  | none => rfl
  | some old => simp [hstored] at h

theorem effective?_reconciled_eq_iff {records : List Record} {rules : List Rule}
    (hrecords : ∀ record ∈ records, record.Sound) (hrules : ∀ rule ∈ rules, rule.Readable)
    (key property : String) :
    effective? (reconciled records rules) key property =
        (value? (spelled rules key) property).or (effective? records key property) ↔
      ∀ value, pinned? records rules key property = some value →
        value? (spelled rules key) property = some value := by
  rw [effective?_reconciled hrecords hrules]
  cases hpinned : pinned? records rules key property with
  | none => simp
  | some value =>
    rw [effective?_eq_none (stored?_eq_none_of_pinned? hpinned), Option.some_or, Option.or_none]
    constructor
    · intro h other hother
      rw [← h, hother]
    · intro h
      exact (h value rfl).symm

end StyleSync
