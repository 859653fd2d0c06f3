import StyleSync.Proofs.Sheet.Values

/-! # Reconciling in parts and again

Reconciliation with well-formed rules can be made in parts, and parts that are made again are absorbed.

* `Record.Sound` is kept (`sound_reconciled`), and the records that rules leave are outlined in the plan as
  they are (`map_ofRecord_reconciled`), so that what comes later meets them;
* `reconciled_append`: rules in two parts;
* `reconciled_append_self`: the same rules twice;
* `reconciled_resume`: all rules after some of the first of them.
-/

set_option autoImplicit false

namespace StyleSync

open Declaration

/-! ## Well-formed merged rules -/

theorem combine_concat_of_nodup {rules : List Rule} {rule : Rule}
    (h : ∀ other ∈ rules ++ [rule], (other.declarations.map Declaration.property).Nodup)
    (stored : Option (List Declaration)) :
    combine stored (rules ++ [rule]) =
      some ⟨rule.target,
        merge (stored.getD []) ((rules ++ [rule]).flatMap Rule.declarations)⟩ := by
  have hstart : ∀ other ∈ rules ++ [rule], ∀ more : List Declaration,
      merge other.declarations more = merge [] (other.declarations ++ more) := by
    intro other hother more
    have hfirst : merge [] other.declarations = other.declarations :=
      merge_of_nodup (by simpa using h other hother)
    rw [merge_append, hfirst]
  cases rules with
  | nil =>
    rw [List.nil_append, combine_cons]
    cases stored with
    | none => simp [hstart rule]
    | some old => rfl
  | cons first rest =>
    rw [List.cons_append, combine_cons, List.flatMap_cons]
    cases stored with
    | none => simp [hstart first]
    | some old => simp

theorem nodup_stored? {records : List Record} (h : ∀ record ∈ records, record.Sound) (key : String) :
    (((stored? records key).getD []).map Declaration.property).Nodup := by
  cases hstored : stored? records key with
  | none => simp
  | some old =>
    obtain ⟨record, hrecord, -, rfl⟩ := exists_of_stored? hstored
    exact (h record hrecord).nodup

theorem nodup_of_mem_rulesWith {rules : List Rule} (h : ∀ rule ∈ rules, rule.WellFormed)
    (key : String) :
    ∀ rule ∈ rulesWith key rules, (rule.declarations.map Declaration.property).Nodup :=
  fun rule hmem => (h rule (mem_rulesWith.mp hmem).1).nodup

theorem nodup_mergedAt {records : List Record} {rules : List Rule} {key : String} {merged : Rule}
    (hrecords : ∀ record ∈ records, record.Sound) (hrules : ∀ rule ∈ rules, rule.WellFormed)
    (h : mergedAt records rules key = some merged) :
    (merged.declarations.map Declaration.property).Nodup := by
  have hwith := nodup_of_mem_rulesWith hrules key
  unfold mergedAt at h
  generalize rulesWith key rules = same at h hwith
  cases same using List.reverseRecOn with
  | nil => simp [combine] at h
  | append_singleton rest last =>
    rw [combine_concat_of_nodup hwith, Option.some.injEq] at h
    rw [← h]
    exact nodup_merge (nodup_stored? hrecords key) _

theorem wellFormed_of_mem_mergedRules {records : List Record} {rules : List Rule} {merged : Rule}
    (hrecords : ∀ record ∈ records, record.Sound) (hrules : ∀ rule ∈ rules, rule.WellFormed)
    (h : merged ∈ mergedRules records rules) : merged.WellFormed := by
  obtain ⟨key, -, hmerged⟩ := List.mem_filterMap.mp h
  exact ⟨readable_mergedAt hrecords (fun rule hrule => (hrules rule hrule).toReadable) hmerged,
    nodup_mergedAt hrecords hrules hmerged⟩

/-! ## Records in the plan -/

theorem Rule.WellFormed.ofRule_eq {rule : Rule} (h : rule.WellFormed) :
    Tracked.ofRule rule = .ofRecord (.read rule.header rule.block) := by
  obtain ⟨-, hkey, hdeclarations⟩ := read_header_block h
  rw [Tracked.ofRule, Tracked.ofRecord, Record.outline, hkey, hdeclarations]

theorem withoutLast_sublist (records : List Record) (keys : List String) :
    (withoutLast records keys).Sublist records := by
  induction keys generalizing records with
  | nil => exact List.Sublist.refl records
  | cons key keys ih =>
    have herase : (eraseLast (Record.hasKey key) records).Sublist records := by
      rw [← List.reverse_sublist, eraseLast, List.reverse_reverse]
      exact List.eraseP_sublist
    exact (ih _).trans herase

/-! ## Again -/

theorem mergedAt_append_self (records : List Record) {rules : List Rule}
    (hrules : ∀ rule ∈ rules, rule.WellFormed) (key : String) :
    mergedAt records (rules ++ rules) key = mergedAt records rules key := by
  have hwith := nodup_of_mem_rulesWith hrules key
  rw [mergedAt, mergedAt, rulesWith_append]
  generalize rulesWith key rules = same at hwith
  cases same using List.reverseRecOn with
  | nil => rfl
  | append_singleton rest last =>
    have hboth : ∀ rule ∈ (rest ++ [last] ++ rest) ++ [last],
        (rule.declarations.map Declaration.property).Nodup := fun rule hmem =>
      hwith rule (by simpa [or_comm, or_left_comm] using hmem)
    rw [← List.append_assoc (rest ++ [last]), combine_concat_of_nodup hboth,
      combine_concat_of_nodup hwith, List.append_assoc (rest ++ [last]), List.flatMap_append,
      merge_append, merge_merge_self]

theorem reconciled_append_self (records : List Record) {rules : List Rule}
    (hrules : ∀ rule ∈ rules, rule.WellFormed) :
    reconciled records (rules ++ rules) = reconciled records rules := by
  have hkeys : lastKeys (rules ++ rules) = lastKeys rules := by
    rw [lastKeys, List.map_append, List.Subset.dedup_append_right (List.Subset.refl _), lastKeys]
  have hmerged : mergedRules records (rules ++ rules) = mergedRules records rules := by
    rw [mergedRules, mergedRules, hkeys]
    exact List.filterMap_congr fun key _ => mergedAt_append_self records hrules key
  rw [reconciled, reconciled, hkeys, hmerged]

/-! ## What is left -/

section WellFormed

variable {records : List Record} (hrecords : ∀ record ∈ records, record.Sound)

include hrecords

theorem sound_reconciled {rules : List Rule} (hrules : ∀ rule ∈ rules, rule.WellFormed) :
    ∀ record ∈ reconciled records rules, record.Sound := by
  intro record hrecord
  rcases List.mem_append.mp hrecord with hold | hnew
  · exact hrecords record ((withoutLast_sublist records _).subset hold)
  · obtain ⟨merged, hmerged, rfl⟩ := List.mem_map.mp hnew
    exact (wellFormed_of_mem_mergedRules hrecords hrules hmerged).sound_read

/-- What the plan says of the records after all turns is their outline. -/
theorem map_ofRecord_reconciled {rules : List Rule} (hrules : ∀ rule ∈ rules, rule.WellFormed) :
    (reconciled records rules).map .ofRecord = trackedAfter records rules := by
  have hmerged : ∀ merged ∈ mergedRules records rules,
      Tracked.ofRecord (.read merged.header merged.block) = .ofRule merged := fun merged hmem =>
    (wellFormed_of_mem_mergedRules hrecords hrules hmem).ofRule_eq.symm
  rw [reconciled, trackedAfter, List.map_append, List.map_map]
  congr 1
  exact List.map_congr_left hmerged

/-! ## Parts -/

theorem reconciled_append {before after : List Rule} (hbefore : ∀ rule ∈ before, rule.WellFormed) :
    reconciled records (before ++ after) = reconciled (reconciled records before) after := by
  have hplan : trackedAfter records (before ++ after) =
      trackedAfter (reconciled records before) after := by
    rw [← foldl_track, ← foldl_track, List.foldl_append, foldl_track,
      map_ofRecord_reconciled hrecords hbefore]
  rw [← map_record_trackedAfter, hplan, map_record_trackedAfter]

/-- Reconciliation that was stopped somewhere can be made again from the start. -/
theorem reconciled_resume {before after : List Rule} (hbefore : ∀ rule ∈ before, rule.WellFormed) :
    reconciled (reconciled records before) (before ++ after) =
      reconciled records (before ++ after) := by
  have hsound := sound_reconciled hrecords hbefore
  calc reconciled (reconciled records before) (before ++ after)
      = reconciled (reconciled (reconciled records before) before) after :=
        reconciled_append hsound hbefore
    _ = reconciled (reconciled records before) after := by
        rw [← reconciled_append hrecords hbefore, reconciled_append_self records hbefore]
    _ = reconciled records (before ++ after) := (reconciled_append hrecords hbefore).symm

end WellFormed

end StyleSync
