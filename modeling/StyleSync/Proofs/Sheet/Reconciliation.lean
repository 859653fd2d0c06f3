import Mathlib.Data.List.Dedup
import Mathlib.Data.List.Induction
import StyleSync.Proofs.LastEntry
import StyleSync.Sheet.Edit

/-! # What reconciliation makes of a sheet

The edits of `editsFor` are planned against an outline, while indices shift and rules meet records that
are not there yet. Stated here:

* `reconciled records rules`: the records that result, said without indices and turns;
* `runAll_editsFor`: a sheet that is outlined by the plan never refuses an edit, and plan and sheet
  stay in step (`track` is one turn of both);
* `foldl_track`: all turns together leave the records that no rule meets, and behind them one merged
  rule for each key. A further rule replaces the merged rule of its key if that has occurred
  (`track_trackedAfter_of_mem`), else the last record with it (`track_trackedAfter_of_not_mem`);
* `runAll_edits`: the edits of a block turn the records of a sheet into the reconciled ones.
-/

set_option autoImplicit false

namespace StyleSync

/-! ## Reconciled records -/

def Record.hasKey (key : String) (record : Record) : Bool :=
  record.key? = some key

/-- The keys of rules, each once, in the order in which they occur last. -/
def lastKeys (rules : List Rule) : List String :=
  (rules.map Rule.key).dedup

/-- The rules with a key. -/
def rulesWith (key : String) (rules : List Rule) : List Rule :=
  rules.filter fun rule => rule.key = key

/-- The declarations of the last record with a key. -/
def stored? (records : List Record) (key : String) : Option (List Declaration) :=
  (records.reverse.find? (Record.hasKey key)).map Record.declarations

/-- One rule for several with a common key: it has the target of the last, and its declarations are
those of all of them, merged in turn into what is stored, else into those of the first rule. -/
def combine (stored : Option (List Declaration)) : List Rule → Option Rule
  | [] => none
  | first :: rest =>
    some ⟨(rest.getLastD first).target,
      match stored with
      | some old => ((first :: rest).map Rule.declarations).foldl Declaration.merge old
      | none => (rest.map Rule.declarations).foldl Declaration.merge first.declarations⟩

/-- The rule that the rules with a key are combined into, in the presence of the records. -/
def mergedAt (records : List Record) (rules : List Rule) (key : String) : Option Rule :=
  combine (stored? records key) (rulesWith key rules)

/-- One rule for each key. -/
def mergedRules (records : List Record) (rules : List Rule) : List Rule :=
  (lastKeys rules).filterMap (mergedAt records rules)

/-- The records without the last one of each key. -/
def withoutLast (records : List Record) (keys : List String) : List Record :=
  keys.foldl (fun records key => eraseLast (Record.hasKey key) records) records

/-- The records that rules do not replace, and behind them one record for each key of the rules. -/
def reconciled (records : List Record) (rules : List Rule) : List Record :=
  withoutLast records (lastKeys rules) ++
    (mergedRules records rules).map fun rule => .read rule.header rule.block

/-! ## Outlines -/

theorem findLast?_of_not {key : String} {entries : List OutlineEntry}
    (h : ∀ entry ∈ entries, entry.key ≠ some key) : findLast? key entries = none := by
  induction entries with
  | nil => rfl
  | cons entry rest ih =>
    rw [List.forall_mem_cons] at h
    simp only [findLast?, ih h.2, if_neg h.1]

/-- The entry that is found has its key behind it no more. -/
theorem findLast?_append_cons {key : String} {entry : OutlineEntry} (hkey : entry.key = some key)
    (before : List OutlineEntry) {after : List OutlineEntry}
    (h : ∀ later ∈ after, later.key ≠ some key) :
    findLast? key (before ++ entry :: after) = some (before.length, entry.declarations) := by
  induction before with
  | nil => simp only [List.nil_append, findLast?, findLast?_of_not h, if_pos hkey, List.length_nil]
  | cons first before ih => simp only [List.cons_append, findLast?, ih, List.length_cons]

/-! ## Plan and sheet -/

/-- An entry of the plan with the record that stands in its place. -/
structure Tracked where
  outline : OutlineEntry
  record : Record

namespace Tracked

def ofRecord (record : Record) : Tracked := ⟨record.outline, record⟩

def ofRule (rule : Rule) : Tracked :=
  ⟨⟨some rule.key, rule.declarations⟩, .read rule.header rule.block⟩

def hasKey (key : String) (tracked : Tracked) : Bool :=
  tracked.outline.key = some key

@[simp] theorem hasKey_ofRecord (key : String) (record : Record) :
    hasKey key (ofRecord record) = record.hasKey key := rfl

@[simp] theorem hasKey_ofRule (key : String) (rule : Rule) :
    hasKey key (ofRule rule) = decide (rule.key = key) := by
  simp [hasKey, ofRule]

end Tracked

/-- One turn: a rule is merged into the last entry with its key, and goes to the end. -/
def track (planned : List Tracked) (rule : Rule) : List Tracked :=
  match planned.reverse.find? (Tracked.hasKey rule.key) with
  | none => planned ++ [.ofRule rule]
  | some found =>
    eraseLast (Tracked.hasKey rule.key) planned ++
      [.ofRule ⟨rule.target, Declaration.merge found.outline.declarations rule.declarations⟩]

theorem track_of_not {planned : List Tracked} {rule : Rule}
    (h : ∀ tracked ∈ planned, ¬Tracked.hasKey rule.key tracked) :
    track planned rule = planned ++ [.ofRule rule] := by
  rw [track, find?_reverse_of_not h]

theorem track_append_cons {before after : List Tracked} {found : Tracked} {rule : Rule}
    (hfound : Tracked.hasKey rule.key found)
    (hafter : ∀ tracked ∈ after, ¬Tracked.hasKey rule.key tracked) :
    track (before ++ found :: after) rule =
      before ++ after ++
        [.ofRule ⟨rule.target, Declaration.merge found.outline.declarations rule.declarations⟩] := by
  rw [track, find?_reverse_append_cons hfound before hafter,
    eraseLast_append_cons hfound before hafter]

theorem editsFor_of_not {planned : List Tracked} {rule : Rule}
    (h : ∀ tracked ∈ planned, ¬Tracked.hasKey rule.key tracked) (rules : List Rule) :
    editsFor (planned.map Tracked.outline) (rule :: rules) =
      Edit.ofRule rule :: editsFor ((track planned rule).map Tracked.outline) rules := by
  have hentries : ∀ entry ∈ planned.map Tracked.outline, entry.key ≠ some rule.key := by
    intro entry hentry
    obtain ⟨tracked, hmem, rfl⟩ := List.mem_map.mp hentry
    simpa [Tracked.hasKey] using h tracked hmem
  rw [editsFor, findLast?_of_not hentries, track_of_not h, List.map_append]
  rfl

/-- A rule whose key is in the plan replaces the last entry with it. The index of the entry is that of its
record: both lists have the same number of entries before it. -/
theorem editsFor_append_cons {before after : List Tracked} {found : Tracked} {rule : Rule}
    (hfound : Tracked.hasKey rule.key found)
    (hafter : ∀ tracked ∈ after, ¬Tracked.hasKey rule.key tracked) (rules : List Rule) :
    editsFor ((before ++ found :: after).map Tracked.outline) (rule :: rules) =
      Edit.removeAt (before.map Tracked.record).length ::
        Edit.ofRule ⟨rule.target, Declaration.merge found.outline.declarations rule.declarations⟩ ::
          editsFor ((track (before ++ found :: after) rule).map Tracked.outline) rules := by
  have hkey : found.outline.key = some rule.key := by simpa [Tracked.hasKey] using hfound
  have hlater : ∀ entry ∈ after.map Tracked.outline, entry.key ≠ some rule.key := by
    intro entry hentry
    obtain ⟨tracked, hmem, rfl⟩ := List.mem_map.mp hentry
    simpa [Tracked.hasKey] using hafter tracked hmem
  have herase : (before.map Tracked.outline ++ found.outline :: after.map Tracked.outline).eraseIdx
      (before.map Tracked.outline).length =
        before.map Tracked.outline ++ after.map Tracked.outline := by
    rw [List.eraseIdx_append_of_length_le (Nat.le_refl _)]
    simp
  rw [track_append_cons hfound hafter, List.map_append, List.map_cons, editsFor,
    findLast?_append_cons hkey _ hlater]
  dsimp only
  rw [herase, List.length_map, List.length_map, List.map_append, List.map_append]
  rfl

theorem runAll_ofRule_cons (rule : Rule) (rest : List Edit) (records : List Record) :
    Edit.runAll (Edit.ofRule rule :: rest) (⟨records⟩ : Sheet) =
      Edit.runAll rest (⟨records ++ [.read rule.header rule.block]⟩ : Sheet) := rfl

theorem runAll_removeAt_cons (before after : List Record) (record : Record) (rest : List Edit) :
    Edit.runAll (Edit.removeAt before.length :: rest) (⟨before ++ record :: after⟩ : Sheet) =
      Edit.runAll rest (⟨before ++ after⟩ : Sheet) := by
  have hlt : before.length < (⟨before ++ record :: after⟩ : Sheet).size := by
    simp [Sheet.size]
  have hrun : (Edit.removeAt before.length).run (⟨before ++ record :: after⟩ : Sheet) =
      .ok () ⟨before ++ after⟩ := by
    rw [Edit.run_removeAt]
    refine (Sheet.removeAt_of_lt hlt).trans ?_
    rw [List.eraseIdx_append_of_length_le (Nat.le_refl _)]
    simp
  rw [Edit.runAll_cons, hrun]

theorem runAll_editsFor (planned : List Tracked) (rules : List Rule) :
    Edit.runAll (editsFor (planned.map Tracked.outline) rules)
        (⟨planned.map Tracked.record⟩ : Sheet) =
      .ok () ⟨(rules.foldl track planned).map Tracked.record⟩ := by
  induction rules generalizing planned with
  | nil => rfl
  | cons rule rules ih =>
    rw [List.foldl_cons, ← ih]
    rcases exists_last (Tracked.hasKey rule.key) planned with
      hnone | ⟨before, found, after, rfl, hfound, hafter⟩
    · rw [editsFor_of_not hnone, runAll_ofRule_cons, track_of_not hnone]
      simp only [List.map_append]
      rfl
    · rw [editsFor_append_cons hfound hafter, List.map_append, List.map_cons, runAll_removeAt_cons,
        runAll_ofRule_cons, track_append_cons hfound hafter]
      simp only [List.map_append]
      rfl

/-! ## Keys and merged rules, one rule more -/

theorem dedup_concat {α : Type} [DecidableEq α] (l : List α) (a : α) :
    (l ++ [a]).dedup = l.dedup.filter (· ≠ a) ++ [a] := by
  induction l with
  | nil => simp
  | cons b l ih =>
    rw [List.cons_append, List.dedup_cons, List.dedup_cons, ih]
    by_cases hb : b = a
    · subst hb
      by_cases hmem : b ∈ l <;> simp [hmem]
    · by_cases hmem : b ∈ l <;> simp [hmem, hb]

theorem lastKeys_concat (rules : List Rule) (rule : Rule) :
    lastKeys (rules ++ [rule]) = (lastKeys rules).filter (· ≠ rule.key) ++ [rule.key] := by
  rw [lastKeys, List.map_append, List.map_singleton, dedup_concat, lastKeys]

theorem mem_lastKeys {rules : List Rule} {key : String} :
    key ∈ lastKeys rules ↔ ∃ rule ∈ rules, rule.key = key := by
  simp [lastKeys]

theorem mem_rulesWith {key : String} {rules : List Rule} {rule : Rule} :
    rule ∈ rulesWith key rules ↔ rule ∈ rules ∧ rule.key = key := by
  simp [rulesWith]

theorem rulesWith_eq_nil {rules : List Rule} {key : String} (h : key ∉ lastKeys rules) :
    rulesWith key rules = [] := by
  rw [List.eq_nil_iff_forall_not_mem]
  intro rule hrule
  obtain ⟨hmem, hkey⟩ := mem_rulesWith.mp hrule
  exact h (mem_lastKeys.mpr ⟨rule, hmem, hkey⟩)

theorem nodup_lastKeys (rules : List Rule) : (lastKeys rules).Nodup :=
  List.nodup_dedup _

theorem combine_concat (stored : Option (List Declaration)) (rules : List Rule) (rule : Rule) :
    combine stored (rules ++ [rule]) =
      some ⟨rule.target,
        match combine stored rules, stored with
        | some merged, _ => Declaration.merge merged.declarations rule.declarations
        | none, some old => Declaration.merge old rule.declarations
        | none, none => rule.declarations⟩ := by
  cases rules with
  | nil => cases stored <;> rfl
  | cons first rest => cases stored <;> simp [combine]

theorem exists_target_of_combine {stored : Option (List Declaration)} {rules : List Rule}
    {merged : Rule} (h : combine stored rules = some merged) :
    ∃ rule ∈ rules, merged.target = rule.target := by
  cases rules using List.reverseRecOn with
  | nil => simp [combine] at h
  | append_singleton rules rule =>
    rw [combine_concat, Option.some.injEq] at h
    exact ⟨rule, by simp, by rw [← h]⟩

theorem exists_target_of_mergedAt {records : List Record} {rules : List Rule} {key : String}
    {merged : Rule} (h : mergedAt records rules key = some merged) :
    ∃ rule ∈ rules, rule.key = key ∧ merged.target = rule.target := by
  obtain ⟨rule, hrule, htarget⟩ := exists_target_of_combine h
  obtain ⟨hmem, hkey⟩ := mem_rulesWith.mp hrule
  exact ⟨rule, hmem, hkey, htarget⟩

theorem key_of_mergedAt {records : List Record} {rules : List Rule} {key : String} {merged : Rule}
    (h : mergedAt records rules key = some merged) : merged.key = key := by
  obtain ⟨rule, -, hkey, htarget⟩ := exists_target_of_mergedAt h
  rw [← hkey, Rule.key, htarget, Rule.key]

theorem exists_mergedAt (records : List Record) {rules : List Rule} {key : String}
    (h : key ∈ lastKeys rules) :
    ∃ merged, mergedAt records rules key = some merged ∧ merged.key = key := by
  obtain ⟨rule, hrule, hkey⟩ := mem_lastKeys.mp h
  have hne : rulesWith key rules ≠ [] := List.ne_nil_of_mem (mem_rulesWith.mpr ⟨hrule, hkey⟩)
  cases hmerged : mergedAt records rules key with
  | none =>
    unfold mergedAt at hmerged
    cases hrules : rulesWith key rules with
    | nil => exact absurd hrules hne
    | cons first rest => simp [hrules, combine] at hmerged
  | some merged => exact ⟨merged, rfl, key_of_mergedAt hmerged⟩

theorem mergedAt_eq_none (records : List Record) {rules : List Rule} {key : String}
    (h : key ∉ lastKeys rules) : mergedAt records rules key = none := by
  rw [mergedAt, rulesWith_eq_nil h, combine]

theorem map_key_mergedRules (records : List Record) (rules : List Rule) :
    (mergedRules records rules).map Rule.key = lastKeys rules := by
  have hkeys : ∀ keys : List String, (∀ key ∈ keys, key ∈ lastKeys rules) →
      (keys.filterMap (mergedAt records rules)).map Rule.key = keys := by
    intro keys hmem
    induction keys with
    | nil => rfl
    | cons key keys ih =>
      obtain ⟨merged, hmerged, hkey⟩ := exists_mergedAt records (hmem key List.mem_cons_self)
      rw [List.filterMap_cons, hmerged, List.map_cons, hkey,
        ih fun other hother => hmem other (List.mem_cons_of_mem _ hother)]
  exact hkeys _ fun _ hmem => hmem

theorem mergedAt_concat_of_ne {key : String} {rule : Rule} (h : key ≠ rule.key)
    (records : List Record) (rules : List Rule) :
    mergedAt records (rules ++ [rule]) key = mergedAt records rules key := by
  have hothers : rulesWith key (rules ++ [rule]) = rulesWith key rules := by
    simp [rulesWith, Ne.symm h]
  rw [mergedAt, mergedAt, hothers]

theorem mergedAt_concat_self (records : List Record) (rules : List Rule) (rule : Rule) :
    mergedAt records (rules ++ [rule]) rule.key =
      some ⟨rule.target,
        match mergedAt records rules rule.key, stored? records rule.key with
        | some merged, _ => Declaration.merge merged.declarations rule.declarations
        | none, some old => Declaration.merge old rule.declarations
        | none, none => rule.declarations⟩ := by
  have hwith : rulesWith rule.key (rules ++ [rule]) = rulesWith rule.key rules ++ [rule] := by
    simp [rulesWith]
  rw [mergedAt, hwith, combine_concat, mergedAt]

theorem mergedRules_concat (records : List Record) (rules : List Rule) (rule : Rule) {merged : Rule}
    (h : mergedAt records (rules ++ [rule]) rule.key = some merged) :
    mergedRules records (rules ++ [rule]) =
      ((lastKeys rules).filter (· ≠ rule.key)).filterMap (mergedAt records rules) ++ [merged] := by
  have hothers : ((lastKeys rules).filter (· ≠ rule.key)).filterMap
      (mergedAt records (rules ++ [rule])) =
        ((lastKeys rules).filter (· ≠ rule.key)).filterMap (mergedAt records rules) := by
    apply List.filterMap_congr
    intro key hkey
    have hne : key ≠ rule.key := by simpa using (List.mem_filter.mp hkey).2
    exact mergedAt_concat_of_ne hne records rules
  rw [mergedRules, lastKeys_concat, List.filterMap_append, hothers]
  simp [h]

/-! ## Records that stay -/

theorem withoutLast_concat (records : List Record) (keys : List String) (key : String) :
    withoutLast records (keys ++ [key]) =
      eraseLast (Record.hasKey key) (withoutLast records keys) := by
  simp [withoutLast]

theorem not_hasKey_of_ne {key other : String} (h : other ≠ key) (record : Record)
    (hkey : record.hasKey key) : ¬record.hasKey other := by
  have hrecord : record.key? = some key := by simpa [Record.hasKey] using hkey
  simp [Record.hasKey, hrecord, Ne.symm h]

theorem withoutLast_perm (records : List Record) {keys others : List String}
    (h : keys.Perm others) : withoutLast records keys = withoutLast records others := by
  unfold withoutLast
  refine h.foldl_eq' (fun key _ other _ records => ?_) records
  by_cases hkey : key = other
  · rw [hkey]
  · refine eraseLast_comm (fun record => ?_) records
    by_cases hrecord : record.hasKey key
    · exact Or.inl (not_hasKey_of_ne (Ne.symm hkey) record hrecord)
    · exact Or.inr hrecord

theorem find?_reverse_withoutLast {key : String} {keys : List String} (h : key ∉ keys)
    (records : List Record) :
    (withoutLast records keys).reverse.find? (Record.hasKey key) =
      records.reverse.find? (Record.hasKey key) := by
  induction keys generalizing records with
  | nil => rfl
  | cons other keys ih =>
    rw [List.mem_cons, not_or] at h
    have hother : withoutLast records (other :: keys) =
        withoutLast (eraseLast (Record.hasKey other) records) keys := rfl
    rw [hother, ih h.2, find?_reverse_eraseLast (not_hasKey_of_ne h.1)]

/-! ## All turns -/

/-- The plan after all turns. -/
def trackedAfter (records : List Record) (rules : List Rule) : List Tracked :=
  (withoutLast records (lastKeys rules)).map .ofRecord ++ (mergedRules records rules).map .ofRule

theorem map_record_trackedAfter (records : List Record) (rules : List Rule) :
    (trackedAfter records rules).map Tracked.record = reconciled records rules := by
  simp [trackedAfter, reconciled, Tracked.ofRecord, Tracked.ofRule, Function.comp_def]

theorem filter_ne_of_not_mem {keys : List String} {key : String} (h : key ∉ keys) :
    keys.filter (· ≠ key) = keys := by
  rw [List.filter_eq_self]
  intro other hother
  have hne : other ≠ key := fun e => h (e ▸ hother)
  simpa using hne

theorem track_trackedAfter_of_mem (records : List Record) {rules : List Rule} {rule : Rule}
    (h : rule.key ∈ lastKeys rules) :
    track (trackedAfter records rules) rule = trackedAfter records (rules ++ [rule]) := by
  obtain ⟨merged, hmerged, hkey⟩ := exists_mergedAt records h
  obtain ⟨pre, post, hkeys⟩ := List.append_of_mem h
  have hnodup := nodup_lastKeys rules
  rw [hkeys, List.nodup_middle, List.nodup_cons, List.mem_append, not_or] at hnodup
  have hothers : (lastKeys rules).filter (· ≠ rule.key) = pre ++ post := by
    rw [hkeys, List.filter_append, List.filter_cons_of_neg (by simp),
      filter_ne_of_not_mem hnodup.1.1, filter_ne_of_not_mem hnodup.1.2]
  have hself := mergedAt_concat_self records rules rule
  rw [hmerged] at hself
  have hlater : ∀ tracked ∈ (post.filterMap (mergedAt records rules)).map Tracked.ofRule,
      ¬Tracked.hasKey rule.key tracked := by
    intro tracked htracked
    obtain ⟨other, hother, rfl⟩ := List.mem_map.mp htracked
    obtain ⟨key, hmem, hat⟩ := List.mem_filterMap.mp hother
    have hkeyOther : other.key = key := key_of_mergedAt hat
    simp only [Tracked.hasKey_ofRule, decide_eq_true_eq, hkeyOther]
    rintro rfl
    exact hnodup.1.2 hmem
  have hsplit : trackedAfter records rules =
      ((withoutLast records (lastKeys rules)).map .ofRecord ++
        (pre.filterMap (mergedAt records rules)).map .ofRule) ++
        .ofRule merged :: (post.filterMap (mergedAt records rules)).map .ofRule := by
    rw [trackedAfter, mergedRules, hkeys, List.filterMap_append, List.filterMap_cons, hmerged]
    simp
  have hrecords : withoutLast records (lastKeys (rules ++ [rule])) =
      withoutLast records (lastKeys rules) := by
    refine withoutLast_perm records ?_
    rw [lastKeys_concat, hothers, hkeys]
    exact (List.perm_append_singleton _ _).trans List.perm_middle.symm
  rw [hsplit, track_append_cons (by simpa using hkey) hlater, trackedAfter, hrecords,
    mergedRules_concat records rules rule hself, hothers]
  simp [Tracked.ofRule]

theorem track_trackedAfter_of_not_mem (records : List Record) {rules : List Rule} {rule : Rule}
    (h : rule.key ∉ lastKeys rules) :
    track (trackedAfter records rules) rule = trackedAfter records (rules ++ [rule]) := by
  have hnone := mergedAt_eq_none records h
  have hself := mergedAt_concat_self records rules rule
  rw [hnone] at hself
  have hkeys : lastKeys (rules ++ [rule]) = lastKeys rules ++ [rule.key] := by
    rw [lastKeys_concat, filter_ne_of_not_mem h]
  have hmerged := mergedRules_concat records rules rule hself
  rw [filter_ne_of_not_mem h, ← mergedRules] at hmerged
  have hrules : ∀ tracked ∈ (mergedRules records rules).map Tracked.ofRule,
      ¬Tracked.hasKey rule.key tracked := by
    intro tracked htracked
    obtain ⟨other, hother, rfl⟩ := List.mem_map.mp htracked
    have hmem : other.key ∈ lastKeys rules := by
      rw [← map_key_mergedRules records rules]
      exact List.mem_map_of_mem hother
    simp only [Tracked.hasKey_ofRule, decide_eq_true_eq]
    exact fun hkey => h (hkey ▸ hmem)
  rw [trackedAfter, trackedAfter, hkeys, withoutLast_concat, hmerged]
  have hlookup := find?_reverse_withoutLast h records
  rcases exists_last (Record.hasKey rule.key) (withoutLast records (lastKeys rules)) with
    hrecords | ⟨before, record, after, hsplit, hrecord, hafter⟩
  · rw [find?_reverse_of_not hrecords] at hlookup
    have hstored : stored? records rule.key = none := by rw [stored?, ← hlookup, Option.map_none]
    rw [eraseLast_of_not hrecords, hstored, track_of_not]
    · simp
    · intro tracked htracked
      rcases List.mem_append.mp htracked with htracked | htracked
      · obtain ⟨record, hrecord, rfl⟩ := List.mem_map.mp htracked
        exact hrecords record hrecord
      · exact hrules tracked htracked
  · rw [hsplit] at hlookup ⊢
    rw [find?_reverse_append_cons hrecord before hafter] at hlookup
    have hstored : stored? records rule.key = some record.declarations := by
      rw [stored?, ← hlookup, Option.map_some]
    rw [eraseLast_append_cons hrecord before hafter, hstored, List.map_append, List.map_cons,
      List.append_assoc, List.cons_append, track_append_cons (by simpa using hrecord)]
    · simp [Tracked.ofRecord, Record.outline]
    · intro tracked htracked
      rcases List.mem_append.mp htracked with htracked | htracked
      · obtain ⟨other, hother, rfl⟩ := List.mem_map.mp htracked
        exact hafter other hother
      · exact hrules tracked htracked

theorem foldl_track (records : List Record) (rules : List Rule) :
    rules.foldl track (records.map .ofRecord) = trackedAfter records rules := by
  induction rules using List.reverseRecOn with
  | nil => simp [trackedAfter, withoutLast, lastKeys, mergedRules]
  | append_singleton rules rule ih =>
    rw [List.foldl_append, ih, List.foldl_cons, List.foldl_nil]
    by_cases h : rule.key ∈ lastKeys rules
    · exact track_trackedAfter_of_mem records h
    · exact track_trackedAfter_of_not_mem records h

theorem outline_ofRecord (records : List Record) :
    (records.map Tracked.ofRecord).map Tracked.outline = records.map Record.outline := by
  simp [Tracked.ofRecord, Function.comp_def]

theorem record_ofRecord (records : List Record) :
    (records.map Tracked.ofRecord).map Tracked.record = records := by
  simp [Tracked.ofRecord, Function.comp_def]

theorem runAll_editsFor_outline (sheet : Sheet) (rules : List Rule) :
    Edit.runAll (editsFor (sheet.records.map Record.outline) rules) sheet =
      .ok () ⟨reconciled sheet.records rules⟩ := by
  have hrun := runAll_editsFor (sheet.records.map .ofRecord) rules
  rw [outline_ofRecord, record_ofRecord, foldl_track, map_record_trackedAfter] at hrun
  exact hrun

/-- **Reconciliation.** No edit of a block is refused, and together the edits leave the reconciled
records: those that no rule replaces, and behind them one record for each key, in the order of the
last rules of the keys. Without rules the records stay as they are. -/
theorem runAll_edits (selector : String) (block : Block) (sheet : Sheet) :
    Edit.runAll (edits selector block sheet.records) sheet =
        .ok () ⟨reconciled sheet.records (flatten selector block)⟩ ∧
      (mergedRules sheet.records (flatten selector block)).map Rule.key =
        lastKeys (flatten selector block) ∧
      reconciled sheet.records [] = sheet.records := by
  refine ⟨runAll_editsFor_outline sheet _, map_key_mergedRules _ _, ?_⟩
  simp [reconciled, withoutLast, lastKeys, mergedRules]

end StyleSync
