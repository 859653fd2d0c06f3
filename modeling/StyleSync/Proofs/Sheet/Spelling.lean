import StyleSync.Proofs.Css.Levels
import StyleSync.Proofs.Sheet.Encoding
import StyleSync.Proofs.Sheet.Reconciliation
import StyleSync.Session.Basic

/-! # Rules that find the records made of them

A rule has a key as its selector is spelled, while a record has the key that its text was read to. Stated
here:

* `hasKey_read_iff`: a rule below a class finds the record made of it just if its selector is spelled as
  a sheet stores it (`Target.Verbatim`), and `belowClass_of_mem_flatten` that all rules of a class are
  below it;
* `length_reconciled`: reconciliation makes the records longer by one for each key that none of them has;
* `exists_hasKey_reconciled`: it leaves none without a record where all selectors are spelled as stored.
-/

set_option autoImplicit false

namespace StyleSync

open Text

/-! ## Spelling -/

/-- A target with a selector that a sheet stores as it is spelled. -/
def Target.Verbatim : Target → Prop
  | .style selector => trim selector = selector
  | .media _ selector => trim selector = selector ∧ '\x7b' ∉ selector.toList

instance (target : Target) : Decidable target.Verbatim :=
  match target with
  | .style _ => inferInstanceAs (Decidable (_ = _))
  | .media _ _ => inferInstanceAs (Decidable (_ ∧ _))

/-- A target below a class: the selector begins with a dot, and a condition has no blanks at its ends. -/
structure Target.BelowClass (target : Target) : Prop where
  dot : ∃ rest, target.selector.toList = '.' :: rest
  trim_condition : ∀ condition ∈ target.condition?, trim condition = condition

theorem fst_splitBraced_braced (prelude block : String) :
    (splitBraced (braced prelude block)).1 =
      trim (String.ofList (prelude.toList.takeWhile (· != '\x7b'))) := by
  by_cases hbrace : '\x7b' ∈ prelude.toList
  · obtain ⟨inside, hbraced, -⟩ := exists_toList_braced prelude block
    have hstop : ¬∀ c ∈ prelude.toList, (c != '\x7b') = true := fun hall =>
      absurd (hall _ hbrace) (by simp)
    have htake : (braced prelude block).toList.takeWhile (· != '\x7b') =
        prelude.toList.takeWhile (· != '\x7b') := by
      rw [hbraced, List.takeWhile_append, if_neg]
      intro hlength
      exact hstop (List.takeWhile_eq_self_iff.mp
        ((List.takeWhile_prefix _).eq_of_length hlength))
    rw [fst_splitBraced, htake]
  · have htake : prelude.toList.takeWhile (· != '\x7b') = prelude.toList := by
      rw [List.takeWhile_eq_self_iff]
      intro c hc
      exact bne_iff_ne.mpr fun hsame => hbrace (hsame ▸ hc)
    rw [splitBraced_braced hbrace, htake, String.ofList_toList]

theorem trim_takeWhile_eq_self_iff {selector : String} :
    trim (String.ofList (selector.toList.takeWhile (· != '\x7b'))) = selector ↔
      trim selector = selector ∧ '\x7b' ∉ selector.toList := by
  constructor
  · intro h
    refine ⟨?_, fun hbrace => ?_⟩
    · rw [← h, trim_trim]
    · rw [← h, toList_trim, String.toList_ofList] at hbrace
      have htake := List.mem_takeWhile_imp (mem_of_mem_trimChars hbrace)
      simp at htake
  · rintro ⟨htrim, hbrace⟩
    have htake : selector.toList.takeWhile (· != '\x7b') = selector.toList := by
      rw [List.takeWhile_eq_self_iff]
      intro c hc
      exact bne_iff_ne.mpr fun hsame => hbrace (hsame ▸ hc)
    rw [htake, String.ofList_toList, htrim]

theorem key?_read_dot {selector : String} {rest : List Char} (h : selector.toList = '.' :: rest)
    (block : String) : (Record.read selector block).key? = some (trim selector) := by
  have htrim : trimChars selector.toList = '.' :: trimEnd rest := by
    rw [h]
    have hdot : trimChars ['.'] = ['.'] := by decide
    exact trimChars_append_of_ne_nil (List.cons_ne_nil _ _) hdot rest
  have hheader : ∀ keyword : List Char, ¬('@' :: keyword <+: trimChars selector.toList) := by
    intro keyword hstart
    rw [htrim, List.cons_prefix_cons] at hstart
    exact absurd hstart.1 (by decide)
  rw [read_of_no_keyword (hheader _) (hheader _), StyleRecord.read, trim_trim]
  rfl

theorem key?_read_mediaHeader {condition : String} (h : trim condition = condition)
    (selector block : String) :
    (Record.read (mediaHeader condition) (braced selector block)).key? =
      some (matchKey (trim (String.ofList (selector.toList.takeWhile (· != '\x7b'))))
        (some condition)) := by
  rw [read_mediaHeader, fst_splitBraced_braced, StyleRecord.read, trim_trim, h]
  rfl

theorem matchKey_inj_left {selector other : String} (condition : Option String) :
    matchKey selector condition = matchKey other condition ↔ selector = other := by
  cases condition with
  | none => exact Iff.rfl
  | some condition =>
    rw [matchKey, matchKey, ← String.toList_inj, String.toList_append, String.toList_append,
      List.append_left_inj, String.toList_inj]

/-- A rule below a class finds the record made of it just if its selector is spelled as it is stored. -/
theorem hasKey_read_iff {rule : Rule} (h : rule.target.BelowClass) :
    (Record.read rule.header rule.block).hasKey rule.key ↔ rule.target.Verbatim := by
  obtain ⟨target, declarations⟩ := rule
  obtain ⟨⟨rest, hdot⟩, hcondition⟩ := h
  cases target with
  | style selector =>
    have hchars : selector.toList = '.' :: rest := hdot
    have hkey := key?_read_dot hchars (Declaration.render declarations)
    rw [Record.hasKey, decide_eq_true_iff, Rule.header, Rule.block]
    dsimp only
    rw [hkey, Option.some.injEq]
    exact Iff.rfl
  | media condition selector =>
    have hkey := key?_read_mediaHeader (hcondition condition rfl) selector
      (Declaration.render declarations)
    rw [Record.hasKey, decide_eq_true_iff, Rule.header, Rule.block]
    dsimp only
    rw [hkey, Option.some.injEq, Rule.key]
    exact (matchKey_inj_left (some condition)).trans trim_takeWhile_eq_self_iff

/-! ## Rules below a class -/

theorem trim_narrow {outer : Option String} {inner : String}
    (houter : ∀ condition ∈ outer, condition ≠ "" ∧ trim condition = condition)
    (hinner : inner ≠ "" ∧ trim inner = inner) :
    narrow outer inner ≠ "" ∧ trim (narrow outer inner) = narrow outer inner := by
  cases outer with
  | none => exact hinner
  | some outer =>
    obtain ⟨hne, htrim⟩ := houter outer rfl
    have hchars : outer.toList ≠ [] := by simpa using hne
    have hinnerChars : inner.toList ≠ [] := by simpa using hinner.1
    have hend := (trimChars_eq_self_iff.mp (trim_eq_self_iff.mp hinner.2)).2
    have hnarrow : (narrow (some outer) inner).toList =
        outer.toList ++ (" and ".toList ++ inner.toList) := by
      simp [narrow]
    refine ⟨fun hempty => hchars ?_, ?_⟩
    · rw [hempty] at hnarrow
      exact (List.append_eq_nil_iff.mp hnarrow.symm).1
    · rw [trim_eq_self_iff, hnarrow,
        trimChars_append_of_ne_nil hchars (trim_eq_self_iff.mp htrim),
        trimEnd_append_of_ne_nil _ hinnerChars hend]

theorem trim_mediaCondition? {key condition : String} (h : mediaCondition? key = some condition) :
    condition ≠ "" ∧ trim condition = condition := by
  unfold mediaCondition? at h
  split at h
  · next c rest _ =>
    dsimp only at h
    split at h
    · next haccepted =>
      rw [Option.some.injEq] at h
      have hne : trimChars (c :: rest) ≠ [] := by
        simp only [Bool.and_eq_true, Bool.not_eq_true', List.isEmpty_eq_false_iff] at haccepted
        exact haccepted.2
      rw [← h]
      refine ⟨by simpa using hne, ?_⟩
      rw [trim_eq_self_iff, String.toList_ofList, trimChars_trimChars]
    · contradiction
  · contradiction

theorem mediaCondition?_of_role {key condition : String} {value : Value} {body : Block}
    (h : Role.of key value = .media condition body) : mediaCondition? key = some condition := by
  cases value with
  | leaf scalar =>
    cases scalar with
    | text text => by_cases hkey : key = baseKey <;> simp [hkey] at h
    | number x => simp at h
  | block body =>
    cases hat : isAtRule key with
    | false => simp [hat] at h
    | true => cases hcondition : mediaCondition? key <;> simp_all

/-- A site below a class. -/
structure Site.BelowClass (site : Site) : Prop where
  dot : ∃ rest, site.selector.toList = '.' :: rest
  trim_media : ∀ condition ∈ site.media, condition ≠ "" ∧ trim condition = condition

theorem Site.BelowClass.child {site child : Site} (h : site.BelowClass)
    (hchild : child ∈ site.children) : child.BelowClass := by
  obtain ⟨⟨rest, hdot⟩, hmedia⟩ := h
  obtain ⟨⟨key, value⟩, -, hsome⟩ := List.mem_filterMap.mp hchild
  unfold Site.child? at hsome
  split at hsome
  · rw [Option.some.injEq] at hsome
    subst hsome
    refine ⟨⟨rest ++ key.toList, ?_⟩, hmedia⟩
    simp [hdot]
  · next condition body hrole =>
    rw [Option.some.injEq] at hsome
    subst hsome
    refine ⟨⟨rest, hdot⟩, fun narrowed hnarrowed => ?_⟩
    rw [← Option.some.inj hnarrowed]
    exact trim_narrow hmedia (trim_mediaCondition? (mediaCondition?_of_role hrole))
  · contradiction

theorem belowClass_of_mem_flatten {name : String} {block : Block} {rule : Rule}
    (h : rule ∈ flatten (Session.classSelector name) block) : rule.target.BelowClass := by
  rw [flatten_eq_filterMap] at h
  obtain ⟨site, hsite, hrule⟩ := List.mem_filterMap.mp h
  have hall : ∀ site ∈ sites (Session.classSelector name) block, site.BelowClass := by
    refine forall_mem_visits (fun site hbelow child => hbelow.child) ?_
    rw [List.forall_mem_singleton]
    exact ⟨⟨name.toList, by simp [Session.classSelector]⟩, by simp⟩
  obtain ⟨hdot, hmedia⟩ := hall site hsite
  unfold Site.leafRule? at hrule
  split at hrule
  · contradiction
  · split at hrule
    · rw [← Option.some.inj hrule]
      exact ⟨hdot, by simp [Target.condition?]⟩
    · next condition hcondition =>
      rw [← Option.some.inj hrule]
      refine ⟨hdot, fun other hother => ?_⟩
      rw [← Option.some.inj hother]
      exact (hmedia condition hcondition).2

/-! ## The number of records -/

/-- The keys of rules that no record has. -/
def unmet (records : List Record) (rules : List Rule) : List String :=
  (lastKeys rules).filter fun key => !records.any (Record.hasKey key)

theorem length_eraseLast (records : List Record) (key : String) :
    (eraseLast (Record.hasKey key) records).length + (if records.any (Record.hasKey key) then 1 else 0) =
      records.length := by
  rcases exists_last (Record.hasKey key) records with
    hnone | ⟨before, record, after, rfl, hrecord, hafter⟩
  · have hany : records.any (Record.hasKey key) = false := by simpa using hnone
    rw [eraseLast_of_not hnone, hany]
    rfl
  · have hany : (before ++ record :: after).any (Record.hasKey key) = true :=
      List.any_eq_true.mpr ⟨record, by simp, hrecord⟩
    rw [eraseLast_append_cons hrecord before hafter, hany]
    simp
    omega

theorem any_eraseLast_of_ne {key other : String} (h : other ≠ key) (records : List Record) :
    (eraseLast (Record.hasKey key) records).any (Record.hasKey other) =
      records.any (Record.hasKey other) := by
  rcases exists_last (Record.hasKey key) records with
    hnone | ⟨before, record, after, rfl, hrecord, hafter⟩
  · rw [eraseLast_of_not hnone]
  · have hother := not_hasKey_of_ne h record hrecord
    rw [eraseLast_append_cons hrecord before hafter]
    simp [hother]

theorem length_withoutLast {keys : List String} (hnodup : keys.Nodup) (records : List Record) :
    (withoutLast records keys).length +
        (keys.filter fun key => records.any (Record.hasKey key)).length = records.length := by
  induction keys generalizing records with
  | nil => rfl
  | cons key keys ih =>
    rw [List.nodup_cons] at hnodup
    have hrest := ih hnodup.2 (eraseLast (Record.hasKey key) records)
    have hsame : (keys.filter fun other => (eraseLast (Record.hasKey key) records).any
        (Record.hasKey other)) = keys.filter fun other => records.any (Record.hasKey other) := by
      refine List.filter_congr fun other hother => any_eraseLast_of_ne ?_ records
      exact fun hkey => hnodup.1 (hkey ▸ hother)
    rw [hsame] at hrest
    have herase := length_eraseLast records key
    have hcons : withoutLast records (key :: keys) =
        withoutLast (eraseLast (Record.hasKey key) records) keys := rfl
    rw [hcons, List.filter_cons]
    split at herase
    · next hany =>
      rw [if_pos hany, List.length_cons]
      omega
    · next hany =>
      rw [if_neg hany]
      omega

theorem length_reconciled (records : List Record) (rules : List Rule) :
    (reconciled records rules).length = records.length + (unmet records rules).length := by
  have hold := length_withoutLast (nodup_lastKeys rules) records
  have hsplit : (lastKeys rules).length =
      ((lastKeys rules).filter fun key => records.any (Record.hasKey key)).length +
        (unmet records rules).length := List.length_eq_length_filter_add _
  have hnew : (mergedRules records rules).length = (lastKeys rules).length := by
    rw [← map_key_mergedRules records rules, List.length_map]
  rw [reconciled, List.length_append, List.length_map, hnew, hsplit]
  omega

theorem unmet_eq_nil_iff {records : List Record} {rules : List Rule} :
    unmet records rules = [] ↔ ∀ rule ∈ rules, ∃ record ∈ records, record.hasKey rule.key := by
  rw [unmet, List.filter_eq_nil_iff]
  constructor
  · intro h rule hrule
    have hkey := h rule.key (mem_lastKeys.mpr ⟨rule, hrule, rfl⟩)
    simpa using hkey
  · intro h key hkey
    obtain ⟨rule, hrule, rfl⟩ := mem_lastKeys.mp hkey
    simpa using h rule hrule

theorem length_reconciled_eq_iff {records : List Record} {rules : List Rule} :
    (reconciled records rules).length = records.length ↔
      ∀ rule ∈ rules, ∃ record ∈ records, record.hasKey rule.key := by
  have hlength := length_reconciled records rules
  rw [← unmet_eq_nil_iff, ← List.length_eq_zero_iff]
  omega

theorem exists_hasKey_reconciled {records : List Record} {rules : List Rule}
    (hbelow : ∀ rule ∈ rules, rule.target.BelowClass) (h : ∀ rule ∈ rules, rule.target.Verbatim) :
    ∀ rule ∈ rules, ∃ record ∈ reconciled records rules, record.hasKey rule.key := by
  intro rule hrule
  have hkey : rule.key ∈ lastKeys rules := mem_lastKeys.mpr ⟨rule, hrule, rfl⟩
  obtain ⟨merged, hmerged, hmergedKey⟩ := exists_mergedAt records hkey
  obtain ⟨last, hlast, -, htarget⟩ := exists_target_of_mergedAt hmerged
  have hown : (Record.read merged.header merged.block).hasKey merged.key := by
    rw [hasKey_read_iff (htarget ▸ hbelow last hlast), htarget]
    exact h last hlast
  refine ⟨.read merged.header merged.block, ?_, hmergedKey ▸ hown⟩
  exact List.mem_append_right _ (List.mem_map_of_mem (List.mem_filterMap.mpr ⟨_, hkey, hmerged⟩))

end StyleSync
