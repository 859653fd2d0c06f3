import Mathlib.Data.List.Infix
import StyleSync.Proofs.Sheet.Reconciliation

/-! # Keys that tell rules apart

The key of a rule is its selector, and the header of its condition right behind it if there is one.
Nothing else shows where the selector ends. It can be told all the same as long as no header seems to
begin in the selector itself: the keyword of a header begins with a character that it does not have again,
so that no header begins in the end of a selector and goes on in the header behind it.

* `eq_of_append_mark`: what stands before a mark of that kind is given by the whole text;
* `matchKey_eq_iff`: so a key has one selector and one condition;
* `matchKey_collisionFree`: a rule meets no records but those of its own selector and condition.
-/

set_option autoImplicit false

namespace StyleSync

/-! ## A mark that begins with a character of its own -/

section Mark

variable {α : Type} {first : α} {rest : List α}

theorem eq_nil_of_mark_append (hfirst : first ∉ rest) {part as bs : List α}
    (hpart : ¬first :: rest <:+: part)
    (h : first :: rest ++ as = part ++ (first :: rest ++ bs)) : part = [] := by
  rcases List.append_eq_append_iff.mp h with ⟨tail, htail, -⟩ | ⟨overlap, hmark, hlater⟩
  · exact absurd ⟨[], tail, htail.symm⟩ hpart
  · cases part with
    | nil => rfl
    | cons c part =>
      have hrest : rest = part ++ overlap := (List.cons.inj hmark).2
      have hc : first = c := (List.cons.inj hmark).1
      cases overlap with
      | nil =>
        rw [List.append_nil] at hrest
        rw [hc, hrest] at hpart
        exact absurd (List.infix_refl _) hpart
      | cons d overlap =>
        have hd : first = d := (List.cons.inj hlater).1
        have hmem : first ∈ rest := by
          rw [hrest, hd]
          exact List.mem_append_right _ List.mem_cons_self
        exact absurd hmem hfirst

theorem eq_of_append_mark (hfirst : first ∉ rest) {xs ys as bs : List α}
    (hxs : ¬first :: rest <:+: xs) (hys : ¬first :: rest <:+: ys)
    (h : xs ++ (first :: rest ++ as) = ys ++ (first :: rest ++ bs)) : xs = ys := by
  rcases List.append_eq_append_iff.mp h with ⟨part, hsplit, hpart⟩ | ⟨part, hsplit, hpart⟩
  · have hno : ¬first :: rest <:+: part := fun hin =>
      hys (hsplit ▸ hin.trans (List.suffix_append xs part).isInfix)
    rw [hsplit, eq_nil_of_mark_append hfirst hno hpart, List.append_nil]
  · have hno : ¬first :: rest <:+: part := fun hin =>
      hxs (hsplit ▸ hin.trans (List.suffix_append ys part).isInfix)
    rw [hsplit, eq_nil_of_mark_append hfirst hno hpart, List.append_nil]

end Mark

/-! ## Keys -/

/-- A selector in which no header of a condition seems to begin. -/
def Unmarked (selector : String) : Prop := ¬"@media ".toList <:+: selector.toList

instance (selector : String) : Decidable (Unmarked selector) :=
  inferInstanceAs (Decidable ¬_)

theorem toList_matchKey (selector condition : String) :
    (matchKey selector (some condition)).toList =
      selector.toList ++ ("@media ".toList ++ condition.toList) := by
  simp [matchKey, mediaHeader, mediaKeyword]

theorem not_unmarked_matchKey (selector condition : String) :
    ¬Unmarked (matchKey selector (some condition)) := by
  refine not_not_intro ?_
  rw [toList_matchKey]
  exact ⟨selector.toList, condition.toList, by rw [List.append_assoc]⟩

theorem matchKey_eq_iff {selector other : String} (hselector : Unmarked selector)
    (hother : Unmarked other) (condition condition' : Option String) :
    matchKey selector condition = matchKey other condition' ↔
      selector = other ∧ condition = condition' := by
  refine ⟨fun h => ?_, by rintro ⟨rfl, rfl⟩; rfl⟩
  cases condition with
  | none =>
    cases condition' with
    | none => exact ⟨h, rfl⟩
    | some inner =>
      have hsame : selector = matchKey other (some inner) := h
      exact absurd (hsame ▸ hselector) (not_unmarked_matchKey other inner)
  | some outer =>
    cases condition' with
    | none =>
      have hsame : matchKey selector (some outer) = other := h
      exact absurd (hsame ▸ hother) (not_unmarked_matchKey selector outer)
    | some inner =>
      have hchars := congrArg String.toList h
      rw [toList_matchKey, toList_matchKey] at hchars
      have hmark : '@' ∉ "media ".toList := by decide
      have hsame : selector = other :=
        String.toList_inj.mp (eq_of_append_mark hmark hselector hother hchars)
      subst hsame
      have hconditions : outer.toList = inner.toList :=
        List.append_cancel_left (List.append_cancel_left hchars)
      exact ⟨rfl, congrArg some (String.toList_inj.mp hconditions)⟩

/-- **Keys do not collide** on selectors in which no header of a condition seems to begin. Of such
selectors, two keys are equal just if selectors and conditions are; so two rules have one key just if they
have one target, and a rule meets a record just if the record has its selector and its condition. -/
theorem matchKey_collisionFree {selector other : String} (hselector : Unmarked selector)
    (hother : Unmarked other) :
    (∀ condition condition' : Option String,
      matchKey selector condition = matchKey other condition' ↔
        selector = other ∧ condition = condition') ∧
    (∀ rule rule' : Rule, rule.target.selector = selector → rule'.target.selector = other →
      (rule.key = rule'.key ↔ rule.target = rule'.target)) ∧
    ∀ (rule : Rule) (record : Record) (style : StyleRecord), rule.target.selector = selector →
      record.style? = some style → style.selector = other →
      (record.hasKey rule.key ↔ selector = other ∧ rule.target.condition? = record.condition?) := by
  refine ⟨matchKey_eq_iff hselector hother, ?_, ?_⟩
  · rintro rule rule' rfl rfl
    have htarget : ∀ target : Target, target = .of target.selector target.condition? := by
      intro target
      cases target <;> rfl
    rw [Rule.key, Rule.key, matchKey_eq_iff hselector hother]
    constructor
    · rintro ⟨hsame, hcondition⟩
      rw [htarget rule.target, htarget rule'.target, hsame, hcondition]
    · intro hsame
      rw [hsame]
      exact ⟨rfl, rfl⟩
  · rintro rule record style rfl hstyle rfl
    have hkey : record.key? = some (matchKey style.selector record.condition?) := by
      rw [Record.key?, hstyle, Option.map_some]
    rw [Record.hasKey, decide_eq_true_iff, hkey, Option.some.injEq, Rule.key,
      matchKey_eq_iff hother hselector]
    exact and_congr eq_comm eq_comm

/-- One of the selectors ends like the beginning of a header, and both conditions hold the keyword. -/
theorem matchKey_collisionFree_straddling :
    Unmarked ".x@media" ∧ Unmarked ".x" ∧
      matchKey ".x@media" (some "print") ≠ matchKey ".x" (some "@media print") ∧
      ¬(Record.media "@media print" ⟨".x", []⟩).hasKey (matchKey ".x@media" none) := by
  have hselector : Unmarked ".x@media" := by decide
  have hother : Unmarked ".x" := by decide
  obtain ⟨hkeys, -, hrecords⟩ := matchKey_collisionFree hselector hother
  refine ⟨hselector, hother, fun hsame => ?_, fun hmet => ?_⟩
  · exact absurd ((hkeys _ _).mp hsame).1 (by decide)
  · have hnone := (hrecords ⟨.style ".x@media", []⟩ _ _ rfl rfl rfl).mp hmet
    exact absurd hnone.1 (by decide)

/-- Without the condition on selectors a style rule can have the key of a media rule. -/
example : matchKey ".x@media print" none = matchKey ".x" (some "print") := by decide

end StyleSync
