import Mathlib.Data.List.Nodup
import StyleSync.Warnings

/-! # What raising warnings logs

* `lines_warn`: a warning logs its line unless the line is known, and what it logs is all that it adds;
* `lines_warnAll`, `mem_logged_iff`, `nodup_logged`: so several warnings in turn log those of their
  lines that were not known, each of them once.
-/

set_option autoImplicit false

namespace StyleSync

namespace Warnings

variable (warnings : Warnings) (component : String)

/-! ## One warning -/

theorem warn_of_not_mem {message : String} (h : line component message ∉ warnings.lines) :
    warnings.warn component message =
      ([line component message], ⟨warnings.lines ++ [line component message]⟩) := by
  have hnew : warnings.has component message = false := by
    rw [has, List.contains_eq_mem]
    exact decide_eq_false h
  rw [warn, hnew, if_neg Bool.false_ne_true]

theorem warn_of_mem {message : String} (h : line component message ∈ warnings.lines) :
    warnings.warn component message = ([], warnings) := by
  have hknown : warnings.has component message = true := by
    rw [has, List.contains_eq_mem]
    exact decide_eq_true h
  rw [warn, if_pos hknown]

theorem lines_warn (message : String) :
    (warnings.warn component message).2.lines =
      warnings.lines ++ (warnings.warn component message).1 := by
  by_cases h : line component message ∈ warnings.lines
  · rw [warn_of_mem warnings component h, List.append_nil]
  · rw [warn_of_not_mem warnings component h]

theorem mem_logged_warn_iff {message text : String} :
    text ∈ (warnings.warn component message).1 ↔
      text = line component message ∧ text ∉ warnings.lines := by
  by_cases h : line component message ∈ warnings.lines
  · rw [warn_of_mem warnings component h]
    refine iff_of_false List.not_mem_nil ?_
    rintro ⟨rfl, hnew⟩
    exact hnew h
  · rw [warn_of_not_mem warnings component h, List.mem_singleton]
    constructor
    · rintro rfl
      exact ⟨rfl, h⟩
    · exact And.left

/-! ## Several warnings -/

theorem logged_warnAll_cons (message : String) (rest : List String) :
    (warnings.warnAll component (message :: rest)).1 =
      (warnings.warn component message).1 ++
        ((warnings.warn component message).2.warnAll component rest).1 := rfl

/-- What is logged is all that is added. -/
theorem lines_warnAll (messages : List String) :
    (warnings.warnAll component messages).2.lines =
      warnings.lines ++ (warnings.warnAll component messages).1 := by
  induction messages generalizing warnings with
  | nil => exact (List.append_nil _).symm
  | cons message rest ih =>
    rw [warnAll_cons, ih, lines_warn, logged_warnAll_cons, List.append_assoc]

theorem mem_logged_iff {messages : List String} {text : String} :
    text ∈ (warnings.warnAll component messages).1 ↔
      (∃ message ∈ messages, text = line component message) ∧ text ∉ warnings.lines := by
  induction messages generalizing warnings with
  | nil => simp [warnAll]
  | cons message rest ih =>
    rw [logged_warnAll_cons, List.mem_append, ih, lines_warn, List.mem_append,
      mem_logged_warn_iff]
    simp only [List.mem_cons, exists_eq_or_imp]
    tauto

theorem nodup_logged (messages : List String) :
    (warnings.warnAll component messages).1.Nodup := by
  induction messages generalizing warnings with
  | nil => exact List.nodup_nil
  | cons message rest ih =>
    have hfirst : (warnings.warn component message).1.Nodup := by
      by_cases h : line component message ∈ warnings.lines
      · rw [warn_of_mem warnings component h]
        exact List.nodup_nil
      · rw [warn_of_not_mem warnings component h]
        exact List.nodup_singleton _
    rw [logged_warnAll_cons, List.nodup_append]
    refine ⟨hfirst, ih _, ?_⟩
    rintro text htext other hother rfl
    have hnew := ((mem_logged_iff _ component).mp hother).2
    rw [lines_warn, List.mem_append, not_or] at hnew
    exact hnew.2 htext

end Warnings

end StyleSync
