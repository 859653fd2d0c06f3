import Mathlib.Data.List.Infix
import StyleSync.Proofs.Logging

/-! # Warnings that make one line

What is remembered of a warning is its line, and a line does not always show where the component ends:
the bracket behind it can stand in the component as well, and in the message.

* `line_eq_line_iff`: two warnings make one line just if they are equal or `Confused`, which is to say that
  the component of one of them goes on into the message of the other;
* `mem_lines_raised`: the lines known after a run of warnings are those that the warnings of the run make;
* `warn_raised`: so a warning is silent just if it was raised before, or one that is confused with it.
-/

set_option autoImplicit false

namespace StyleSync

/-- A warning as it is raised. -/
@[ext]
structure Warning where
  component : String
  message : String
deriving Repr, DecidableEq

/-! ## One line -/

namespace Warning

/-- The line that a warning makes. -/
def line (warning : Warning) : String :=
  Warnings.line warning.component warning.message

/-- The component of the second warning goes on into the message of the first. -/
def Straddles (a b : Warning) : Prop :=
  ∃ between, b.component = a.component ++ "] " ++ between ∧ a.message = between ++ "] " ++ b.message

def Confused (a b : Warning) : Prop :=
  a.Straddles b ∨ b.Straddles a

/-- A warning whose component does not seem to end before its end. -/
def Plain (warning : Warning) : Prop :=
  ¬"] ".toList <:+: warning.component.toList

instance (warning : Warning) : Decidable warning.Plain :=
  inferInstanceAs (Decidable ¬_)

theorem toList_line (warning : Warning) :
    warning.line.toList =
      '[' :: (warning.component.toList ++ ']' :: ' ' :: warning.message.toList) := by
  simp [line, Warnings.line]

theorem append_bracket_inj {part as bs : List Char} (h : ']' :: ' ' :: as = part ++ ']' :: ' ' :: bs) :
    (part = [] ∧ as = bs) ∨
      ∃ between, part = ']' :: ' ' :: between ∧ as = between ++ ']' :: ' ' :: bs := by
  cases part with
  | nil =>
    have hrest := (List.cons.inj h).2
    exact Or.inl ⟨rfl, (List.cons.inj hrest).2⟩
  | cons c part =>
    obtain ⟨rfl, hrest⟩ := List.cons.inj h
    cases part with
    | nil => exact absurd (List.cons.inj hrest).1 (by decide)
    | cons d between =>
      obtain ⟨rfl, hmessage⟩ := List.cons.inj hrest
      exact Or.inr ⟨between, rfl, hmessage⟩

theorem eq_or_straddles {a b : Warning} {part : List Char}
    (hcomponent : b.component.toList = a.component.toList ++ part)
    (hpart : ']' :: ' ' :: a.message.toList = part ++ ']' :: ' ' :: b.message.toList) :
    a = b ∨ a.Straddles b := by
  rcases append_bracket_inj hpart with ⟨rfl, hmessage⟩ | ⟨between, rfl, hmessage⟩
  · rw [List.append_nil] at hcomponent
    have hsame : a.component = b.component := String.toList_inj.mp hcomponent.symm
    exact Or.inl (Warning.ext hsame (String.toList_inj.mp hmessage))
  · refine Or.inr ⟨String.ofList between, String.toList_inj.mp ?_, String.toList_inj.mp ?_⟩
    · rw [hcomponent]
      simp
    · rw [hmessage]
      simp

theorem Straddles.line_eq {a b : Warning} (h : a.Straddles b) : a.line = b.line := by
  obtain ⟨between, hcomponent, hmessage⟩ := h
  apply String.toList_inj.mp
  rw [toList_line, toList_line, hcomponent, hmessage]
  simp

theorem line_eq_line_iff {a b : Warning} : a.line = b.line ↔ a = b ∨ a.Confused b := by
  constructor
  · intro h
    have hchars := congrArg String.toList h
    rw [toList_line, toList_line] at hchars
    have hrest := (List.cons.inj hchars).2
    rcases List.append_eq_append_iff.mp hrest with ⟨part, hb, hpart⟩ | ⟨part, ha, hpart⟩
    · exact (eq_or_straddles hb hpart).imp_right Or.inl
    · exact (eq_or_straddles ha hpart).imp Eq.symm Or.inr
  · rintro (rfl | h | h)
    · rfl
    · exact h.line_eq
    · exact h.line_eq.symm

theorem Straddles.not_plain {a b : Warning} (h : a.Straddles b) : ¬b.Plain := by
  obtain ⟨between, hcomponent, -⟩ := h
  refine not_not_intro ⟨a.component.toList, between.toList, ?_⟩
  rw [hcomponent]
  simp

theorem Plain.not_confused {a b : Warning} (ha : a.Plain) (hb : b.Plain) : ¬a.Confused b := by
  rintro (h | h)
  · exact h.not_plain hb
  · exact h.not_plain ha

end Warning

/-! ## A run of warnings -/

namespace Warnings

/-- What is known after warnings were raised in turn, from none known. -/
def raised (calls : List Warning) : Warnings :=
  calls.foldl (fun known call => (known.warn call.component call.message).2) empty

theorem raised_concat (calls : List Warning) (call : Warning) :
    raised (calls ++ [call]) = ((raised calls).warn call.component call.message).2 := by
  rw [raised, List.foldl_append]
  rfl

theorem mem_lines_warn_iff (warnings : Warnings) (call : Warning) (text : String) :
    text ∈ (warnings.warn call.component call.message).2.lines ↔
      text ∈ warnings.lines ∨ call.line = text := by
  rw [lines_warn, List.mem_append, mem_logged_warn_iff, Warning.line]
  by_cases h : text ∈ warnings.lines
  · simp [h]
  · simp [h, eq_comm]

theorem mem_lines_raised (calls : List Warning) (text : String) :
    text ∈ (raised calls).lines ↔ ∃ call ∈ calls, call.line = text := by
  induction calls using List.reverseRecOn with
  | nil => simp [raised, empty]
  | append_singleton calls call ih =>
    rw [raised_concat, mem_lines_warn_iff, ih]
    simp only [List.mem_append, List.mem_singleton, or_and_right, exists_or, exists_eq_left]

theorem line_mem_raised_iff (calls : List Warning) (next : Warning) :
    next.line ∈ (raised calls).lines ↔ next ∈ calls ∨ ∃ call ∈ calls, call.Confused next := by
  rw [mem_lines_raised]
  constructor
  · rintro ⟨call, hcall, hline⟩
    rcases Warning.line_eq_line_iff.mp hline with rfl | hconfused
    · exact Or.inl hcall
    · exact Or.inr ⟨call, hcall, hconfused⟩
  · rintro (hmem | ⟨call, hcall, hconfused⟩)
    · exact ⟨next, hmem, rfl⟩
    · exact ⟨call, hcall, Warning.line_eq_line_iff.mpr (Or.inr hconfused)⟩

theorem has_iff (warnings : Warnings) (next : Warning) :
    warnings.has next.component next.message ↔ next.line ∈ warnings.lines := by
  rw [has, List.contains_eq_mem, decide_eq_true_iff, Warning.line]

theorem logged_warn (warnings : Warnings) (next : Warning) :
    (warnings.warn next.component next.message).1 =
      if next.line ∈ warnings.lines then [] else [next.line] := by
  split
  · next h => rw [warn_of_mem warnings next.component h]
  · next h => rw [warn_of_not_mem warnings next.component h, Warning.line]

/-- **A warning is silent just if it or one that is confused with it was raised before.** After any run of
warnings it logs its line if neither was, and nothing otherwise, and just then it is taken for known. So
among warnings whose components do not seem to end before their end each is logged the first time that its
component and its message are raised, and known just if they were. -/
theorem warn_raised (calls : List Warning) (next : Warning) :
    ((raised calls).has next.component next.message ↔
      next ∈ calls ∨ ∃ call ∈ calls, call.Confused next) ∧
    (((raised calls).warn next.component next.message).1 = [] ↔
      next ∈ calls ∨ ∃ call ∈ calls, call.Confused next) ∧
    (((raised calls).warn next.component next.message).1 = [next.line] ↔
      ¬(next ∈ calls ∨ ∃ call ∈ calls, call.Confused next)) ∧
    ((∀ warning ∈ next :: calls, warning.Plain) →
      ((raised calls).has next.component next.message ↔ next ∈ calls) ∧
      ((raised calls).warn next.component next.message).1 =
        if next ∈ calls then [] else [next.line]) := by
  have hknown := line_mem_raised_iff calls next
  rw [has_iff, logged_warn, ← hknown]
  refine ⟨Iff.rfl, by simp, by simp, fun hplain => ?_⟩
  rw [List.forall_mem_cons] at hplain
  have hno : ¬∃ call ∈ calls, call.Confused next := by
    rintro ⟨call, hcall, hconfused⟩
    exact (hplain.2 call hcall).not_confused hplain.1 hconfused
  rw [or_iff_left hno] at hknown
  simp only [hknown, and_self]

/-- One message from two components, and a message that begins like the end of a component. -/
theorem warn_raised_brackets :
    (∀ warning ∈ (⟨"CSS", "m"⟩ :: [⟨"TEST", "m"⟩, ⟨"CSS", "] m"⟩] : List Warning), warning.Plain) ∧
      ((raised [⟨"TEST", "m"⟩, ⟨"CSS", "] m"⟩]).warn "CSS" "m").1 = ["[CSS] m"] ∧
      ¬(raised [⟨"TEST", "m"⟩, ⟨"CSS", "] m"⟩]).has "CSS" "m" := by
  have hplain : ∀ warning ∈ (⟨"CSS", "m"⟩ :: [⟨"TEST", "m"⟩, ⟨"CSS", "] m"⟩] : List Warning),
      warning.Plain := by
    decide
  obtain ⟨-, -, -, hexact⟩ := warn_raised [⟨"TEST", "m"⟩, ⟨"CSS", "] m"⟩] ⟨"CSS", "m"⟩
  obtain ⟨hhas, hlogged⟩ := hexact hplain
  exact ⟨hplain, hlogged, fun h => absurd (hhas.mp h) (by decide)⟩

/-- A warning that was never raised is taken for known, and raising it logs nothing. -/
theorem raised_confused_known :
    (⟨"A] x", "y"⟩ : Warning) ∉ [⟨"A", "x] y"⟩] ∧
      (raised [⟨"A", "x] y"⟩]).has "A] x" "y" ∧ ((raised [⟨"A", "x] y"⟩]).warn "A] x" "y").1 = [] := by
  decide

end Warnings

end StyleSync
