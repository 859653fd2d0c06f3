import StyleSync.Proofs.Results
import StyleSync.Proofs.Session.Defining

/-! # A first render defines the styles

A component that was not rendered yet has its description defined, on a host of any kind. The one difference
is that bases are resolved before names are checked, while defining checks the names first.

* `Component.after_render_first`, `Component.outcome_render_first`: what the first render leaves and
  yields in terms of `Session.define`;
* `Component.render_first_agrees_iff`: a first render and defining leave the same session, and they yield
  the same unless the description is wrong in both ways.
-/

set_option autoImplicit false

namespace StyleSync

open Session

variable {σ ν : Type} [Host σ] [SuffixSource ν]

/-- A description with a name that cannot be part of a class name, whose bases cannot be resolved either. -/
def Description.WrongTwice (description : Description) : Prop :=
  (∃ fault, checkNames description.keys = .error fault) ∧ ∃ fault, description.resolve = .error fault

theorem checkNames_fault_ne_resolve_fault {description : Description} {invalid unresolved : Fault}
    (hnames : checkNames description.keys = .error invalid)
    (hresolve : description.resolve = .error unresolved) : invalid ≠ unresolved := by
  obtain ⟨name, -, rfl⟩ := checkNames_fault hnames
  rcases Description.resolve_fault hresolve with ⟨entry, target, rfl⟩ | ⟨chain, rfl⟩
  · intro h
    contradiction
  · intro h
    contradiction

namespace Component

theorem after_render_first (description : Description) (session : Session σ ν) :
    (after (render description) (.start session)).session = after (define description) session := by
  cases hresolved : description.resolve with
  | error fault =>
    have hdefine : after (define description) session = session := by
      cases hnames : checkNames description.keys with
      | error invalid => exact after_of_error (define_of_invalid hnames session)
      | ok _ => exact after_of_error (define_of_unresolved hnames hresolved session)
    rw [start, after_of_error (render_first_of_fault hresolved session), hdefine]
  | ok resolved =>
    rw [start, after, after, render_first_of_resolved hresolved]
    cases define description session <;> rfl

theorem outcome_render_first (description : Description) (session : Session σ ν) :
    outcome (render description) (.start session) =
      match description.resolve with
      | .error fault => .error fault
      | .ok _ => outcome (define description) session := by
  cases hresolved : description.resolve with
  | error fault => exact outcome_of_error (render_first_of_fault hresolved session)
  | ok resolved =>
    rw [start, outcome, outcome, render_first_of_resolved hresolved]
    cases define description session <;> rfl

/-- **A first render is a definition.** The first render of a component leaves the session as defining the
description does. It yields the same class names or the same fault, unless a name is invalid and a base
cannot be resolved: then it is refused because of the base, and defining because of the name. -/
theorem render_first_agrees_iff (description : Description) (session : Session σ ν) :
    (after (render description) (.start session)).session = after (define description) session ∧
      (outcome (render description) (.start session) = outcome (define description) session ↔
        ¬description.WrongTwice) ∧
      ∀ invalid unresolved, checkNames description.keys = .error invalid →
        description.resolve = .error unresolved →
          outcome (render description) (.start session) = .error unresolved ∧
            outcome (define description) session = .error invalid := by
  have hwrong : ∀ invalid unresolved, checkNames description.keys = .error invalid →
      description.resolve = .error unresolved →
        outcome (render description) (.start session) = .error unresolved ∧
          outcome (define description) session = .error invalid := by
    intro invalid unresolved hnames hresolved
    refine ⟨?_, outcome_of_error (define_of_invalid hnames session)⟩
    rw [outcome_render_first, hresolved]
  refine ⟨after_render_first description session, ⟨?_, ?_⟩, hwrong⟩
  · rintro hsame ⟨⟨invalid, hnames⟩, unresolved, hresolved⟩
    obtain ⟨hrendered, hdefined⟩ := hwrong invalid unresolved hnames hresolved
    rw [hrendered, hdefined] at hsame
    exact checkNames_fault_ne_resolve_fault hnames hresolved (Except.error.inj hsame).symm
  · intro hright
    rw [outcome_render_first]
    cases hresolved : description.resolve with
    | ok resolved => rfl
    | error fault =>
      cases hnames : checkNames description.keys with
      | error invalid => exact absurd ⟨⟨invalid, hnames⟩, fault, hresolved⟩ hright
      | ok _ => exact (outcome_of_error (define_of_unresolved hnames hresolved session)).symm

/-- A description with an invalid name for an entry that extends a missing one. -/
def misnamed : Description :=
  .ofList [("1st", .leaf "extend" (.text "missing") .nil)]

theorem render_first_agrees_iff_misnamed :
    let session : Session Sheet CounterSuffix := .start Sheet.empty CounterSuffix.start .standard
    checkNames misnamed.keys = .error (.invalidName "1st") ∧
      misnamed.resolve = .error (.unknownBase "1st" "missing") ∧
      outcome (render misnamed) (.start session) = .error (.unknownBase "1st" "missing") ∧
      outcome (define misnamed) session = .error (.invalidName "1st") := by
  intro session
  have hnames : checkNames misnamed.keys = .error (.invalidName "1st") := by decide
  have hresolved : misnamed.resolve = .error (.unknownBase "1st" "missing") := by decide +kernel
  obtain ⟨-, -, hwrong⟩ := render_first_agrees_iff misnamed session
  exact ⟨hnames, hresolved, hwrong _ _ hnames hresolved⟩

theorem render_first_ne_define :
    let session : Session Sheet CounterSuffix := .start Sheet.empty CounterSuffix.start .standard
    outcome (render misnamed) (.start session) ≠ outcome (define misnamed) session := by
  intro session hsame
  have hnames : checkNames misnamed.keys = .error (.invalidName "1st") := by decide
  have hresolved : misnamed.resolve = .error (.unknownBase "1st" "missing") := by decide +kernel
  rw [outcome_render_first, hresolved, outcome_of_error (define_of_invalid hnames session)] at hsame
  cases hsame

end Component

end StyleSync
