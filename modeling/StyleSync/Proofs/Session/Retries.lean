import StyleSync.Proofs.Session.Settling
import StyleSync.Proofs.Style.Inherited

/-! # Rendering again after a refusal

A render that a host refuses in the middle leaves the sheet partly changed and the rendering as it was.
`Component.render_again` says that rendering the same description once more leads to where one render
without the refusal would have led.
-/

set_option autoImplicit false

namespace StyleSync

open Session

namespace Component

variable {σ ν : Type}

/-- The component with its host seen as a sheet. -/
def seen (watch : Watch σ Sheet) (component : Component σ ν) : Component Sheet ν :=
  ⟨component.rendering, component.session.seen watch⟩

variable [Host σ] [SuffixSource ν] {previous : Rendering} {description : Description}

/-- **Rendering again after a refusal converges.** When a host refuses a removal in the middle of a render,
the component keeps its rendering. Rendering the description once more completes, and the component,
its sheet included, is as after one render on a sheet in memory. -/
theorem render_again {watch : Watch σ Sheet} (hhost : RefusesOnce watch)
    {component refused : Component σ ν} (hprevious : component.rendering = some previous)
    (hrecords : ∀ record ∈ (watch.view component.session.host).records, record.Sound)
    (hrules : ∀ entry ∈ previous.names.entries, ∀ rule ∈ description.rulesOf entry, rule.WellFormed)
    {fault : Fault} (hrefused : render description component = .error fault refused)
    (hfresh : ¬watch.spent component.session.host) (hspent : watch.spent refused.session.host) :
    refused.rendering = component.rendering ∧
      ∃ after : Component σ ν, render description refused = .ok previous.names after ∧
        render description (component.seen watch) = .ok previous.names (after.seen watch) := by
  obtain ⟨rendering, session⟩ := component
  obtain rfl : rendering = some previous := hprevious
  cases hchanged : previous.description.same description with
  | true =>
    rw [render_of_same hchanged] at hrefused
    contradiction
  | false =>
    cases hresolved : description.resolve with
    | error fault' =>
      rw [render_of_fault hchanged hresolved] at hrefused
      obtain ⟨-, rfl⟩ := EStateM.Result.error.inj hrefused
      exact absurd hspent hfresh
    | ok resolved =>
      have hblocks : ∀ entry ∈ resolved, entry.2.base? = none := fun entry hentry =>
        Description.base?_of_mem_resolved hresolved hentry
      simp only [Description.rulesOf_eq hresolved] at hrules
      have hwell : ∀ rule ∈ classRules (changed previous resolved previous.names.entries),
          rule.WellFormed := wellFormed_changed hrules
      rcases restyleChanged_yields hhost hblocks _ session hrecords hwell with
        ⟨value, after, hrun, -⟩ | ⟨fault', stopped, hrun, hpartly, -⟩
      · rw [render_of_resolved hchanged hresolved, hrun] at hrefused
        contradiction
      · rw [render_of_resolved hchanged hresolved, hrun] at hrefused
        obtain ⟨-, rfl⟩ := EStateM.Result.error.inj hrefused
        refine ⟨rfl, ?_⟩
        have hsound := PartlySettled.sound hrecords hwell hpartly
        obtain ⟨_, after, hafter, hview⟩ :=
          (restyleChanged_yields hhost hblocks _ stopped hsound hwell).exists_ok hspent
        obtain ⟨_, plain, hplain, hview'⟩ :=
          (restyleChanged_yields Sheet.refusesOnce hblocks _ (session.seen watch) hrecords
            hwell).exists_ok trivial
        have hsame : plain = after.seen watch := by
          have hresume := settled_resume hrecords hwell hpartly
          exact hview'.trans (hresume.symm.trans hview.symm)
        refine ⟨⟨some ⟨description, resolved, previous.names⟩, after⟩, ?_, ?_⟩
        · rw [render_of_resolved hchanged hresolved, hafter]
        · rw [seen, render_of_resolved hchanged hresolved, hplain, hsame]
          rfl

/-- A description with two entries. -/
def firstLook : Description :=
  .ofList
    [("box", .leaf "color" (.text "red") (.nest ":hover" (.leaf "color" (.text "navy") .nil) .nil)),
      ("row", .leaf "margin" (.text "0") .nil)]

/-- The description with other values in both entries. -/
def secondLook : Description :=
  .ofList
    [("box", .leaf "color" (.text "blue") (.nest ":hover" (.leaf "top" (.text "0") .nil) .nil)),
      ("row", .leaf "margin" (.text "1px") .nil)]

def firstRendering : Rendering :=
  ⟨firstLook, firstLook.entries, ⟨[("box", "box-0"), ("row", "row-0")]⟩⟩

/-- A component on a host that will refuse the second removal. -/
def unlucky : Component MonitoredSheet FixedSuffix :=
  ⟨some firstRendering, .start
    (.watch
      ⟨[.style ⟨".box-0", [⟨"color", "red"⟩]⟩, .style ⟨".box-0:hover", [⟨"color", "navy"⟩]⟩,
        .style ⟨".row-0", [⟨"margin", "0"⟩]⟩]⟩
      (some 1))
    ⟨"0"⟩ .standard⟩

theorem render_again_unlucky :
    (∀ record ∈ unlucky.session.host.sheet.records, record.Sound) ∧
      (∀ entry ∈ firstRendering.names.entries, ∀ rule ∈ secondLook.rulesOf entry,
        rule.WellFormed) ∧
      ∃ fault refused, render secondLook unlucky = .error fault refused ∧
        refused.session.host.sheet.records =
          [.style ⟨".box-0:hover", [⟨"color", "navy"⟩]⟩, .style ⟨".row-0", [⟨"margin", "0"⟩]⟩,
            .style ⟨".box-0", [⟨"color", "blue"⟩]⟩] ∧
        ∃ after, render secondLook refused = .ok firstRendering.names after ∧
          after.session.host.sheet.records =
            [.style ⟨".box-0", [⟨"color", "blue"⟩]⟩,
              .style ⟨".box-0:hover", [⟨"color", "navy"⟩, ⟨"top", "0"⟩]⟩,
              .style ⟨".row-0", [⟨"margin", "1px"⟩]⟩] := by
  have hresolved : secondLook.resolve = .ok secondLook.entries :=
    Description.resolve_of_base?_eq_none (by decide)
  have hchanged : firstRendering.description.same secondLook = false := by decide
  have hrecords : ∀ record ∈ unlucky.session.host.sheet.records, record.Sound := by decide
  have hrules : ∀ entry ∈ firstRendering.names.entries, ∀ rule ∈ secondLook.rulesOf entry,
      rule.WellFormed := by
    simp only [Description.rulesOf_eq hresolved]
    decide +kernel
  have hrun : ∃ fault refused, render secondLook unlucky = .error fault refused ∧
      refused.session.host.allowance = none ∧ refused.session.host.sheet.records =
        [.style ⟨".box-0:hover", [⟨"color", "navy"⟩]⟩, .style ⟨".row-0", [⟨"margin", "0"⟩]⟩,
          .style ⟨".box-0", [⟨"color", "blue"⟩]⟩] := by
    have hstopped : (match restyleChanged firstRendering secondLook.entries
          firstRendering.names.entries unlucky.session with
        | .ok _ _ => none
        | .error _ stopped => some (stopped.host.allowance, stopped.host.sheet.records)) =
          some (none, [.style ⟨".box-0:hover", [⟨"color", "navy"⟩]⟩,
            .style ⟨".row-0", [⟨"margin", "0"⟩]⟩, .style ⟨".box-0", [⟨"color", "blue"⟩]⟩]) := by
      decide +kernel
    have hrender := render_of_resolved hchanged hresolved unlucky.session
    split at hstopped
    · contradiction
    · next fault stopped hresult =>
      rw [hresult] at hrender
      rw [Option.some.injEq, Prod.mk.injEq] at hstopped
      exact ⟨fault, ⟨some firstRendering, stopped⟩, hrender, hstopped⟩
  obtain ⟨fault, refused, hrefused, hspent, hstopped⟩ := hrun
  have hfresh : unlucky.session.host.allowance ≠ none := by decide
  have hrendering : unlucky.rendering = some firstRendering := rfl
  obtain ⟨-, last, hlast, hplain⟩ :=
    render_again MonitoredSheet.refusesOnce hrendering hrecords hrules hrefused hfresh hspent
  refine ⟨hrecords, hrules, fault, refused, hrefused, hstopped, last, hlast, ?_⟩
  have hrecords' : (after (render secondLook) (unlucky.seen MonitoredSheet.watching)).session.host.records =
      [.style ⟨".box-0", [⟨"color", "blue"⟩]⟩,
        .style ⟨".box-0:hover", [⟨"color", "navy"⟩, ⟨"top", "0"⟩]⟩,
        .style ⟨".row-0", [⟨"margin", "1px"⟩]⟩] := by
    rw [after, seen, unlucky, render_of_resolved hchanged hresolved]
    decide +kernel
  rw [after, hplain] at hrecords'
  exact hrecords'

end Component

end StyleSync
