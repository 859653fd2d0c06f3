import StyleSync.Proofs.Session.Defining
import StyleSync.Proofs.Style.Sameness

/-! # Whole runs of renders

A component is rendered again and again on a sheet that nobody else writes to. What counts in the end is
what was rendered last: `Component.run_values`. The invariant `InStep` relates the sheet to all that was
rendered so far; the first render establishes it (`InStep.first`), and every later one keeps it
(`InStep.step`).
-/

set_option autoImplicit false

namespace StyleSync

open Session Declaration

/-! ## Descriptions that were shown -/

/-- All rules of an entry under its class name, in descriptions that were shown one after another. -/
def compiled (shown : List Description) (entry : String × String) : List Rule :=
  shown.flatMap fun description => description.rulesOf entry

/-- Rules of shown descriptions that do not get in each other's way: a sheet stores each as it is, and no
two entries have rules with a common key. -/
structure Compatible (shown : List Description) (names : Entries String) : Prop where
  wellFormed : ∀ entry ∈ names, ∀ rule ∈ compiled shown entry, rule.WellFormed
  apart : ∀ entry ∈ names, ∀ other ∈ names, entry.1 ≠ other.1 →
    ∀ rule ∈ compiled shown entry, ∀ rule' ∈ compiled shown other, rule.key ≠ rule'.key

instance (shown : List Description) (names : Entries String) : Decidable (Compatible shown names) :=
  decidable_of_iff
    ((∀ entry ∈ names, ∀ rule ∈ compiled shown entry, rule.WellFormed) ∧
      ∀ entry ∈ names, ∀ other ∈ names, entry.1 ≠ other.1 →
        ∀ rule ∈ compiled shown entry, ∀ rule' ∈ compiled shown other, rule.key ≠ rule'.key)
    ⟨fun ⟨hwell, hapart⟩ => ⟨hwell, hapart⟩, fun h => ⟨h.wellFormed, h.apart⟩⟩

theorem compiled_concat (shown : List Description) (description : Description)
    (entry : String × String) :
    compiled (shown ++ [description]) entry = compiled shown entry ++ description.rulesOf entry := by
  simp [compiled]

theorem Compatible.of_concat {shown : List Description} {description : Description}
    {names : Entries String} (h : Compatible (shown ++ [description]) names) :
    Compatible shown names where
  wellFormed entry hentry rule hrule :=
    h.wellFormed entry hentry rule (by simp [compiled_concat, hrule])
  apart entry hentry other hother hne rule hrule rule' hrule' :=
    h.apart entry hentry other hother hne rule (by simp [compiled_concat, hrule]) rule'
      (by simp [compiled_concat, hrule'])

section Resolved

variable (shown : List Description) {description : Description} {resolved : Entries Block}
  (hresolved : description.resolve = .ok resolved)

include hresolved

theorem compiled_concat_of_resolved (entry : String × String) :
    compiled (shown ++ [description]) entry =
      compiled shown entry ++ Session.rulesOf resolved entry := by
  rw [compiled_concat, Description.rulesOf_eq hresolved]

variable {shown} in
theorem Compatible.wellFormed_changed {names : Entries String}
    (h : Compatible (shown ++ [description]) names) (previous : Rendering) :
    ∀ rule ∈ classRules (changed previous resolved names), rule.WellFormed := by
  refine Session.wellFormed_changed fun entry hentry rule hrule => ?_
  refine h.wellFormed entry hentry rule ?_
  rw [compiled_concat_of_resolved shown hresolved]
  exact List.mem_append_right _ hrule

end Resolved

/-! ## Keys of one entry -/

/-- A key that only the rules of one entry may have. -/
def OnlyUnder (shown : List Description) (names : Entries String) (entry : String × String)
    (key : String) : Prop :=
  ∀ other ∈ names, other ≠ entry → ∀ rule ∈ compiled shown other, rule.key ≠ key

theorem OnlyUnder.of_concat {shown : List Description} {description : Description}
    {names : Entries String} {entry : String × String} {key : String}
    (h : OnlyUnder (shown ++ [description]) names entry key) : OnlyUnder shown names entry key :=
  fun other hother hne rule hrule => h other hother hne rule (by simp [compiled_concat, hrule])

/-! ## The same again -/

theorem rulesOf_eq_of_same {a b : Description} (h : a.same b) (entry : String × String) :
    a.rulesOf entry = b.rulesOf entry := by
  have hplain : ∀ description : Description,
      description.plain.rulesOf entry = description.rulesOf entry := by
    intro description
    cases hresolved : description.resolve with
    | error fault =>
      have hfault : description.plain.resolve = .error fault := by
        rw [Description.resolve_plain, hresolved]
        rfl
      rw [Description.rulesOf, Description.rulesOf, hresolved, hfault]
    | ok resolved =>
      have hblocks : description.plain.resolve = .ok (resolved.mapValues Block.plain) := by
        rw [Description.resolve_plain, hresolved]
        rfl
      rw [Description.rulesOf_eq hresolved, Description.rulesOf_eq hblocks, Session.rulesOf,
        Session.rulesOf, Entries.get?_mapValues]
      cases resolved.get? entry.1 with
      | none => rfl
      | some block => exact flatten_plain _ block
  rw [← hplain a, Description.plain_eq_of_same h, hplain]

/-- An entry that is not restyled has the rules that it was last rendered with, or none. -/
theorem changedRules_cases (previous : Rendering) (resolved : Entries Block)
    (entry : String × String) :
    changedRules previous resolved entry = Session.rulesOf resolved entry ∨
      changedRules previous resolved entry = [] ∧
        (Session.rulesOf resolved entry = [] ∨
          Session.rulesOf resolved entry = Session.rulesOf previous.resolved entry) := by
  unfold changedRules Session.rulesOf
  cases hblock : resolved.get? entry.1 with
  | none => exact Or.inl rfl
  | some block =>
    cases hshows : previous.shows entry.1 block with
    | false => exact Or.inl (by simp [Option.filter_some, hshows])
    | true =>
      refine Or.inr ⟨by simp [Option.filter_some, hshows], Or.inr ?_⟩
      unfold Rendering.shows at hshows
      cases hshown : previous.resolved.get? entry.1 with
      | none => simp [hshown] at hshows
      | some shown =>
        rw [hshown] at hshows
        exact (flatten_eq_of_same hshows _).symm

/-! ## The invariant -/

/-- A sheet that is in step with what was shown: under a key that only one entry has, a property has the
value that the entry gave it last. The last rules of every entry are those of the rendering. -/
structure InStep (shown : List Description) (rendering : Rendering) (sheet : Sheet) : Prop where
  distinct : rendering.names.entries.keys.Nodup
  resolved : rendering.description.resolve = .ok rendering.resolved
  last : ∀ entry ∈ rendering.names.entries, ∃ earlier,
    compiled shown entry = earlier ++ Session.rulesOf rendering.resolved entry
  sound : ∀ record ∈ sheet.records, record.Sound
  values : ∀ entry ∈ rendering.names.entries, ∀ key,
    OnlyUnder shown rendering.names.entries entry key → ∀ property,
      effective? sheet.records key property = value? (spelled (compiled shown entry) key) property

namespace InStep

variable {description : Description} {resolved : Entries Block} {names : ClassNames}

theorem first (hresolved : description.resolve = .ok resolved)
    (hnames : names.entries.keys = resolved.keys)
    (hcompatible : Compatible [description] names.entries) :
    InStep [description] ⟨description, resolved, names⟩
      ⟨(names.entries.flatMap (Session.rulesOf resolved)).map fun rule =>
        .read rule.header rule.block⟩ := by
  have hcompiled : ∀ entry, compiled [description] entry = Session.rulesOf resolved entry := by
    intro entry
    rw [← Description.rulesOf_eq hresolved]
    simp [compiled]
  have hdistinct : names.entries.keys.Nodup := by
    rw [hnames, Description.keys_resolved hresolved]
    exact description.nodup
  have hwell : ∀ rule ∈ names.entries.flatMap (Session.rulesOf resolved), rule.WellFormed := by
    intro rule hrule
    obtain ⟨entry, hentry, hmem⟩ := List.mem_flatMap.mp hrule
    exact hcompatible.wellFormed entry hentry rule (hcompiled entry ▸ hmem)
  refine ⟨hdistinct, hresolved, fun entry _ => ⟨[], hcompiled entry⟩, sound_map_read hwell,
    fun entry hentry key honly property => ?_⟩
  have hunique : ∀ other ∈ names.entries, other ≠ entry →
      ∀ rule ∈ Session.rulesOf resolved other, rule.key ≠ key := fun other hother hne rule hrule =>
    honly other hother hne rule (hcompiled other ▸ hrule)
  rw [effective?_map_read fun rule hrule => (hwell rule hrule).toReadable,
    spelled_flatMap_of_unique (hdistinct.of_map _) hentry hunique, hcompiled]

theorem same {shown : List Description} {rendering : Rendering} {sheet : Sheet}
    (h : InStep shown rendering sheet) (hsame : rendering.description.same description) :
    InStep (shown ++ [description]) rendering sheet := by
  have hrules : ∀ entry, description.rulesOf entry = Session.rulesOf rendering.resolved entry := by
    intro entry
    rw [← rulesOf_eq_of_same hsame, Description.rulesOf_eq h.resolved]
  refine ⟨h.distinct, h.resolved, fun entry _ => ⟨compiled shown entry, ?_⟩, h.sound,
    fun entry hentry key honly property => ?_⟩
  · rw [compiled_concat, hrules]
  · obtain ⟨earlier, hearlier⟩ := h.last entry hentry
    rw [h.values entry hentry key honly.of_concat, compiled_concat, hrules, hearlier,
      value?_spelled_append_self]

/-- Another description is reconciled entry by entry, but for the entries that have not changed. -/
theorem step {shown : List Description} {rendering : Rendering} {sheet : Sheet}
    (h : InStep shown rendering sheet) (hresolved : description.resolve = .ok resolved)
    (hcompatible : Compatible (shown ++ [description]) rendering.names.entries) :
    InStep (shown ++ [description]) ⟨description, resolved, rendering.names⟩
      ⟨reconciled sheet.records
        (classRules (changed rendering resolved rendering.names.entries))⟩ := by
  have hrules := compiled_concat_of_resolved shown hresolved
  have hwell := hcompatible.wellFormed_changed hresolved rendering
  refine ⟨h.distinct, hresolved, fun entry _ => ⟨compiled shown entry, hrules entry⟩,
    sound_reconciled h.sound hwell, fun entry hentry key honly property => ?_⟩
  have hunique : ∀ other ∈ rendering.names.entries, other ≠ entry →
      ∀ rule ∈ changedRules rendering resolved other, rule.key ≠ key :=
    fun other hother hne rule hrule => honly other hother hne rule
      (by simp [hrules, mem_rulesOf_of_mem_changedRules hrule])
  have hreadable : ∀ rule ∈ classRules (changed rendering resolved rendering.names.entries),
      rule.Readable := fun rule hrule => (hwell rule hrule).toReadable
  have hvalue : effective? (reconciled sheet.records
      (classRules (changed rendering resolved rendering.names.entries))) key property =
        (value? (spelled (changedRules rendering resolved entry) key) property).or
          (value? (spelled (compiled shown entry) key) property) := by
    rw [effective?_reconciled h.sound hreadable, pinned?_eq_none_of_nodup hwell, Option.none_or,
      classRules_changed, spelled_flatMap_of_unique (h.distinct.of_map _) hentry hunique,
      h.values entry hentry key honly.of_concat]
  rw [hvalue, hrules]
  rcases changedRules_cases rendering resolved entry with hall | ⟨hnone, hold | hold⟩
  · rw [hall, spelled_append, value?_append]
  · rw [hnone, hold, List.append_nil]
    rfl
  · obtain ⟨earlier, hearlier⟩ := h.last entry hentry
    rw [hnone, hold, hearlier, value?_spelled_append_self]
    rfl

end InStep

/-! ## Runs -/

/-- A component in the course of renders, with the descriptions that were shown. -/
structure Progress (σ ν : Type) where
  component : Component σ ν
  shown : List Description

namespace Progress

variable {ν : Type} [SuffixSource ν]

/-- Render a description, which is shown unless it is refused. -/
def render {σ : Type} [Host σ] (progress : Progress σ ν) (description : Description) :
    Progress σ ν :=
  match progress.component.render description with
  | .ok _ component => ⟨component, progress.shown ++ [description]⟩
  | .error _ component => ⟨component, progress.shown⟩

/-- What holds in the course of renders: nothing was shown and the sheet is empty, or the sheet is in step
with what was shown, if that is compatible, and the names are for the entries of the first description
that was shown. -/
inductive Consistent : Progress Sheet ν → Prop
  | fresh {session : Session Sheet ν} (hempty : session.host.records = []) :
      Consistent ⟨⟨none, session⟩, []⟩
  | shown {first : Description} {shown : List Description} {rendering : Rendering}
      {session : Session Sheet ν} (hfirst : shown.head? = some first)
      (hnames : rendering.names.entries.keys = first.keys)
      (hinStep : Compatible shown rendering.names.entries → InStep shown rendering session.host) :
      Consistent ⟨⟨some rendering, session⟩, shown⟩

theorem Consistent.render_fresh {session : Session Sheet ν} (hempty : session.host.records = [])
    (description : Description) :
    Consistent (render (⟨⟨none, session⟩, []⟩ : Progress Sheet ν) description) := by
  cases hresolved : description.resolve with
  | error fault =>
    rw [render, Component.render_first_of_fault hresolved]
    exact .fresh hempty
  | ok resolved =>
    rcases define_cases description session with
      ⟨fault, hdefine⟩ | ⟨resolved', names, after, hresolved', hdefine, hkeys, hrecords⟩
    · rw [render, Component.render_first_of_resolved hresolved, hdefine]
      exact .fresh hempty
    · obtain rfl := Except.ok.inj (hresolved.symm.trans hresolved')
      rw [hempty, List.nil_append] at hrecords
      rw [render, Component.render_first_of_resolved hresolved, hdefine]
      refine .shown rfl (hkeys.trans (Description.keys_resolved hresolved)) fun hcompatible => ?_
      have hsheet : after.host = ⟨_⟩ := congrArg Sheet.mk hrecords
      rw [hsheet]
      exact InStep.first hresolved hkeys hcompatible

theorem Consistent.render_shown {first : Description} {shown : List Description}
    {rendering : Rendering} {session : Session Sheet ν} (hfirst : shown.head? = some first)
    (hnames : rendering.names.entries.keys = first.keys)
    (hinStep : Compatible shown rendering.names.entries → InStep shown rendering session.host)
    (description : Description) :
    Consistent (render (⟨⟨some rendering, session⟩, shown⟩ : Progress Sheet ν) description) := by
  have hfirst' : (shown ++ [description]).head? = some first := by
    rw [List.head?_append, hfirst, Option.some_or]
  cases hchanged : rendering.description.same description with
  | true =>
    rw [render, Component.render_of_same hchanged]
    exact .shown hfirst' hnames fun hcompatible => (hinStep hcompatible.of_concat).same hchanged
  | false =>
    cases hresolved : description.resolve with
    | error fault =>
      rw [render, Component.render_of_fault hchanged hresolved]
      exact .shown hfirst hnames hinStep
    | ok resolved =>
      have hblocks : ∀ entry ∈ resolved, entry.2.base? = none := fun entry hentry =>
        Description.base?_of_mem_resolved hresolved hentry
      obtain ⟨after, hrun⟩ := exists_restyleChanged hblocks rendering.names.entries session
      rw [render, Component.render_of_resolved hchanged hresolved, hrun]
      refine .shown hfirst' hnames fun hcompatible => ?_
      have hbefore := hinStep hcompatible.of_concat
      have hstep := hbefore.step hresolved hcompatible
      have hwell := hcompatible.wellFormed_changed hresolved rendering
      have hsettled := restyleChanged_settled hblocks rendering.names.entries hbefore.sound hwell
      obtain ⟨-, rfl⟩ := EStateM.Result.ok.inj (hrun.symm.trans hsettled)
      exact hstep

theorem Consistent.render {progress : Progress Sheet ν} (h : progress.Consistent)
    (description : Description) : (progress.render description).Consistent := by
  cases h with
  | fresh hempty => exact render_fresh hempty description
  | shown hfirst hnames hinStep => exact render_shown hfirst hnames hinStep description

theorem Consistent.foldl_render {progress : Progress Sheet ν} (h : progress.Consistent)
    (descriptions : List Description) :
    (descriptions.foldl Progress.render progress).Consistent := by
  induction descriptions generalizing progress with
  | nil => exact h
  | cons description rest ih => exact ih (h.render description)

end Progress

namespace Component

variable {ν : Type} [SuffixSource ν]

/-- Render descriptions one after another. -/
def run {σ : Type} [Host σ] (component : Component σ ν) (descriptions : List Description) :
    Progress σ ν :=
  descriptions.foldl Progress.render ⟨component, []⟩

/-- **What is rendered last wins.** After any renders on a sheet that was empty, refused ones among them, a
component that has shown something has names for the entries of the first description that was shown. If
the descriptions that were shown are compatible, then under every key that an entry has in any of them,
every property has the value that the entry gave it last, and no value if it gave none. -/
theorem run_values {session : Session Sheet ν} (hempty : session.host = .empty)
    (descriptions : List Description) {first : Description}
    (hfirst : ((start session).run descriptions).shown.head? = some first) :
    let progress := (start session).run descriptions
    ∃ names, progress.component.names? = some names ∧ names.entries.keys = first.keys ∧
      (Compatible progress.shown names.entries →
        ∀ entry ∈ names.entries, ∀ rule ∈ compiled progress.shown entry, ∀ property : String,
          effective? progress.component.session.host.records rule.key property =
            value? (spelled (compiled progress.shown entry) rule.key) property) := by
  have hconsistent : ((start session).run descriptions).Consistent :=
    Progress.Consistent.foldl_render (.fresh (congrArg Sheet.records hempty)) descriptions
  generalize (start session).run descriptions = progress at *
  cases hconsistent with
  | fresh => contradiction
  | @shown first' shown rendering session hfirst' hkeys hinStep =>
    obtain rfl : first' = first := Option.some.inj (hfirst'.symm.trans hfirst)
    refine ⟨rendering.names, rfl, hkeys, fun hcompatible entry hentry rule hrule property => ?_⟩
    have hsheet := hinStep hcompatible
    refine hsheet.values entry hentry rule.key (fun other hother hne rule' hrule' => ?_) property
    have hnames : other.1 ≠ entry.1 := by
      intro hsame
      have hvalue := Entries.get?_of_mem hsheet.distinct hentry
      rw [← hsame, Entries.get?_of_mem hsheet.distinct hother, Option.some.injEq] at hvalue
      exact hne (Prod.ext hsame hvalue)
    exact hcompatible.apart other hother entry hentry hnames rule' hrule' rule hrule

/-- Six looks of a component. The first and the fourth cannot be resolved, the base changes in the third,
the fifth differs from the third in the sign of a zero only, and the last has no base. -/
def looks : List Description :=
  [.ofList [("link", .leaf "extend" (.text "gone") .nil)],
    .ofList [("base", .leaf "color" (.text "red") .nil),
      ("link", .leaf "extend" (.text "base") (.leaf "margin" (.number ⟨0⟩) .nil))],
    .ofList [("base", .leaf "color" (.text "blue") (.nest ":hover" (.leaf "top" (.text "1px") .nil) .nil)),
      ("link", .leaf "extend" (.text "base") (.leaf "margin" (.number ⟨0⟩) .nil))],
    .ofList [("base", .leaf "extend" (.text "link") .nil), ("link", .leaf "extend" (.text "base") .nil)],
    .ofList [("base", .leaf "color" (.text "blue") (.nest ":hover" (.leaf "top" (.text "1px") .nil) .nil)),
      ("link", .leaf "extend" (.text "base") (.leaf "margin" (.number ⟨0x8000000000000000⟩) .nil))],
    .ofList [("link", .leaf "margin" (.text "2px") .nil)]]

def blank : Session Sheet FixedSuffix := .start .empty ⟨"0"⟩ .standard

theorem run_values_looks :
    ∃ first names, ((start blank).run looks).shown.head? = some first ∧
      ((start blank).run looks).component.names? = some names ∧ names.entries.keys = first.keys ∧
      Compatible ((start blank).run looks).shown names.entries ∧
      ((start blank).run looks).shown.length = 4 ∧
      let records := ((start blank).run looks).component.session.host.records
      effective? records ".otter-link-0" "margin" = some "2px" ∧
        effective? records ".otter-link-0" "color" = some "blue" ∧
        effective? records ".otter-base-0:hover" "top" = some "1px" := by
  let known : ClassNames := ⟨[("base", "otter-base-0"), ("link", "otter-link-0")]⟩
  obtain ⟨first, hfirst⟩ : ∃ first, ((start blank).run looks).shown.head? = some first :=
    Option.isSome_iff_exists.mp (by decide +kernel)
  obtain ⟨names, hnames, hkeys, hvalues⟩ := run_values rfl looks hfirst
  have hknown : ((start blank).run looks).component.names? = some known := by decide +kernel
  obtain rfl : names = known := Option.some.inj (hnames.symm.trans hknown)
  have hcompatible : Compatible ((start blank).run looks).shown known.entries := by decide +kernel
  have hlink := hvalues hcompatible ("link", "otter-link-0") (by decide)
    ⟨.style ".otter-link-0", [⟨"margin", "2px"⟩]⟩ (by decide +kernel)
  have hbase := hvalues hcompatible ("base", "otter-base-0") (by decide)
    ⟨.style ".otter-base-0:hover", [⟨"top", "1px"⟩]⟩ (by decide +kernel)
  refine ⟨first, known, hfirst, hnames, hkeys, hcompatible, by decide +kernel,
    (hlink "margin").trans ?_, (hlink "color").trans ?_, (hbase "top").trans ?_⟩
  · decide +kernel
  · decide +kernel
  · decide +kernel

end Component

end StyleSync
