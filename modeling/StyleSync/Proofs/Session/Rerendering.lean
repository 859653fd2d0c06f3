import StyleSync.Proofs.Session.Defining
import StyleSync.Proofs.Sheet.Renewal
import StyleSync.Proofs.Style.Sameness

/-! # Rendering again and defining anew

A component that was rendered once and is rendered again with other values has the records that it would
have if it was defined with these values. `Component.render_revalued` says so, and in which order the
records stand: first those of the entries that keep their blocks, then those of the others.
-/

set_option autoImplicit false

namespace StyleSync

/-! ## Kept entries -/

namespace Session

/-- Whether an entry has the same block in two lists of resolved blocks. -/
def keeps (before after : Entries Block) (entry : String × String) : Bool :=
  match before.get? entry.1, after.get? entry.1 with
  | some shown, some block => shown.same block
  | _, _ => false

theorem rulesOf_of_keeps {before after : Entries Block} {entry : String × String}
    (h : keeps before after entry) : rulesOf before entry = rulesOf after entry := by
  unfold keeps at h
  unfold rulesOf
  cases hshown : before.get? entry.1 with
  | none => simp [hshown] at h
  | some shown =>
    cases hblock : after.get? entry.1 with
    | none => simp [hshown, hblock] at h
    | some block =>
      simp only [hshown, hblock] at h
      simp [flatten_eq_of_same h]

theorem keeps_of_same {first second : Description} (h : first.same second) {before after : Entries Block}
    (hbefore : first.resolve = .ok before) (hafter : second.resolve = .ok after)
    (hkeys : second.keys = first.keys) {entry : String × String} (hentry : entry.1 ∈ first.keys) :
    keeps before after entry := by
  have hshown : (before.get? entry.1).isSome := by
    rw [Entries.isSome_get?, Description.keys_resolved hbefore]
    exact hentry
  have hblock : (after.get? entry.1).isSome := by
    rw [Entries.isSome_get?, Description.keys_resolved hafter, hkeys]
    exact hentry
  obtain ⟨shown, hshown⟩ := Option.isSome_iff_exists.mp hshown
  obtain ⟨block, hblock⟩ := Option.isSome_iff_exists.mp hblock
  simp only [keeps, hshown, hblock]
  exact Description.same_of_mem_resolved h hbefore hafter hshown hblock

theorem changedRules_eq (description : Description) (before after : Entries Block) (names : ClassNames)
    (entry : String × String) :
    changedRules ⟨description, before, names⟩ after entry =
      if keeps before after entry then [] else rulesOf after entry := by
  unfold changedRules rulesOf keeps Rendering.shows
  cases hblock : after.get? entry.1 with
  | none => simp
  | some block =>
    cases hshown : before.get? entry.1 with
    | none => simp [Option.filter_some]
    | some shown => cases hsame : shown.same block <;> simp [Option.filter_some, hsame]

theorem flatMap_ite_nil {α β : Type} (p : α → Bool) (f : α → List β) (l : List α) :
    (l.flatMap fun a => if p a then [] else f a) = (l.filter (!p ·)).flatMap f := by
  induction l with
  | nil => rfl
  | cons a l ih =>
    rw [List.flatMap_cons, ih]
    cases ha : p a <;> simp [ha]

theorem classRules_changed_eq_filter (description : Description) (before after : Entries Block)
    (names : ClassNames) :
    classRules (changed ⟨description, before, names⟩ after names.entries) =
      (names.entries.filter (!keeps before after ·)).flatMap (rulesOf after) := by
  rw [classRules_changed, ← flatMap_ite_nil]
  exact List.flatMap_congr fun entry _ => changedRules_eq description before after names entry

/-! ## New values -/

/-- Resolved blocks of which the second ones give new values to the properties of the first ones. Their
rules are well-formed, and no two of one kind have a common key. -/
structure Revalued (before after : Entries Block) (names : Entries String) : Prop where
  wellFormed_before : ∀ entry ∈ names, ∀ rule ∈ rulesOf before entry, rule.WellFormed
  wellFormed_after : ∀ entry ∈ names, ∀ rule ∈ rulesOf after entry, rule.WellFormed
  shape : ∀ entry ∈ names,
    (rulesOf before entry).map Rule.shape = (rulesOf after entry).map Rule.shape
  distinct : ((names.flatMap (rulesOf after)).map Rule.key).Nodup

instance (before after : Entries Block) (names : Entries String) :
    Decidable (Revalued before after names) :=
  decidable_of_iff
    ((∀ entry ∈ names, ∀ rule ∈ rulesOf before entry, rule.WellFormed) ∧
      (∀ entry ∈ names, ∀ rule ∈ rulesOf after entry, rule.WellFormed) ∧
      (∀ entry ∈ names, (rulesOf before entry).map Rule.shape = (rulesOf after entry).map Rule.shape) ∧
      ((names.flatMap (rulesOf after)).map Rule.key).Nodup)
    ⟨fun ⟨h1, h2, h3, h4⟩ => ⟨h1, h2, h3, h4⟩, fun h => ⟨h.1, h.2, h.3, h.4⟩⟩

/-- The rules of two lists of resolved blocks, first those of the entries that keep their blocks. -/
def renewedRules (before after : Entries Block) (names : Entries String) : List Rule :=
  (names.filter (keeps before after)).flatMap (rulesOf after) ++
    (names.filter (!keeps before after ·)).flatMap (rulesOf after)

theorem renewedRules_perm (before after : Entries Block) (names : Entries String) :
    (renewedRules before after names).Perm (names.flatMap (rulesOf after)) := by
  rw [renewedRules, ← List.flatMap_append]
  exact List.Perm.flatMap_right _ (List.filter_append_perm _ names)

theorem flatMap_rulesOf_keeps (before after : Entries Block) (names : Entries String) :
    (names.filter (keeps before after)).flatMap (rulesOf before) =
      (names.filter (keeps before after)).flatMap (rulesOf after) :=
  List.flatMap_congr fun _ hentry => rulesOf_of_keeps (List.mem_filter.mp hentry).2

theorem Revalued.reconciled_eq {before after : Entries Block} {names : Entries String}
    (h : Revalued before after names) :
    reconciled ((names.flatMap (rulesOf before)).map fun rule => .read rule.header rule.block)
        ((names.filter (!keeps before after ·)).flatMap (rulesOf after)) =
      (renewedRules before after names).map fun rule => .read rule.header rule.block := by
  have hrecords := reconciled_map_read h.wellFormed_before h.wellFormed_after h.shape h.distinct
    (!keeps before after ·)
  simp only [Bool.not_not] at hrecords
  rw [hrecords, flatMap_rulesOf_keeps, renewedRules]

end Session

/-! ## Rendering with new values -/

namespace Component

open Session

variable {ν ν' : Type} [SuffixSource ν] [SuffixSource ν'] {first second : Description}
  {before after : Entries Block}

theorem render_first_of_resolved_empty (hnames : checkNames first.keys = .ok ())
    (hbefore : first.resolve = .ok before) {session : Session Sheet ν} (hempty : session.host = .empty) :
    ∃ defined, render first (start session) =
        .ok (session.nextNames first.keys)
          ⟨some ⟨first, before, session.nextNames first.keys⟩, defined⟩ ∧
      defined.host.records =
        ((session.nextNames first.keys).entries.flatMap (rulesOf before)).map fun rule =>
          .read rule.header rule.block := by
  obtain ⟨defined, hdefine, hrecords⟩ := define_of_resolved hnames hbefore session
  refine ⟨defined, ?_, ?_⟩
  · rw [start, render_first_of_resolved hbefore, hdefine]
  · rw [hrecords, hempty]
    rfl

omit [SuffixSource ν'] in
theorem render_second (hkeys : second.keys = first.keys) (hbefore : first.resolve = .ok before)
    (hafter : second.resolve = .ok after) {names : ClassNames}
    (hentries : names.entries.keys = first.keys) (hrules : Revalued before after names.entries)
    {defined : Session Sheet ν}
    (hrecords : defined.host.records =
      (names.entries.flatMap (rulesOf before)).map fun rule => .read rule.header rule.block) :
    ∃ again, render second ⟨some ⟨first, before, names⟩, defined⟩ = .ok names again ∧
      again.session.host.records =
        (renewedRules before after names.entries).map fun rule => .read rule.header rule.block := by
  cases hsame : first.same second with
  | true =>
    refine ⟨_, render_of_same hsame defined, ?_⟩
    have hkept : ∀ entry ∈ names.entries, keeps before after entry := by
      intro entry hentry
      refine keeps_of_same hsame hbefore hafter hkeys ?_
      rw [← hentries]
      exact List.mem_map_of_mem hentry
    have hall : names.entries.filter (keeps before after) = names.entries :=
      List.filter_eq_self.mpr hkept
    have hnone : names.entries.filter (!keeps before after ·) = [] := by
      simpa [List.filter_eq_nil_iff] using hkept
    have hkeptRules := flatMap_rulesOf_keeps before after names.entries
    rw [hall] at hkeptRules
    rw [hrecords, renewedRules, hall, hnone, List.flatMap_nil, List.append_nil, hkeptRules]
  | false =>
    have hblocks : ∀ entry ∈ after, entry.2.base? = none := fun entry hentry =>
      Description.base?_of_mem_resolved hafter hentry
    have hsound : ∀ record ∈ defined.host.records, record.Sound := by
      rw [hrecords]
      refine sound_map_read fun rule hrule => ?_
      obtain ⟨entry, hentry, hmem⟩ := List.mem_flatMap.mp hrule
      exact hrules.wellFormed_before entry hentry rule hmem
    have hwell : ∀ rule ∈ classRules (changed ⟨first, before, names⟩ after names.entries),
        rule.WellFormed := wellFormed_changed hrules.wellFormed_after
    have hrun := restyleChanged_settled hblocks names.entries hsound hwell
    have hchanged : (⟨first, before, names⟩ : Rendering).description.same second = false := hsame
    have hrender := render_of_resolved hchanged hafter defined
    rw [hrun] at hrender
    refine ⟨_, hrender, ?_⟩
    rw [← hrules.reconciled_eq, ← hrecords, ← classRules_changed_eq_filter first before after names]
    rfl

/-- **Rendering new values agrees with defining them anew.** Of two descriptions of the same valid names, the
second gives new values to what the first declares. On an empty sheet, a component that renders both
leaves the records that defining the second one leaves, on another empty sheet and with the same
suffixes: first those of the entries that keep their resolved blocks, then those of the others. -/
theorem render_revalued (hkeys : second.keys = first.keys) (hnames : checkNames first.keys = .ok ())
    (hbefore : first.resolve = .ok before) (hafter : second.resolve = .ok after)
    {session : Session Sheet ν} {fresh : Session Sheet ν'} (hempty : session.host = .empty)
    (hfresh : fresh.host = .empty) (hoptions : fresh.options = session.options)
    (hsuffixes : (SuffixSource.drawMany first.keys.length fresh.source).1 =
      (SuffixSource.drawMany first.keys.length session.source).1)
    (hrules : Revalued before after (session.nextNames first.keys).entries) :
    let names := session.nextNames first.keys
    ∃ shown again created,
      render first (start session) = .ok names shown ∧ render second shown = .ok names again ∧
      define second fresh = .ok names created ∧
      created.host.records = (names.entries.flatMap (rulesOf after)).map (fun rule =>
        .read rule.header rule.block) ∧
      again.session.host.records = (renewedRules before after names.entries).map (fun rule =>
        .read rule.header rule.block) ∧
      again.session.host.records.Perm created.host.records := by
  intro names
  obtain ⟨defined, hfirst, hrecords⟩ := render_first_of_resolved_empty hnames hbefore hempty
  obtain ⟨again, hsecond, hagain⟩ :=
    render_second hkeys hbefore hafter (keys_nextNames session first.keys) hrules hrecords
  have hvalid : checkNames second.keys = .ok () := by
    rw [hkeys]
    exact hnames
  obtain ⟨created, hdefine, hcreated⟩ :=
    define_of_resolved hvalid hafter fresh
  have hsame : fresh.nextNames second.keys = names := by
    simp only [names, nextNames, hkeys, hoptions, hsuffixes]
  rw [hsame] at hdefine hcreated
  rw [hfresh] at hcreated
  refine ⟨_, again, created, hfirst, hsecond, hdefine, hcreated, hagain, ?_⟩
  rw [hagain, hcreated]
  exact (renewedRules_perm before after names.entries).map _

/-- Three entries, of which the second inherits from the first. -/
def seasonal (color : String) : Description :=
  .ofList
    [("base", .leaf "color" (.text color) (.nest ":hover" (.leaf "border-color" (.text color) .nil) .nil)),
      ("link", .leaf "extend" (.text "base") (.leaf "margin" (.text "0") .nil)),
      ("row", .leaf "top" (.text "0") .nil)]

/-- The entries with what they inherit. -/
def seasonalBlocks (color : String) : Entries Block :=
  [("base", .leaf "color" (.text color) (.nest ":hover" (.leaf "border-color" (.text color) .nil) .nil)),
    ("link", .leaf "color" (.text color)
      (.nest ":hover" (.leaf "border-color" (.text color) .nil) (.leaf "margin" (.text "0") .nil))),
    ("row", .leaf "top" (.text "0") .nil)]

theorem render_revalued_seasonal :
    let session : Session Sheet CounterSuffix := .start .empty .start .standard
    ∃ names shown again created,
      render (seasonal "red") (start session) = .ok names shown ∧
      render (seasonal "blue") shown = .ok names again ∧
      define (seasonal "blue") session = .ok names created ∧
      again.session.host.records.Perm created.host.records ∧
      again.session.host.records =
        [.style ⟨".otter-row-2", [⟨"top", "0"⟩]⟩, .style ⟨".otter-base-0", [⟨"color", "blue"⟩]⟩,
          .style ⟨".otter-base-0:hover", [⟨"border-color", "blue"⟩]⟩,
          .style ⟨".otter-link-1", [⟨"color", "blue"⟩, ⟨"margin", "0"⟩]⟩,
          .style ⟨".otter-link-1:hover", [⟨"border-color", "blue"⟩]⟩] := by
  intro session
  have hred : (seasonal "red").resolve = .ok (seasonalBlocks "red") := by decide +kernel
  have hblue : (seasonal "blue").resolve = .ok (seasonalBlocks "blue") := by decide +kernel
  have hrules : Revalued (seasonalBlocks "red") (seasonalBlocks "blue")
      (session.nextNames (seasonal "red").keys).entries := by decide +kernel
  have hempty : session.host = .empty := rfl
  obtain ⟨shown, again, created, hshown, hagain, hcreated, -, hrecords, hperm⟩ :=
    render_revalued (by decide) (by decide) hred hblue hempty hempty rfl rfl hrules
  refine ⟨_, shown, again, created, hshown, hagain, hcreated, hperm, ?_⟩
  rw [hrecords]
  decide +kernel

end Component

end StyleSync
