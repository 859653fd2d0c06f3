import StyleSync.Proofs.Session.Restyling
import StyleSync.Proofs.Sheet.Absorption
import StyleSync.Proofs.Sheet.Refusal
import StyleSync.Session.Rendering

/-! # What restyling several classes does

`restyleChanged` restyles the classes of a rendering one after another. `changed` lists the classes and
blocks of which it does so, and `settled` is a session after rules and warnings.

* `settled_append`, `settled_resume`: rules and warnings in parts, and again;
* `restyleChanged_yields`: on a host that refuses one removal, restyling completes with all rules
  settled, or it is refused with the first of them settled.
-/

set_option autoImplicit false

namespace StyleSync

/-! ## Settled sessions -/

namespace Session

variable {σ ν : Type}

/-- The session with its records reconciled with rules, and warned by messages. -/
def settled (session : Session Sheet ν) (rules : List Rule) (messages : List String) :
    Session Sheet ν :=
  { session with
    host := ⟨reconciled session.host.records rules⟩
    warnings := (session.warnings.warnAll noticeComponent messages).2 }

/-- A session with only the first of some rules settled, and warned by only the first of messages. -/
def PartlySettled (session : Session Sheet ν) (rules : List Rule) (messages : List String)
    (after : Session Sheet ν) : Prop :=
  ∃ part few, part <+: rules ∧ few <+: messages ∧ after = session.settled part few

theorem settled_nil (session : Session Sheet ν) : session.settled [] [] = session := by
  simp [settled, reconciled, withoutLast, lastKeys, mergedRules, Warnings.warnAll]

section WellFormed

variable {session : Session Sheet ν} (hrecords : ∀ record ∈ session.host.records, record.Sound)
  {rules : List Rule} (hrules : ∀ rule ∈ rules, rule.WellFormed)

include hrecords hrules

theorem sound_settled (messages : List String) :
    ∀ record ∈ (session.settled rules messages).host.records, record.Sound :=
  sound_reconciled hrecords hrules

theorem PartlySettled.sound {after : Session Sheet ν} {messages : List String}
    (h : session.PartlySettled rules messages after) :
    ∀ record ∈ after.host.records, record.Sound := by
  obtain ⟨part, few, hpart, -, rfl⟩ := h
  exact sound_settled hrecords (fun rule hrule => hrules rule (hpart.subset hrule)) few

theorem settled_append (later : List Rule) (messages more : List String) :
    session.settled (rules ++ later) (messages ++ more) =
      (session.settled rules messages).settled later more := by
  simp only [settled, Warnings.warnAll_append, reconciled_append hrecords hrules]

/-- What was settled in part can be settled again from the start. -/
theorem settled_resume {after : Session Sheet ν} {messages : List String}
    (h : session.PartlySettled rules messages after) :
    after.settled rules messages = session.settled rules messages := by
  obtain ⟨part, few, ⟨rest, rfl⟩, ⟨more, rfl⟩, rfl⟩ := h
  have hpart : ∀ rule ∈ part, rule.WellFormed := fun rule hrule =>
    hrules rule (List.mem_append_left rest hrule)
  simp only [settled, Warnings.warnAll_resume, reconciled_resume hrecords hpart]

theorem PartlySettled.of_later {after : Session Sheet ν} {later : List Rule}
    {messages more : List String}
    (h : (session.settled rules messages).PartlySettled later more after) :
    session.PartlySettled (rules ++ later) (messages ++ more) after := by
  obtain ⟨part, few, hpart, hfew, rfl⟩ := h
  exact ⟨rules ++ part, messages ++ few, (List.prefix_append_right_inj rules).mpr hpart,
    (List.prefix_append_right_inj messages).mpr hfew,
    (settled_append hrecords hrules part messages few).symm⟩

end WellFormed

theorem PartlySettled.append {session after : Session Sheet ν} {rules : List Rule}
    {messages : List String} (h : session.PartlySettled rules messages after) (later : List Rule)
    (more : List String) : session.PartlySettled (rules ++ later) (messages ++ more) after := by
  obtain ⟨part, few, hpart, hfew, rfl⟩ := h
  exact ⟨part, few, hpart.trans (List.prefix_append rules later),
    hfew.trans (List.prefix_append messages more), rfl⟩

/-! ## Sessions on watched hosts -/

/-- The session with its host seen as a sheet. -/
def seen (watch : Watch σ Sheet) (session : Session σ ν) : Session Sheet ν :=
  ⟨watch.view session.host, session.source, session.options, session.warnings⟩

/-- Watching a session by watching its host. -/
def watched (watch : Watch σ Sheet) : Watch (Session σ ν) (Session Sheet ν) :=
  ⟨seen watch, fun session => watch.spent session.host⟩

variable [Host σ] {watch : Watch σ Sheet}

theorem restyle_eq_onHost {block : Block} (h : block.base? = none) (selector : String)
    (session : Session σ ν) :
    restyle selector block session =
      onHost (Edit.runAll (edits selector block (Host.records session.host)))
        { session with
          warnings := (session.warnings.warnAll noticeComponent (notices selector block)).2 } := by
  unfold restyle
  rw [h]
  rfl

theorem restyle_yields (hhost : RefusesOnce watch) {block : Block} (h : block.base? = none)
    (selector : String) (session : Session σ ν) :
    (watched watch).Yields (restyle selector block session) session
      ((session.seen watch).settled (flatten selector block) (notices selector block))
      ((session.seen watch).PartlySettled (flatten selector block) (notices selector block)) := by
  rw [restyle_eq_onHost h, edits]
  rcases hhost.reconciles (flatten selector block) session.host with
    ⟨value, after, hrun, hview, hspent⟩ |
      ⟨fault, after, hrun, ⟨part, hpart, hview⟩, hfresh, hused⟩
  · refine Or.inl ⟨value, _, onHost_of_ok hrun, ?_, hspent⟩
    simp only [watched, seen, settled, hview]
  · refine Or.inr ⟨fault, { session with
      host := after
      warnings := (session.warnings.warnAll noticeComponent (notices selector block)).2 }, ?_,
      ⟨part, notices selector block, hpart, List.prefix_rfl, ?_⟩, hfresh, hused⟩
    · rw [onHost, hrun]
    · simp only [watched, seen, settled, hview]

/-! ## Changed classes -/

/-- The rules of an entry of resolved blocks under its class name, if there is such an entry. -/
def rulesOf (resolved : Entries Block) (entry : String × String) : List Rule :=
  ((resolved.get? entry.1).map (flatten (classSelector entry.2))).getD []

/-- The rules of an entry whose block was not last rendered. -/
def changedRules (previous : Rendering) (resolved : Entries Block) (entry : String × String) :
    List Rule :=
  (((resolved.get? entry.1).filter (!previous.shows entry.1 ·)).map
    (flatten (classSelector entry.2))).getD []

/-- The class names of the entries whose blocks were not last rendered, with these blocks. -/
def changed (previous : Rendering) (resolved : Entries Block) (names : Entries String) :
    List (String × Block) :=
  names.filterMap fun entry =>
    ((resolved.get? entry.1).filter (!previous.shows entry.1 ·)).map (entry.2, ·)

theorem classRules_cons (entry : String × Block) (named : List (String × Block)) :
    classRules (entry :: named) =
      flatten (classSelector entry.1) entry.2 ++ classRules named :=
  List.flatMap_cons

theorem classNotices_cons (entry : String × Block) (named : List (String × Block)) :
    classNotices (entry :: named) =
      notices (classSelector entry.1) entry.2 ++ classNotices named :=
  List.flatMap_cons

variable {previous : Rendering} {resolved : Entries Block}

theorem mem_rulesOf_of_mem_changedRules {entry : String × String} {rule : Rule}
    (h : rule ∈ changedRules previous resolved entry) : rule ∈ rulesOf resolved entry := by
  unfold changedRules at h
  cases hfilter : (resolved.get? entry.1).filter (!previous.shows entry.1 ·) with
  | none => simp [hfilter] at h
  | some block =>
    obtain ⟨hblock, -⟩ := Option.filter_eq_some_iff.mp hfilter
    rw [hfilter] at h
    rw [rulesOf, hblock]
    exact h

theorem classRules_changed (previous : Rendering) (resolved : Entries Block)
    (names : Entries String) :
    classRules (changed previous resolved names) =
      names.flatMap (changedRules previous resolved) := by
  induction names with
  | nil => rfl
  | cons entry rest ih =>
    rw [List.flatMap_cons, ← ih, changedRules, changed, List.filterMap_cons]
    cases (resolved.get? entry.1).filter (!previous.shows entry.1 ·) <;> rfl

theorem wellFormed_changed {names : Entries String}
    (h : ∀ entry ∈ names, ∀ rule ∈ rulesOf resolved entry, rule.WellFormed) :
    ∀ rule ∈ classRules (changed previous resolved names), rule.WellFormed := by
  intro rule hrule
  rw [classRules_changed, List.mem_flatMap] at hrule
  obtain ⟨entry, hentry, hmem⟩ := hrule
  exact h entry hentry rule (mem_rulesOf_of_mem_changedRules hmem)

theorem restyleChanged_cons_of_changed {entry name : String} {block : Block}
    (hblock : resolved.get? entry = some block) (hchanged : previous.shows entry block = false)
    (rest : Entries String) (session : Session σ ν) :
    restyleChanged previous resolved ((entry, name) :: rest) session =
      (restyleClass name block >>= fun _ => restyleChanged previous resolved rest) session := by
  simp only [restyleChanged, hblock, hchanged, Bool.false_eq_true, if_false]

theorem restyleChanged_cons_of_not {entry name : String}
    (h : (resolved.get? entry).filter (!previous.shows entry ·) = none) (rest : Entries String)
    (session : Session σ ν) :
    restyleChanged previous resolved ((entry, name) :: rest) session =
      restyleChanged previous resolved rest session := by
  cases hblock : resolved.get? entry with
  | none =>
    simp only [restyleChanged, hblock]
  | some block =>
    have hshows : previous.shows entry block = true := by simpa [hblock] using h
    simp only [restyleChanged, hblock, hshows, if_true]

theorem exists_restyleChanged (hresolved : ∀ entry ∈ resolved, entry.2.base? = none)
    (names : Entries String) (session : Session Sheet ν) :
    ∃ after, restyleChanged previous resolved names session = .ok () after := by
  induction names generalizing session with
  | nil => exact ⟨session, rfl⟩
  | cons pair rest ih =>
    obtain ⟨entry, name⟩ := pair
    cases hfilter : (resolved.get? entry).filter (!previous.shows entry ·) with
    | none =>
      rw [restyleChanged_cons_of_not hfilter]
      exact ih session
    | some block =>
      obtain ⟨hblock, hshows⟩ := Option.filter_eq_some_iff.mp hfilter
      have hbase : block.base? = none := hresolved _ (Entries.mem_of_get? hblock)
      rw [restyleChanged_cons_of_changed hblock (by simpa using hshows)]
      simp only [bind, EStateM.bind, restyleClass, restyle_eq hbase]
      exact ih _

/-- Restyling the changed classes settles all of their rules, or it is refused once and settles the first
of them. -/
theorem restyleChanged_yields (hhost : RefusesOnce watch)
    (hresolved : ∀ entry ∈ resolved, entry.2.base? = none) (names : Entries String)
    (session : Session σ ν) (hrecords : ∀ record ∈ (watch.view session.host).records, record.Sound)
    (hrules : ∀ rule ∈ classRules (changed previous resolved names), rule.WellFormed) :
    (watched watch).Yields (restyleChanged previous resolved names session) session
      ((session.seen watch).settled (classRules (changed previous resolved names))
        (classNotices (changed previous resolved names)))
      ((session.seen watch).PartlySettled (classRules (changed previous resolved names))
        (classNotices (changed previous resolved names))) := by
  induction names generalizing session with
  | nil => exact Watch.Yields.completed rfl (settled_nil _).symm Iff.rfl _
  | cons pair rest ih =>
    obtain ⟨entry, name⟩ := pair
    cases hfilter : (resolved.get? entry).filter (!previous.shows entry ·) with
    | none =>
      have hsame : changed previous resolved ((entry, name) :: rest) =
          changed previous resolved rest := by
        simp [changed, hfilter]
      rw [restyleChanged_cons_of_not hfilter]
      rw [hsame] at hrules ⊢
      exact ih session hrecords hrules
    | some block =>
      have hmore : changed previous resolved ((entry, name) :: rest) =
          (name, block) :: changed previous resolved rest := by
        simp [changed, hfilter]
      obtain ⟨hblock, hshows⟩ := Option.filter_eq_some_iff.mp hfilter
      have hbase : block.base? = none := hresolved _ (Entries.mem_of_get? hblock)
      rw [restyleChanged_cons_of_changed hblock (by simpa using hshows)]
      rw [hmore, classRules_cons] at hrules
      rw [hmore, classRules_cons, classNotices_cons]
      have hfirst : ∀ rule ∈ flatten (classSelector name) block, rule.WellFormed := fun rule hrule =>
        hrules rule (List.mem_append_left _ hrule)
      have hseen : ∀ record ∈ (session.seen watch).host.records, record.Sound := hrecords
      refine Watch.Yields.bind ((restyle_yields hhost hbase _ session).mono fun _ hpart =>
        hpart.append _ _) fun _ middle hmiddle => ?_
      have hview : middle.seen watch = _ := hmiddle
      have hsound : ∀ record ∈ (watch.view middle.host).records, record.Sound := by
        have hsettled := sound_settled hseen hfirst
          (notices (classSelector name) block)
        rw [← hview] at hsettled
        exact hsettled
      have hlater := ih middle hsound fun rule hrule =>
        hrules rule (List.mem_append_right _ hrule)
      rw [hview] at hlater
      rw [settled_append hseen hfirst]
      exact hlater.mono fun _ hpart =>
        PartlySettled.of_later hseen hfirst hpart

theorem restyleChanged_settled (hresolved : ∀ entry ∈ resolved, entry.2.base? = none)
    (names : Entries String) {session : Session Sheet ν}
    (hrecords : ∀ record ∈ session.host.records, record.Sound)
    (hrules : ∀ rule ∈ classRules (changed previous resolved names), rule.WellFormed) :
    restyleChanged previous resolved names session =
      .ok ()
        (session.settled (classRules (changed previous resolved names))
          (classNotices (changed previous resolved names))) := by
  obtain ⟨_, after, hrun, hview⟩ :=
    (restyleChanged_yields Sheet.refusesOnce hresolved names session hrecords hrules).exists_ok trivial
  have hsettled : after = session.settled (classRules (changed previous resolved names))
      (classNotices (changed previous resolved names)) := hview
  rw [hrun, hsettled]

end Session

/-- The rules of an entry of a description under its class name, once bases are resolved. -/
def Description.rulesOf (description : Description) (entry : String × String) : List Rule :=
  match description.resolve with
  | .ok resolved => Session.rulesOf resolved entry
  | .error _ => []

theorem Description.rulesOf_eq {description : Description} {resolved : Entries Block}
    (h : description.resolve = .ok resolved) (entry : String × String) :
    description.rulesOf entry = Session.rulesOf resolved entry := by
  rw [rulesOf, h]

/-! ## Rendering a component -/

namespace Component

open Session

variable {σ ν : Type} [Host σ] [SuffixSource ν] {previous : Rendering} {description : Description}

theorem render_first_of_fault {fault : Fault} (hresolved : description.resolve = .error fault)
    (session : Session σ ν) :
    render description ⟨none, session⟩ = .error fault ⟨none, session⟩ := by
  simp only [render, Session.render, hresolved, bind, EStateM.bind, attempt_error]

theorem render_first_of_resolved {resolved : Entries Block}
    (hresolved : description.resolve = .ok resolved) (session : Session σ ν) :
    render description ⟨none, session⟩ =
      match define description session with
      | .ok names after => .ok names ⟨some ⟨description, resolved, names⟩, after⟩
      | .error fault after => .error fault ⟨none, after⟩ := by
  simp only [render, Session.render, hresolved, bind, EStateM.bind, attempt_ok]
  cases define description session <;> rfl

theorem render_of_same (h : previous.description.same description) (session : Session σ ν) :
    render description ⟨some previous, session⟩ = .ok previous.names ⟨some previous, session⟩ := by
  simp only [render, Session.render, h, if_true]
  rfl

theorem render_of_fault (hchanged : previous.description.same description = false) {fault : Fault}
    (hresolved : description.resolve = .error fault) (session : Session σ ν) :
    render description ⟨some previous, session⟩ = .error fault ⟨some previous, session⟩ := by
  simp only [render, Session.render, hchanged, hresolved]
  rfl

theorem render_of_resolved (hchanged : previous.description.same description = false)
    {resolved : Entries Block} (hresolved : description.resolve = .ok resolved)
    (session : Session σ ν) :
    render description ⟨some previous, session⟩ =
      match restyleChanged previous resolved previous.names.entries session with
      | .ok _ after => .ok previous.names ⟨some ⟨description, resolved, previous.names⟩, after⟩
      | .error fault after => .error fault ⟨some previous, after⟩ := by
  simp only [render, Session.render, hchanged, hresolved, Bool.false_eq_true, if_false, bind,
    EStateM.bind, attempt_ok]
  cases restyleChanged previous resolved previous.names.entries session <;> rfl

end Component

end StyleSync
