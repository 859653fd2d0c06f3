import Mathlib.Data.List.Induction
import Mathlib.Logic.Function.Basic
import StyleSync.Proofs.Session.Defining

/-! # Refused commands change nothing

Any number of components render in one session, between other operations on it. A `Page` is the session
with the last renderings of the components, a `Command` is an operation on it, and a `Course` is a page in
the course of commands.

* `Command.run_allOrNothing`: on a sheet in memory, a command is completed, or it is refused with the fault
  `Command.refusal?` and leaves the page as it was;
* `Course.Remembers.run`: components remember the last description that they have shown, unless it was the
  same as the one before;
* `Course.run_refused`: what this says of the commands that are refused after any other commands.
-/

set_option autoImplicit false

namespace StyleSync

/-! ## All or nothing -/

/-- A result that is refused with the given fault and leaves the state as it was, or that is completed if no
fault is given. -/
def AllOrNothing {σ α : Type} (refusal : Option Fault) (before : σ) (result : EStateM.Result Fault σ α) :
    Prop :=
  match refusal with
  | some fault => result = .error fault before
  | none => ∃ value after, result = .ok value after

namespace AllOrNothing

variable {σ α β : Type} {refusal : Option Fault} {before : σ}

theorem eq_of_refused {result : EStateM.Result Fault σ α} (h : AllOrNothing refusal before result)
    {fault : Fault} {left : σ} (hresult : result = .error fault left) :
    left = before ∧ refusal = some fault := by
  subst hresult
  cases refusal with
  | none =>
    obtain ⟨value, after, hok⟩ := h
    contradiction
  | some expected =>
    obtain ⟨rfl, rfl⟩ := EStateM.Result.error.inj h
    exact ⟨rfl, rfl⟩

theorem refused_iff {result : EStateM.Result Fault σ α} (h : AllOrNothing refusal before result) :
    (∃ fault left, result = .error fault left) ↔ ∃ fault, refusal = some fault := by
  constructor
  · rintro ⟨fault, left, hresult⟩
    exact ⟨fault, (h.eq_of_refused hresult).2⟩
  · rintro ⟨fault, rfl⟩
    exact ⟨fault, before, h⟩

theorem map {action : EStateM Fault σ α} (h : AllOrNothing refusal before (action before)) (f : α → β) :
    AllOrNothing refusal before ((f <$> action) before) := by
  have hmap : (f <$> action) before = EStateM.map f action before := rfl
  rw [hmap, EStateM.map]
  cases refusal with
  | none =>
    obtain ⟨value, after, hok⟩ := h
    exact ⟨f value, after, by rw [hok]⟩
  | some fault =>
    have hrefused : action before = .error fault before := h
    rw [hrefused]
    rfl

end AllOrNothing

theorem map_eq_ok_iff {σ α β : Type} {f : α → β} {action : EStateM Fault σ α} {state after : σ}
    {value : β} :
    (f <$> action) state = .ok value after ↔ ∃ first, action state = .ok first after ∧ f first = value := by
  have hmap : (f <$> action) state = EStateM.map f action state := rfl
  rw [hmap, EStateM.map]
  cases action state with
  | ok first middle =>
    simp only [EStateM.Result.ok.injEq, and_assoc]
    constructor
    · rintro ⟨hvalue, rfl⟩
      exact ⟨first, rfl, rfl, hvalue⟩
    · rintro ⟨_, rfl, rfl, hvalue⟩
      exact ⟨hvalue, rfl⟩
  | error fault middle => simp

/-- The fault of a result that is one. -/
def faultOf {α : Type} : Except Fault α → Option Fault
  | .ok _ => none
  | .error fault => some fault

theorem faultOf_eq_some_iff {α : Type} {result : Except Fault α} {fault : Fault} :
    faultOf result = some fault ↔ result = .error fault := by
  cases result <;> simp [faultOf]

/-! ## Operations of a session -/

namespace Session

variable {ν : Type} [SuffixSource ν]

theorem define_allOrNothing (description : Description) (session : Session Sheet ν) :
    AllOrNothing ((faultOf (checkNames description.keys)).or (faultOf description.resolve)) session
      (define description session) := by
  cases hnames : checkNames description.keys with
  | error fault => exact define_of_invalid hnames session
  | ok _ =>
    cases hresolved : description.resolve with
    | error fault => exact define_of_unresolved hnames hresolved session
    | ok resolved =>
      obtain ⟨after, hdefine, -⟩ := define_of_resolved hnames hresolved session
      exact ⟨_, after, hdefine⟩

omit [SuffixSource ν] in
theorem restyle_allOrNothing (selector : String) (block : Block) (session : Session Sheet ν) :
    AllOrNothing (block.base?.map (.unknownBase selector)) session (restyle selector block session) := by
  cases hbase : block.base? with
  | none => exact ⟨(), _, restyle_eq hbase selector session⟩
  | some target => exact restyle_of_base hbase selector session

end Session

namespace Component

open Session

variable {ν : Type} [SuffixSource ν]

theorem render_first_allOrNothing (description : Description) (session : Session Sheet ν) :
    AllOrNothing ((faultOf description.resolve).or (faultOf (checkNames description.keys)))
      (⟨none, session⟩ : Component Sheet ν) (render description ⟨none, session⟩) := by
  cases hresolved : description.resolve with
  | error fault => exact render_first_of_fault hresolved session
  | ok resolved =>
    rw [render_first_of_resolved hresolved]
    cases hnames : checkNames description.keys with
    | error fault =>
      rw [define_of_invalid hnames]
      rfl
    | ok _ =>
      obtain ⟨after, hdefine, -⟩ := define_of_resolved hnames hresolved session
      rw [hdefine]
      exact ⟨_, _, rfl⟩

theorem render_again_allOrNothing (previous : Rendering) (description : Description)
    (session : Session Sheet ν) :
    AllOrNothing
      (if previous.description.same description then none else faultOf description.resolve)
      (⟨some previous, session⟩ : Component Sheet ν) (render description ⟨some previous, session⟩) := by
  cases hchanged : previous.description.same description with
  | true => exact ⟨_, _, render_of_same hchanged session⟩
  | false =>
    cases hresolved : description.resolve with
    | error fault => exact render_of_fault hchanged hresolved session
    | ok resolved =>
      have hblocks : ∀ entry ∈ resolved, entry.2.base? = none := fun entry hentry =>
        Description.base?_of_mem_resolved hresolved hentry
      obtain ⟨after, hrun⟩ := exists_restyleChanged hblocks previous.names.entries session
      refine ⟨previous.names, ⟨some ⟨description, resolved, previous.names⟩, after⟩, ?_⟩
      rw [render_of_resolved hchanged hresolved, hrun]

end Component

/-! ## Pages -/

/-- A session, and the last renderings of the components that share it. -/
structure Page (σ ν κ : Type) where
  session : Session σ ν
  renderings : κ → Option Rendering

namespace Page

variable {σ ν κ α : Type}

def start (session : Session σ ν) : Page σ ν κ := ⟨session, fun _ => none⟩

def onSession (action : Session.Action σ ν α) : EStateM Fault (Page σ ν κ) α := fun page =>
  match action page.session with
  | .ok value session => .ok value { page with session }
  | .error fault session => .error fault { page with session }

/-- An action of a component, which has the session meanwhile. -/
def onComponent [DecidableEq κ] (component : κ) (action : EStateM Fault (Component σ ν) α) :
    EStateM Fault (Page σ ν κ) α := fun page =>
  match action ⟨page.renderings component, page.session⟩ with
  | .ok value ⟨rendering, session⟩ =>
    .ok value ⟨session, Function.update page.renderings component rendering⟩
  | .error fault ⟨rendering, session⟩ =>
    .error fault ⟨session, Function.update page.renderings component rendering⟩

theorem renderings_of_onSession {action : Session.Action σ ν α} {page after : Page σ ν κ} {value : α}
    (h : onSession action page = .ok value after) : after.renderings = page.renderings := by
  rw [onSession] at h
  split at h
  · obtain ⟨-, rfl⟩ := EStateM.Result.ok.inj h
    rfl
  · contradiction

theorem exists_of_onComponent [DecidableEq κ] {component : κ} {action : EStateM Fault (Component σ ν) α}
    {page after : Page σ ν κ} {value : α} (h : onComponent component action page = .ok value after) :
    ∃ acted, action ⟨page.renderings component, page.session⟩ = .ok value acted ∧
      after = ⟨acted.session, Function.update page.renderings component acted.rendering⟩ := by
  rw [onComponent] at h
  split at h
  · next value' rendering session hacted =>
    obtain ⟨rfl, rfl⟩ := EStateM.Result.ok.inj h
    exact ⟨⟨rendering, session⟩, hacted, rfl⟩
  · contradiction

end Page

namespace AllOrNothing

variable {σ ν κ α : Type} {refusal : Option Fault} {page : Page σ ν κ}

theorem onSession {action : Session.Action σ ν α}
    (h : AllOrNothing refusal page.session (action page.session)) :
    AllOrNothing refusal page (Page.onSession action page) := by
  rw [Page.onSession]
  cases refusal with
  | none =>
    obtain ⟨value, after, hok⟩ := h
    exact ⟨value, { page with session := after }, by rw [hok]⟩
  | some fault =>
    have hrefused : action page.session = .error fault page.session := h
    rw [hrefused]
    rfl

theorem onComponent [DecidableEq κ] {component : κ} {action : EStateM Fault (Component σ ν) α}
    (h : AllOrNothing refusal (⟨page.renderings component, page.session⟩ : Component σ ν)
      (action ⟨page.renderings component, page.session⟩)) :
    AllOrNothing refusal page (Page.onComponent component action page) := by
  rw [Page.onComponent]
  cases refusal with
  | none =>
    obtain ⟨value, after, hok⟩ := h
    refine ⟨value, ⟨after.session, Function.update page.renderings component after.rendering⟩, ?_⟩
    rw [hok]
  | some fault =>
    have hrefused : action ⟨page.renderings component, page.session⟩ =
      .error fault ⟨page.renderings component, page.session⟩ := h
    have hkept : Function.update page.renderings component (page.renderings component) =
      page.renderings := Function.update_eq_self component page.renderings
    rw [hrefused]
    dsimp only
    rw [hkept]
    rfl

end AllOrNothing

/-! ## Commands -/

/-- An operation on a page. -/
inductive Command (κ : Type) where
  | define (description : Description)
  | place (selector : String) (block : Block)
  | restyle (selector : String) (block : Block)
  | restyleClass (name : String) (block : Block)
  | animate (animation : Animation)
  | render (component : κ) (description : Description)

/-- What a completed operation yields. -/
inductive Answer where
  | done
  | names (names : ClassNames)
  | shorthand (text : String)

namespace Command

variable {σ ν κ : Type} [DecidableEq κ] [SuffixSource ν]

def run [Host σ] : Command κ → EStateM Fault (Page σ ν κ) Answer
  | .define description => .names <$> Page.onSession (Session.define description)
  | .place selector block => (fun _ => .done) <$> Page.onSession (Session.place selector block)
  | .restyle selector block => (fun _ => .done) <$> Page.onSession (Session.restyle selector block)
  | .restyleClass name block => (fun _ => .done) <$> Page.onSession (Session.restyleClass name block)
  | .animate animation => .shorthand <$> Page.onSession (Session.animate animation)
  | .render component description =>
    .names <$> Page.onComponent component (Component.render description)

/-- The fault with which a sheet in memory refuses a command. When a component renders for the first time,
bases are resolved before names are checked. -/
def refusal? (page : Page σ ν κ) : Command κ → Option Fault
  | .define description => (faultOf (checkNames description.keys)).or (faultOf description.resolve)
  | .place _ _ => none
  | .restyle selector block => block.base?.map (.unknownBase selector)
  | .restyleClass name block => block.base?.map (.unknownBase (Session.classSelector name))
  | .animate _ => none
  | .render component description =>
    match page.renderings component with
    | none => (faultOf description.resolve).or (faultOf (checkNames description.keys))
    | some previous =>
      if previous.description.same description then none else faultOf description.resolve

/-- A command is refused before it has changed anything, or it is completed. -/
theorem run_allOrNothing (command : Command κ) (page : Page Sheet ν κ) :
    AllOrNothing (command.refusal? page) page (command.run page) := by
  cases command with
  | define description =>
    exact (Session.define_allOrNothing description page.session).onSession.map _
  | place selector block =>
    have hplace : AllOrNothing none page.session (Session.place selector block page.session) :=
      ⟨(), _, Session.place_eq selector block page.session⟩
    exact hplace.onSession.map _
  | restyle selector block =>
    exact (Session.restyle_allOrNothing selector block page.session).onSession.map _
  | restyleClass name block =>
    exact (Session.restyle_allOrNothing (Session.classSelector name) block page.session).onSession.map _
  | animate animation =>
    have hanimate : AllOrNothing none page.session (Session.animate animation page.session) :=
      ⟨_, _, rfl⟩
    exact hanimate.onSession.map _
  | render component description =>
    have hrender : AllOrNothing (refusal? page (.render component description))
        (⟨page.renderings component, page.session⟩ : Component Sheet ν)
        (Component.render description ⟨page.renderings component, page.session⟩) := by
      rw [refusal?]
      cases page.renderings component with
      | none => exact Component.render_first_allOrNothing description page.session
      | some previous => exact Component.render_again_allOrNothing previous description page.session
    exact hrender.onComponent.map _

omit [DecidableEq κ] [SuffixSource ν] in
theorem refusal?_ne_outOfRange (command : Command κ) (page : Page σ ν κ) (index size : ℕ) :
    command.refusal? page ≠ some (.outOfRange index size) := by
  have hnames : ∀ names : List String, faultOf (checkNames names) ≠ some (.outOfRange index size) := by
    intro names h
    obtain ⟨name, -, hfault⟩ := checkNames_fault (faultOf_eq_some_iff.mp h)
    contradiction
  have hresolve : ∀ description : Description,
      faultOf description.resolve ≠ some (.outOfRange index size) := by
    intro description h
    rcases Description.resolve_fault (faultOf_eq_some_iff.mp h) with ⟨entry, target, hfault⟩ | ⟨chain, hfault⟩
    · contradiction
    · contradiction
  intro h
  cases command with
  | define description =>
    rcases Option.or_eq_some_iff.mp h with hfirst | ⟨-, hsecond⟩
    · exact hnames _ hfirst
    · exact hresolve _ hsecond
  | place selector block => cases h
  | restyle selector block =>
    obtain ⟨target, -, hfault⟩ := Option.map_eq_some_iff.mp h
    contradiction
  | restyleClass name block =>
    obtain ⟨target, -, hfault⟩ := Option.map_eq_some_iff.mp h
    contradiction
  | animate animation => cases h
  | render component description =>
    rw [refusal?] at h
    split at h
    · rcases Option.or_eq_some_iff.mp h with hfirst | ⟨-, hsecond⟩
      · exact hresolve _ hfirst
      · exact hnames _ hsecond
    · split at h
      · cases h
      · exact hresolve _ h

theorem restyle_refused_iff (selector : String) (block : Block) (page : Page Sheet ν κ) :
    (∃ fault left, (restyle selector block).run page = .error fault left) ↔
      ∃ target, ("extend", .leaf (.text target)) ∈ block.entries := by
  rw [((restyle selector block).run_allOrNothing page).refused_iff, refusal?,
    ← Block.exists_base?_iff]
  cases block.base? <;> simp

theorem render_refused_iff {component : κ} {page : Page Sheet ν κ} {previous : Rendering}
    (hprevious : page.renderings component = some previous) (description : Description) :
    (∃ fault left, (render component description).run page = .error fault left) ↔
      previous.description.same description = false ∧ ∃ fault, description.resolve = .error fault := by
  rw [((render component description).run_allOrNothing page).refused_iff, refusal?, hprevious]
  cases hsame : previous.description.same description with
  | true => simp [hsame]
  | false => simp [hsame, faultOf_eq_some_iff]

/-- What components have shown after a command is completed, where they had shown some descriptions before. -/
def noted (shown : κ → List Description) : Command κ → κ → List Description
  | .render component description =>
    Function.update shown component (shown component ++ [description])
  | _ => shown

end Command

/-! ## Courses -/

/-- What a component remembers once it has shown a description: it keeps what it remembered before if
that is the same. -/
def remember (before : Option Description) (description : Description) : Description :=
  match before with
  | none => description
  | some last => if last.same description then last else description

/-- What a component remembers of the descriptions that it has shown in turn. -/
def remembered (shown : List Description) : Option Description :=
  shown.foldl (fun before description => some (remember before description)) none

theorem remembered_concat (shown : List Description) (description : Description) :
    remembered (shown ++ [description]) = some (remember (remembered shown) description) := by
  rw [remembered, List.foldl_append, remembered]
  rfl

theorem exists_remembered {shown : List Description} (h : shown ≠ []) :
    ∃ last, remembered shown = some last := by
  cases shown using List.reverseRecOn with
  | nil => contradiction
  | append_singleton earlier description => exact ⟨_, remembered_concat earlier description⟩

theorem Component.description_of_render {ν : Type} [SuffixSource ν] {description : Description}
    {component after : Component Sheet ν} {names : ClassNames}
    (h : render description component = .ok names after) :
    after.rendering.map Rendering.description =
      some (remember (component.rendering.map Rendering.description) description) := by
  obtain ⟨rendering, session⟩ := component
  cases rendering with
  | none =>
    cases hresolved : description.resolve with
    | error fault =>
      rw [render_first_of_fault hresolved] at h
      contradiction
    | ok resolved =>
      rw [render_first_of_resolved hresolved] at h
      split at h
      · obtain ⟨-, rfl⟩ := EStateM.Result.ok.inj h
        rfl
      · contradiction
  | some previous =>
    cases hchanged : previous.description.same description with
    | true =>
      rw [render_of_same hchanged] at h
      obtain ⟨-, rfl⟩ := EStateM.Result.ok.inj h
      simp [remember, hchanged]
    | false =>
      cases hresolved : description.resolve with
      | error fault =>
        rw [render_of_fault hchanged hresolved] at h
        contradiction
      | ok resolved =>
        rw [render_of_resolved hchanged hresolved] at h
        split at h
        · obtain ⟨-, rfl⟩ := EStateM.Result.ok.inj h
          simp [remember, hchanged]
        · contradiction

/-- A page in the course of commands, with the descriptions that its components have shown. -/
structure Course (σ ν κ : Type) where
  page : Page σ ν κ
  shown : κ → List Description

namespace Course

variable {ν κ : Type} [DecidableEq κ] [SuffixSource ν]

def start {σ : Type} (session : Session σ ν) : Course σ ν κ := ⟨.start session, fun _ => []⟩

/-- Carry out a command. What it shows is noted unless it is refused. -/
def perform {σ : Type} [Host σ] (course : Course σ ν κ) (command : Command κ) : Course σ ν κ :=
  match command.run course.page with
  | .ok _ page => ⟨page, command.noted course.shown⟩
  | .error _ page => { course with page }

def run {σ : Type} [Host σ] (course : Course σ ν κ) (commands : List (Command κ)) : Course σ ν κ :=
  commands.foldl perform course

/-- Every component has a rendering of what it remembers, or none if it has shown nothing. -/
def Remembers {σ : Type} (course : Course σ ν κ) : Prop :=
  ∀ component, (course.page.renderings component).map Rendering.description =
    remembered (course.shown component)

omit [DecidableEq κ] [SuffixSource ν] in
theorem Remembers.of_renderings {σ : Type} {course : Course σ ν κ} (h : course.Remembers)
    {page : Page σ ν κ} (hpage : page.renderings = course.page.renderings) :
    Remembers ⟨page, course.shown⟩ := by
  intro component
  rw [← h component, ← hpage]

theorem Remembers.render {course : Course Sheet ν κ} (h : course.Remembers) {component : κ}
    {description : Description} {answer : Answer} {page : Page Sheet ν κ}
    (hrun : (Command.render component description).run course.page = .ok answer page) :
    Remembers ⟨page, (Command.render component description).noted course.shown⟩ := by
  obtain ⟨names, hpage, -⟩ := map_eq_ok_iff.mp hrun
  obtain ⟨acted, hacted, rfl⟩ := Page.exists_of_onComponent hpage
  intro other
  simp only [Command.noted]
  by_cases hother : other = component
  · subst hother
    have hrendered := Component.description_of_render hacted
    rw [Function.update_self, Function.update_self, remembered_concat, ← h other, hrendered]
  · rw [Function.update_of_ne hother, Function.update_of_ne hother, h other]

theorem Remembers.perform {course : Course Sheet ν κ} (h : course.Remembers) (command : Command κ) :
    (course.perform command).Remembers := by
  rw [Course.perform]
  cases hrun : command.run course.page with
  | error fault page =>
    obtain ⟨rfl, -⟩ := (command.run_allOrNothing course.page).eq_of_refused hrun
    exact h
  | ok answer page =>
    have hkept : ∀ {α : Type} {action : Session.Action Sheet ν α} {f : α → Answer},
        (f <$> Page.onSession action) course.page = .ok answer page →
          page.renderings = course.page.renderings := by
      intro α action f haction
      obtain ⟨value, hpage, -⟩ := map_eq_ok_iff.mp haction
      exact Page.renderings_of_onSession hpage
    cases command with
    | define description => exact h.of_renderings (hkept hrun)
    | place selector block => exact h.of_renderings (hkept hrun)
    | restyle selector block => exact h.of_renderings (hkept hrun)
    | restyleClass name block => exact h.of_renderings (hkept hrun)
    | animate animation => exact h.of_renderings (hkept hrun)
    | render component description => exact h.render hrun

theorem Remembers.run {course : Course Sheet ν κ} (h : course.Remembers) (commands : List (Command κ)) :
    (course.run commands).Remembers := by
  induction commands generalizing course with
  | nil => exact h
  | cons command rest ih => exact ih (h.perform command)

/-- **Refused commands change nothing.** After any commands on a sheet in memory, a command that is refused
leaves the session and all renderings as they were, and it is never refused because a record is missing.
Restyling is refused just if the block has a text under `extend`. Once a component has shown a
description, it is refused another one just if that differs from what it remembers and cannot be
resolved. -/
theorem run_refused (session : Session Sheet ν) (commands : List (Command κ)) :
    let course := (start session : Course Sheet ν κ).run commands
    (∀ (command : Command κ) fault left, command.run course.page = .error fault left →
      left = course.page ∧ ∀ index size, fault ≠ .outOfRange index size) ∧
    (∀ selector block,
      (∃ fault left, (Command.restyle selector block).run course.page = .error fault left) ↔
        ∃ target, ("extend", .leaf (.text target)) ∈ block.entries) ∧
    (∀ name block,
      (∃ fault left, (Command.restyleClass name block).run course.page = .error fault left) ↔
        ∃ target, ("extend", .leaf (.text target)) ∈ block.entries) ∧
    ∀ component description, course.shown component ≠ [] →
      ∃ last, remembered (course.shown component) = some last ∧
        (course.page.renderings component).map Rendering.description = some last ∧
        ((∃ fault left, (Command.render component description).run course.page = .error fault left) ↔
          last.same description = false ∧ ∃ fault, description.resolve = .error fault) := by
  intro course
  have hremembers : course.Remembers := Remembers.run (fun _ => rfl) commands
  refine ⟨?_, fun selector block => Command.restyle_refused_iff selector block course.page,
    fun name block => Command.restyle_refused_iff (Session.classSelector name) block course.page, ?_⟩
  · intro command fault left hrun
    obtain ⟨hleft, hrefusal⟩ := (command.run_allOrNothing course.page).eq_of_refused hrun
    refine ⟨hleft, fun index size hfault => ?_⟩
    exact command.refusal?_ne_outOfRange course.page index size (hfault ▸ hrefusal)
  · intro component description hshown
    obtain ⟨last, hlast⟩ := exists_remembered hshown
    have hrendering := (hremembers component).trans hlast
    obtain ⟨previous, hprevious, rfl⟩ := Option.map_eq_some_iff.mp hrendering
    exact ⟨_, hlast, hrendering, Command.render_refused_iff hprevious description⟩

/-- Commands of which the first, the third and the fifth are refused. -/
def mixed : List (Command Bool) :=
  [.define (.ofList [("1st", .leaf "color" (.text "red") .nil)]),
    .render true (.ofList [("box", .leaf "color" (.text "red") .nil)]),
    .restyle "body" (.leaf "extend" (.text "box") .nil),
    .place "body" (.leaf "margin" (.text "0") .nil),
    .render false (.ofList [("box", .leaf "extend" (.text "box") .nil)]),
    .render true (.ofList [("box", .leaf "color" (.text "blue") .nil)]),
    .restyleClass "otter-box-0" (.leaf "top" (.text "0") .nil)]

/-- A description without an entry for its base. -/
def groundless : Description :=
  .ofList [("box", .leaf "extend" (.text "row") .nil)]

theorem run_refused_mixed :
    let course := (start (.start Sheet.empty CounterSuffix.start .standard) : Course _ _ Bool).run mixed
    course.shown true ≠ [] ∧ course.shown false = [] ∧
      course.page.session.host.records =
        [.style ⟨"body", [⟨"margin", "0"⟩]⟩,
          .style ⟨".otter-box-0", [⟨"color", "blue"⟩, ⟨"top", "0"⟩]⟩] ∧
      ∃ fault left, (Command.render true groundless).run course.page = .error fault left ∧
        left = course.page := by
  intro course
  have hshown : course.shown true ≠ [] := by decide +kernel
  obtain ⟨hrefused, -, -, hrender⟩ :=
    run_refused (.start Sheet.empty CounterSuffix.start .standard) mixed
  obtain ⟨last, hlast, -, hiff⟩ := hrender true groundless hshown
  have hchanged : (remembered (course.shown true)).map (·.same groundless) = some false := by
    decide +kernel
  have hresolve : faultOf groundless.resolve = some (.unknownBase "box" "row") := by decide +kernel
  rw [hlast, Option.map_some, Option.some.injEq] at hchanged
  obtain ⟨fault, left, hrun⟩ := hiff.mpr ⟨hchanged, _, faultOf_eq_some_iff.mp hresolve⟩
  refine ⟨hshown, ?_, ?_, fault, left, hrun, (hrefused _ fault left hrun).1⟩
  · decide +kernel
  · decide +kernel

end Course

end StyleSync
