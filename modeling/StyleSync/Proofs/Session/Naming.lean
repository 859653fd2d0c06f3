import Mathlib.Data.List.Forall2
import StyleSync.Proofs.Session.Commands
import StyleSync.Proofs.Session.FirstRender
import StyleSync.Proofs.Session.Suffixes

/-! # Generated names are distinct

Class names and names of keyframes are made up in the course of commands, all from one source of suffixes
(`Command.coined`, `Page.coined`). Stated here, for a host of any kind:

* `Named`: names end in a dash and the suffixes that were drawn for them, and these are all that were drawn;
* `Command.named_coined`: so do the names that one command makes up, and a command that makes up none or is
  refused draws nothing;
* `Page.named_coined`: so do the names of a whole run;
* `Page.nodup_coined`: with suffixes from a counter no name is made up twice, whatever the prefixes and the
  names of entries.
-/

set_option autoImplicit false

namespace StyleSync

/-! ## Names and their suffixes -/

section Named

variable {ν : Type} [SuffixSource ν]

/-- The name ends in a dash and the suffix. -/
def EndsInSuffix (name suffix : String) : Prop :=
  ∃ front, name = front ++ "-" ++ suffix

/-- Names that end in the suffixes by which one source is ahead of another. -/
structure Named (names : List String) (before after : ν) : Prop where
  ends : List.Forall₂ EndsInSuffix names (SuffixSource.drawMany names.length before).1
  after_eq : after = (SuffixSource.drawMany names.length before).2

theorem Named.nil (source : ν) : Named [] source source :=
  ⟨List.Forall₂.nil, rfl⟩

theorem Named.append {as bs : List String} {before middle after : ν} (ha : Named as before middle)
    (hb : Named bs middle after) : Named (as ++ bs) before after := by
  obtain ⟨hends, rfl⟩ := ha
  refine ⟨?_, ?_⟩
  · rw [List.length_append, SuffixSource.drawMany_add]
    exact List.rel_append hends hb.ends
  · rw [List.length_append, SuffixSource.drawMany_add]
    exact hb.after_eq

end Named

/-- What stands behind the last dash of a name. -/
def behindLastDash (name : String) : List Char :=
  name.toList.rtakeWhile (· != '-')

theorem behindLastDash_of_endsInSuffix {name suffix : String} (h : EndsInSuffix name suffix)
    (hsuffix : '-' ∉ suffix.toList) : behindLastDash name = suffix.toList := by
  obtain ⟨front, rfl⟩ := h
  have hplain : ∀ c ∈ suffix.toList.reverse, (c != '-') = true := by
    intro c hc
    rw [bne_iff_ne]
    rintro rfl
    exact hsuffix (List.mem_reverse.mp hc)
  have hname : (front ++ "-" ++ suffix).toList.reverse =
      suffix.toList.reverse ++ '-' :: front.toList.reverse := by
    simp
  rw [behindLastDash, List.rtakeWhile, hname, List.takeWhile_append_of_pos hplain]
  simp

/-! ## Actions of a session -/

namespace Session

variable {σ ν α : Type} [Host σ]

/-- The class names that a definition or a rendering yields, none if it is refused. -/
def classNamesOf : Except Fault ClassNames → List String
  | .ok names => names.entries.map Prod.snd
  | .error _ => []

omit [Host σ] in
theorem source_onHost (action : EStateM Fault σ α) (session : Session σ ν) :
    (after (onHost action) session).source = session.source := by
  unfold after onHost
  cases action session.host <;> rfl

theorem source_place (selector : String) (block : Block) (session : Session σ ν) :
    (after (place selector block) session).source = session.source := by
  rw [place]
  refine holds_after_bind (P := fun left : Session σ ν => left.source = session.source) rfl ?_
  intro _ middle hmiddle
  rw [after_of_ok (appendRules_eq _ _), hmiddle]

theorem source_restyle (selector : String) (block : Block) (session : Session σ ν) :
    (after (restyle selector block) session).source = session.source := by
  cases hbase : block.base? with
  | some base => rw [after_of_error (restyle_of_base hbase selector session)]
  | none =>
    rw [after, restyle_eq_onHost hbase selector session]
    exact source_onHost _ _

theorem source_restyleChanged (previous : Rendering) (resolved : Entries Block) (names : Entries String)
    (session : Session σ ν) :
    (after (restyleChanged previous resolved names) session).source = session.source := by
  induction names generalizing session with
  | nil => rfl
  | cons pair rest ih =>
    obtain ⟨entry, name⟩ := pair
    rw [restyleChanged]
    split
    · exact ih session
    · split
      · exact ih session
      · refine holds_after_bind (P := fun left : Session σ ν => left.source = session.source)
          (source_restyle _ _ session) ?_
        intro _ middle hmiddle
        rw [ih middle, hmiddle]

variable [SuffixSource ν]

/-- The name of the keyframes that are appended next. -/
def nextAnimationName (session : Session σ ν) : String :=
  session.options.animationName (SuffixSource.draw session.source).1

theorem animate_eq (animation : Animation) (session : Session σ ν) :
    animate animation session =
      .ok (animation.shorthand session.nextAnimationName)
        { session with
          host := Host.append (Animation.header session.nextAnimationName) animation.body session.host
          source := (SuffixSource.draw session.source).2
          warnings := (session.warnings.warnAll noticeComponent animation.notices).2 } := rfl

theorem named_animate (animation : Animation) (session : Session σ ν) :
    Named [session.nextAnimationName] session.source (after (animate animation) session).source := by
  rw [after_of_ok (animate_eq animation session)]
  refine ⟨List.Forall₂.cons ⟨session.options.animationPrefix, rfl⟩ List.Forall₂.nil, rfl⟩

omit [Host σ] in
theorem map_snd_nextNames (session : Session σ ν) (keys : List String) :
    (session.nextNames keys).entries.map Prod.snd =
      keys.zipWith session.options.className (SuffixSource.drawMany keys.length session.source).1 := by
  rw [nextNames, List.map_snd_zip]
  rw [List.length_zipWith, SuffixSource.length_drawMany, Nat.min_self]

theorem forall₂_zipWith_className (options : Options) {keys suffixes : List String}
    (h : keys.length = suffixes.length) :
    List.Forall₂ EndsInSuffix (keys.zipWith options.className suffixes) suffixes := by
  induction keys generalizing suffixes with
  | nil =>
    rw [List.eq_nil_of_length_eq_zero h.symm]
    exact List.Forall₂.nil
  | cons key keys ih =>
    cases suffixes with
    | nil => cases h
    | cons suffix suffixes =>
      have hrest : keys.length = suffixes.length := Nat.succ.inj h
      exact List.Forall₂.cons ⟨options.classPrefix ++ "-" ++ key, rfl⟩ (ih hrest)

theorem named_define (description : Description) (session : Session σ ν) :
    Named (classNamesOf (outcome (define description) session)) session.source
      (after (define description) session).source := by
  cases hnames : checkNames description.keys with
  | error fault =>
    have hdefine := define_of_invalid hnames session
    rw [outcome_of_error hdefine, after_of_error hdefine]
    exact Named.nil session.source
  | ok _ =>
    cases hresolved : description.resolve with
    | error fault =>
      have hdefine := define_of_unresolved hnames hresolved session
      rw [outcome_of_error hdefine, after_of_error hdefine]
      exact Named.nil session.source
    | ok resolved =>
      obtain ⟨_, -, -, hdefine⟩ := define_of_named hnames hresolved session
      rw [outcome_of_ok hdefine, after_of_ok hdefine, classNamesOf, map_snd_nextNames]
      have hdrawn := SuffixSource.length_drawMany description.keys.length session.source
      have hlength : (description.keys.zipWith session.options.className
          (SuffixSource.drawMany description.keys.length session.source).1).length =
            description.keys.length := by
        rw [List.length_zipWith, hdrawn, Nat.min_self]
      refine ⟨?_, ?_⟩
      · rw [hlength]
        exact forall₂_zipWith_className session.options hdrawn.symm
      · rw [hlength]

end Session

/-! ## Renders -/

namespace Component

open Session

variable {σ ν : Type} [Host σ] [SuffixSource ν]

theorem named_render_first (description : Description) (session : Session σ ν) :
    Named (classNamesOf (outcome (render description) (.start session))) session.source
      (after (render description) (.start session)).session.source := by
  cases hresolved : description.resolve with
  | error fault =>
    have hrender := render_first_of_fault hresolved session
    rw [start, outcome_of_error hrender, after_of_error hrender]
    exact Named.nil session.source
  | ok resolved =>
    rw [outcome_render_first, after_render_first, hresolved]
    exact named_define description session

theorem source_render_again (previous : Rendering) (description : Description) (session : Session σ ν) :
    (after (render description) ⟨some previous, session⟩).session.source = session.source := by
  cases hchanged : previous.description.same description with
  | true => rw [after_of_ok (render_of_same hchanged session)]
  | false =>
    cases hresolved : description.resolve with
    | error fault => rw [after_of_error (render_of_fault hchanged hresolved session)]
    | ok resolved =>
      have hsource := source_restyleChanged previous resolved previous.names.entries session
      rw [← hsource, after, after, render_of_resolved hchanged hresolved]
      cases restyleChanged previous resolved previous.names.entries session <;> rfl

end Component

/-! ## Pages -/

namespace Page

variable {σ ν κ α : Type}

theorem session_after_onSession (action : Session.Action σ ν α) (page : Page σ ν κ) :
    (after (onSession action) page).session = after action page.session := by
  unfold after onSession
  cases action page.session <;> rfl

theorem session_after_onComponent [DecidableEq κ] (component : κ)
    (action : EStateM Fault (Component σ ν) α) (page : Page σ ν κ) :
    (after (onComponent component action) page).session =
      (after action ⟨page.renderings component, page.session⟩).session := by
  unfold after onComponent
  cases action ⟨page.renderings component, page.session⟩ <;> rfl

end Page

namespace Command

variable {σ ν κ : Type} [Host σ] [SuffixSource ν]

/-- The names that a command makes up: the class names of a definition or of a component's first
rendering, and the name of keyframes. -/
def coined (page : Page σ ν κ) : Command κ → List String
  | .define description => Session.classNamesOf (outcome (Session.define description) page.session)
  | .animate _ => [page.session.nextAnimationName]
  | .render component description =>
    match page.renderings component with
    | none => Session.classNamesOf (outcome (Component.render description) (.start page.session))
    | some _ => []
  | _ => []

variable [DecidableEq κ]

/-- The names that a command makes up end in suffixes of their own, and no other suffixes are drawn. -/
theorem named_coined (command : Command κ) (page : Page σ ν κ) :
    Named (command.coined page) page.session.source (after command.run page).session.source := by
  have hkept : ∀ {α : Type} {action : Session.Action σ ν α} {f : α → Answer},
      (after action page.session).source = page.session.source →
        Named [] page.session.source
          (after (f <$> Page.onSession action) page : Page σ ν κ).session.source := by
    intro α action f haction
    rw [after_map, Page.session_after_onSession, haction]
    exact Named.nil page.session.source
  cases command with
  | define description =>
    rw [run, after_map, Page.session_after_onSession]
    exact Session.named_define description page.session
  | place selector block => exact hkept (Session.source_place selector block page.session)
  | restyle selector block => exact hkept (Session.source_restyle selector block page.session)
  | restyleClass name block =>
    exact hkept (Session.source_restyle (Session.classSelector name) block page.session)
  | animate animation =>
    rw [run, after_map, Page.session_after_onSession]
    exact Session.named_animate animation page.session
  | render component description =>
    rw [run, after_map, Page.session_after_onComponent, coined]
    cases page.renderings component with
    | none => exact Component.named_render_first description page.session
    | some previous =>
      rw [Component.source_render_again]
      exact Named.nil page.session.source

end Command

/-! ## Runs -/

namespace Page

variable {σ ν κ : Type} [Host σ] [DecidableEq κ]

/-- The page after commands, of which any may be refused. -/
def runAll [SuffixSource ν] (page : Page σ ν κ) (commands : List (Command κ)) : Page σ ν κ :=
  commands.foldl (fun page command => after command.run page) page

/-- The names that commands make up in turn. -/
def coined [SuffixSource ν] (page : Page σ ν κ) : List (Command κ) → List String
  | [] => []
  | command :: rest => command.coined page ++ coined (after command.run page) rest

theorem named_coined [SuffixSource ν] (page : Page σ ν κ) (commands : List (Command κ)) :
    Named (page.coined commands) page.session.source (page.runAll commands).session.source := by
  induction commands generalizing page with
  | nil => exact Named.nil page.session.source
  | cons command rest ih => exact (command.named_coined page).append (ih (after command.run page))

end Page

/-! ## Suffixes from a counter -/

theorem map_behindLastDash {names suffixes : List String} (h : List.Forall₂ EndsInSuffix names suffixes)
    (hsuffixes : ∀ suffix ∈ suffixes, '-' ∉ suffix.toList) :
    names.map behindLastDash = suffixes.map String.toList := by
  induction h with
  | nil => rfl
  | cons hfirst _ ih =>
    rw [List.forall_mem_cons] at hsuffixes
    rw [List.map_cons, List.map_cons, behindLastDash_of_endsInSuffix hfirst hsuffixes.1, ih hsuffixes.2]

theorem Named.nodup {names : List String} {before after : CounterSuffix}
    (h : Named names before after) (hlength : names.length ≤ UInt64.size) : names.Nodup := by
  have hplain : ∀ suffix ∈ (SuffixSource.drawMany names.length before).1, '-' ∉ suffix.toList :=
    fun _ => CounterSuffix.dash_not_mem_of_mem_drawMany
  have hbehind : (names.map behindLastDash).Nodup := by
    rw [map_behindLastDash h.ends hplain]
    exact (CounterSuffix.nodup_drawMany hlength before).map fun _ _ => String.toList_inj.mp
  exact List.Nodup.of_map behindLastDash hbehind

namespace Page

variable {σ κ : Type} [Host σ] [DecidableEq κ]

/-- **Generated names are distinct.** Where suffixes come from a counter, the names that any commands make
up have no duplicates, unless there are more of them than the counter has numbers. A name takes one suffix,
and nothing else does. -/
theorem nodup_coined (page : Page σ CounterSuffix κ) (commands : List (Command κ))
    (hlength : (page.coined commands).length ≤ UInt64.size) :
    (page.coined commands).Nodup ∧
      (page.runAll commands).session.source =
        (SuffixSource.drawMany (page.coined commands).length page.session.source).2 :=
  ⟨(page.named_coined commands).nodup hlength, (page.named_coined commands).after_eq⟩

/-- A page with prefixes of which one begins with the other. -/
def hyphenated : Page Sheet CounterSuffix Bool :=
  .start (.start Sheet.empty CounterSuffix.start ⟨"a", "a-b"⟩)

/-- Commands of which the third and the fourth are refused; the last one renders a component again. -/
def naming : List (Command Bool) :=
  [.render true (.ofList [("b", .leaf "top" (.text "0") .nil), ("b-1", .leaf "top" (.text "1") .nil)]),
    .animate ⟨.ofList [("from", .leaf "top" (.text "0") .nil)], .unset⟩,
    .define (.ofList [("1st", .nil)]),
    .render false (.ofList [("b", .leaf "extend" (.text "b") .nil)]),
    .define (.ofList [("b", .nil)]),
    .render true (.ofList [("b", .leaf "top" (.text "1") .nil)])]

theorem nodup_coined_naming :
    hyphenated.coined naming = ["a-b-0", "a-b-1-1", "a-b-2", "a-b-3"] ∧
      (hyphenated.coined naming).Nodup ∧ (hyphenated.runAll naming).session.source = ⟨4⟩ := by
  have hcoined : hyphenated.coined naming = ["a-b-0", "a-b-1-1", "a-b-2", "a-b-3"] := by
    decide +kernel
  have hlength : (hyphenated.coined naming).length ≤ UInt64.size := by
    rw [hcoined]
    decide
  obtain ⟨hnodup, hsource⟩ := hyphenated.nodup_coined naming hlength
  refine ⟨hcoined, hnodup, ?_⟩
  rw [hsource, hcoined]
  rfl

end Page

end StyleSync
