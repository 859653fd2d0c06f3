import StyleSync.Proofs.Session.Settling
import StyleSync.Proofs.Session.Suffixes
import StyleSync.Proofs.Style.Inherited

/-! # What defining styles does to a sheet

`define` gives every entry of a description a class, all or nothing:

* `define_of_named`: the entries get the names `nextNames`, and the rules of the named blocks are appended;
* `define_of_invalid`, `define_of_unresolved`: it is refused and the session stays as it is.

On a sheet in memory (`define_cases`, `define_of_resolved`) the new records are those of the rules of the
resolved blocks (`classRules_eq_flatMap`).

`place_eq` says what placing a block does.
-/

set_option autoImplicit false

namespace StyleSync

theorem checkNames_fault {names : List String} {fault : Fault} (h : checkNames names = .error fault) :
    ∃ name ∈ names, fault = .invalidName name := by
  induction names with
  | nil => cases h
  | cons name rest ih =>
    rw [checkNames, checkName] at h
    split at h
    · obtain ⟨other, hother, hfault⟩ := ih h
      exact ⟨other, List.mem_cons_of_mem _ hother, hfault⟩
    · exact ⟨name, List.mem_cons_self, (Except.error.inj h).symm⟩

namespace Session

variable {σ ν : Type}

theorem drawNames_eq [SuffixSource ν] (entries : Entries Block) (session : Session σ ν) :
    ∃ named,
      drawNames entries session =
        .ok named
          { session with source := (SuffixSource.drawMany entries.length session.source).2 } ∧
      named.map Prod.fst =
        entries.keys.zipWith session.options.className
          (SuffixSource.drawMany entries.length session.source).1 ∧
      named.map Prod.snd = entries.map Prod.snd := by
  induction entries generalizing session with
  | nil => exact ⟨[], rfl, rfl, rfl⟩
  | cons pair rest ih =>
    obtain ⟨entry, block⟩ := pair
    obtain ⟨named, hrest, hnames, hblocks⟩ :=
      ih { session with source := (SuffixSource.draw session.source).2 }
    refine ⟨(session.options.className entry (SuffixSource.draw session.source).1, block) :: named,
      ?_, ?_, ?_⟩
    · have hget : ∀ session : Session σ ν,
          (get : Action σ ν (Session σ ν)) session = .ok session session := fun _ => rfl
      simp only [drawNames, bind, EStateM.bind, drawSuffix_eq, hget, hrest]
      rfl
    · rw [List.map_cons, hnames]
      rfl
    · rw [List.map_cons, List.map_cons, hblocks]

/-- The class names that entries get if they are defined next. -/
def nextNames [SuffixSource ν] (session : Session σ ν) (keys : List String) : ClassNames :=
  ⟨keys.zip (keys.zipWith session.options.className
    (SuffixSource.drawMany keys.length session.source).1)⟩

theorem keys_nextNames [SuffixSource ν] (session : Session σ ν) (keys : List String) :
    (session.nextNames keys).entries.keys = keys := by
  rw [nextNames, Entries.keys, List.map_fst_zip]
  rw [List.length_zipWith, SuffixSource.length_drawMany, Nat.min_self]

theorem foldl_append_sheet (rules : List Rule) (sheet : Sheet) :
    rules.foldl (fun sheet rule => Host.append rule.header rule.block sheet) sheet =
      ⟨sheet.records ++ rules.map fun rule => .read rule.header rule.block⟩ := by
  induction rules generalizing sheet with
  | nil => simp
  | cons rule rest ih =>
    rw [List.foldl_cons, ih, List.map_cons]
    simp [Host.append]

theorem classRules_eq_flatMap {resolved : Entries Block} (hnodup : resolved.keys.Nodup)
    {named : List (String × Block)} (hblocks : named.map Prod.snd = resolved.map Prod.snd) :
    classRules named = (resolved.keys.zip (named.map Prod.fst)).flatMap (rulesOf resolved) := by
  have hpart : ∀ (part : Entries Block) (named : List (String × Block)),
      (∀ entry ∈ part, resolved.get? entry.1 = some entry.2) →
      named.map Prod.snd = part.map Prod.snd →
      classRules named = (part.keys.zip (named.map Prod.fst)).flatMap (rulesOf resolved) := by
    intro part
    induction part with
    | nil =>
      intro named _ hblocks
      rw [List.map_eq_nil_iff.mp hblocks]
      rfl
    | cons entry rest ih =>
      intro named hget hblocks
      cases named with
      | nil => simp at hblocks
      | cons first named =>
        rw [List.forall_mem_cons] at hget
        rw [List.map_cons, List.map_cons, List.cons.injEq] at hblocks
        have hrules : rulesOf resolved (entry.1, first.1) = flatten (classSelector first.1) first.2 := by
          rw [rulesOf, hget.1, hblocks.1]
          rfl
        rw [classRules_cons, ih named hget.2 hblocks.2, ← hrules]
        rfl
  exact hpart resolved named (fun entry => Entries.get?_of_mem hnodup) hblocks

section Host

variable [Host σ] [SuffixSource ν] {description : Description}

theorem define_of_invalid {fault : Fault} (h : checkNames description.keys = .error fault)
    (session : Session σ ν) : define description session = .error fault session := by
  simp only [define, h, bind, EStateM.bind, attempt_error]

theorem define_of_unresolved (hnames : checkNames description.keys = .ok ()) {fault : Fault}
    (hresolved : description.resolve = .error fault) (session : Session σ ν) :
    define description session = .error fault session := by
  simp only [define, hnames, hresolved, bind, EStateM.bind, attempt_ok, attempt_error]

/-- Where nothing is wrong with a description, its entries are named in order and the rules of the named
blocks are appended. -/
theorem define_of_named (hnames : checkNames description.keys = .ok ()) {resolved : Entries Block}
    (hresolved : description.resolve = .ok resolved) (session : Session σ ν) :
    ∃ named,
      named.map Prod.fst = description.keys.zipWith session.options.className
        (SuffixSource.drawMany description.keys.length session.source).1 ∧
      named.map Prod.snd = resolved.map Prod.snd ∧
      define description session =
        .ok (session.nextNames description.keys)
          { session with
            host := (classRules named).foldl
              (fun host rule => Host.append rule.header rule.block host) session.host
            source := (SuffixSource.drawMany description.keys.length session.source).2
            warnings := (session.warnings.warnAll noticeComponent (classNotices named)).2 } := by
  obtain ⟨named, hnamed, hclasses, hblocks⟩ := drawNames_eq resolved session
  have hkeys : resolved.keys = description.keys := Description.keys_resolved hresolved
  have hlength : resolved.length = description.keys.length := by
    rw [← hkeys, Entries.keys, List.length_map]
  rw [hlength] at hnamed
  rw [hlength, hkeys] at hclasses
  refine ⟨named, hclasses, hblocks, ?_⟩
  simp only [define, hnames, hresolved, bind, EStateM.bind, attempt_ok, hnamed, warn_eq,
    appendRules_eq, hclasses, hkeys]
  rfl

end Host

section Sheet

variable [SuffixSource ν] {description : Description}

theorem define_of_resolved (hnames : checkNames description.keys = .ok ()) {resolved : Entries Block}
    (hresolved : description.resolve = .ok resolved) (session : Session Sheet ν) :
    ∃ after, define description session = .ok (session.nextNames description.keys) after ∧
      after.host.records = session.host.records ++
        ((session.nextNames description.keys).entries.flatMap (rulesOf resolved)).map fun rule =>
          .read rule.header rule.block := by
  obtain ⟨named, hclasses, hblocks, hdefine⟩ := define_of_named hnames hresolved session
  have hkeys : resolved.keys = description.keys := Description.keys_resolved hresolved
  have hnodup : resolved.keys.Nodup := by
    rw [hkeys]
    exact description.nodup
  refine ⟨_, hdefine, ?_⟩
  rw [foldl_append_sheet, classRules_eq_flatMap hnodup hblocks, hkeys, hclasses, nextNames]

theorem define_cases (description : Description) (session : Session Sheet ν) :
    (∃ fault, define description session = .error fault session) ∨
      ∃ resolved names after, description.resolve = .ok resolved ∧
        define description session = .ok names after ∧ names.entries.keys = resolved.keys ∧
        after.host.records = session.host.records ++
          (names.entries.flatMap (rulesOf resolved)).map fun rule =>
            .read rule.header rule.block := by
  cases hnames : checkNames description.keys with
  | error fault => exact Or.inl ⟨fault, define_of_invalid hnames session⟩
  | ok _ =>
    cases hresolved : description.resolve with
    | error fault => exact Or.inl ⟨fault, define_of_unresolved hnames hresolved session⟩
    | ok resolved =>
      obtain ⟨after, hdefine, hrecords⟩ := define_of_resolved hnames hresolved session
      refine Or.inr ⟨resolved, _, after, rfl, hdefine, ?_, hrecords⟩
      rw [keys_nextNames, Description.keys_resolved hresolved]

end Sheet

theorem place_eq (selector : String) (block : Block) (session : Session Sheet ν) :
    place selector block session =
      .ok ()
        { session with
          host := ⟨session.host.records ++ (flatten selector block).map fun rule =>
            .read rule.header rule.block⟩
          warnings := (session.warnings.warnAll noticeComponent (notices selector block)).2 } := by
  unfold place
  simp only [bind, EStateM.bind, warn_eq, appendRules_eq, foldl_append_sheet]

end Session

end StyleSync
