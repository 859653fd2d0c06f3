import StyleSync.Proofs.Css.Levels
import StyleSync.Proofs.Sheet.Encoding
import StyleSync.Proofs.Sheet.Reconciliation
import StyleSync.Session.Options

/-! # The records of a class

A record belongs to the class that its selector begins with. Stated here:

* `Record.ownedBy name`: the selector begins with a dot, the name, and nothing that continues the name;
* `BeginsWithClass name`: the same of a text. It passes to what the text is continued by, trimmed to or cut
  down to, so that the record of a rule has it from the rule's selector (`ownedBy_read`);
* `ownedBy_of_hasKey`: a record that a rule of the class meets belongs to the class;
* `filter_reconciled`, `filter_not_reconciled`: reconciliation with rules of a class is reconciliation of
  the records of the class and leaves the others as they are;
* `beginsWithClass_of_mem_flatten`: the rules of a block whose nested keys do not continue a name.
-/

set_option autoImplicit false

namespace StyleSync

open Text

/-! ## Owners -/

/-- The name behind the leading dot of a selector: all characters of names that follow the dot. -/
def leadingClass? (selector : String) : Option String :=
  match selector.toList with
  | '.' :: rest => some (String.ofList (rest.takeWhile isNameChar))
  | _ => none

/-- The class that a record belongs to. Keyframes belong to none. -/
def Record.owner? (record : Record) : Option String :=
  record.style?.bind fun rule => leadingClass? rule.selector

def Record.ownedBy (name : String) (record : Record) : Bool :=
  record.owner? = some name

/-- Whether a text does not continue a name: it is empty or begins with another character. -/
def EndsName (cs : List Char) : Prop :=
  ∀ c ∈ cs.head?, ¬isNameChar c

instance (cs : List Char) : Decidable (EndsName cs) :=
  decidable_of_iff (cs.head?.all (!isNameChar ·)) (by simp [EndsName, Option.all_eq_true])

/-- A text that begins with the selector of a class. -/
def BeginsWithClass (name : String) (cs : List Char) : Prop :=
  ∃ tail, cs = '.' :: (name.toList ++ tail) ∧ EndsName tail

theorem EndsName.of_prefix {as bs : List Char} (h : EndsName bs) (hstart : as <+: bs) :
    EndsName as := by
  obtain ⟨rest, rfl⟩ := hstart
  cases as with
  | nil => simp [EndsName]
  | cons c as => simpa [EndsName] using h

theorem EndsName.append {as bs : List Char} (ha : EndsName as) (hb : EndsName bs) :
    EndsName (as ++ bs) := by
  cases as with
  | nil => exact hb
  | cons c as => simpa [EndsName] using ha

theorem BeginsWithClass.append {name : String} {as bs : List Char} (h : BeginsWithClass name as)
    (hb : EndsName bs) : BeginsWithClass name (as ++ bs) := by
  obtain ⟨tail, rfl, htail⟩ := h
  exact ⟨tail ++ bs, by simp, htail.append hb⟩

theorem BeginsWithClass.not_header {name : String} {cs : List Char} (h : BeginsWithClass name cs)
    (keyword : List Char) : ¬ '@' :: keyword <+: cs := by
  obtain ⟨tail, rfl, -⟩ := h
  rw [List.cons_prefix_cons]
  exact fun hstart => absurd hstart.1 (by decide)

/-! ## Names -/

theorem isNameChar_eq (c : Char) :
    isNameChar c = (((decide (65 ≤ c.val ∧ c.val ≤ 90) ||
      decide (97 ≤ c.val) && decide (c.val ≤ 122)) ||
      decide (48 ≤ c.val) && decide (c.val ≤ 57)) || c == '-' || c == '_') := rfl

theorem not_isBlank_of_isNameChar {c : Char} (h : isNameChar c) : ¬isBlank c := by
  simp only [isNameChar_eq, isBlank, Bool.or_eq_true, Bool.and_eq_true, decide_eq_true_eq,
    beq_iff_eq, Char.le_def, UInt32.le_iff_toNat_le, Char.ext_iff, ← UInt32.toNat_inj] at h ⊢
  simp at h ⊢
  omega

section Class

variable {name : String} (hname : ∀ c ∈ name.toList, isNameChar c)

include hname

theorem leadingClass?_eq_some_iff {selector : String} :
    leadingClass? selector = some name ↔ BeginsWithClass name selector.toList := by
  unfold leadingClass?
  constructor
  · intro h
    split at h
    · next rest hrest =>
      have htake : rest.takeWhile isNameChar = name.toList := by
        rw [← Option.some.inj h, String.toList_ofList]
      refine ⟨rest.dropWhile isNameChar, ?_, ?_⟩
      · rw [hrest, ← htake, List.takeWhile_append_dropWhile]
      · intro c hc
        have hhead := List.head?_dropWhile_not isNameChar rest
        rw [Option.mem_def.mp hc] at hhead
        simpa using hhead
    · simp at h
  · rintro ⟨tail, hselector, htail⟩
    rw [hselector]
    have htake : tail.takeWhile isNameChar = [] := by
      cases tail with
      | nil => rfl
      | cons c tail =>
        have hc : ¬isNameChar c := htail c rfl
        rw [List.takeWhile_cons, if_neg hc]
    simp only [List.takeWhile_append_of_pos hname, htake, List.append_nil, String.ofList_toList]

theorem ownedBy_iff {record : Record} :
    record.ownedBy name ↔
      ∃ rule, record.style? = some rule ∧ BeginsWithClass name rule.selector.toList := by
  rw [Record.ownedBy, decide_eq_true_iff, Record.owner?, Option.bind_eq_some_iff]
  simp only [leadingClass?_eq_some_iff hname]

/-! ## Cutting texts -/

theorem BeginsWithClass.trimChars {cs : List Char} (h : BeginsWithClass name cs) :
    BeginsWithClass name (trimChars cs) := by
  obtain ⟨tail, rfl, htail⟩ := h
  have hplain : ∀ c ∈ '.' :: name.toList, ¬isBlank c :=
    List.forall_mem_cons.mpr ⟨by decide, fun c hc => not_isBlank_of_isNameChar (hname c hc)⟩
  have htrim : Text.trimChars ('.' :: name.toList) = '.' :: name.toList := by
    refine trimChars_eq_self_iff.mpr ⟨List.dropWhile_cons_of_neg (by decide), ?_⟩
    refine List.rdropWhile_eq_self_iff.mpr fun hne => ?_
    exact hplain _ (List.getLast_mem hne)
  refine ⟨trimEnd tail, ?_, htail.of_prefix (List.rdropWhile_prefix isBlank tail)⟩
  rw [← List.cons_append, trimChars_append_of_ne_nil (by simp) htrim, List.cons_append]

theorem BeginsWithClass.takeWhile {cs : List Char} (h : BeginsWithClass name cs) {p : Char → Bool}
    (hdot : p '.') (hp : ∀ c, isNameChar c → p c) : BeginsWithClass name (cs.takeWhile p) := by
  obtain ⟨tail, rfl, htail⟩ := h
  refine ⟨tail.takeWhile p, ?_, htail.of_prefix (List.takeWhile_prefix p)⟩
  rw [List.takeWhile_cons, if_pos hdot,
    List.takeWhile_append_of_pos fun c hc => hp c (hname c hc)]

theorem BeginsWithClass.splitBraced {text : String} (h : BeginsWithClass name text.toList) :
    BeginsWithClass name (splitBraced text).1.toList := by
  unfold StyleSync.splitBraced
  dsimp only
  split
  · rw [toList_trim]
    exact h.trimChars hname
  · rw [String.toList_ofList]
    refine (h.takeWhile hname (by decide) fun c hc => ?_).trimChars hname
    rw [bne_iff_ne]
    rintro rfl
    exact absurd hc (by decide)

/-! ## The records of rules -/

theorem ownedBy_of_selector {record : Record} {rule : StyleRecord} (hrule : record.style? = some rule)
    (h : BeginsWithClass name rule.selector.toList) : record.ownedBy name :=
  (ownedBy_iff hname).mpr ⟨rule, hrule, h⟩

/-- The record that a sheet makes of a rule of a class belongs to the class, whatever the texts of the
rule's condition and declarations are. -/
theorem ownedBy_read {rule : Rule} (h : BeginsWithClass name rule.target.selector.toList) :
    (Record.read rule.header rule.block).ownedBy name := by
  obtain ⟨target, declarations⟩ := rule
  cases target with
  | style selector =>
    have hselector : BeginsWithClass name (Text.trimChars selector.toList) := h.trimChars hname
    have hread := read_of_no_keyword (hselector.not_header _) (hselector.not_header _)
      (Declaration.render declarations)
    refine ownedBy_of_selector hname (congrArg Record.style? hread) ?_
    rw [StyleRecord.read, toList_trim, toList_trim]
    exact hselector.trimChars hname
  | media condition selector =>
    have hblock : BeginsWithClass name
        (braced selector (Declaration.render declarations)).toList := by
      obtain ⟨inside, hbraced, -⟩ := exists_toList_braced selector (Declaration.render declarations)
      rw [hbraced]
      exact BeginsWithClass.append h (by simp [EndsName]; decide)
    refine ownedBy_of_selector hname (congrArg Record.style? (read_mediaHeader _ _)) ?_
    rw [StyleRecord.read, toList_trim]
    exact (hblock.splitBraced hname).trimChars hname

/-! ## Keys -/

omit hname in
/-- What stands behind the selector in a key: nothing, or the header of a media rule. -/
theorem exists_toList_matchKey (selector : String) (condition : Option String) :
    ∃ header, (matchKey selector condition).toList = selector.toList ++ header ∧
      (header = [] ∨ ∃ rest, header = '@' :: rest) := by
  cases condition with
  | none => exact ⟨[], by simp [matchKey], Or.inl rfl⟩
  | some condition =>
    refine ⟨(mediaHeader condition).toList, by simp [matchKey], Or.inr ?_⟩
    exact ⟨"media ".toList ++ condition.toList, by simp [mediaHeader, mediaKeyword]⟩

omit hname in
theorem beginsWithClass_key {rule : Rule} (h : BeginsWithClass name rule.target.selector.toList) :
    BeginsWithClass name rule.key.toList := by
  obtain ⟨header, hkey, hheader⟩ :=
    exists_toList_matchKey rule.target.selector rule.target.condition?
  rw [Rule.key, hkey]
  refine h.append ?_
  rcases hheader with rfl | ⟨rest, rfl⟩
  · simp [EndsName]
  · simp [EndsName]
    decide

/-- A record that is found by a key of the class belongs to the class: where the selector of the record
ends, the key goes on with an at sign, which is in no name. -/
theorem ownedBy_of_hasKey {record : Record} {key : String} (hkey : BeginsWithClass name key.toList)
    (h : record.hasKey key) : record.ownedBy name := by
  rw [Record.hasKey, decide_eq_true_iff, Record.key?, Option.map_eq_some_iff] at h
  obtain ⟨rule, hrule, hmatch⟩ := h
  obtain ⟨header, hchars, hheader⟩ := exists_toList_matchKey rule.selector record.condition?
  obtain ⟨tail, htail, hends⟩ := hkey
  refine ownedBy_of_selector hname hrule ?_
  rw [← hmatch, hchars, ← List.cons_append, List.append_eq_append_iff] at htail
  rcases htail with ⟨more, hname', hsplit⟩ | ⟨more, hselector, hsplit⟩
  · cases more with
    | nil =>
      rw [List.append_nil] at hname'
      exact ⟨[], by rw [← hname', List.append_nil], by simp [EndsName]⟩
    | cons c more =>
      have hmem : c ∈ '.' :: name.toList := by simp [hname']
      rcases hheader with rfl | ⟨rest, rfl⟩
      · simp at hsplit
      · rw [List.cons_append, List.cons.injEq] at hsplit
        rw [← hsplit.1, List.mem_cons] at hmem
        rcases hmem with hdot | hat
        · exact absurd hdot (by decide)
        · exact absurd (hname _ hat) (by decide)
  · exact ⟨more, by rw [hselector, List.cons_append],
      hends.of_prefix (hsplit ▸ List.prefix_append more header)⟩

end Class

/-! ## Reconciliation within a part of the records -/

section Part

variable {α : Type} {p q : α → Bool} (l : List α)

theorem filter_eraseLast_of_imp (h : ∀ a, p a → q a) :
    (eraseLast p l).filter q = eraseLast p (l.filter q) := by
  rcases exists_last p l with hnot | ⟨before, a, after, rfl, ha, hafter⟩
  · rw [eraseLast_of_not hnot, eraseLast_of_not fun a hmem => hnot a (List.mem_filter.mp hmem).1]
  · have hlater : ∀ b ∈ after.filter q, ¬p b := fun b hmem => hafter b (List.mem_filter.mp hmem).1
    rw [eraseLast_append_cons ha before hafter, List.filter_append, List.filter_append,
      List.filter_cons_of_pos (h a ha), eraseLast_append_cons ha _ hlater]

theorem filter_eraseLast_of_not (h : ∀ a, p a → ¬q a) :
    (eraseLast p l).filter q = l.filter q := by
  rcases exists_last p l with hnot | ⟨before, a, after, rfl, ha, hafter⟩
  · rw [eraseLast_of_not hnot]
  · rw [eraseLast_append_cons ha before hafter, List.filter_append, List.filter_append,
      List.filter_cons_of_neg (h a ha)]

end Part

section Reconciled

variable {owned : Record → Bool} {rules : List Rule}
  (hkeys : ∀ record, ∀ key ∈ lastKeys rules, record.hasKey key → owned record)
  (records : List Record)

include hkeys

theorem filter_withoutLast :
    (withoutLast records (lastKeys rules)).filter owned =
      withoutLast (records.filter owned) (lastKeys rules) := by
  generalize lastKeys rules = keys at hkeys
  induction keys generalizing records with
  | nil => rfl
  | cons key keys ih =>
    have hkey := filter_eraseLast_of_imp records fun record => hkeys record key List.mem_cons_self
    have hrest := ih (eraseLast (Record.hasKey key) records)
      fun record other hmem => hkeys record other (List.mem_cons_of_mem _ hmem)
    rw [hkey] at hrest
    exact hrest

theorem filter_not_withoutLast :
    (withoutLast records (lastKeys rules)).filter (!owned ·) = records.filter (!owned ·) := by
  generalize lastKeys rules = keys at hkeys
  induction keys generalizing records with
  | nil => rfl
  | cons key keys ih =>
    have hkey : (eraseLast (Record.hasKey key) records).filter (!owned ·) =
        records.filter (!owned ·) := by
      refine filter_eraseLast_of_not records fun record hrecord => ?_
      simp [hkeys record key List.mem_cons_self hrecord]
    have hrest := ih (eraseLast (Record.hasKey key) records)
      fun record other hmem => hkeys record other (List.mem_cons_of_mem _ hmem)
    rw [hkey] at hrest
    exact hrest

theorem stored?_filter {key : String} (hkey : key ∈ lastKeys rules) :
    stored? (records.filter owned) key = stored? records key := by
  rw [stored?, stored?, ← List.filter_reverse, List.find?_filter]
  congr 2
  funext record
  by_cases hrecord : record.hasKey key
  · simp [hrecord, hkeys record key hkey hrecord]
  · simp [hrecord]

theorem mergedRules_filter :
    mergedRules (records.filter owned) rules = mergedRules records rules := by
  refine List.filterMap_congr fun key hkey => ?_
  rw [mergedAt, mergedAt, stored?_filter hkeys records hkey]

variable (hread : ∀ rule ∈ mergedRules records rules, owned (.read rule.header rule.block))

include hread

theorem filter_not_reconciled :
    (reconciled records rules).filter (!owned ·) = records.filter (!owned ·) := by
  have hnew : ((mergedRules records rules).map fun rule => Record.read rule.header rule.block).filter
      (!owned ·) = [] := by
    simpa [List.filter_eq_nil_iff] using hread
  rw [reconciled, List.filter_append, filter_not_withoutLast hkeys, hnew, List.append_nil]

theorem filter_reconciled :
    (reconciled records rules).filter owned = reconciled (records.filter owned) rules := by
  have hnew : ((mergedRules records rules).map fun rule => Record.read rule.header rule.block).filter
      owned = (mergedRules records rules).map fun rule => Record.read rule.header rule.block := by
    simpa [List.filter_eq_self] using hread
  rw [reconciled, List.filter_append, filter_withoutLast hkeys, hnew, reconciled,
    mergedRules_filter hkeys]

end Reconciled

/-! ## The rules of a class -/

/-- Whether no key of a nested block continues a name, at any depth. The keys of at-rules do not count:
they are not part of selectors. -/
def Block.Separated : Block → Prop
  | .nil => True
  | .leaf _ _ rest => rest.Separated
  | .nest key body rest =>
    (¬isAtRule key → EndsName key.toList) ∧ body.Separated ∧ rest.Separated

instance Block.decidableSeparated : (block : Block) → Decidable block.Separated
  | .nil => .isTrue trivial
  | .leaf _ _ rest => decidableSeparated rest
  | .nest _ body rest =>
    haveI := decidableSeparated body
    haveI := decidableSeparated rest
    inferInstanceAs (Decidable (_ ∧ _ ∧ _))

theorem Block.Separated.of_mem {block body : Block} {key : String} (h : block.Separated)
    (hmem : (key, Value.block body) ∈ block.entries) :
    (¬isAtRule key → EndsName key.toList) ∧ body.Separated := by
  induction block with
  | nil => simp at hmem
  | leaf k value rest ih =>
    have hrest : (key, Value.block body) ∈ rest.entries := by simpa [entries] using hmem
    exact ih h hrest
  | nest k first rest _ ih =>
    simp only [entries, List.mem_cons, Prod.mk.injEq, Value.block.injEq] at hmem
    rcases hmem with ⟨rfl, rfl⟩ | hrest
    · exact ⟨h.1, h.2.1⟩
    · exact ih h.2.2 hrest

/-- A child has the selector of its parent, which a key that is not that of an at-rule continues. -/
theorem Site.exists_of_mem_children {site child : Site} (h : child ∈ site.children) :
    ∃ key, (key, Value.block child.block) ∈ site.block.entries ∧
      (child.selector = site.selector ∨
        ¬isAtRule key ∧ child.selector = site.selector ++ key) := by
  obtain ⟨key, hentry, hnested⟩ := mem_children_iff.mp h
  refine ⟨key, hentry, ?_⟩
  rcases nested?_cases hnested with ⟨hat, hselector⟩ | ⟨condition, -, hselector⟩
  · exact Or.inr ⟨by simpa [isAtRule] using hat, hselector⟩
  · exact Or.inl hselector

theorem beginsWithClass_of_mem_flatten {name : String} {block : Block} (h : block.Separated)
    {rule : Rule} (hrule : rule ∈ flatten ("." ++ name) block) :
    BeginsWithClass name rule.target.selector.toList := by
  have hsites : ∀ site ∈ sites ("." ++ name) block,
      BeginsWithClass name site.selector.toList ∧ site.block.Separated := by
    refine forall_mem_visits (fun site hsite child hchild => ?_) ?_
    · obtain ⟨key, hentry, hselector⟩ := Site.exists_of_mem_children hchild
      obtain ⟨hkey, hbody⟩ := hsite.2.of_mem hentry
      rcases hselector with hselector | ⟨hat, hselector⟩
      · exact ⟨hselector ▸ hsite.1, hbody⟩
      · rw [hselector, String.toList_append]
        exact ⟨hsite.1.append (hkey hat), hbody⟩
    · simpa using (⟨⟨[], by simp, by simp [EndsName]⟩, h⟩ :
        BeginsWithClass name ("." ++ name).toList ∧ block.Separated)
  obtain ⟨site, hsite, hmem⟩ := List.mem_filterMap.mp hrule
  have htarget : rule.target.selector = site.selector := by
    unfold Site.rule? at hmem
    split at hmem
    · simp at hmem
    · rw [← Option.some.inj hmem, Site.target]
      cases site.media <;> rfl
  rw [htarget]
  exact (hsites site hsite).1

end StyleSync
