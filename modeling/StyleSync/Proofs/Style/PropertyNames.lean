import Mathlib.Data.Set.Function
import StyleSync.Style.PropertyName

/-! # Property names with dashes

`Dashed` names have no capital at the start and no capital of ASCII further on, and a `ScriptName` is of
ASCII and has no dash. Stated here:

* `not_isUpper_of_mem_smallForm`: the small form of a capital has no capital of ASCII;
* `dashedName_settled`: a name that was spelled with dashes keeps that spelling, and the names that keep
  theirs are the `Dashed` ones;
* `joinedName_dashedName`: a script's name can be read off its spelling with dashes, so that two of them
  are never spelled alike.
-/

set_option autoImplicit false

namespace StyleSync

open Text

namespace Text

/-! ## Small forms -/

theorem isUpper_iff {c : Char} : c.isUpper ↔ 65 ≤ c.toNat ∧ c.toNat ≤ 90 := by
  show decide (c.val ≥ 'A'.val ∧ c.val ≤ 'Z'.val) = true ↔ _
  rw [decide_eq_true_iff]
  exact Iff.rfl

theorem not_isUpper_ofNat {code : ℕ} (h : 90 < code) : (Char.ofNat code).isUpper = false := by
  rw [Bool.eq_false_iff, ne_eq, isUpper_iff, Char.ofNat]
  by_cases hvalid : code.isValidChar
  · have hcode : (Char.ofNatAux code hvalid).toNat = code := rfl
    rw [dif_pos hvalid, hcode]
    omega
  · rw [dif_neg hvalid]
    decide

theorem lt_first_add_shift : ∀ run ∈ capitalRuns, 90 < Int.ofNat run.first + run.shift := by
  decide +kernel

theorem not_isUpper_of_mem_smallForm {c d : Char} {small : List Char} (h : smallForm? c = some small)
    (hd : d ∈ small) : d.isUpper = false := by
  unfold smallForm? at h
  split at h
  · rw [Option.some.injEq] at h
    rw [← h, dottedSmallI, List.mem_cons, List.mem_singleton] at hd
    rcases hd with rfl | rfl <;> rfl
  · obtain ⟨run, hrun, rfl⟩ := Option.map_eq_some_iff.mp h
    have hshift := lt_first_add_shift run (List.mem_of_find?_eq_some hrun)
    have hcontains := List.find?_some hrun
    simp only [CapitalRun.contains, Bool.and_eq_true, decide_eq_true_eq] at hcontains
    have hfirst : Int.ofNat run.first ≤ Int.ofNat c.toNat := Int.ofNat_le.mpr hcontains.1.1
    rw [List.mem_singleton] at hd
    rw [hd]
    exact not_isUpper_ofNat (by omega)

theorem le_first_of_mem_tail : ∀ run ∈ capitalRuns.tail, 128 ≤ run.first := by
  decide +kernel

/-- The capitals of ASCII are the letters with a capital form there. -/
theorem smallForm?_of_ascii {c : Char} (h : c.toNat < 128) :
    smallForm? c = if c.isUpper then some [asciiSmall c] else none := by
  have hdotted : c ≠ 'İ' := by
    rintro rfl
    exact absurd h (by decide)
  have htail : capitalRuns.tail.find? (fun run => run.contains c.toNat) = none := by
    rw [List.find?_eq_none]
    intro run hrun
    have hfirst := le_first_of_mem_tail run hrun
    simp only [CapitalRun.contains, Bool.and_eq_true, decide_eq_true_eq]
    omega
  have hruns : capitalRuns = ⟨0x41, 0x5A, 1, 32⟩ :: capitalRuns.tail := rfl
  have hupper : CapitalRun.contains ⟨0x41, 0x5A, 1, 32⟩ c.toNat = c.isUpper := by
    rw [Bool.eq_iff_iff, isUpper_iff]
    simp [CapitalRun.contains, Nat.mod_one]
  rw [smallForm?, if_neg hdotted, hruns, List.find?_cons, hupper]
  cases hc : c.isUpper with
  | true => simp [asciiSmall, hc]; rfl
  | false => simp [htail]

end Text

/-! ## Spellings that are kept -/

/-- No capital at the start, no capital of ASCII further on. -/
structure Dashed (cs : List Char) : Prop where
  head : ∀ c ∈ cs.head?, isCapital c = false
  tail : ∀ c ∈ cs.tail, c.isUpper = false

theorem isCapital_dash : isCapital '-' = false := by
  decide +kernel

theorem not_isUpper_asciiSmall (c : Char) : (asciiSmall c).isUpper = false := by
  unfold asciiSmall
  split
  · next hupper =>
    have hrange := isUpper_iff.mp hupper
    exact not_isUpper_ofNat (by omega)
  · next hupper => simpa using hupper

theorem not_isUpper_of_mem_dashCapital {c d : Char} (h : d ∈ dashCapital c) : d.isUpper = false := by
  unfold dashCapital at h
  split at h
  · rw [List.mem_cons, List.mem_singleton] at h
    rcases h with rfl | rfl
    · rfl
    · exact not_isUpper_asciiSmall c
  · next hupper =>
    rw [List.mem_singleton] at h
    simpa [h] using hupper

theorem flatMap_dashCapital_eq_self_iff {cs : List Char} :
    cs.flatMap dashCapital = cs ↔ ∀ c ∈ cs, c.isUpper = false := by
  constructor
  · intro h c hc
    rw [← h] at hc
    obtain ⟨_, -, hmem⟩ := List.mem_flatMap.mp hc
    exact not_isUpper_of_mem_dashCapital hmem
  · intro h
    induction cs with
    | nil => rfl
    | cons c cs ih =>
      rw [List.forall_mem_cons] at h
      rw [List.flatMap_cons, ih h.2, dashCapital, h.1]
      rfl

theorem dashed_dashedChars (cs : List Char) : Dashed (dashedChars cs) := by
  cases cs with
  | nil => exact ⟨by simp [dashedChars], by simp [dashedChars]⟩
  | cons first rest =>
    have hrest : ∀ c ∈ rest.flatMap dashCapital, c.isUpper = false := by
      intro c hc
      obtain ⟨_, -, hmem⟩ := List.mem_flatMap.mp hc
      exact not_isUpper_of_mem_dashCapital hmem
    cases hsmall : smallForm? first with
    | none =>
      refine ⟨?_, ?_⟩
      · simp [dashedChars, hsmall, isCapital]
      · simpa [dashedChars, hsmall] using hrest
    | some small =>
      refine ⟨?_, ?_⟩
      · simp [dashedChars, hsmall, isCapital_dash]
      · intro c hc
        simp only [dashedChars, hsmall, List.cons_append, List.tail_cons, List.mem_append] at hc
        rcases hc with hc | hc
        · exact not_isUpper_of_mem_smallForm hsmall hc
        · exact hrest c hc

theorem dashedChars_eq_self_iff {cs : List Char} : dashedChars cs = cs ↔ Dashed cs := by
  constructor
  · intro h
    rw [← h]
    exact dashed_dashedChars cs
  · rintro ⟨hhead, htail⟩
    cases cs with
    | nil => rfl
    | cons first rest =>
      have hfirst : smallForm? first = none := by
        simpa [isCapital] using hhead first rfl
      rw [List.tail_cons] at htail
      rw [dashedChars, hfirst, flatMap_dashCapital_eq_self_iff.mpr htail]
      rfl

/-- A spelling with dashes is kept, and the `Dashed` names are those that keep theirs. -/
theorem dashedName_settled :
    (∀ name : String, dashedName (dashedName name) = dashedName name) ∧
      ∀ name : String, dashedName name = name ↔ Dashed name.toList := by
  have hkept : ∀ name : String, dashedName name = name ↔ Dashed name.toList := by
    intro name
    rw [← dashedChars_eq_self_iff, dashedName, ← String.toList_inj, String.toList_ofList]
  refine ⟨fun name => ?_, hkept⟩
  rw [hkept, dashedName, String.toList_ofList]
  exact dashed_dashedChars name.toList

/-! ## Names of scripts -/

/-- A name of ASCII characters without a dash. -/
def ScriptName (name : String) : Prop :=
  ∀ c ∈ name.toList, c.toNat < 128 ∧ c ≠ '-'

instance (name : String) : Decidable (ScriptName name) :=
  List.decidableBAll (fun c : Char => c.toNat < 128 ∧ c ≠ '-') name.toList

/-- Every dash is taken together with the letter behind it for the capital form of that letter. -/
def joinedChars : List Char → List Char
  | c :: letter :: rest =>
    if c = '-' ∧ letter.isAlpha then letter.toUpper :: joinedChars rest
    else c :: joinedChars (letter :: rest)
  | cs => cs

/-- The name that a spelling with dashes stands for in scripts. -/
def joinedName (name : String) : String :=
  String.ofList (joinedChars name.toList)

theorem joinedChars_cons {c : Char} (h : c ≠ '-') (rest : List Char) :
    joinedChars (c :: rest) = c :: joinedChars rest := by
  cases rest with
  | nil => rfl
  | cons letter rest => rw [joinedChars, if_neg fun hdash => h hdash.1]

theorem asciiSmall_of_isUpper :
    ∀ code < 128, (Char.ofNat code).isUpper →
      (asciiSmall (Char.ofNat code)).isAlpha ∧
        (asciiSmall (Char.ofNat code)).toUpper = Char.ofNat code := by
  decide

theorem joinedChars_dashCapital {c : Char} (hascii : c.toNat < 128) (hdash : c ≠ '-')
    (rest : List Char) : joinedChars (dashCapital c ++ rest) = c :: joinedChars rest := by
  cases hupper : c.isUpper with
  | false =>
    rw [dashCapital, hupper]
    exact joinedChars_cons hdash rest
  | true =>
    have hcode : Char.ofNat c.toNat = c := Char.ofNat_toNat c
    obtain ⟨halpha, hcapital⟩ := asciiSmall_of_isUpper c.toNat hascii (by rw [hcode, hupper])
    rw [hcode] at halpha hcapital
    rw [dashCapital, if_pos hupper, List.cons_append, List.singleton_append, joinedChars,
      if_pos ⟨rfl, halpha⟩, hcapital]

theorem joinedChars_flatMap {cs : List Char} (h : ∀ c ∈ cs, c.toNat < 128 ∧ c ≠ '-') :
    joinedChars (cs.flatMap dashCapital) = cs := by
  induction cs with
  | nil => rfl
  | cons c cs ih =>
    rw [List.forall_mem_cons] at h
    rw [List.flatMap_cons, joinedChars_dashCapital h.1.1 h.1.2, ih h.2]

/-- In a name of ASCII the first character is spelled like the others. -/
theorem dashedChars_of_ascii {cs : List Char} (h : ∀ c ∈ cs, c.toNat < 128) :
    dashedChars cs = cs.flatMap dashCapital := by
  cases cs with
  | nil => rfl
  | cons first rest =>
    rw [dashedChars, smallForm?_of_ascii (h first List.mem_cons_self), List.flatMap_cons, dashCapital]
    cases first.isUpper <;> rfl

/-- A script's name is read off its spelling with dashes, so no two of them are spelled alike. -/
theorem joinedName_dashedName :
    (∀ name : String, ScriptName name → joinedName (dashedName name) = name) ∧
      Set.InjOn dashedName {name | ScriptName name} := by
  have hread : ∀ name : String, ScriptName name → joinedName (dashedName name) = name := by
    intro name hname
    rw [joinedName, dashedName, String.toList_ofList,
      dashedChars_of_ascii fun c hc => (hname c hc).1, joinedChars_flatMap hname,
      String.ofList_toList]
  exact ⟨hread, Set.LeftInvOn.injOn hread⟩

theorem joinedName_dashedName_vendor :
    ScriptName "WebkitURLMask" ∧ ScriptName "webkitURLMask" ∧
      dashedName "WebkitURLMask" = "-webkit-u-r-l-mask" ∧
      joinedName (dashedName "WebkitURLMask") = "WebkitURLMask" ∧
      dashedName "WebkitURLMask" ≠ dashedName "webkitURLMask" := by
  have hvendor : ScriptName "WebkitURLMask" := by decide
  have hplain : ScriptName "webkitURLMask" := by decide
  obtain ⟨hread, hinjective⟩ := joinedName_dashedName
  refine ⟨hvendor, hplain, by decide, hread _ hvendor, fun hsame => ?_⟩
  exact absurd (hinjective hvendor hplain hsame) (by decide)

end StyleSync
