import Mathlib.Data.List.DropRight
import StyleSync.Text.Blank

/-! # Trimmed texts

Blanks at the ends of a text do not change what trimming makes of it, and a text that neither begins
nor ends with a blank is left as it is. `solid` counts the characters that trimming never takes away. The
last part says how trimming passes through concatenations: a part that begins or ends without a blank
shields what is behind it.
-/

set_option autoImplicit false

namespace StyleSync.Text

theorem trimStart_append (as bs : List Char) :
    trimStart (as ++ bs) = if trimStart as = [] then trimStart bs else trimStart as ++ bs := by
  unfold trimStart
  rw [List.dropWhile_append]
  simp only [List.isEmpty_iff]

theorem trimEnd_append (as bs : List Char) :
    trimEnd (as ++ bs) = if trimEnd bs = [] then trimEnd as else as ++ trimEnd bs := by
  have h := trimStart_append bs.reverse as.reverse
  unfold trimStart at h
  unfold trimEnd
  rw [List.reverse_append, h]
  by_cases hb : bs.reverse.dropWhile isBlank = []
  · simp [hb]
  · simp [hb]

/-! ## Blanks at the ends -/

theorem trimStart_eq_nil_iff {cs : List Char} : trimStart cs = [] ↔ ∀ c ∈ cs, isBlank c := by
  simp [trimStart]

theorem trimEnd_eq_nil_iff {cs : List Char} : trimEnd cs = [] ↔ ∀ c ∈ cs, isBlank c := by
  simp [trimEnd]

@[simp] theorem trimStart_trimStart (cs : List Char) : trimStart (trimStart cs) = trimStart cs :=
  List.dropWhile_idempotent isBlank cs

theorem exists_eq_trimEnd_append (cs : List Char) :
    ∃ blanks, (∀ c ∈ blanks, isBlank c) ∧ cs = trimEnd cs ++ blanks := by
  refine ⟨cs.rtakeWhile isBlank, fun c hc => List.mem_rtakeWhile_imp hc, ?_⟩
  exact List.rdropWhile_append_rtakeWhile.symm

theorem trimChars_append_of_blank (cs : List Char) {blanks : List Char}
    (h : ∀ c ∈ blanks, isBlank c) : trimChars (cs ++ blanks) = trimChars cs := by
  have hend : trimEnd blanks = [] := trimEnd_eq_nil_iff.mpr h
  unfold trimChars
  rw [trimStart_append]
  split
  · next hs => rw [hs, trimStart_eq_nil_iff.mpr h]
  · rw [trimEnd_append, if_pos hend]

theorem trimChars_blank_append {blanks : List Char} (h : ∀ c ∈ blanks, isBlank c)
    (cs : List Char) : trimChars (blanks ++ cs) = trimChars cs := by
  unfold trimChars
  rw [trimStart_append, if_pos (trimStart_eq_nil_iff.mpr h)]

theorem forall_isBlank_space : ∀ c ∈ [' '], isBlank c :=
  List.forall_mem_singleton.mpr (by decide)

@[simp] theorem trimChars_cons_space (cs : List Char) : trimChars (' ' :: cs) = trimChars cs :=
  trimChars_blank_append forall_isBlank_space cs

@[simp] theorem trimChars_concat_space (cs : List Char) :
    trimChars (cs ++ [' ']) = trimChars cs :=
  trimChars_append_of_blank cs forall_isBlank_space

@[simp] theorem trimChars_trimStart (cs : List Char) :
    trimChars (trimStart cs) = trimChars cs := by
  simp [trimChars]

@[simp] theorem trimChars_trimEnd (cs : List Char) : trimChars (trimEnd cs) = trimChars cs := by
  obtain ⟨blanks, hblanks, hcs⟩ := exists_eq_trimEnd_append cs
  conv_rhs => rw [hcs]
  exact (trimChars_append_of_blank _ hblanks).symm

@[simp] theorem trimChars_trimChars (cs : List Char) :
    trimChars (trimChars cs) = trimChars cs := by
  conv_lhs => rw [trimChars.eq_def cs]
  simp

theorem mem_of_mem_trimChars {c : Char} {cs : List Char} (h : c ∈ trimChars cs) : c ∈ cs := by
  have hstart : trimStart cs <:+ cs := List.dropWhile_suffix isBlank
  have hend : trimEnd (trimStart cs) <+: trimStart cs := List.rdropWhile_prefix isBlank _
  exact hstart.subset (hend.subset h)

theorem exists_eq_append_trimChars_append (cs : List Char) :
    ∃ before behind, (∀ c ∈ before, isBlank c) ∧ (∀ c ∈ behind, isBlank c) ∧
      cs = before ++ (trimChars cs ++ behind) := by
  obtain ⟨behind, hblank, hbehind⟩ := exists_eq_trimEnd_append (trimStart cs)
  refine ⟨cs.takeWhile isBlank, behind, fun c hc => List.mem_takeWhile_imp hc, hblank, ?_⟩
  rw [trimChars, ← hbehind, trimStart, List.takeWhile_append_dropWhile]

/-! ## Counting what is no blank -/

/-- How many characters of a text are no blanks. -/
def solid (cs : List Char) : Nat :=
  cs.countP fun c => !isBlank c

@[simp] theorem solid_append (as bs : List Char) : solid (as ++ bs) = solid as + solid bs :=
  List.countP_append

theorem solid_cons {c : Char} (hc : isBlank c = false) (cs : List Char) :
    solid (c :: cs) = solid cs + 1 := by
  simp [solid, hc]

theorem solid_eq_zero {blanks : List Char} (h : ∀ c ∈ blanks, isBlank c) : solid blanks = 0 := by
  simpa [solid] using h

theorem solid_cons_space (cs : List Char) : solid (' ' :: cs) = solid cs := by
  rw [← List.singleton_append, solid_append, solid_eq_zero forall_isBlank_space, Nat.zero_add]

/-- Trimming takes only blanks away. -/
theorem solid_trimChars (cs : List Char) : solid (trimChars cs) = solid cs := by
  obtain ⟨before, behind, hbefore, hbehind, hcs⟩ := exists_eq_append_trimChars_append cs
  conv_rhs => rw [hcs]
  rw [solid_append, solid_append, solid_eq_zero hbefore, solid_eq_zero hbehind, Nat.zero_add,
    Nat.add_zero]

/-! ## Texts without blanks at the ends -/

theorem trimChars_eq_self_iff {cs : List Char} :
    trimChars cs = cs ↔ trimStart cs = cs ∧ trimEnd cs = cs := by
  constructor
  · intro h
    have hstart : trimStart cs = cs := by
      have hlater : trimStart cs <:+ cs := List.dropWhile_suffix isBlank
      refine hlater.eq_of_length_le ?_
      have hshorter : trimEnd (trimStart cs) <+: trimStart cs := List.rdropWhile_prefix isBlank _
      calc cs.length = (trimEnd (trimStart cs)).length := congrArg List.length h.symm
        _ ≤ (trimStart cs).length := hshorter.length_le
    refine ⟨hstart, ?_⟩
    rw [trimChars, hstart] at h
    exact h
  · rintro ⟨hstart, hend⟩
    rw [trimChars, hstart, hend]

/-- A part that does not begin with a blank shields what is behind it. -/
theorem trimStart_append_of_ne_nil {as : List Char} (hne : as ≠ []) (h : trimStart as = as)
    (bs : List Char) : trimStart (as ++ bs) = as ++ bs := by
  rw [trimStart_append, h, if_neg hne]

/-- A part that does not end with a blank shields what is before it. -/
theorem trimEnd_append_of_ne_nil (as : List Char) {bs : List Char} (hne : bs ≠ [])
    (h : trimEnd bs = bs) : trimEnd (as ++ bs) = as ++ bs := by
  rw [trimEnd_append, h, if_neg hne]

theorem trimEnd_append_of_left {as : List Char} (h : trimEnd as = as) (bs : List Char) :
    trimEnd (as ++ bs) = as ++ trimEnd bs := by
  rw [trimEnd_append]
  split
  · next hb => rw [hb, h, List.append_nil]
  · rfl

theorem trimChars_append_of_ne_nil {as : List Char} (hne : as ≠ []) (h : trimChars as = as)
    (bs : List Char) : trimChars (as ++ bs) = as ++ trimEnd bs := by
  obtain ⟨hstart, hend⟩ := trimChars_eq_self_iff.mp h
  rw [trimChars, trimStart_append_of_ne_nil hne hstart, trimEnd_append_of_left hend]

/-! ## Strings -/

theorem trim_eq_self_iff {text : String} :
    trim text = text ↔ trimChars text.toList = text.toList := by
  rw [← String.toList_inj, toList_trim]

theorem trim_ofList_trimChars (cs : List Char) :
    trim (String.ofList (trimChars cs)) = String.ofList (trimChars cs) := by
  rw [trim_eq_self_iff, String.toList_ofList, trimChars_trimChars]

theorem trim_trim (text : String) : trim (trim text) = trim text :=
  trim_ofList_trimChars text.toList

end StyleSync.Text
