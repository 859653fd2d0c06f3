import StyleSync.Proofs.Text.Separators
import StyleSync.Proofs.Text.Trimming

/-! # The parts of a divided text

What divides a text is found in none of its parts, when these are read by themselves:

* `breakAtTop_eq_some`: what stands before the first separator that counts is closed, and none counts
  there;
* `divided_induction`: a text is gone through part by part;
* `offsets_of_mem_splitAtTop`: in a part between separators no separator counts;
* `splitAtTop_append`, `splitAtTop_append_of_not_closed`: the parts of two texts with a separator between
  them, if the first one is closed, and if it is not;
* `offsets_trimChars`, `closed_trimChars_iff`: the blanks at the ends of a text divide nothing and close
  nothing.
-/

set_option autoImplicit false

namespace StyleSync.Text

variable {separator : Char}

/-! ## Before the first separator -/

theorem breakFrom_eq_some {start : Nesting} {cs before rest : List Char}
    (h : breakFrom separator start cs = some (before, rest)) :
    cs = before ++ separator :: rest ∧ start.after before = Nesting.top ∧
      offsetsFrom separator start before = [] := by
  induction cs generalizing start before with
  | nil => contradiction
  | cons c cs ih =>
    rw [breakFrom] at h
    split at h
    · next hdivides =>
      simp only [Option.some.injEq, Prod.mk.injEq] at h
      obtain ⟨rfl, rfl⟩ := h
      exact ⟨by rw [hdivides.2, List.nil_append], hdivides.1, rfl⟩
    · next hkept =>
      rw [Option.map_eq_some_iff] at h
      obtain ⟨⟨inner, after⟩, hinner, hpair⟩ := h
      obtain ⟨rfl, rfl⟩ := Prod.mk.inj hpair
      obtain ⟨hcs, hafter, hoffsets⟩ := ih hinner
      refine ⟨by rw [hcs, List.cons_append], ?_, offsetsFrom_cons_eq_nil_iff.mpr ⟨hkept, hoffsets⟩⟩
      rw [Nesting.after_cons, hafter]

theorem breakAtTop_eq_some {cs before rest : List Char}
    (h : breakAtTop separator cs = some (before, rest)) :
    cs = before ++ separator :: rest ∧ Closed before ∧ offsets separator before = [] :=
  breakFrom_eq_some h

/-! ## Dividing a text part by part -/

theorem breakFrom_eq_none {start : Nesting} {cs : List Char}
    (h : breakFrom separator start cs = none) : offsetsFrom separator start cs = [] := by
  induction cs generalizing start with
  | nil => rfl
  | cons c cs ih =>
    rw [breakFrom] at h
    split at h
    · contradiction
    · next hkept =>
      rw [Option.map_eq_none_iff] at h
      exact offsetsFrom_cons_eq_nil_iff.mpr ⟨hkept, ih h⟩

theorem splitAtTop_of_offsets_eq_nil {cs : List Char} (h : offsets separator cs = []) :
    splitAtTop separator cs = [cs] := by
  have hsplit := splitFrom_append h []
  rw [List.append_nil] at hsplit
  rw [splitAtTop, hsplit]
  simp [splitFrom]

/-- What holds of a text that is not divided, and of a text with a closed part before its first separator if
it holds of what is behind, holds of every text. -/
@[elab_as_elim]
theorem divided_induction (separator : Char) {P : List Char → Prop}
    (whole : ∀ cs, offsets separator cs = [] → P cs)
    (divided : ∀ part rest, Closed part → offsets separator part = [] → P rest →
      P (part ++ separator :: rest)) (cs : List Char) : P cs := by
  cases hbreak : breakAtTop separator cs with
  | none => exact whole cs (breakFrom_eq_none hbreak)
  | some pair =>
    obtain ⟨part, rest⟩ := pair
    obtain ⟨hcs, hclosed, hoffsets⟩ := breakAtTop_eq_some hbreak
    have hshorter : rest.length < cs.length := by
      rw [hcs, List.length_append, List.length_cons]
      omega
    rw [hcs]
    exact divided part rest hclosed hoffsets (divided_induction separator whole divided rest)
termination_by cs.length

variable (hs : isSeparator separator)

include hs

/-- In a part between separators no separator counts. -/
theorem offsets_of_mem_splitAtTop {cs part : List Char} (h : part ∈ splitAtTop separator cs) :
    offsets separator part = [] := by
  induction cs using divided_induction separator with
  | whole cs hoffsets =>
    rw [splitAtTop_of_offsets_eq_nil hoffsets, List.mem_singleton] at h
    rw [h, hoffsets]
  | divided first rest hclosed hoffsets ih =>
    rw [splitAtTop_append_separator hs hclosed hoffsets, List.mem_cons] at h
    rcases h with rfl | h
    · exact hoffsets
    · exact ih h

theorem closed_of_mem_splitAtTop {cs part : List Char} (hcs : Closed cs)
    (h : part ∈ splitAtTop separator cs) : Closed part := by
  induction cs using divided_induction separator with
  | whole cs hoffsets =>
    rw [splitAtTop_of_offsets_eq_nil hoffsets, List.mem_singleton] at h
    rwa [h]
  | divided first rest hclosed hoffsets ih =>
    rw [hclosed.append_iff, closed_cons_iff hs] at hcs
    rw [splitAtTop_append_separator hs hclosed hoffsets, List.mem_cons] at h
    rcases h with rfl | h
    · exact hclosed
    · exact ih hcs h

/-- The parts of a closed text come before those of what is behind it. -/
theorem splitAtTop_append {as : List Char} (ha : Closed as) (bs : List Char) :
    splitAtTop separator (as ++ separator :: bs) =
      splitAtTop separator as ++ splitAtTop separator bs := by
  induction as using divided_induction separator with
  | whole as hoffsets =>
    rw [splitAtTop_append_separator hs ha hoffsets, splitAtTop_of_offsets_eq_nil hoffsets,
      List.singleton_append]
  | divided first rest hclosed hoffsets ih =>
    rw [hclosed.append_iff, closed_cons_iff hs] at ha
    rw [List.append_assoc, List.cons_append, splitAtTop_append_separator hs hclosed hoffsets, ih ha,
      splitAtTop_append_separator hs hclosed hoffsets, List.cons_append]

omit hs

/-- A separator behind a text that is not closed does not count. -/
theorem splitAtTop_append_of_not_closed {as : List Char} (ha : ¬ Closed as)
    (hoffsets : offsets separator as = []) (bs : List Char) :
    ∃ part parts, splitAtTop separator (as ++ separator :: bs) = (as ++ separator :: part) :: parts := by
  obtain ⟨part, parts, hparts⟩ := List.exists_cons_of_ne_nil
    (splitFrom_ne_nil separator ((Nesting.top.after as).step separator) bs)
  refine ⟨part, parts, ?_⟩
  rw [splitAtTop, splitFrom_append hoffsets, splitFrom, if_neg (fun h => ha h.1), hparts]

/-! ## Without the blanks at the ends -/

theorem isSeparator_of_isBlank {c : Char} (h : isBlank c) : isSeparator c := by
  simp only [isSeparator, Bool.and_eq_true, bne_iff_ne]
  refine ⟨⟨⟨?_, ?_⟩, ?_⟩, ?_⟩
  all_goals
    rintro rfl
    exact absurd h (by decide)

theorem closed_of_blank {blanks : List Char} (h : ∀ c ∈ blanks, isBlank c) : Closed blanks := by
  induction blanks with
  | nil => rfl
  | cons c blanks ih =>
    rw [List.forall_mem_cons] at h
    exact (closed_cons_iff (isSeparator_of_isBlank h.1)).mpr (ih h.2)

/-- A string that the reader stands in was begun with a character that is no separator. -/
def Nesting.Begun : Nesting → Prop
  | .plain _ => True
  | .quoted _ mark _ => ¬ isSeparator mark

theorem Nesting.Begun.step {state : Nesting} (h : state.Begun) (c : Char) : (state.step c).Begun := by
  cases state with
  | plain depth =>
    rw [Nesting.step]
    split
    · next hquote =>
      show ¬ isSeparator c
      rcases hquote with rfl | rfl <;> decide
    · split
      · trivial
      · split <;> trivial
  | quoted depth mark escaped =>
    cases escaped with
    | true => exact h
    | false =>
      rw [Nesting.step]
      split
      · exact h
      · split
        · trivial
        · exact h

theorem Nesting.Begun.after {state : Nesting} (h : state.Begun) (cs : List Char) :
    (state.after cs).Begun := by
  induction cs generalizing state with
  | nil => exact h
  | cons c cs ih => exact ih (h.step c)

theorem Nesting.Begun.step_eq_top_iff {state : Nesting} (h : state.Begun) {c : Char}
    (hc : isSeparator c) : state.step c = Nesting.top ↔ state = Nesting.top := by
  constructor
  · intro hstep
    cases state with
    | plain depth =>
      simp only [isSeparator, Bool.and_eq_true, bne_iff_ne] at hc
      obtain ⟨⟨⟨h1, h2⟩, h3⟩, h4⟩ := hc
      simpa [Nesting.step, h1, h2, h3, h4] using hstep
    | quoted depth mark escaped =>
      have hmark : c ≠ mark := fun e => h (e ▸ hc)
      cases escaped with
      | true => simp [Nesting.step, Nesting.top] at hstep
      | false =>
        rw [Nesting.step, if_neg hmark, Nesting.top] at hstep
        split at hstep <;> contradiction
  · rintro rfl
    exact Nesting.step_top hc

theorem closed_concat_iff {cs : List Char} {c : Char} (hc : isSeparator c) :
    Closed (cs ++ [c]) ↔ Closed cs := by
  have htop : Nesting.top.Begun := trivial
  have hbegun : (Nesting.top.after cs).Begun := htop.after cs
  unfold Closed
  rw [Nesting.after_append, Nesting.after_cons, Nesting.after_nil, hbegun.step_eq_top_iff hc]

theorem closed_append_blank_iff {cs blanks : List Char} (h : ∀ c ∈ blanks, isBlank c) :
    Closed (cs ++ blanks) ↔ Closed cs := by
  induction blanks generalizing cs with
  | nil => rw [List.append_nil]
  | cons c blanks ih =>
    rw [List.forall_mem_cons] at h
    rw [← List.singleton_append, ← List.append_assoc, ih h.2,
      closed_concat_iff (isSeparator_of_isBlank h.1)]

/-- What is left of a text without the blanks at its ends is divided no further. -/
theorem offsets_trimChars {cs : List Char} (h : offsets separator cs = []) :
    offsets separator (trimChars cs) = [] := by
  obtain ⟨before, behind, hbefore, -, hcs⟩ := exists_eq_append_trimChars_append cs
  rw [hcs, (closed_of_blank hbefore).offsets_append_eq_nil_iff] at h
  have hrest := h.2
  rw [offsets, offsetsFrom_append, List.append_eq_nil_iff] at hrest
  exact hrest.1

theorem closed_trimChars_iff {cs : List Char} : Closed (trimChars cs) ↔ Closed cs := by
  obtain ⟨before, behind, hbefore, hbehind, hcs⟩ := exists_eq_append_trimChars_append cs
  conv_rhs => rw [hcs]
  rw [(closed_of_blank hbefore).append_iff, closed_append_blank_iff hbehind]

end StyleSync.Text
