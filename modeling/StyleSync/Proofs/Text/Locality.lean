import StyleSync.Proofs.Text.Parts

/-! # Parts of a text read by themselves

A text is divided in one pass, and its parts are read again one by one. The two readings agree:

* `intercalate_splitAtTop`: the parts with the separator between them are the text;
* `closed_of_mem_dropLast`: a reader of any part but the last ends where it began;
* `offsets_beyond`: behind a separator that counts, separators count where they count for a reader who
  begins there;
* `divided_locally`: all of this for the parts between separators and for the texts around the first one.
-/

set_option autoImplicit false

namespace StyleSync.Text

variable {separator : Char}

/-! ## All parts -/

theorem intercalate_splitAtTop (hs : isSeparator separator) (cs : List Char) :
    [separator].intercalate (splitAtTop separator cs) = cs := by
  induction cs using divided_induction separator with
  | whole cs hoffsets =>
    rw [splitAtTop_of_offsets_eq_nil hoffsets, List.intercalate_singleton]
  | divided part rest hclosed hoffsets ih =>
    rw [splitAtTop_append_separator hs hclosed hoffsets]
    obtain ⟨next, parts, hparts⟩ := List.exists_cons_of_ne_nil
      (splitFrom_ne_nil separator Nesting.top rest)
    have hsplit : splitAtTop separator rest = next :: parts := hparts
    rw [hsplit] at ih ⊢
    rw [List.intercalate_cons_cons, ih, List.append_assoc, List.singleton_append]

theorem closed_of_mem_dropLast (hs : isSeparator separator) {cs part : List Char}
    (h : part ∈ (splitAtTop separator cs).dropLast) : Closed part := by
  induction cs using divided_induction separator with
  | whole cs hoffsets =>
    rw [splitAtTop_of_offsets_eq_nil hoffsets] at h
    exact absurd h List.not_mem_nil
  | divided first rest hclosed hoffsets ih =>
    have hne : splitAtTop separator rest ≠ [] := splitFrom_ne_nil separator Nesting.top rest
    rw [splitAtTop_append_separator hs hclosed hoffsets, List.dropLast_cons_of_ne_nil hne,
      List.mem_cons] at h
    rcases h with rfl | h
    · exact hclosed
    · exact ih h

/-! ## Behind a separator -/

theorem lt_length_of_mem_offsetsFrom {start : Nesting} {cs : List Char} {place : Nat}
    (h : place ∈ offsetsFrom separator start cs) : place < cs.length := by
  induction cs generalizing start place with
  | nil => exact absurd h List.not_mem_nil
  | cons c cs ih =>
    have hlater : place ∈ (offsetsFrom separator (start.step c) cs).map (· + 1) →
        place < (c :: cs).length := by
      intro hmem
      obtain ⟨inner, hinner, rfl⟩ := List.mem_map.mp hmem
      have hlt := ih hinner
      rw [List.length_cons]
      omega
    simp only [offsetsFrom] at h
    split at h
    · rcases List.mem_cons.mp h with rfl | hmem
      · exact Nat.succ_pos _
      · exact hlater hmem
    · exact hlater h

/-- A separator behind a closed text counts, and the text behind it is read anew. -/
theorem offsets_append_separator (hs : isSeparator separator) {before : List Char}
    (hclosed : Closed before) (rest : List Char) (other : Char) :
    offsets other (before ++ separator :: rest) =
      offsets other before ++ (if separator = other then [before.length] else []) ++
        (offsets other rest).map (· + (before.length + 1)) := by
  have hlater : (offsetsFrom other Nesting.top (separator :: rest)).map (· + before.length) =
      (if separator = other then [before.length] else []) ++
        (offsets other rest).map (· + (before.length + 1)) := by
    have hshift : ((offsets other rest).map (· + 1)).map (· + before.length) =
        (offsets other rest).map (· + (before.length + 1)) := by
      rw [List.map_map]
      apply List.map_congr_left
      intro place _
      simp only [Function.comp_apply]
      omega
    rw [← hshift]
    simp only [offsetsFrom, Nesting.step_top hs, true_and]
    split
    · rw [List.map_cons, Nat.zero_add]
      rfl
    · rfl
  rw [offsets, offsetsFrom_append, show Nesting.top.after before = Nesting.top from hclosed, hlater,
    List.append_assoc]
  rfl

theorem offsets_beyond (hs : isSeparator separator) {before : List Char} (hclosed : Closed before)
    (rest : List Char) (other : Char) :
    (offsets other (before ++ separator :: rest)).filter (before.length < ·) =
      (offsets other rest).map (· + (before.length + 1)) := by
  have hbefore : (offsets other before).filter (before.length < ·) = [] := by
    rw [List.filter_eq_nil_iff]
    intro place hplace
    have hlt := lt_length_of_mem_offsetsFrom hplace
    simp only [decide_eq_true_eq]
    omega
  have hsep : (if separator = other then [before.length] else []).filter (before.length < ·) = [] := by
    split <;> simp
  have hrest : ((offsets other rest).map (· + (before.length + 1))).filter (before.length < ·) =
      (offsets other rest).map (· + (before.length + 1)) := by
    rw [List.filter_eq_self]
    intro place hplace
    obtain ⟨inner, -, rfl⟩ := List.mem_map.mp hplace
    simp only [decide_eq_true_eq]
    omega
  rw [offsets_append_separator hs hclosed, List.filter_append, List.filter_append, hbefore, hsep, hrest]
  rfl

/-- The first place that counts is where the text is broken. -/
theorem head?_offsets (hs : isSeparator separator) (cs : List Char) :
    (offsets separator cs).head? = (breakAtTop separator cs).map fun pair => pair.1.length := by
  cases hbreak : breakAtTop separator cs with
  | none =>
    rw [offsets, breakFrom_eq_none hbreak]
    rfl
  | some pair =>
    obtain ⟨before, rest⟩ := pair
    obtain ⟨hcs, hclosed, hoffsets⟩ := breakAtTop_eq_some hbreak
    rw [hcs, offsets_append_separator hs hclosed, hoffsets, if_pos rfl]
    rfl

/-- **A text is divided without loss, and each part can be read by itself.** The parts joined by the
separator are the text, in none of them does a separator count, and all but the last are closed. A text is
broken where the first separator counts, if one does: what is before it is closed and no separator counts
there, and the separators of any kind that count behind it are those that count in the rest of the text
read by itself. -/
theorem divided_locally (hs : isSeparator separator) (cs : List Char) :
    [separator].intercalate (splitAtTop separator cs) = cs ∧
    (∀ part ∈ splitAtTop separator cs, offsets separator part = []) ∧
    (∀ part ∈ (splitAtTop separator cs).dropLast, Closed part) ∧
    (offsets separator cs).head? = (breakAtTop separator cs).map (fun pair => pair.1.length) ∧
    ∀ before rest, breakAtTop separator cs = some (before, rest) →
      cs = before ++ separator :: rest ∧ offsets separator before = [] ∧ Closed before ∧
      ∀ other, (offsets other cs).filter (before.length < ·) =
        (offsets other rest).map (· + (before.length + 1)) := by
  refine ⟨intercalate_splitAtTop hs cs, fun part hpart => offsets_of_mem_splitAtTop hs hpart,
    fun part hpart => closed_of_mem_dropLast hs hpart, head?_offsets hs cs, ?_⟩
  intro before rest hbreak
  obtain ⟨rfl, hclosed, hoffsets⟩ := breakAtTop_eq_some hbreak
  exact ⟨rfl, hoffsets, hclosed, offsets_beyond hs hclosed rest⟩

/-- Separators in a string behind an escaped mark, behind a parenthesis that closes nothing, and in one that
is left open. -/
theorem divided_locally_open :
    isSeparator ';' ∧ isSeparator ':' ∧
      splitAtTop ';' "é): \"\\\";:\";b: (;:".toList = ["é): \"\\\";:\"".toList, "b: (;:".toList] ∧
      [';'].intercalate ["é): \"\\\";:\"".toList, "b: (;:".toList] = "é): \"\\\";:\";b: (;:".toList ∧
      Closed "é): \"\\\";:\"".toList ∧
      breakAtTop ':' "é): \"\\\";:\";b: (;:".toList = some ("é)".toList, " \"\\\";:\";b: (;:".toList) ∧
      (offsets ':' "é): \"\\\";:\";b: (;:".toList).filter ("é)".toList.length < ·) =
        (offsets ':' " \"\\\";:\";b: (;:".toList).map (· + ("é)".toList.length + 1)) := by
  have hsemicolon : isSeparator ';' := by decide
  have hcolon : isSeparator ':' := by decide
  have hsplit : splitAtTop ';' "é): \"\\\";:\";b: (;:".toList =
      ["é): \"\\\";:\"".toList, "b: (;:".toList] := by decide
  have hbreak : breakAtTop ':' "é): \"\\\";:\";b: (;:".toList =
      some ("é)".toList, " \"\\\";:\";b: (;:".toList) := by decide
  obtain ⟨hjoined, -, hclosed, -⟩ := divided_locally hsemicolon "é): \"\\\";:\";b: (;:".toList
  obtain ⟨-, -, -, -, haround⟩ := divided_locally hcolon "é): \"\\\";:\";b: (;:".toList
  rw [hsplit] at hjoined hclosed
  exact ⟨hsemicolon, hcolon, hsplit, hjoined, hclosed _ List.mem_cons_self, hbreak,
    (haround _ _ hbreak).2.2.2 ':'⟩

end StyleSync.Text
