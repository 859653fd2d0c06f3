import Mathlib.Data.List.Perm.Basic

/-! # The last entry that counts

A rule meets the last record with its key, and of several values of a property the last one counts.

* `exists_last`: a list divided at the last entry that a test accepts;
* `eraseLast`: the list without this entry;
* `last?`: the last answer that a function gives on a list.
-/

set_option autoImplicit false

namespace StyleSync

section Lists

variable {α β : Type} {p q : α → Bool}

/-- The list without the last entry that a test accepts; the list itself if there is none. -/
def eraseLast (p : α → Bool) (l : List α) : List α :=
  (l.reverse.eraseP p).reverse

theorem eraseLast_of_not {l : List α} (h : ∀ a ∈ l, ¬p a) : eraseLast p l = l := by
  rw [eraseLast, List.eraseP_of_forall_not (by simpa using h), List.reverse_reverse]

/-- What is erased stands before all that the test refuses. -/
theorem eraseLast_append_cons {a : α} (ha : p a) (before : List α) {after : List α}
    (h : ∀ b ∈ after, ¬p b) : eraseLast p (before ++ a :: after) = before ++ after := by
  have hafter : ∀ b ∈ after.reverse, ¬p b := by simpa using h
  rw [eraseLast, List.reverse_append, List.reverse_cons, List.append_assoc,
    List.eraseP_append_right _ hafter, List.singleton_append, List.eraseP_cons_of_pos ha]
  simp

theorem eraseLast_comm (h : ∀ a, ¬p a ∨ ¬q a) (l : List α) :
    eraseLast p (eraseLast q l) = eraseLast q (eraseLast p l) := by
  simp only [eraseLast, List.reverse_reverse]
  rw [List.eraseP_comm fun a _ => h a]

/-! ## Looking for the last entry -/

theorem find?_reverse_of_not {l : List α} (h : ∀ a ∈ l, ¬p a) : l.reverse.find? p = none := by
  rw [List.find?_eq_none]
  exact fun a ha => h a (List.mem_reverse.mp ha)

theorem find?_reverse_append_cons {a : α} (ha : p a) (before : List α) {after : List α}
    (h : ∀ b ∈ after, ¬p b) : (before ++ a :: after).reverse.find? p = some a := by
  rw [List.reverse_append, List.reverse_cons, List.append_assoc, List.find?_append,
    find?_reverse_of_not h]
  simp [ha]

theorem exists_last (p : α → Bool) (l : List α) :
    (∀ a ∈ l, ¬p a) ∨
      ∃ before a after, l = before ++ a :: after ∧ p a ∧ ∀ b ∈ after, ¬p b := by
  induction l with
  | nil => simp
  | cons a l ih =>
    rcases ih with hnone | ⟨before, b, after, rfl, hb, hafter⟩
    · by_cases ha : p a
      · exact Or.inr ⟨[], a, l, rfl, ha, hnone⟩
      · exact Or.inl (by simpa [ha] using hnone)
    · exact Or.inr ⟨a :: before, b, after, rfl, hb, hafter⟩

theorem find?_eraseP {l : List α} (h : ∀ a, p a → ¬q a) : (l.eraseP p).find? q = l.find? q := by
  induction l with
  | nil => rfl
  | cons a l ih =>
    by_cases ha : p a
    · rw [List.eraseP_cons_of_pos ha, List.find?_cons_of_neg (h a ha)]
    · rw [List.eraseP_cons_of_neg ha, List.find?_cons, List.find?_cons, ih]

theorem find?_reverse_eraseLast {l : List α} (h : ∀ a, p a → ¬q a) :
    (eraseLast p l).reverse.find? q = l.reverse.find? q := by
  rw [eraseLast, List.reverse_reverse, find?_eraseP h]

theorem eraseLast_eq_filter {l : List α} (h : l.Pairwise fun a b => p a → ¬p b) :
    eraseLast p l = l.filter (!p ·) := by
  rcases exists_last p l with hnone | ⟨before, a, after, rfl, ha, hafter⟩
  · rw [eraseLast_of_not hnone, List.filter_eq_self.mpr]
    simpa using hnone
  · rw [List.pairwise_append] at h
    have hbefore : ∀ b ∈ before, ¬p b := fun b hb hpb => h.2.2 b hb a List.mem_cons_self hpb ha
    rw [eraseLast_append_cons ha before hafter, List.filter_append,
      List.filter_cons_of_neg (by simp [ha]), List.filter_eq_self.mpr (by simpa using hbefore),
      List.filter_eq_self.mpr (by simpa using hafter)]

/-! ## The last answer -/

/-- The last answer that a function gives on a list. -/
def last? (f : α → Option β) (l : List α) : Option β :=
  l.reverse.findSome? f

theorem last?_append (f : α → Option β) (as bs : List α) :
    last? f (as ++ bs) = (last? f bs).or (last? f as) := by
  rw [last?, List.reverse_append, List.findSome?_append, last?, last?]

theorem last?_cons (f : α → Option β) (a : α) (l : List α) :
    last? f (a :: l) = (last? f l).or (f a) := by
  have hsingle : last? f [a] = f a := by simp [last?, List.findSome?_singleton]
  rw [← List.singleton_append, last?_append, hsingle]

theorem last?_eq_none {f : α → Option β} {l : List α} (h : ∀ a ∈ l, f a = none) :
    last? f l = none := by
  rw [last?, List.findSome?_eq_none_iff]
  exact fun a ha => h a (List.mem_reverse.mp ha)

theorem last?_eraseLast_of_none {f : α → Option β} (h : ∀ a, p a → f a = none) (l : List α) :
    last? f (eraseLast p l) = last? f l := by
  rcases exists_last p l with hnot | ⟨before, a, after, rfl, ha, hafter⟩
  · rw [eraseLast_of_not hnot]
  · rw [eraseLast_append_cons ha before hafter, last?_append, last?_append, last?_cons, h a ha,
      Option.or_none]

/-- Where only entries that a test accepts have answers, the last of them answers first. -/
theorem last?_eq_or_eraseLast {f : α → Option β} (h : ∀ a, ¬p a → f a = none) (l : List α) :
    last? f l = ((l.reverse.find? p).bind f).or (last? f (eraseLast p l)) := by
  rcases exists_last p l with hnot | ⟨before, a, after, rfl, ha, hafter⟩
  · rw [find?_reverse_of_not hnot, eraseLast_of_not hnot, Option.bind_none, Option.none_or]
  · have hnone : last? f after = none := last?_eq_none fun b hb => h b (hafter b hb)
    rw [find?_reverse_append_cons ha before hafter, eraseLast_append_cons ha before hafter,
      last?_append, last?_append, last?_cons, hnone, Option.bind_some, Option.none_or,
      Option.none_or]

end Lists

end StyleSync
