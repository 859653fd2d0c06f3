import StyleSync.Text.Nesting

/-! # Separators outside quotes and parentheses

`offsets separator cs` has the places where a separator counts, and `Closed cs` says that a reader of
the whole text ends where it began, outside quotes and parentheses. How a concatenation is read:

* `after_append` and `offsetsFrom_append`: the second part is read from where the first part ends;
* `splitFrom_append`, `breakFrom_append`: what divides the second part divides the whole, as long as
  nothing divides the first;
* `splitAtTop_append_separator`, `breakAtTop_append_separator`: a separator behind a closed part that
  it does not divide ends that part.
-/

set_option autoImplicit false

namespace StyleSync.Text

/-! ## Places of a separator -/

/-- The places at which a separator stands outside quotes and parentheses, for a reader that stands at
`start`. -/
def offsetsFrom (separator : Char) (start : Nesting) : List Char → List Nat
  | [] => []
  | c :: cs =>
    let later := (offsetsFrom separator (start.step c) cs).map (· + 1)
    if start = Nesting.top ∧ c = separator then 0 :: later else later

/-- The places at which a separator stands outside quotes and parentheses. -/
def offsets (separator : Char) (cs : List Char) : List Nat :=
  offsetsFrom separator .top cs

theorem offsetsFrom_cons_eq_nil_iff {separator c : Char} {start : Nesting} {cs : List Char} :
    offsetsFrom separator start (c :: cs) = [] ↔
      ¬(start = Nesting.top ∧ c = separator) ∧ offsetsFrom separator (start.step c) cs = [] := by
  simp only [offsetsFrom]
  split
  · next h => simp [h]
  · next h => simp [h]

theorem offsetsFrom_append (separator : Char) (start : Nesting) (as bs : List Char) :
    offsetsFrom separator start (as ++ bs) =
      offsetsFrom separator start as ++
        (offsetsFrom separator (start.after as) bs).map (· + as.length) := by
  induction as generalizing start with
  | nil => simp [offsetsFrom]
  | cons c as ih =>
    have hmap :
        ((offsetsFrom separator ((start.step c).after as) bs).map (· + as.length)).map (· + 1) =
          (offsetsFrom separator ((start.step c).after as) bs).map (· + (c :: as).length) := by
      rw [List.map_map]
      apply List.map_congr_left
      intro i _
      simp only [Function.comp_apply, List.length_cons]
      omega
    simp only [List.cons_append, offsetsFrom, ih, List.map_append, hmap, Nesting.after_cons]
    split <;> rfl

/-! ## Closed texts -/

/-- A reader of the text ends outside quotes and parentheses. -/
def Closed (cs : List Char) : Prop :=
  Nesting.top.after cs = Nesting.top

instance (cs : List Char) : Decidable (Closed cs) :=
  inferInstanceAs (Decidable (_ = _))

theorem Closed.append_iff {as bs : List Char} (ha : Closed as) : Closed (as ++ bs) ↔ Closed bs := by
  unfold Closed at *
  rw [Nesting.after_append, ha]

theorem closed_cons_iff {c : Char} (hc : isSeparator c) {cs : List Char} :
    Closed (c :: cs) ↔ Closed cs := by
  unfold Closed
  rw [Nesting.after_cons, Nesting.step_top hc]

theorem Closed.offsets_append_eq_nil_iff {separator : Char} {as bs : List Char} (ha : Closed as) :
    offsets separator (as ++ bs) = [] ↔ offsets separator as = [] ∧ offsets separator bs = [] := by
  unfold offsets
  rw [offsetsFrom_append, show Nesting.top.after as = Nesting.top from ha]
  simp

theorem offsets_cons_eq_nil_iff {separator c : Char} (hc : isSeparator c) {cs : List Char} :
    offsets separator (c :: cs) = [] ↔ c ≠ separator ∧ offsets separator cs = [] := by
  unfold offsets
  rw [offsetsFrom_cons_eq_nil_iff, Nesting.step_top hc]
  simp

/-! ## Dividing a concatenation -/

theorem splitFrom_append {separator : Char} {start : Nesting} {as : List Char}
    (h : offsetsFrom separator start as = []) (bs : List Char) :
    splitFrom separator start (as ++ bs) =
      match splitFrom separator (start.after as) bs with
      | [] => [as]
      | part :: parts => (as ++ part) :: parts := by
  induction as generalizing start with
  | nil =>
    simp only [List.nil_append, Nesting.after_nil]
    cases hs : splitFrom separator start bs with
    | nil => exact absurd hs (splitFrom_ne_nil separator start bs)
    | cons part parts => rfl
  | cons c as ih =>
    obtain ⟨hc, has⟩ := offsetsFrom_cons_eq_nil_iff.mp h
    rw [List.cons_append, splitFrom, if_neg hc, ih has, Nesting.after_cons]
    cases splitFrom separator ((start.step c).after as) bs <;> rfl

theorem breakFrom_append {separator : Char} {start : Nesting} {as : List Char}
    (h : offsetsFrom separator start as = []) (bs : List Char) :
    breakFrom separator start (as ++ bs) =
      (breakFrom separator (start.after as) bs).map fun (before, rest) => (as ++ before, rest) := by
  induction as generalizing start with
  | nil => simp
  | cons c as ih =>
    obtain ⟨hc, has⟩ := offsetsFrom_cons_eq_nil_iff.mp h
    rw [List.cons_append, breakFrom, if_neg hc, ih has, Nesting.after_cons, Option.map_map]
    rfl

/-- A separator ends a closed part that it does not divide. -/
theorem splitAtTop_append_separator {separator : Char} (hs : isSeparator separator)
    {part : List Char} (hclosed : Closed part) (h : offsets separator part = [])
    (rest : List Char) :
    splitAtTop separator (part ++ separator :: rest) = part :: splitAtTop separator rest := by
  unfold splitAtTop
  rw [splitFrom_append h, show Nesting.top.after part = Nesting.top from hclosed, splitFrom,
    if_pos ⟨rfl, rfl⟩, Nesting.step_top hs]
  simp

/-- The first separator is the one behind a closed part that it does not divide. -/
theorem breakAtTop_append_separator {separator : Char} {part : List Char} (hclosed : Closed part)
    (h : offsets separator part = []) (rest : List Char) :
    breakAtTop separator (part ++ separator :: rest) = some (part, rest) := by
  unfold breakAtTop
  rw [breakFrom_append h, show Nesting.top.after part = Nesting.top from hclosed, breakFrom,
    if_pos ⟨rfl, rfl⟩]
  simp

end StyleSync.Text
