/-! # Quotes and parentheses

A separator divides a text only where it stands outside quotes and parentheses. `Nesting` is what has
to be remembered of the characters read so far, `splitAtTop` divides a text at every such separator,
and `breakAtTop` divides it at the first.
-/

set_option autoImplicit false

namespace StyleSync.Text

/-- Where a reader of a text stands: outside quotes, or inside a quoted string. -/
inductive Nesting
  /-- Outside quotes, inside `depth` parentheses. -/
  | plain (depth : Nat)
  /-- Inside a string that `mark` closes; `escaped` if a backslash came last. -/
  | quoted (depth : Nat) (mark : Char) (escaped : Bool)
deriving Repr, DecidableEq

namespace Nesting

/-- Outside quotes and parentheses. -/
def top : Nesting := .plain 0

/-- Where the reader stands after one more character. A parenthesis that closes nothing is passed
over, and parentheses inside a string do not count. -/
def step : Nesting → Char → Nesting
  | .plain depth, c =>
    if c = '"' ∨ c = '\'' then .quoted depth c false
    else if c = '(' then .plain (depth + 1)
    else if c = ')' then .plain (depth - 1)
    else .plain depth
  | .quoted depth mark true, _ => .quoted depth mark false
  | .quoted depth mark false, c =>
    if c = '\\' then .quoted depth mark true
    else if c = mark then .plain depth
    else .quoted depth mark false

/-- Where the reader stands after a text. -/
def after (start : Nesting) (cs : List Char) : Nesting :=
  cs.foldl step start

@[simp] theorem after_nil (start : Nesting) : start.after [] = start := rfl

@[simp] theorem after_cons (start : Nesting) (c : Char) (cs : List Char) :
    start.after (c :: cs) = (start.step c).after cs := rfl

theorem after_append (start : Nesting) (as bs : List Char) :
    start.after (as ++ bs) = (start.after as).after bs := by
  simp [after]

end Nesting

/-- Whether a character can separate: it is no quote and no parenthesis. -/
def isSeparator (c : Char) : Bool :=
  c != '"' && c != '\'' && c != '(' && c != ')'

/-- A separator outside quotes and parentheses leaves the reader there. -/
theorem Nesting.step_top {c : Char} (h : isSeparator c) : Nesting.top.step c = Nesting.top := by
  simp only [isSeparator, Bool.and_eq_true, bne_iff_ne] at h
  obtain ⟨⟨⟨h1, h2⟩, h3⟩, h4⟩ := h
  simp [Nesting.top, Nesting.step, h1, h2, h3, h4]

/-! ## Dividing at a separator -/

/-- The parts between the separators outside quotes and parentheses, for a reader that stands at
`start`. -/
def splitFrom (separator : Char) (start : Nesting) : List Char → List (List Char)
  | [] => [[]]
  | c :: cs =>
    if start = Nesting.top ∧ c = separator then
      [] :: splitFrom separator (start.step c) cs
    else
      match splitFrom separator (start.step c) cs with
      | [] => [[c]]
      | part :: parts => (c :: part) :: parts

theorem splitFrom_ne_nil (separator : Char) (start : Nesting) (cs : List Char) :
    splitFrom separator start cs ≠ [] := by
  cases cs with
  | nil => simp [splitFrom]
  | cons c cs =>
    rw [splitFrom]
    split
    · simp
    · split <;> simp

/-- The parts of a text between the separators outside quotes and parentheses. -/
def splitAtTop (separator : Char) (cs : List Char) : List (List Char) :=
  splitFrom separator .top cs

/-- The texts before and after the first separator outside quotes and parentheses, for a reader that
stands at `start`. -/
def breakFrom (separator : Char) (start : Nesting) : List Char → Option (List Char × List Char)
  | [] => none
  | c :: cs =>
    if start = Nesting.top ∧ c = separator then
      some ([], cs)
    else
      (breakFrom separator (start.step c) cs).map fun (before, rest) => (c :: before, rest)

/-- The texts before and after the first separator outside quotes and parentheses, if there is one. -/
def breakAtTop (separator : Char) (cs : List Char) : Option (List Char × List Char) :=
  breakFrom separator .top cs

end StyleSync.Text
