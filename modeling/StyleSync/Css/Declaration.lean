import StyleSync.Text.Blank
import StyleSync.Text.Nesting

/-! # Declarations

A declaration gives a property a value. Lists of declarations are merged property by property: what
comes later wins, and a property keeps the place where it first stood. `Declaration.parse` and
`Declaration.render` read and write the text of a declaration block.
-/

set_option autoImplicit false

namespace StyleSync

open Text

/-- A property with its value. -/
structure Declaration where
  property : String
  value : String
deriving Repr, DecidableEq, Inhabited

namespace Declaration

/-! ## Merging -/

/-- Declare a property anew: in its place if it is declared, else at the end. -/
def put (new : Declaration) : List Declaration → List Declaration
  | [] => [new]
  | old :: rest =>
    if old.property = new.property then { old with value := new.value } :: rest
    else old :: put new rest

/-- The old declarations with every new one put in turn. -/
def merge (old new : List Declaration) : List Declaration :=
  new.foldl (fun acc declaration => put declaration acc) old

@[simp] theorem merge_nil (old : List Declaration) : merge old [] = old := rfl

@[simp] theorem merge_cons (old : List Declaration) (new : Declaration) (rest : List Declaration) :
    merge old (new :: rest) = merge (put new old) rest := rfl

theorem merge_append (old as bs : List Declaration) :
    merge old (as ++ bs) = merge (merge old as) bs := by
  simp [merge]

/-- Declaring a property anew adds it at the end, unless it is declared. -/
theorem map_property_put (new : Declaration) (declarations : List Declaration) :
    (put new declarations).map property =
      if new.property ∈ declarations.map property then declarations.map property
      else declarations.map property ++ [new.property] := by
  induction declarations with
  | nil => simp [put]
  | cons old rest ih =>
    by_cases h : old.property = new.property
    · simp [put, h]
    · have h' : new.property ≠ old.property := fun e => h e.symm
      by_cases hm : new.property ∈ rest.map property
      · rw [if_pos hm] at ih
        rw [if_pos (by simp only [List.map_cons]; exact List.mem_cons_of_mem _ hm)]
        simp [put, h, ih]
      · rw [if_neg hm] at ih
        rw [if_neg (by simp only [List.map_cons, List.mem_cons, not_or]; exact ⟨h', hm⟩)]
        simp [put, h, ih]

/-! ## Text -/

/-- A declaration as it stands in a block. -/
def text (declaration : Declaration) : String :=
  declaration.property ++ ": " ++ declaration.value

/-- The text of a declaration block: a semicolon behind each declaration, nothing for none. -/
def render (declarations : List Declaration) : String :=
  match declarations with
  | [] => ""
  | declarations => "; ".intercalate (declarations.map text) ++ ";"

/-- The declaration that an item of a block spells: what stands before and after the first colon,
without the blanks around it. An item without a colon or without a property spells none. -/
def ofItem? (item : List Char) : Option Declaration :=
  match breakAtTop ':' item with
  | none => none
  | some (before, after) =>
    match trimChars before with
    | [] => none
    | property => some ⟨String.ofList property, String.ofList (trimChars after)⟩

/-- The declarations that the text of a block spells, in order. -/
def items (block : String) : List Declaration :=
  (splitAtTop ';' block.toList).filterMap ofItem?

/-- The declarations of a block: a repeated property has its first place and its last value. -/
def parse (block : String) : List Declaration :=
  merge [] (items block)

end Declaration

/-! ## Braces -/

/-- A prelude with a block in braces. -/
def braced (prelude block : String) : String :=
  if block = "" then prelude ++ " \x7b \x7d"
  else prelude ++ " \x7b " ++ block ++ " \x7d"

end StyleSync
