import StyleSync.OrderedMap
import StyleSync.Numeric.Notation

/-! # Style blocks

A block maps keys to values in order. A value is a scalar, which ends up on the right-hand side of a
declaration, or a block nested under a selector or an at-rule. `Block` lists its entries one after
another, so that a definition or a proof by recursion on it reaches the nested blocks as well;
`entries` shows the same entries as pairs.
-/

set_option autoImplicit false

namespace StyleSync

/-! ## Scalars -/

/-- A value without structure. -/
inductive Scalar where
  | text (value : String)
  | number (value : Binary64)
deriving Repr, DecidableEq, Inhabited

namespace Scalar

/-- The text of a scalar in a declaration. -/
def render : Scalar → String
  | .text value => value
  | .number value => value.render

/-- Equality of scalars; numbers are equal as numbers, and a text is never equal to a number. -/
def same : Scalar → Scalar → Bool
  | .text a, .text b => a == b
  | .number a, .number b => a.same b
  | _, _ => false

end Scalar

/-! ## Blocks -/

/-- The entries of a block from the first on. -/
inductive Block where
  | nil
  /-- A scalar under a key. -/
  | leaf (key : String) (value : Scalar) (rest : Block)
  /-- A block under a key. -/
  | nest (key : String) (body : Block) (rest : Block)
deriving Repr, DecidableEq, Inhabited

/-- What a block holds under a key. -/
inductive Value where
  | leaf (value : Scalar)
  | block (body : Block)
deriving Repr, DecidableEq, Inhabited

namespace Block

/-- The block without entries. -/
instance : EmptyCollection Block := ⟨.nil⟩

/-- A further entry in front. -/
def cons (key : String) : Value → Block → Block
  | .leaf value, rest => .leaf key value rest
  | .block body, rest => .nest key body rest

/-- The entries in order. -/
def entries : Block → Entries Value
  | .nil => []
  | .leaf key value rest => (key, .leaf value) :: rest.entries
  | .nest key body rest => (key, .block body) :: rest.entries

/-- The block with the given entries. -/
def ofEntries : Entries Value → Block
  | [] => .nil
  | (key, value) :: rest => cons key value (ofEntries rest)

@[simp] theorem entries_nil : Block.nil.entries = [] := rfl

@[simp] theorem entries_cons (key : String) (value : Value) (rest : Block) :
    (cons key value rest).entries = (key, value) :: rest.entries := by
  cases value <;> rfl

@[simp] theorem entries_ofEntries (pairs : Entries Value) : (ofEntries pairs).entries = pairs := by
  induction pairs with
  | nil => rfl
  | cons pair rest ih => simp [ofEntries, ih]

@[simp] theorem ofEntries_entries (block : Block) : ofEntries block.entries = block := by
  induction block with
  | nil => rfl
  | leaf key value rest ih => simp [entries, ofEntries, cons, ih]
  | nest key body rest _ ih => simp [entries, ofEntries, cons, ih]

/-! ## Operations -/

/-- The keys in order. -/
def keys (block : Block) : List String :=
  block.entries.keys

/-- The number of entries. -/
def size (block : Block) : Nat :=
  block.entries.length

/-- The value under a key. -/
def get? (block : Block) (key : String) : Option Value :=
  block.entries.get? key

/-- Set a key: in its place if it is there, else at the end. -/
def insert (block : Block) (key : String) (value : Value) : Block :=
  ofEntries (block.entries.insert key value)

/-- Set every pair in turn. -/
def insertAll (block : Block) (pairs : Entries Value) : Block :=
  ofEntries (block.entries.insertAll pairs)

/-- The block that results from setting every pair in turn. -/
def ofList (pairs : Entries Value) : Block :=
  Block.nil.insertAll pairs

@[simp] theorem entries_insert (block : Block) (key : String) (value : Value) :
    (block.insert key value).entries = block.entries.insert key value := by
  simp [insert]

@[simp] theorem entries_insertAll (block : Block) (pairs : Entries Value) :
    (block.insertAll pairs).entries = block.entries.insertAll pairs := by
  simp [insertAll]

theorem ofList_of_nodup {pairs : Entries Value} (h : pairs.keys.Nodup) :
    ofList pairs = ofEntries pairs := by
  have hentries : Entries.insertAll [] pairs = pairs := Entries.insertAll_of_nodup h
  rw [ofList, insertAll, entries_nil, hentries]

/-- Equality of blocks: the same keys in the same order with equal values. -/
def same : Block → Block → Bool
  | .nil, .nil => true
  | .leaf key value rest, .leaf key' value' rest' =>
    key == key' && value.same value' && rest.same rest'
  | .nest key body rest, .nest key' body' rest' =>
    key == key' && body.same body' && rest.same rest'
  | _, _ => false

/-! ## Size -/

/-- A measure of a block that exceeds the measures of the blocks nested in it taken together. -/
def weight : Block → Nat
  | .nil => 1
  | .leaf _ _ rest => rest.weight + 1
  | .nest _ body rest => body.weight + rest.weight

theorem weight_pos (block : Block) : 0 < block.weight := by
  induction block with
  | nil => exact Nat.one_pos
  | leaf _ _ rest _ => exact Nat.succ_pos _
  | nest _ body rest ihBody _ => exact Nat.add_pos_left ihBody _

end Block

/-! ## Descriptions -/

/-- A description: blocks under the names of their entries. The names become parts of class names, and
entries can inherit from one another by name. -/
abbrev Description := OrderedMap Block

namespace Description

/-- Equality of lists of named blocks: the same names in the same order with equal blocks. -/
def sameEntries : Entries Block → Entries Block → Bool
  | [], [] => true
  | (name, block) :: rest, (name', block') :: rest' =>
    name == name' && block.same block' && sameEntries rest rest'
  | _, _ => false

/-- Equality of descriptions: the same names in the same order with equal blocks. -/
def same (a b : Description) : Bool :=
  sameEntries a.entries b.entries

end Description

end StyleSync
