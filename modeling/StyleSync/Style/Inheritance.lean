import StyleSync.Fault
import StyleSync.Style.Role

/-! # Inheritance between entries

An entry that names a base takes over every key of the base. The keys of the base come first, in their
order; a key of its own replaces the base's value in place or follows at the end; nested blocks are
taken over whole. The base is resolved first, so that chains of bases work.

`resolve` resolves all entries of a description. Blocks that were merged once are kept in a table and
not merged again.
-/

set_option autoImplicit false

namespace StyleSync

/-- The entries that a block puts over those of its base: all but the naming of the base. -/
def Block.ownEntries (block : Block) : Entries Value :=
  block.entries.filter fun entry => (Role.of entry.1 entry.2).base?.isNone

/-- A block put over its base. -/
def Block.over (own base : Block) : Block :=
  base.insertAll own.ownEntries

namespace Inheritance

/-- The merged blocks of the entries that were resolved so far. -/
abbrev Table := Entries Block

/-- The resolved block of an entry, and the table after it. `chain` has the entries from the one that
was asked for to the one before, and `unvisited` the names that are neither on the chain nor the
entry's own. -/
def resolveEntry (description : Description) (table : Table) (chain unvisited : List String)
    (name : String) (block : Block) : Except Fault (Block × Table) :=
  match table.get? name with
  | some merged => .ok (merged, table)
  | none =>
    match block.base? with
    | none => .ok (block, table)
    | some target =>
      match description.get? target with
      | none => .error (.unknownBase name target)
      | some base =>
        if target ∈ unvisited then
          match resolveEntry description table (chain ++ [name]) (unvisited.erase target) target
              base with
          | .error fault => .error fault
          | .ok (inherited, table) =>
            let merged := block.over inherited
            .ok (merged, table.insert name merged)
        else
          .error (.baseCycle (chain ++ [name, target]))
termination_by unvisited.length
decreasing_by
  next h =>
    rw [List.length_erase_of_mem h]
    have := List.length_pos_of_mem h
    omega

/-- The resolved blocks of some entries, in order. -/
def resolveEntries (description : Description) (table : Table) :
    Entries Block → Except Fault (Entries Block)
  | [] => .ok []
  | (name, block) :: rest => do
    let (merged, table) ←
      resolveEntry description table [] (description.keys.erase name) name block
    let resolved ← resolveEntries description table rest
    return (name, merged) :: resolved

end Inheritance

/-- The resolved blocks of all entries, in order. The first entry that cannot be resolved decides the
fault. -/
def Description.resolve (description : Description) : Except Fault (Entries Block) :=
  Inheritance.resolveEntries description [] description.entries

end StyleSync
