import Mathlib.Data.Finset.Card
import StyleSync.Proofs.LastEntry
import StyleSync.Style.Block

/-! # Insertion order

Blocks and descriptions are filled key by key, or from a whole list of pairs. Whatever the mix, only the
pairs count:

* `entries_fillAll`: the entries are those of a list into which every pair was set in turn;
* `keys_insertAll_nil`, `get?_insertAll_eq`: its keys come in the order in which they first came, and the
  value under a key is the last that was set under it;
* `filled_in_order`: so it is for blocks and for descriptions.
-/

set_option autoImplicit false

namespace StyleSync

variable {β : Type}

namespace Entries

/-! ## Pairs set in turn -/

/-- The value of the last pair with a key. -/
def lastValue? (key : String) (pairs : Entries β) : Option β :=
  last? (fun pair => if pair.1 = key then some pair.2 else none) pairs

theorem get?_insertAll_eq (entries pairs : Entries β) (key : String) :
    (entries.insertAll pairs).get? key = (lastValue? key pairs).or (entries.get? key) := by
  induction pairs generalizing entries with
  | nil => rfl
  | cons pair rest ih =>
    have hcons : lastValue? key (pair :: rest) =
        (lastValue? key rest).or (if pair.1 = key then some pair.2 else none) := last?_cons _ pair rest
    rw [insertAll_cons, ih, hcons, Option.or_assoc]
    by_cases hkey : pair.1 = key
    · rw [if_pos hkey, hkey, get?_insert_self, Option.some_or]
    · rw [if_neg hkey, get?_insert_of_ne hkey, Option.none_or]

theorem keys_insertAll_nil (pairs : Entries β) :
    keys (insertAll [] pairs) = pairs.keys.eraseDups := by
  induction pairs using List.reverseRecOn with
  | nil => rfl
  | append_singleton pairs pair ih =>
    have hkeys : keys (pairs ++ [pair]) = keys pairs ++ [pair.1] := List.map_append
    rw [insertAll_append, insertAll_cons, insertAll_nil, keys_insert, ih, hkeys, List.eraseDups_append]
    by_cases hmem : pair.1 ∈ keys pairs
    · rw [if_pos (List.mem_eraseDups.mpr hmem)]
      simp [List.removeAll, hmem]
    · rw [if_neg (fun h => hmem (List.mem_eraseDups.mp h))]
      simp [List.removeAll, hmem, List.eraseDups_cons]

theorem length_insertAll_nil (pairs : Entries β) :
    (insertAll [] pairs).length = pairs.keys.toFinset.card := by
  have hnodup : (keys (insertAll [] pairs)).Nodup := nodup_keys_insertAll [] pairs List.nodup_nil
  have hsame : (keys (insertAll [] pairs)).toFinset = pairs.keys.toFinset := by
    ext key
    rw [List.mem_toFinset, List.mem_toFinset, keys_insertAll_nil, List.mem_eraseDups]
  rw [← hsame, List.toFinset_card_of_nodup hnodup, keys, List.length_map]

end Entries

/-! ## What a filled map shows -/

/-- What a map shows that was filled with pairs: its entries in order, the value that is found under a key,
and the number of its entries. -/
structure FilledWith (pairs entries : Entries β) (lookup : String → Option β) (count : ℕ) : Prop where
  nodup : entries.keys.Nodup
  keys_eq : entries.keys = pairs.keys.eraseDups
  value_of_mem : ∀ entry ∈ entries, Entries.lastValue? entry.1 pairs = some entry.2
  lookup_eq : ∀ key, lookup key = Entries.lastValue? key pairs
  isSome_lookup : ∀ key, (lookup key).isSome ↔ key ∈ pairs.keys
  count_eq : count = pairs.keys.toFinset.card

theorem filledWith_insertAll (pairs : Entries β) :
    FilledWith pairs (Entries.insertAll [] pairs) (fun key => (Entries.insertAll [] pairs).get? key)
      (Entries.insertAll [] pairs).length := by
  have hnodup : (Entries.insertAll [] pairs).keys.Nodup :=
    Entries.nodup_keys_insertAll [] pairs List.nodup_nil
  have hget : ∀ key, (Entries.insertAll [] pairs).get? key = Entries.lastValue? key pairs := by
    intro key
    rw [Entries.get?_insertAll_eq, Entries.get?, Option.or_none]
  refine ⟨hnodup, Entries.keys_insertAll_nil pairs, ?_, hget, ?_, Entries.length_insertAll_nil pairs⟩
  · intro entry hentry
    rw [← hget]
    exact Entries.get?_of_mem hnodup hentry
  · intro key
    rw [Entries.isSome_get?, Entries.keys_insertAll_nil, List.mem_eraseDups]

/-! ## Filling a map -/

/-- How pairs come into a map: one is set, or all of a list are collected into an empty one. -/
inductive Filling (β : Type) where
  | set (key : String) (value : β)
  | collect (pairs : Entries β)

namespace Filling

/-- The pairs that a map is filled with after one more step. -/
def pairsAfter (pairs : Entries β) : Filling β → Entries β
  | .set key value => pairs ++ [(key, value)]
  | .collect collected => collected

variable {μ : Type}

/-- One step on a map, given how a key of it is set and how it is made of a list. -/
def fill (insert : μ → String → β → μ) (ofList : Entries β → μ) (map : μ) : Filling β → μ
  | .set key value => insert map key value
  | .collect collected => ofList collected

/-- The pairs that a map is filled with by steps from an empty one. -/
def pairs (steps : List (Filling β)) : Entries β :=
  steps.foldl pairsAfter []

/-- The block that steps make of the empty one. -/
def block (steps : List (Filling Value)) : Block :=
  steps.foldl (fill Block.insert Block.ofList) ∅

/-- The description that steps make of the empty one. -/
def description (steps : List (Filling Block)) : Description :=
  steps.foldl (fill OrderedMap.insert OrderedMap.ofList) ∅

section Entries

variable {insert : μ → String → β → μ} {ofList : Entries β → μ} {entries : μ → Entries β}
  (hinsert : ∀ map key value, entries (insert map key value) = (entries map).insert key value)
  (hofList : ∀ collected, entries (ofList collected) = Entries.insertAll [] collected)

include hinsert hofList

theorem entries_fill {map : μ} {before : Entries β} (h : entries map = Entries.insertAll [] before)
    (step : Filling β) :
    entries (fill insert ofList map step) = Entries.insertAll [] (pairsAfter before step) := by
  cases step with
  | set key value =>
    rw [fill, hinsert, h, pairsAfter, Entries.insertAll_append]
    rfl
  | collect collected => exact hofList collected

theorem entries_fillAll {empty : μ} (hempty : entries empty = []) (steps : List (Filling β)) :
    entries (steps.foldl (fill insert ofList) empty) = Entries.insertAll [] (pairs steps) := by
  induction steps using List.reverseRecOn with
  | nil => exact hempty
  | append_singleton steps step ih =>
    rw [pairs, List.foldl_append, List.foldl_append]
    exact entries_fill hinsert hofList ih step

end Entries

theorem entries_block (steps : List (Filling Value)) :
    (block steps).entries = Entries.insertAll [] (pairs steps) :=
  entries_fillAll Block.entries_insert (fun collected => Block.entries_insertAll .nil collected) rfl steps

theorem entries_description (steps : List (Filling Block)) :
    (description steps).entries = Entries.insertAll [] (pairs steps) :=
  entries_fillAll OrderedMap.entries_insert OrderedMap.entries_ofList rfl steps

/-- **Blocks and descriptions remember the order of insertion.** However one is filled, its keys are
distinct and come in the order in which they first came, each has the last value that was set under it, a key
is found just if it was set, and there are as many entries as distinct keys. -/
theorem filled_in_order :
    (∀ steps : List (Filling Value),
      FilledWith (pairs steps) (block steps).entries (block steps).get? (block steps).size) ∧
    ∀ steps : List (Filling Block),
      FilledWith (pairs steps) (description steps).entries (description steps).get?
        (description steps).size := by
  refine ⟨fun steps => ?_, fun steps => ?_⟩
  · have hfilled := filledWith_insertAll (pairs steps)
    rw [← entries_block] at hfilled
    exact hfilled
  · have hfilled := filledWith_insertAll (pairs steps)
    rw [← entries_description] at hfilled
    exact hfilled

/-- A key that is set again keeps its place. -/
example : (block [.collect [("a", .leaf (.text "1")), ("b", .leaf (.text "2"))],
    .set "a" (.leaf (.text "3"))]).entries = [("a", .leaf (.text "3")), ("b", .leaf (.text "2"))] := by
  decide

end Filling

end StyleSync
