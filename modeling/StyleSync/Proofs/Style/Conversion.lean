import Mathlib.Data.List.Forall2
import StyleSync.Proofs.Numeric.Rounding
import StyleSync.Style.OfJson

/-! # What JSON spells

A value of an object that is neither a scalar nor an object does not fit into a block, and in a
description none fits that is not an object. Stated here:

* `Json.reached`: the fields that are reached through objects, depth first, and `Json.unfitKeys`: the keys
  of those that do not fit, with `Description.unfitNames` for descriptions;
* `SpellsScalar`: what a text or a number spells, an integer the double nearest to it, and `Spells`: the
  block that fields spell, with the same keys in the same order at every depth; there is at most one
  (`Spells.unique`);
* `Outcome`: the first key that does not fit decides the fault, and without one there is a value; this is
  kept by conversions in turn (`Outcome.bind`);
* `Block.ofFields_outcome`, `Description.ofJson_outcome`: so it is the block that the fields spell, or the
  description of the blocks that they spell;
* `ofJson_exact`: all of this for blocks and for descriptions.
-/

set_option autoImplicit false

namespace StyleSync

/-! ## Scalars -/

/-- The scalar that a value spells. -/
inductive SpellsScalar : Json → Scalar → Prop
  | text (content : String) : SpellsScalar (.string content) (.text content)
  | integer {n : ℤ} {x : Binary64} : x.IsNearest n → SpellsScalar (.integer n) (.number x)
  | float (x : Binary64) : SpellsScalar (.float x) (.number x)

theorem SpellsScalar.unique {json : Json} {a b : Scalar} (ha : SpellsScalar json a)
    (hb : SpellsScalar json b) : a = b := by
  cases ha with
  | text | float => cases hb with | _ => rfl
  | integer ha =>
    cases hb with
    | integer hb => rw [ha.unique hb]

theorem spellsScalar_of_ofJson? {json : Json} {scalar : Scalar} (h : Scalar.ofJson? json = some scalar) :
    SpellsScalar json scalar := by
  cases json with
  | string content => exact Option.some.inj h ▸ .text content
  | integer n => exact Option.some.inj h ▸ .integer (Binary64.isNearest_ofInt n)
  | float x => exact Option.some.inj h ▸ .float x
  | null | bool | array | object => contradiction

/-! ## Fields -/

namespace Json

/-- The fields of an object. -/
def fields : Json → List (String × Json)
  | .object fields => fields
  | _ => []

/-- Whether a value is neither a scalar nor an object. -/
def unfit : Json → Bool
  | .null => true
  | .bool _ => true
  | .array _ => true
  | _ => false

mutual

/-- The fields inside a value, at any depth. -/
def inside : Json → List (String × Json)
  | .object fields => reached fields
  | _ => []

/-- Fields and those inside them, each one before those inside it. -/
def reached : List (String × Json) → List (String × Json)
  | [] => []
  | (key, json) :: rest => (key, json) :: (json.inside ++ reached rest)

end

/-- The keys of the values that do not fit into a block. -/
def unfitKeys (fields : List (String × Json)) : List String :=
  ((reached fields).filter (·.2.unfit)).map Prod.fst

/-- Whether no object among the fields has a key twice. -/
def Distinct (fields : List (String × Json)) : Prop :=
  (Entries.keys fields).Nodup ∧ ∀ field ∈ reached fields, (Entries.keys field.2.fields).Nodup

instance (fields : List (String × Json)) : Decidable (Distinct fields) :=
  inferInstanceAs (Decidable (_ ∧ _))

theorem fields_induction {motive : List (String × Json) → Prop} (nil : motive [])
    (leaf : ∀ key json scalar rest, Scalar.ofJson? json = some scalar → motive rest →
      motive ((key, json) :: rest))
    (nest : ∀ key inner rest, motive inner → motive rest → motive ((key, .object inner) :: rest))
    (unfit : ∀ key json rest, json.unfit → motive rest → motive ((key, json) :: rest)) :
    ∀ fields, motive fields
  | [] => nil
  | (key, .object inner) :: rest =>
    nest key inner rest (fields_induction nil leaf nest unfit inner)
      (fields_induction nil leaf nest unfit rest)
  | (key, .string _) :: rest => leaf key _ _ rest rfl (fields_induction nil leaf nest unfit rest)
  | (key, .integer _) :: rest => leaf key _ _ rest rfl (fields_induction nil leaf nest unfit rest)
  | (key, .float _) :: rest => leaf key _ _ rest rfl (fields_induction nil leaf nest unfit rest)
  | (key, .null) :: rest => unfit key _ rest rfl (fields_induction nil leaf nest unfit rest)
  | (key, .bool _) :: rest => unfit key _ rest rfl (fields_induction nil leaf nest unfit rest)
  | (key, .array _) :: rest => unfit key _ rest rfl (fields_induction nil leaf nest unfit rest)

section Keys

variable {key : String} {json : Json} {inner rest : List (String × Json)}

theorem reached_nest :
    reached ((key, .object inner) :: rest) = (key, .object inner) :: (reached inner ++ reached rest) := by
  rw [reached, inside]

theorem unfitKeys_leaf {scalar : Scalar} (h : Scalar.ofJson? json = some scalar) :
    unfitKeys ((key, json) :: rest) = unfitKeys rest := by
  cases json with
  | string | integer | float => simp [unfitKeys, reached, inside, unfit]
  | null | bool | array | object => contradiction

theorem unfitKeys_nest :
    unfitKeys ((key, .object inner) :: rest) = unfitKeys inner ++ unfitKeys rest := by
  simp [unfitKeys, reached_nest, unfit]

theorem unfitKeys_unfit (h : json.unfit) :
    unfitKeys ((key, json) :: rest) = key :: unfitKeys rest := by
  cases json with
  | null | bool | array => simp [unfitKeys, reached, inside, unfit]
  | string | integer | float | object => contradiction

theorem Distinct.of_cons (h : Distinct ((key, json) :: rest)) : Distinct rest := by
  obtain ⟨hkeys, hreached⟩ := h
  refine ⟨(List.nodup_cons.mp hkeys).2, fun field hfield => hreached field ?_⟩
  rw [reached]
  exact List.mem_cons_of_mem _ (List.mem_append_right _ hfield)

theorem Distinct.of_object (h : Distinct ((key, .object inner) :: rest)) : Distinct inner := by
  obtain ⟨-, hreached⟩ := h
  rw [reached_nest] at hreached
  refine ⟨hreached _ List.mem_cons_self, fun field hfield => hreached field ?_⟩
  exact List.mem_cons_of_mem _ (List.mem_append_left _ hfield)

end Keys

end Json

open Json

/-- The block that fields spell. -/
inductive Spells : List (String × Json) → Block → Prop
  | nil : Spells [] .nil
  | leaf {key : String} {json : Json} {scalar : Scalar} {rest : List (String × Json)} {block : Block} :
      SpellsScalar json scalar → Spells rest block →
      Spells ((key, json) :: rest) (.leaf key scalar block)
  | nest {key : String} {inner rest : List (String × Json)} {body block : Block} :
      Spells inner body → Spells rest block →
      Spells ((key, .object inner) :: rest) (.nest key body block)

theorem Spells.unique {fields : List (String × Json)} {a b : Block} (ha : Spells fields a)
    (hb : Spells fields b) : a = b := by
  induction ha generalizing b with
  | nil =>
    cases hb with
    | nil => rfl
  | leaf hscalar _ ih =>
    cases hb with
    | leaf hother hrest => rw [hscalar.unique hother, ih hrest]
    | nest => nomatch hscalar
  | nest _ _ ihBody ih =>
    cases hb with
    | leaf hother => nomatch hother
    | nest hbody hrest => rw [ihBody hbody, ih hrest]

/-- The named block that a field spells. -/
def SpellsBlock (field : String × Json) (entry : String × Block) : Prop :=
  field.1 = entry.1 ∧ ∃ inner, field.2 = .object inner ∧ Spells inner entry.2

theorem rightUnique_spellsBlock : Relator.RightUnique SpellsBlock := by
  rintro ⟨name, json⟩ ⟨_, block⟩ ⟨_, other⟩ ⟨rfl, inner, hinner, hblock⟩ ⟨rfl, fields, hfields, hother⟩
  obtain rfl := Json.object.inj (hinner.symm.trans hfields)
  exact Prod.ext rfl (hblock.unique hother)

/-! ## Outcomes -/

/-- The outcome of a conversion, given the keys that do not fit: the first of them decides the fault, and
if there is none, there is a value with the property. -/
def Outcome {α : Type} (result : Except Fault α) (unfit : List String) (P : α → Prop) : Prop :=
  (∃ value, result = .ok value ∧ unfit = [] ∧ P value) ∨
    ∃ key, result = .error (.invalidValue key) ∧ unfit.head? = some key

namespace Outcome

variable {α β : Type} {result : Except Fault α} {unfit later : List String} {P : α → Prop} {Q : β → Prop}

theorem map {f : α → β} (h : Outcome result unfit P) (hf : ∀ value, P value → Q (f value)) :
    Outcome (result.map f) unfit Q := by
  rcases h with ⟨value, rfl, hfit, hvalue⟩ | ⟨key, rfl, hfirst⟩
  · exact Or.inl ⟨f value, rfl, hfit, hf value hvalue⟩
  · exact Or.inr ⟨key, rfl, hfirst⟩

theorem bind {next : α → Except Fault β} (h : Outcome result unfit P)
    (hnext : ∀ value, P value → Outcome (next value) later Q) :
    Outcome (result >>= next) (unfit ++ later) Q := by
  rcases h with ⟨value, rfl, rfl, hvalue⟩ | ⟨key, rfl, hfirst⟩
  · exact hnext value hvalue
  · refine Or.inr ⟨key, rfl, ?_⟩
    rw [List.head?_append, hfirst, Option.some_or]

theorem exact (h : Outcome result unfit P) :
    (∀ fault, result = .error fault ↔ ∃ key, unfit.head? = some key ∧ fault = .invalidValue key) ∧
      (unfit = [] → ∃ value, result = .ok value ∧ P value) := by
  rcases h with ⟨value, rfl, rfl, hvalue⟩ | ⟨key, rfl, hfirst⟩
  · exact ⟨fun fault => iff_of_false (by simp) (by simp), fun _ => ⟨value, rfl, hvalue⟩⟩
  · constructor
    · intro fault
      rw [hfirst]
      constructor
      · intro hfault
        exact ⟨key, rfl, (Except.error.inj hfault).symm⟩
      · rintro ⟨other, hother, rfl⟩
        rw [Option.some.inj hother]
    · rintro rfl
      contradiction

end Outcome

/-! ## Values in turn -/

namespace Value

variable {key : String} {json : Json} {rest : List (String × Json)}

theorem ofJson_of_scalar {scalar : Scalar} (h : Scalar.ofJson? json = some scalar) :
    Value.ofJson key json = .ok (.leaf scalar) := by
  cases json with
  | object => contradiction
  | null | bool | integer | float | string | array => simp only [Value.ofJson, h]

theorem ofJson_of_unfit (h : json.unfit) : Value.ofJson key json = .error (.invalidValue key) := by
  cases json with
  | null | bool | array => rfl
  | string | integer | float | object => contradiction

theorem ofFields_cons :
    Value.ofFields ((key, json) :: rest) =
      Value.ofJson key json >>= fun value => (Value.ofFields rest).map ((key, value) :: ·) := by
  rw [Value.ofFields]
  cases Value.ofJson key json with
  | error fault => rfl
  | ok value => cases Value.ofFields rest <;> rfl

theorem ofFields_outcome {fields : List (String × Json)} (h : Distinct fields) :
    Outcome (Value.ofFields fields) (unfitKeys fields) fun pairs =>
      pairs.keys = Entries.keys fields ∧ Spells fields (.ofEntries pairs) := by
  induction fields using fields_induction with
  | nil => exact Or.inl ⟨[], rfl, rfl, rfl, .nil⟩
  | leaf key json scalar rest hscalar ih =>
    rw [ofFields_cons, ofJson_of_scalar hscalar, unfitKeys_leaf hscalar]
    refine (ih h.of_cons).map fun pairs ⟨hkeys, hspells⟩ => ⟨?_, .leaf (spellsScalar_of_ofJson? hscalar) hspells⟩
    rw [Entries.keys_cons, hkeys, Entries.keys_cons]
  | nest key inner rest ihInner ih =>
    have hinner : Outcome (Value.ofJson key (.object inner)) (unfitKeys inner) fun value =>
        ∃ body, value = .block body ∧ Spells inner body := by
      rw [Value.ofJson]
      refine (ihInner h.of_object).map fun pairs ⟨hkeys, hspells⟩ => ⟨_, rfl, ?_⟩
      rwa [Block.ofList_of_nodup (hkeys ▸ h.of_object.1)]
    rw [ofFields_cons, unfitKeys_nest]
    refine hinner.bind ?_
    rintro _ ⟨body, rfl, hbody⟩
    refine (ih h.of_cons).map fun pairs ⟨hkeys, hspells⟩ => ⟨?_, .nest hbody hspells⟩
    rw [Entries.keys_cons, hkeys, Entries.keys_cons]
  | unfit key json rest hunfit ih =>
    rw [ofFields_cons, ofJson_of_unfit hunfit, unfitKeys_unfit hunfit]
    exact Or.inr ⟨key, rfl, rfl⟩

end Value

/-! ## Blocks and descriptions -/

theorem Block.ofFields_outcome {fields : List (String × Json)} (h : Json.Distinct fields) :
    Outcome (Block.ofFields fields) (unfitKeys fields) (Spells fields) := by
  refine (Value.ofFields_outcome h).map fun pairs ⟨hkeys, hspells⟩ => ?_
  rwa [Block.ofList_of_nodup (hkeys ▸ h.1)]

namespace Description

/-- The keys of the values that do not fit into a description. -/
def unfitNames (fields : List (String × Json)) : List String :=
  fields.flatMap fun field =>
    match field.2 with
    | .object inner => unfitKeys inner
    | _ => [field.1]

theorem ofFields_cons {name : String} {inner rest : List (String × Json)} :
    ofFields ((name, .object inner) :: rest) =
      Block.ofFields inner >>= fun block => (ofFields rest).map ((name, block) :: ·) := by
  rw [ofFields]
  cases Block.ofFields inner with
  | error fault => rfl
  | ok block => cases ofFields rest <;> rfl

theorem ofFields_outcome {fields : List (String × Json)} (h : Distinct fields) :
    Outcome (ofFields fields) (unfitNames fields)
      (List.Forall₂ SpellsBlock fields) := by
  induction fields with
  | nil => exact Or.inl ⟨[], rfl, rfl, .nil⟩
  | cons field rest ih =>
    obtain ⟨name, json⟩ := field
    cases json with
    | object inner =>
      rw [ofFields_cons]
      refine (Block.ofFields_outcome h.of_object).bind fun block hblock => ?_
      exact (ih h.of_cons).map fun pairs hpairs => .cons ⟨rfl, inner, rfl, hblock⟩ hpairs
    | null | bool | integer | float | string | array => exact Or.inr ⟨name, rfl, rfl⟩

theorem ofJson_outcome {fields : List (String × Json)} (h : Distinct fields) :
    Outcome (Description.ofJson (.object fields)) (unfitNames fields) fun description =>
      List.Forall₂ SpellsBlock fields description.entries := by
  refine (ofFields_outcome h).map fun pairs hpairs => ?_
  have hsame : List.Forall₂ Eq (Entries.keys fields) (Entries.keys pairs) := by
    rw [Entries.keys, Entries.keys, List.forall₂_map_left_iff, List.forall₂_map_right_iff]
    exact hpairs.imp fun _ _ hpair => hpair.1
  have hkeys : Entries.keys fields = Entries.keys pairs := by
    rwa [List.forall₂_eq_eq_eq] at hsame
  have hentries : Entries.insertAll [] pairs = pairs := Entries.insertAll_of_nodup (hkeys ▸ h.1)
  rwa [OrderedMap.entries_ofList, hentries]

theorem eq_of_spelled {fields : List (String × Json)} {a b : Description}
    (ha : List.Forall₂ SpellsBlock fields a.entries) (hb : List.Forall₂ SpellsBlock fields b.entries) :
    a = b := by
  have hentries : a.entries = b.entries := List.right_unique_forall₂' rightUnique_spellsBlock ha hb
  obtain ⟨entries, hnodup⟩ := a
  obtain rfl := hentries
  rfl

end Description

/-- **JSON is read exactly.** An object is a block or a description unless a value in it does not fit, and the
first key with such a value decides the fault; else every key stands in its place with its value, a number
as the nearest double. What is no object is refused as a whole. -/
theorem ofJson_exact {fields : List (String × Json)} (hdistinct : Json.Distinct fields) :
    ((∀ fault, Block.ofJson (.object fields) = .error fault ↔
        ∃ key, (unfitKeys fields).head? = some key ∧ fault = .invalidValue key) ∧
      (unfitKeys fields = [] →
        ∃ block, Block.ofJson (.object fields) = .ok block ∧ Spells fields block ∧
          ∀ other, Spells fields other → other = block)) ∧
    ((∀ fault, Description.ofJson (.object fields) = .error fault ↔
        ∃ name, (Description.unfitNames fields).head? = some name ∧ fault = .invalidValue name) ∧
      (Description.unfitNames fields = [] →
        ∃ description, Description.ofJson (.object fields) = .ok description ∧
          List.Forall₂ SpellsBlock fields description.entries ∧
            ∀ other : Description, List.Forall₂ SpellsBlock fields other.entries →
              other = description)) ∧
    ∀ json : Json, (∀ inner, json ≠ .object inner) →
      Block.ofJson json = .error (.invalidValue "<root>") ∧
        Description.ofJson json = .error (.invalidValue "<root>") := by
  obtain ⟨hblockFault, hblock⟩ := (Block.ofFields_outcome hdistinct).exact
  obtain ⟨hdescriptionFault, hdescription⟩ := (Description.ofJson_outcome hdistinct).exact
  refine ⟨⟨hblockFault, fun hfit => ?_⟩, ⟨hdescriptionFault, fun hfit => ?_⟩, fun json hobject => ?_⟩
  · obtain ⟨block, hok, hspells⟩ := hblock hfit
    exact ⟨block, hok, hspells, fun other hother => hother.unique hspells⟩
  · obtain ⟨description, hok, hspells⟩ := hdescription hfit
    exact ⟨description, hok, hspells, fun other hother => Description.eq_of_spelled hother hspells⟩
  · cases json with
    | object inner => exact absurd rfl (hobject inner)
    | null | bool | integer | float | string | array => exact ⟨rfl, rfl⟩

/-- Two values that do not fit, of which the one that a description meets first stands in no block. -/
def unfitting : List (String × Json) :=
  [("a", .object [("b", .object [("c", .integer 1)])]), ("d", .string "0"),
    ("e", .object [("f", .float ⟨0⟩), ("g", .array [.null])]), ("h", .null)]

theorem ofJson_exact_unfitting :
    Json.Distinct unfitting ∧
      Block.ofJson (.object unfitting) = .error (.invalidValue "g") ∧
      Description.ofJson (.object unfitting) = .error (.invalidValue "d") := by
  have hdistinct : Json.Distinct unfitting := by decide
  obtain ⟨⟨hblock, -⟩, ⟨hdescription, -⟩, -⟩ := ofJson_exact hdistinct
  refine ⟨hdistinct, ?_, ?_⟩
  · exact (hblock _).mpr ⟨"g", by decide, rfl⟩
  · exact (hdescription _).mpr ⟨"d", by decide, rfl⟩

example : Block.ofJson (.object [("a", .object [("b", .integer 9007199254740993)]), ("c", .string "x")]) =
    .ok (.nest "a" (.leaf "b" (.number ⟨0x4340000000000000⟩) .nil) (.leaf "c" (.text "x") .nil)) := rfl

end StyleSync
