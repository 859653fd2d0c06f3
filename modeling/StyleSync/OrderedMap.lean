/-! # Maps that remember the order of insertion

Entries are pairs of a key and a value in the order in which the keys first came. Setting a key that
is already there replaces its value where it stands, like assigning to a property of an object.
`Entries` has the operations on plain lists of pairs; an `OrderedMap` carries the proof that no key
occurs twice, which every operation keeps.
-/

set_option autoImplicit false

namespace StyleSync

/-! ## Lists of pairs -/

/-- Keys with values, in order. -/
abbrev Entries (β : Type) := List (String × β)

namespace Entries

variable {β : Type}

/-- The keys in order. -/
def keys (entries : Entries β) : List String :=
  entries.map Prod.fst

/-- The value under a key. -/
def get? (key : String) : Entries β → Option β
  | [] => none
  | (k, v) :: rest => if k = key then some v else get? key rest

/-- Set a key: in its place if it is there, else at the end. -/
def insert (key : String) (value : β) : Entries β → Entries β
  | [] => [(key, value)]
  | (k, v) :: rest => if k = key then (k, value) :: rest else (k, v) :: insert key value rest

/-- Set every pair in turn. -/
def insertAll (entries pairs : Entries β) : Entries β :=
  pairs.foldl (fun acc pair => acc.insert pair.1 pair.2) entries

@[simp] theorem keys_nil : keys ([] : Entries β) = [] := rfl

@[simp] theorem keys_cons (pair : String × β) (rest : Entries β) :
    keys (pair :: rest) = pair.1 :: keys rest := rfl

/-- Setting a key adds it at the end, unless it is there. -/
theorem keys_insert (key : String) (value : β) (entries : Entries β) :
    keys (insert key value entries) =
      if key ∈ keys entries then keys entries else keys entries ++ [key] := by
  induction entries with
  | nil => simp [insert]
  | cons pair rest ih =>
    obtain ⟨k, v⟩ := pair
    by_cases h : k = key
    · simp [insert, h]
    · have h' : key ≠ k := fun e => h e.symm
      by_cases hm : key ∈ keys rest <;> simp [insert, h, h', ih, hm]

/-- Setting a key keeps the keys distinct. -/
theorem nodup_keys_insert (key : String) (value : β) (entries : Entries β)
    (h : (keys entries).Nodup) : (keys (insert key value entries)).Nodup := by
  rw [keys_insert]
  split
  · exact h
  · next hm =>
    rw [List.nodup_append]
    exact ⟨h, by simp, fun a ha b hb e => hm (by simp at hb; exact hb ▸ e ▸ ha)⟩

@[simp] theorem insertAll_nil (entries : Entries β) : entries.insertAll [] = entries := rfl

@[simp] theorem insertAll_cons (entries : Entries β) (pair : String × β) (rest : Entries β) :
    entries.insertAll (pair :: rest) = (entries.insert pair.1 pair.2).insertAll rest := rfl

theorem insertAll_append (entries as bs : Entries β) :
    entries.insertAll (as ++ bs) = (entries.insertAll as).insertAll bs := by
  simp [insertAll]

/-- Setting pairs keeps the keys distinct. -/
theorem nodup_keys_insertAll (entries pairs : Entries β) (h : entries.keys.Nodup) :
    (entries.insertAll pairs).keys.Nodup := by
  induction pairs generalizing entries with
  | nil => exact h
  | cons pair rest ih => exact ih _ (nodup_keys_insert pair.1 pair.2 entries h)

theorem insert_of_not_mem {key : String} {entries : Entries β} (h : key ∉ entries.keys) (value : β) :
    entries.insert key value = entries ++ [(key, value)] := by
  induction entries with
  | nil => rfl
  | cons pair rest ih =>
    rw [keys_cons, List.mem_cons, not_or] at h
    rw [insert, if_neg (Ne.symm h.1), ih h.2, List.cons_append]

/-- Pairs of distinct keys that are not there are added as they are. -/
theorem insertAll_of_nodup {entries pairs : Entries β} (h : (entries ++ pairs).keys.Nodup) :
    entries.insertAll pairs = entries ++ pairs := by
  induction pairs generalizing entries with
  | nil => rw [insertAll_nil, List.append_nil]
  | cons pair rest ih =>
    have hnew : pair.1 ∉ entries.keys := by
      rw [keys, List.map_append, List.nodup_append] at h
      exact fun hmem => h.2.2 _ hmem _ List.mem_cons_self rfl
    have hsplit : entries ++ pair :: rest = entries ++ [pair] ++ rest := by
      rw [List.append_assoc, List.singleton_append]
    rw [hsplit] at h
    rw [insertAll_cons, insert_of_not_mem hnew, ih h, hsplit]

/-- What was set under a key is found under it. -/
@[simp] theorem get?_insert_self (key : String) (value : β) (entries : Entries β) :
    (entries.insert key value).get? key = some value := by
  induction entries with
  | nil => simp [insert, get?]
  | cons pair rest ih =>
    obtain ⟨k, v⟩ := pair
    by_cases h : k = key <;> simp [insert, get?, h, ih]

/-- Setting a key leaves the others as they are. -/
theorem get?_insert_of_ne {key other : String} (h : key ≠ other) (value : β)
    (entries : Entries β) : (entries.insert key value).get? other = entries.get? other := by
  induction entries with
  | nil => simp [insert, get?, h]
  | cons pair rest ih =>
    obtain ⟨k, v⟩ := pair
    by_cases hk : k = key
    · have : k ≠ other := fun e => h (hk ▸ e)
      simp [insert, get?, hk, h]
    · simp [insert, get?, hk, ih]

/-- A key has a value just if it is one of the keys. -/
theorem isSome_get? (key : String) (entries : Entries β) :
    (entries.get? key).isSome ↔ key ∈ entries.keys := by
  induction entries with
  | nil => simp [get?]
  | cons pair rest ih =>
    obtain ⟨k, v⟩ := pair
    by_cases h : k = key
    · simp [get?, h]
    · have h' : key ≠ k := fun e => h e.symm
      simp [get?, h, h', ih]

theorem get?_eq_none {key : String} {entries : Entries β} (h : key ∉ entries.keys) :
    entries.get? key = none := by
  rw [← isSome_get?, Bool.not_eq_true, Option.isSome_eq_false_iff, Option.isNone_iff_eq_none] at h
  exact h

/-- A value that is found under a key stands there. -/
theorem mem_of_get? {key : String} {value : β} {entries : Entries β}
    (h : entries.get? key = some value) : (key, value) ∈ entries := by
  induction entries with
  | nil => simp [get?] at h
  | cons pair rest ih =>
    obtain ⟨k, v⟩ := pair
    by_cases hk : k = key
    · simp only [get?, hk, if_true, Option.some.injEq] at h
      simp [hk, h]
    · simp only [get?, hk, if_false] at h
      exact List.mem_cons_of_mem _ (ih h)

/-- Where keys are distinct, what stands under a key is found. -/
theorem get?_of_mem {key : String} {value : β} {entries : Entries β} (hnodup : entries.keys.Nodup)
    (h : (key, value) ∈ entries) : entries.get? key = some value := by
  induction entries with
  | nil => simp at h
  | cons pair rest ih =>
    rw [keys_cons, List.nodup_cons] at hnodup
    rcases List.mem_cons.mp h with rfl | hrest
    · simp [get?]
    · have hne : pair.1 ≠ key := fun e => hnodup.1 (e ▸ List.mem_map_of_mem (f := Prod.fst) hrest)
      rw [get?, if_neg hne, ih hnodup.2 hrest]

theorem mem_of_mem_insert {key : String} {value : β} {entries : Entries β} {pair : String × β}
    (h : pair ∈ entries.insert key value) : pair ∈ entries ∨ pair = (key, value) := by
  induction entries with
  | nil => exact Or.inr (List.mem_singleton.mp h)
  | cons first rest ih =>
    rw [insert] at h
    split at h
    · next hk =>
      rcases List.mem_cons.mp h with rfl | hrest
      · exact Or.inr (by rw [hk])
      · exact Or.inl (List.mem_cons_of_mem _ hrest)
    · rcases List.mem_cons.mp h with rfl | hrest
      · exact Or.inl List.mem_cons_self
      · exact (ih hrest).imp_left (List.mem_cons_of_mem _)

/-- Setting pairs brings in no others. -/
theorem mem_of_mem_insertAll {entries pairs : Entries β} {pair : String × β}
    (h : pair ∈ entries.insertAll pairs) : pair ∈ entries ∨ pair ∈ pairs := by
  induction pairs generalizing entries with
  | nil => exact Or.inl h
  | cons first rest ih =>
    rcases ih h with hentries | hrest
    · rcases mem_of_mem_insert hentries with hold | rfl
      · exact Or.inl hold
      · exact Or.inr List.mem_cons_self
    · exact Or.inr (List.mem_cons_of_mem _ hrest)

/-- Setting pairs of distinct keys adds those that are new, in order. -/
theorem keys_insertAll {entries pairs : Entries β} (h : pairs.keys.Nodup) :
    (entries.insertAll pairs).keys = entries.keys ++ pairs.keys.filter (· ∉ entries.keys) := by
  induction pairs generalizing entries with
  | nil => simp
  | cons pair rest ih =>
    rw [keys_cons, List.nodup_cons] at h
    rw [insertAll_cons, ih h.2, keys_insert, keys_cons, List.filter_cons]
    by_cases hmem : pair.1 ∈ entries.keys
    · simp [hmem]
    · have hrest : (keys rest).filter (· ∉ entries.keys ++ [pair.1]) =
          (keys rest).filter (· ∉ entries.keys) := by
        refine List.filter_congr fun key hkey => ?_
        have hne : key ≠ pair.1 := fun e => h.1 (e ▸ hkey)
        simp [hne]
      rw [if_neg hmem, hrest, if_pos (by simpa using hmem), List.append_assoc, List.singleton_append]

/-- What was set under a key last is found under it, else what stood there. -/
theorem get?_insertAll {entries pairs : Entries β} (h : pairs.keys.Nodup) (key : String) :
    (entries.insertAll pairs).get? key = (pairs.get? key).or (entries.get? key) := by
  induction pairs generalizing entries with
  | nil => rfl
  | cons pair rest ih =>
    rw [keys_cons, List.nodup_cons] at h
    rw [insertAll_cons, ih h.2, get?]
    by_cases hkey : pair.1 = key
    · subst hkey
      simp [get?_eq_none h.1]
    · simp [hkey, get?_insert_of_ne hkey]

end Entries

/-! ## Maps -/

/-- Keys with values in the order of first insertion, no key twice. -/
structure OrderedMap (β : Type) where
  entries : Entries β
  nodup : entries.keys.Nodup

namespace OrderedMap

variable {β : Type}

/-- The map without entries. -/
def empty : OrderedMap β := ⟨[], List.nodup_nil⟩

instance : EmptyCollection (OrderedMap β) := ⟨empty⟩

instance : Inhabited (OrderedMap β) := ⟨empty⟩

/-- Set a key: in its place if it is there, else at the end. -/
def insert (map : OrderedMap β) (key : String) (value : β) : OrderedMap β :=
  ⟨map.entries.insert key value, Entries.nodup_keys_insert key value map.entries map.nodup⟩

/-- The value under a key. -/
def get? (map : OrderedMap β) (key : String) : Option β :=
  map.entries.get? key

/-- The keys in order. -/
def keys (map : OrderedMap β) : List String :=
  map.entries.keys

/-- The number of keys. -/
def size (map : OrderedMap β) : Nat :=
  map.entries.length

/-- The map that results from setting every pair in turn. -/
def ofList (pairs : Entries β) : OrderedMap β :=
  ⟨Entries.insertAll [] pairs, Entries.nodup_keys_insertAll [] pairs List.nodup_nil⟩

@[simp] theorem entries_ofList (pairs : Entries β) :
    (ofList pairs).entries = Entries.insertAll [] pairs := rfl

@[simp] theorem entries_insert (map : OrderedMap β) (key : String) (value : β) :
    (map.insert key value).entries = map.entries.insert key value := rfl

end OrderedMap

end StyleSync
