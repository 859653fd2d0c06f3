import Mathlib.Data.List.Nodup
import StyleSync.Css.Declaration
import StyleSync.Proofs.LastEntry

/-! # Merging declarations

Of several values of a property in a list of declarations, the last one counts: `value?`. Stated here:

* `value?_merge`: a merge leaves the last new value, and without one the old value; but where the old
  declarations have the property twice, the new value takes the first of the two places, where it
  does not count;
* `merge_of_nodup`: declarations of further properties are added as they are;
* `nodup_merge`: a merge repeats no property that was not repeated before;
* `forall_mem_merge`: what a declaration keeps under the value of another one is kept by merging;
* `put_comm` and `merge_put_right`: what is put into declarations can be put before or behind a merge;
* `merge_assoc`, `merge_merge_nil`, `merge_merge_self`: several merges in one.
-/

set_option autoImplicit false

namespace StyleSync

namespace Declaration

/-- The value that declarations give a property. -/
def value? (declarations : List Declaration) (property : String) : Option String :=
  last? (fun declaration => if declaration.property = property then some declaration.value else none)
    declarations

/-- How often declarations give a property a value. -/
def times (property : String) (declarations : List Declaration) : Nat :=
  (declarations.map Declaration.property).count property

@[simp] theorem value?_nil (property : String) : value? [] property = none := rfl

theorem value?_cons (declaration : Declaration) (rest : List Declaration) (property : String) :
    value? (declaration :: rest) property =
      (value? rest property).or
        (if declaration.property = property then some declaration.value else none) := by
  rw [value?, last?_cons, value?]

theorem value?_append (as bs : List Declaration) (property : String) :
    value? (as ++ bs) property = (value? bs property).or (value? as property) :=
  last?_append _ as bs

theorem times_cons (property : String) (declaration : Declaration) (rest : List Declaration) :
    times property (declaration :: rest) =
      times property rest + if declaration.property = property then 1 else 0 := by
  simp [times, List.count_cons]

theorem value?_eq_none_iff {declarations : List Declaration} {property : String} :
    value? declarations property = none ↔ times property declarations = 0 := by
  induction declarations with
  | nil => simp [times]
  | cons declaration rest ih =>
    rw [value?_cons, times_cons, Option.or_eq_none_iff, ih]
    by_cases h : declaration.property = property <;> simp [h]

/-! ## Putting -/

theorem times_put (property : String) (new : Declaration) (declarations : List Declaration) :
    times property (put new declarations) =
      if new.property = property then max 1 (times property declarations)
      else times property declarations := by
  unfold times
  rw [map_property_put]
  by_cases hmem : new.property ∈ declarations.map Declaration.property
  · rw [if_pos hmem]
    by_cases h : new.property = property
    · have hpos := List.count_pos_iff.mpr (h ▸ hmem)
      rw [if_pos h]
      omega
    · rw [if_neg h]
  · rw [if_neg hmem, List.count_append]
    by_cases h : new.property = property
    · have hzero := List.count_eq_zero.mpr (h ▸ hmem)
      rw [if_pos h, hzero]
      simp [h]
    · rw [if_neg h]
      simp [h]

/-- A new value counts unless the property was there twice. -/
theorem value?_put (property : String) (new : Declaration) (declarations : List Declaration) :
    value? (put new declarations) property =
      if new.property = property ∧ times property declarations ≤ 1 then some new.value
      else value? declarations property := by
  induction declarations with
  | nil => simp [put, value?_cons, times]
  | cons old rest ih =>
    rw [times_cons, value?_cons, put]
    by_cases hold : old.property = new.property
    · rw [if_pos hold, value?_cons]
      by_cases h : new.property = property
      · have hproperty : old.property = property := hold.trans h
        rw [if_pos hproperty, if_pos hproperty, if_pos hproperty]
        cases hrest : value? rest property with
        | none =>
          have hzero := value?_eq_none_iff.mp hrest
          simp [h, hzero]
        | some value =>
          have hpos : times property rest ≠ 0 := fun hzero => by
            rw [value?_eq_none_iff.mpr hzero] at hrest
            contradiction
          rw [if_neg (by omega), Option.some_or, Option.some_or]
      · have hproperty : old.property ≠ property := fun e => h (hold.symm.trans e)
        simp [h, hproperty]
    · rw [if_neg hold, value?_cons, ih]
      by_cases h : new.property = property
      · have hproperty : old.property ≠ property := fun e => hold (e.trans h.symm)
        by_cases htimes : times property rest ≤ 1 <;> simp [h, hproperty, htimes]
      · simp [h]

/-! ## Merging -/

theorem times_merge_le_one_iff {old : List Declaration} (property : String)
    (new : List Declaration) :
    times property (merge old new) ≤ 1 ↔ times property old ≤ 1 := by
  induction new generalizing old with
  | nil => rfl
  | cons declaration rest ih =>
    rw [merge_cons, ih, times_put]
    split <;> omega

theorem value?_merge (old new : List Declaration) (property : String) :
    value? (merge old new) property =
      if times property old ≤ 1 then (value? new property).or (value? old property)
      else value? old property := by
  induction new generalizing old with
  | nil => simp
  | cons declaration rest ih =>
    rw [merge_cons, ih, value?_put, value?_cons, times_put]
    by_cases hold : times property old ≤ 1
    · have hput : (if declaration.property = property then max 1 (times property old)
          else times property old) ≤ 1 := by
        split <;> omega
      rw [if_pos hput, if_pos hold]
      by_cases h : declaration.property = property
      · simp [h, hold]
      · simp [h]
    · have hput : ¬(if declaration.property = property then max 1 (times property old)
          else times property old) ≤ 1 := by
        split <;> omega
      rw [if_neg hput, if_neg hold, if_neg fun h => hold h.2]

theorem value?_merge_nil_left (declarations : List Declaration) (property : String) :
    value? (merge [] declarations) property = value? declarations property := by
  rw [value?_merge, if_pos (by simp [times]), value?_nil, Option.or_none]

theorem times_le_one_of_nodup {declarations : List Declaration} (property : String)
    (h : (declarations.map Declaration.property).Nodup) : times property declarations ≤ 1 :=
  List.nodup_iff_count_le_one.mp h property

theorem put_of_not_mem {new : Declaration} {declarations : List Declaration}
    (h : new.property ∉ declarations.map property) :
    put new declarations = declarations ++ [new] := by
  induction declarations with
  | nil => rfl
  | cons old rest ih =>
    simp only [List.map_cons, List.mem_cons, not_or] at h
    rw [put, if_neg (Ne.symm h.1), ih h.2, List.cons_append]

theorem merge_of_nodup {old new : List Declaration} (h : ((old ++ new).map property).Nodup) :
    merge old new = old ++ new := by
  induction new generalizing old with
  | nil => simp
  | cons declaration rest ih =>
    have hnot : declaration.property ∉ old.map property := by
      rw [List.map_append, List.nodup_append] at h
      exact fun hmem => h.2.2 _ hmem _ (by simp) rfl
    rw [merge_cons, put_of_not_mem hnot, ih (by simpa using h), List.append_assoc]
    rfl

theorem nodup_merge {old : List Declaration} (h : (old.map Declaration.property).Nodup)
    (new : List Declaration) : ((merge old new).map Declaration.property).Nodup := by
  rw [List.nodup_iff_count_le_one]
  intro property
  exact (times_merge_le_one_iff property new).mpr (times_le_one_of_nodup property h)

/-! ## What holds of every declaration -/

section Closed

variable {P : Declaration → Prop}
  (hvalue : ∀ {old new : Declaration}, P old → P new → P { old with value := new.value })

include hvalue

theorem forall_mem_put {new : Declaration} {declarations : List Declaration} (hnew : P new)
    (h : ∀ declaration ∈ declarations, P declaration) :
    ∀ declaration ∈ put new declarations, P declaration := by
  induction declarations with
  | nil => simpa [put] using hnew
  | cons old rest ih =>
    rw [List.forall_mem_cons] at h
    rw [put]
    split
    · exact List.forall_mem_cons.mpr ⟨hvalue h.1 hnew, h.2⟩
    · exact List.forall_mem_cons.mpr ⟨h.1, ih h.2⟩

/-- What holds of old and new declarations holds of the merged ones, if a declaration keeps it under the
value of another one. -/
theorem forall_mem_merge {old new : List Declaration} (hold : ∀ declaration ∈ old, P declaration)
    (hnew : ∀ declaration ∈ new, P declaration) : ∀ declaration ∈ merge old new, P declaration := by
  induction new generalizing old with
  | nil => exact hold
  | cons declaration rest ih =>
    rw [List.forall_mem_cons] at hnew
    exact ih (forall_mem_put hvalue hnew.1 hold) hnew.2

end Closed

/-! ## Merging again -/

theorem map_property_merge_of_mem {old new : List Declaration}
    (h : ∀ declaration ∈ new, declaration.property ∈ old.map property) :
    (merge old new).map property = old.map property := by
  induction new generalizing old with
  | nil => rfl
  | cons declaration rest ih =>
    have hput : (put declaration old).map property = old.map property := by
      rw [map_property_put, if_pos (h declaration List.mem_cons_self)]
    rw [merge_cons, ih, hput]
    rw [hput]
    exact fun other hother => h other (List.mem_cons_of_mem _ hother)

/-- Declarations without repeated properties are given by the order of the properties and the values. -/
theorem ext_of_nodup {as bs : List Declaration} (hkeys : as.map property = bs.map property)
    (hnodup : (as.map property).Nodup) (hvalues : ∀ name, value? as name = value? bs name) :
    as = bs := by
  induction as generalizing bs with
  | nil => exact (List.map_eq_nil_iff.mp hkeys.symm).symm
  | cons a as ih =>
    cases bs with
    | nil => simp at hkeys
    | cons b bs =>
      simp only [List.map_cons, List.cons.injEq] at hkeys
      rw [List.map_cons, List.nodup_cons] at hnodup
      obtain ⟨hhead, htail⟩ := hkeys
      have hfirst : value? as a.property = none :=
        value?_eq_none_iff.mpr (List.count_eq_zero.mpr hnodup.1)
      have hfirst' : value? bs a.property = none :=
        value?_eq_none_iff.mpr (List.count_eq_zero.mpr (htail ▸ hnodup.1))
      have hvalue := hvalues a.property
      rw [value?_cons, value?_cons, hfirst, hfirst', if_pos rfl, if_pos hhead.symm,
        Option.none_or, Option.none_or, Option.some.injEq] at hvalue
      have hrest : as = bs := by
        refine ih htail hnodup.2 fun name => ?_
        by_cases hname : a.property = name
        · rw [← hname, hfirst, hfirst']
        · have hname' : b.property ≠ name := hhead ▸ hname
          simpa [value?_cons, hname, hname'] using hvalues name
      rw [hrest]
      congr 1
      cases a
      cases b
      simp_all

theorem merge_of_map_property_eq {old new : List Declaration}
    (hsame : old.map property = new.map property) (hnodup : (new.map property).Nodup) :
    merge old new = new := by
  have hkeys : (merge old new).map property = new.map property := by
    rw [map_property_merge_of_mem, hsame]
    intro declaration hdeclaration
    rw [hsame]
    exact List.mem_map_of_mem hdeclaration
  refine ext_of_nodup hkeys (hkeys ▸ hnodup) fun name => ?_
  have htimes : times name old ≤ 1 := times_le_one_of_nodup name (hsame ▸ hnodup)
  rw [value?_merge, if_pos htimes]
  cases hnew : value? new name with
  | some value => rfl
  | none =>
    have hold : value? old name = none := by
      rw [value?_eq_none_iff, times, hsame]
      exact value?_eq_none_iff.mp hnew
    rw [hold]
    rfl

/-! ## Putting twice -/

theorem put_put_of_eq {first second : Declaration} (h : first.property = second.property)
    (declarations : List Declaration) :
    put second (put first declarations) = put second declarations := by
  induction declarations with
  | nil => simp [put, h]
  | cons old rest ih =>
    by_cases hfirst : old.property = first.property
    · simp [put, hfirst, h]
    · have hsecond : old.property ≠ second.property := fun e => hfirst (e.trans h.symm)
      rw [put, if_neg hfirst, put, if_neg hsecond, ih, put, if_neg hsecond]

/-- Of two properties one of which is declared, either can be put first. -/
theorem put_comm {first second : Declaration} (hne : first.property ≠ second.property)
    {declarations : List Declaration} (hmem : first.property ∈ declarations.map property) :
    put second (put first declarations) = put first (put second declarations) := by
  induction declarations with
  | nil => contradiction
  | cons old rest ih =>
    by_cases hfirst : old.property = first.property
    · have hsecond : old.property ≠ second.property := fun e => hne (hfirst.symm.trans e)
      rw [put, if_pos hfirst, put, if_neg hsecond, put, if_neg hsecond, put, if_pos hfirst]
    · have hrest : first.property ∈ rest.map property := by
        rw [List.map_cons, List.mem_cons] at hmem
        exact hmem.resolve_left (Ne.symm hfirst)
      by_cases hsecond : old.property = second.property
      · rw [put, if_neg hfirst, put, if_pos hsecond, put, if_pos hsecond, put, if_neg hfirst]
      · rw [put, if_neg hfirst, put, if_neg hsecond, put, if_neg hsecond, put, if_neg hfirst,
          ih hrest]

/-! ## Merging in steps -/

theorem mem_map_property_put_self (new : Declaration) (declarations : List Declaration) :
    new.property ∈ (put new declarations).map property := by
  rw [map_property_put]
  split
  · next h => exact h
  · simp

theorem mem_map_property_put {name : String} {declarations : List Declaration}
    (h : name ∈ declarations.map property) (new : Declaration) :
    name ∈ (put new declarations).map property := by
  rw [map_property_put]
  split
  · exact h
  · exact List.mem_append_left _ h

theorem merge_put_left {declaration : Declaration} {old new : List Declaration}
    (hold : declaration.property ∈ old.map property)
    (hnew : declaration.property ∉ new.map property) :
    merge (put declaration old) new = put declaration (merge old new) := by
  induction new generalizing old with
  | nil => rfl
  | cons first rest ih =>
    rw [List.map_cons, List.mem_cons, not_or] at hnew
    rw [merge_cons, merge_cons, put_comm hnew.1 hold]
    exact ih (mem_map_property_put hold first) hnew.2

/-- A declaration that is put into what is merged can be put into the result, unless its property is there
twice. -/
theorem merge_put_right {new : List Declaration} (h : (new.map property).Nodup)
    (old : List Declaration) (declaration : Declaration) :
    merge old (put declaration new) = put declaration (merge old new) := by
  induction new generalizing old with
  | nil => rfl
  | cons first rest ih =>
    rw [List.map_cons, List.nodup_cons] at h
    by_cases hfirst : first.property = declaration.property
    · have hsame : { first with value := declaration.value } = declaration := by
        rw [hfirst]
      have hrest : declaration.property ∉ rest.map property := hfirst ▸ h.1
      have hmem : declaration.property ∈ (put first old).map property :=
        hfirst ▸ mem_map_property_put_self first old
      rw [put, if_pos hfirst, hsame, merge_cons, merge_cons, ← merge_put_left hmem hrest,
        put_put_of_eq hfirst]
    · rw [put, if_neg hfirst, merge_cons, merge_cons, ih h.2]

theorem merge_assoc {middle : List Declaration} (h : (middle.map property).Nodup)
    (old new : List Declaration) :
    merge (merge old middle) new = merge old (merge middle new) := by
  induction new generalizing middle with
  | nil => rfl
  | cons first rest ih =>
    have hput : ((put first middle).map property).Nodup := nodup_merge h [first]
    rw [merge_cons, merge_cons, ← merge_put_right h, ih hput]

/-- What is merged can be freed of repeated properties before. -/
theorem merge_merge_nil (old new : List Declaration) : merge old (merge [] new) = merge old new :=
  (merge_assoc (by simp) old new).symm

theorem merge_merge_self (old new : List Declaration) : merge (merge old new) new = merge old new := by
  have hnodup : ((merge [] new).map property).Nodup := nodup_merge (by simp) new
  have hself : merge (merge [] new) (merge [] new) = merge [] new :=
    merge_of_map_property_eq rfl hnodup
  calc merge (merge old new) new
      = merge (merge old (merge [] new)) (merge [] new) := by
        rw [merge_merge_nil, merge_merge_nil]
    _ = merge old (merge (merge [] new) (merge [] new)) := merge_assoc hnodup old _
    _ = merge old new := by rw [hself, merge_merge_nil]

theorem nodup_of_merge_assoc {middle : List Declaration}
    (h : ∀ old new, merge (merge old middle) new = merge old (merge middle new)) :
    (middle.map property).Nodup := by
  rw [List.nodup_iff_count_le_one]
  intro name
  change times name middle ≤ 1
  by_contra htwice
  have hvalue : ∀ value, some value = value? middle name := by
    intro value
    have htimes : times name (merge [] middle) ≤ 1 :=
      (times_merge_le_one_iff name middle).mpr (Nat.zero_le 1)
    have hsteps : value? (merge (merge [] middle) [⟨name, value⟩]) name = some value := by
      rw [value?_merge, if_pos htimes]
      simp [value?_cons]
    have hmiddle : value? (merge [] (merge middle [⟨name, value⟩])) name = value? middle name := by
      rw [value?_merge_nil_left, value?_merge, if_neg htwice]
    rw [← hsteps, h, hmiddle]
  have hvalues := (hvalue "").trans (hvalue "0").symm
  simp at hvalues

theorem foldl_merge (old : List Declaration) (news : List (List Declaration)) :
    news.foldl merge old = merge old news.flatten := by
  induction news generalizing old with
  | nil => rfl
  | cons new news ih => rw [List.foldl_cons, ih, List.flatten_cons, merge_append]

/-- **Merging in steps.** Merging the same declarations again changes nothing. Merging declarations and then
others is merging the two merged, for any declarations before and behind, just if those in the middle
repeat no property. -/
theorem merge_in_steps (middle : List Declaration) :
    (∀ old, merge (merge old middle) middle = merge old middle) ∧
      ((middle.map property).Nodup ↔
        ∀ old new, merge (merge old middle) new = merge old (merge middle new)) :=
  ⟨fun old => merge_merge_self old middle, fun h => merge_assoc h, nodup_of_merge_assoc⟩

end Declaration

end StyleSync
