import StyleSync.Proofs.Session.Restyling
import StyleSync.Proofs.Sheet.Ownership

/-! # Restyling a class is local

`restyleClass` changes the records of one class. `restyleClass_local` says that the records of other owners
stay as they are, and that those of the class become what they would become on a sheet without the
others.
-/

set_option autoImplicit false

namespace StyleSync

namespace Session

variable {ν : Type}

/-- The session on the part of the sheet that belongs to a class. -/
def within (name : String) (session : Session Sheet ν) : Session Sheet ν :=
  { session with host := ⟨session.host.records.filter (Record.ownedBy name)⟩ }

theorem records_after_restyle {block : Block} (h : block.base? = none) (selector : String)
    (session : Session Sheet ν) :
    (after (restyle selector block) session).host.records =
      reconciled session.host.records (flatten selector block) := by
  rw [after, restyle_eq h]

theorem after_restyle_of_base {block : Block} {base : String} (h : block.base? = some base)
    (selector : String) (session : Session Sheet ν) :
    after (restyle selector block) session = session := by
  rw [after, restyle_of_base h]

/-- **Restyling a class is local.** Under a block whose nested keys do not continue the name, the records of
other owners stay as they are in their order, and the records of the class are what restyling makes of
them alone. -/
theorem restyleClass_local {name : String} (hname : ∀ c ∈ name.toList, isNameChar c) {block : Block}
    (hblock : block.Separated) (session : Session Sheet ν) :
    (after (restyleClass name block) session).host.records.filter (!Record.ownedBy name ·) =
        session.host.records.filter (!Record.ownedBy name ·) ∧
      (after (restyleClass name block) session).host.records.filter (Record.ownedBy name) =
        (after (restyleClass name block) (session.within name)).host.records := by
  have hrules : ∀ rule ∈ flatten (classSelector name) block,
      BeginsWithClass name rule.target.selector.toList := fun rule hrule =>
    beginsWithClass_of_mem_flatten hblock hrule
  have hkeys : ∀ record : Record, ∀ key ∈ lastKeys (flatten (classSelector name) block),
      record.hasKey key → record.ownedBy name := by
    intro record key hkey hrecord
    obtain ⟨rule, hrule, rfl⟩ := mem_lastKeys.mp hkey
    exact ownedBy_of_hasKey hname (beginsWithClass_key (hrules rule hrule)) hrecord
  have hread : ∀ rule ∈ mergedRules session.host.records (flatten (classSelector name) block),
      (Record.read rule.header rule.block).ownedBy name := by
    intro merged hmerged
    obtain ⟨key, -, hat⟩ := List.mem_filterMap.mp hmerged
    obtain ⟨rule, hrule, -, htarget⟩ := exists_target_of_mergedAt hat
    exact ownedBy_read hname (htarget ▸ hrules rule hrule)
  unfold restyleClass
  cases hbase : block.base? with
  | some base => simp only [after_restyle_of_base hbase, within, and_self]
  | none =>
    simp only [records_after_restyle hbase, within]
    exact ⟨filter_not_reconciled hkeys _ hread, filter_reconciled hkeys _ hread⟩

/-- A block with keys that go on behind the name of its class in several ways. -/
def layeredChange : Block :=
  .leaf "color" (.text "blue")
    (.nest ":hover" (.leaf "color" (.text "navy") .nil)
      (.nest "@media print" (.nest " li" (.leaf "margin" (.text "0") .nil) .nil) .nil))

/-- A session on a sheet with records of two classes, one of whose names begins with the other, of an
element, and of no owner. -/
def shared : Session Sheet Unit :=
  .start
    ⟨[.style ⟨".x-1", [⟨"color", "red"⟩]⟩, .style ⟨".x", [⟨"color", "red"⟩, ⟨"margin", "0"⟩]⟩,
      .keyframes "fade" "to \x7b \x7d", .media "print" ⟨".x li", [⟨"margin", "1px"⟩]⟩,
      .style ⟨"li", [⟨"color", "red"⟩]⟩]⟩
    () .standard

theorem restyleClass_local_shared :
    (∀ c ∈ "x".toList, isNameChar c) ∧ layeredChange.Separated ∧
      (after (restyleClass "x" layeredChange) shared).host.records.filter
          (!Record.ownedBy "x" ·) =
        [.style ⟨".x-1", [⟨"color", "red"⟩]⟩, .keyframes "fade" "to \x7b \x7d",
          .style ⟨"li", [⟨"color", "red"⟩]⟩] ∧
      (after (restyleClass "x" layeredChange) shared).host.records.filter (Record.ownedBy "x") =
        [.style ⟨".x", [⟨"color", "blue"⟩, ⟨"margin", "0"⟩]⟩,
          .style ⟨".x:hover", [⟨"color", "navy"⟩]⟩,
          .media "print" ⟨".x li", [⟨"margin", "0"⟩]⟩] := by
  have hname : ∀ c ∈ "x".toList, isNameChar c := List.all_eq_true.mp (by decide)
  have hblock : layeredChange.Separated := by decide
  obtain ⟨hothers, hown⟩ := restyleClass_local hname hblock shared
  refine ⟨hname, hblock, ?_, ?_⟩
  · rw [hothers]
    decide +kernel
  · rw [hown]
    decide +kernel

end Session

end StyleSync
