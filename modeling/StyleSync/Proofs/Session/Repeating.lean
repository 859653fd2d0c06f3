import StyleSync.Proofs.Session.Defining
import StyleSync.Proofs.Sheet.Renewal
import StyleSync.Proofs.Sheet.Spelling

/-! # Restyling twice

* `restyle_again`: with well-formed rules, restyling a second time changes nothing, nor does restyling
  after the rules were placed on a sheet that had none of their keys;
* `restyleClass_again_size`: with any rules, a second time makes the sheet longer by the rules that do not
  meet the records made of them. Their selectors are not spelled as they are stored.
-/

set_option autoImplicit false

namespace StyleSync

namespace Session

variable {ν : Type}

theorem restyle_eq_settled {block : Block} (h : block.base? = none) (selector : String)
    (session : Session Sheet ν) :
    restyle selector block session =
      .ok () (session.settled (flatten selector block) (notices selector block)) :=
  restyle_eq h selector session

/-! ## No change -/

theorem settled_settled {session : Session Sheet ν} {rules : List Rule}
    (hrecords : ∀ record ∈ session.host.records, record.Sound) (hrules : ∀ rule ∈ rules, rule.WellFormed)
    (messages : List String) :
    (session.settled rules messages).settled rules messages = session.settled rules messages :=
  settled_resume hrecords hrules ⟨rules, messages, List.prefix_rfl, List.prefix_rfl, rfl⟩

/-- **Restyling is idempotent** where records and rules are well-formed: a second time leaves the whole
session as it is. Where the rules have distinct keys that no record has, placing them does what restyling
does, so that restyling changes nothing after it. -/
theorem restyle_again {selector : String} {block : Block} (hbase : block.base? = none)
    {session : Session Sheet ν} (hrecords : ∀ record ∈ session.host.records, record.Sound)
    (hrules : ∀ rule ∈ flatten selector block, rule.WellFormed) :
    (∃ once, restyle selector block session = .ok () once ∧
      restyle selector block once = .ok () once) ∧
    (((flatten selector block).map Rule.key).Nodup →
      (∀ rule ∈ flatten selector block, ∀ record ∈ session.host.records, ¬record.hasKey rule.key) →
      ∃ placed, place selector block session = .ok () placed ∧
        placed.host.records =
          session.host.records ++
            (flatten selector block).map (fun rule => .read rule.header rule.block) ∧
        restyle selector block placed = .ok () placed) := by
  have hagain := settled_settled hrecords hrules (notices selector block)
  constructor
  · refine ⟨session.settled (flatten selector block) (notices selector block), ?_, ?_⟩
    · exact restyle_eq_settled hbase selector session
    · rw [restyle_eq_settled hbase, hagain]
  · intro hkeys hfresh
    have hsettled : place selector block session =
        .ok () (session.settled (flatten selector block) (notices selector block)) := by
      rw [place_eq, settled, reconciled_of_fresh hkeys hfresh]
    refine ⟨_, hsettled, reconciled_of_fresh hkeys hfresh, ?_⟩
    rw [restyle_eq_settled hbase, hagain]

/-- Two of its three rules have one key, though their conditions are spelled differently. -/
def doubled : Block :=
  .leaf "color" (.text "blue")
    (.nest "@media print" (.leaf "top" (.text "0") (.leaf "left" (.text "0") .nil))
      (.nest "@media  print" (.leaf "left" (.text "1px") (.leaf "color" (.text "black") .nil)) .nil))

/-- A session on a sheet with two records of one key. -/
def crowded : Session Sheet Unit :=
  .start
    ⟨[.style ⟨".x", [⟨"color", "red"⟩]⟩, .media "print" ⟨".x", [⟨"color", "grey"⟩, ⟨"left", "2px"⟩]⟩,
      .style ⟨".x", [⟨"margin", "0"⟩, ⟨"color", "green"⟩]⟩]⟩
    () .standard

theorem restyle_again_crowded :
    (∃ once, restyle ".x" doubled crowded = .ok () once ∧ once.host.records =
      [.style ⟨".x", [⟨"color", "red"⟩]⟩, .style ⟨".x", [⟨"margin", "0"⟩, ⟨"color", "blue"⟩]⟩,
        .media "print" ⟨".x", [⟨"color", "black"⟩, ⟨"left", "1px"⟩, ⟨"top", "0"⟩]⟩] ∧
      restyle ".x" doubled once = .ok () once) ∧
    ∃ placed, place ".y" recolored crowded = .ok () placed ∧ placed.host.size = 5 ∧
      restyle ".y" recolored placed = .ok () placed := by
  have hrecords : ∀ record ∈ crowded.host.records, record.Sound := by decide
  have hdoubled : ∀ rule ∈ flatten ".x" doubled, rule.WellFormed := by decide +kernel
  have hrecolored : ∀ rule ∈ flatten ".y" recolored, rule.WellFormed := by decide +kernel
  have hkeys : ((flatten ".y" recolored).map Rule.key).Nodup := by decide +kernel
  have hfresh : ∀ rule ∈ flatten ".y" recolored, ∀ record ∈ crowded.host.records,
      ¬record.hasKey rule.key := by decide +kernel
  obtain ⟨⟨once, honce, htwice⟩, -⟩ := restyle_again (by decide) hrecords hdoubled
  obtain ⟨-, hplace⟩ := restyle_again (by decide) hrecords hrecolored
  obtain ⟨placed, hplaced, hall, hstill⟩ := hplace hkeys hfresh
  refine ⟨⟨once, honce, ?_, htwice⟩, placed, hplaced, ?_, hstill⟩
  · rw [restyle_eq_settled (by decide)] at honce
    obtain ⟨-, rfl⟩ := EStateM.Result.ok.inj honce
    decide +kernel
  · rw [Sheet.size, hall]
    decide +kernel

/-! ## The number of records -/

/-- **Restyling a class again adds a record for each rule that meets none.** A rule of the class meets the
record made of it just if its selector is spelled as a sheet stores it; if all rules are, the number of
records stays. -/
theorem restyleClass_again_size (name : String) {block : Block} (hbase : block.base? = none)
    (session : Session Sheet ν) :
    ∃ once twice, restyleClass name block session = .ok () once ∧
      restyleClass name block once = .ok () twice ∧
      twice.host.size =
        once.host.size + (unmet once.host.records (flatten (classSelector name) block)).length ∧
      (twice.host.size = once.host.size ↔ ∀ rule ∈ flatten (classSelector name) block,
        ∃ record ∈ once.host.records, record.hasKey rule.key) ∧
      (∀ rule ∈ flatten (classSelector name) block,
        ((Record.read rule.header rule.block).hasKey rule.key ↔ rule.target.Verbatim)) ∧
      ((∀ rule ∈ flatten (classSelector name) block, rule.target.Verbatim) →
        twice.host.size = once.host.size) := by
  have hbelow : ∀ rule ∈ flatten (classSelector name) block, rule.target.BelowClass :=
    fun rule hrule => belowClass_of_mem_flatten hrule
  refine ⟨_, _, restyle_eq hbase _ session, restyle_eq hbase _ _, length_reconciled _ _,
    length_reconciled_eq_iff, ?_, ?_⟩
  · intro rule hrule
    exact hasKey_read_iff (hbelow rule hrule)
  · intro hverbatim
    exact length_reconciled_eq_iff.mpr (exists_hasKey_reconciled hbelow hverbatim)

theorem restyleClass_again_size_doubled :
    doubled.base? = none ∧ ∃ once twice, restyleClass "x" doubled crowded = .ok () once ∧
      restyleClass "x" doubled once = .ok () twice ∧ twice.host.size = once.host.size := by
  have hbase : doubled.base? = none := by decide
  have hverbatim : ∀ rule ∈ flatten (classSelector "x") doubled, rule.target.Verbatim := by
    decide +kernel
  obtain ⟨once, twice, honce, htwice, -, -, -, hsize⟩ := restyleClass_again_size "x" hbase crowded
  exact ⟨hbase, once, twice, honce, htwice, hsize hverbatim⟩

/-- A block with a blank behind the selector in it. -/
def spaced : Block :=
  .nest ":hover " (.leaf "color" (.text "red") .nil) .nil

/-- The record is not met again, so that there is one more of it each time. -/
theorem restyleClass_spaced_grows :
    spaced.base? = none ∧ "x".toList.all isNameChar ∧
      ∃ once twice, restyleClass "x" spaced (.start Sheet.empty () .standard) = .ok () once ∧
        restyleClass "x" spaced once = .ok () twice ∧
        once.host.records = [.style ⟨".x:hover", [⟨"color", "red"⟩]⟩] ∧
        twice.host.records =
          [.style ⟨".x:hover", [⟨"color", "red"⟩]⟩, .style ⟨".x:hover", [⟨"color", "red"⟩]⟩] := by
  have hbase : spaced.base? = none := by decide
  have hname : "x".toList.all isNameChar := by decide
  refine ⟨hbase, hname, _, _, restyle_eq hbase _ _, restyle_eq hbase _ _, ?_, ?_⟩
  · decide +kernel
  · decide +kernel

end Session

end StyleSync
