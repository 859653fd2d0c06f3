import StyleSync.Proofs.Results
import StyleSync.Proofs.Sheet.Values
import StyleSync.Session.Basic

/-! # What restyling does to a sheet

`restyle` brings the rules under a selector in line with a block.

* `restyle_eq`: on a sheet in memory it is never refused for a block that names no base, and leaves the
  reconciled records;
* `restyle_values`: so the values of the block win and others stay, but for pinned values.
-/

set_option autoImplicit false

namespace StyleSync

open Declaration

namespace Session

variable {ν : Type}

theorem onHost_of_ok {σ α : Type} {action : EStateM Fault σ α} {session : Session σ ν} {value : α}
    {host : σ} (h : action session.host = .ok value host) :
    onHost action session = .ok value { session with host } := by
  rw [onHost, h]

theorem restyle_of_base {σ : Type} [Host σ] {block : Block} {base : String} (h : block.base? = some base)
    (selector : String) (session : Session σ ν) :
    restyle selector block session = .error (.unknownBase selector base) session := by
  rw [restyle, h]
  rfl

theorem restyle_eq {block : Block} (h : block.base? = none) (selector : String)
    (session : Session Sheet ν) :
    restyle selector block session =
      .ok ()
        { session with
          host := ⟨reconciled session.host.records (flatten selector block)⟩
          warnings := (session.warnings.warnAll noticeComponent (notices selector block)).2 } := by
  have hrun := runAll_editsFor_outline session.host (flatten selector block)
  unfold restyle
  rw [h]
  simp only [bind, EStateM.bind, warn_eq]
  exact onHost_of_ok hrun

/-- **New values win and untouched ones survive**, for every property under every key, if and only if
no other value is pinned; a pinned value is the one that counts. -/
theorem restyle_values {session : Session Sheet ν} {selector : String} {block : Block}
    (hbase : block.base? = none) (hrecords : ∀ record ∈ session.host.records, record.Sound)
    (hrules : ∀ rule ∈ flatten selector block, rule.Readable) :
    ∃ after, restyle selector block session = .ok () after ∧ ∀ key property : String,
      let before := session.host.records
      let rules := flatten selector block
      effective? after.host.records key property =
          (pinned? before rules key property).or
            ((value? (spelled rules key) property).or (effective? before key property)) ∧
        (effective? after.host.records key property =
            (value? (spelled rules key) property).or (effective? before key property) ↔
          ∀ value, pinned? before rules key property = some value →
            value? (spelled rules key) property = some value) :=
  ⟨_, restyle_eq hbase selector session, fun key property =>
    ⟨effective?_reconciled hrecords hrules key property,
      effective?_reconciled_eq_iff hrecords hrules key property⟩⟩

/-- A block for a selector that has a record already. -/
def recolored : Block :=
  .leaf "color" (.text "blue") (.nest "@media print" (.leaf "color" (.text "black") .nil) .nil)

/-- A session on a sheet with two records. -/
def underway : Session Sheet Unit :=
  .start
    ⟨[.style ⟨".x", [⟨"color", "red"⟩, ⟨"margin", "0"⟩]⟩, .keyframes "fade" "to \x7b \x7d"]⟩
    () .standard

theorem restyle_values_recolored :
    recolored.base? = none ∧ (∀ record ∈ underway.host.records, record.Sound) ∧
      (∀ rule ∈ flatten ".x" recolored, rule.Readable) ∧
      ∃ after, restyle ".x" recolored underway = .ok () after ∧
        effective? after.host.records ".x" "color" = some "blue" ∧
        effective? after.host.records ".x" "margin" = some "0" ∧
        effective? after.host.records ".x@media print" "color" = some "black" := by
  have hbase : recolored.base? = none := by decide
  have hrecords : ∀ record ∈ underway.host.records, record.Sound := by decide
  have hrules : ∀ rule ∈ flatten ".x" recolored, rule.Readable := by decide +kernel
  obtain ⟨after, hafter, hvalues⟩ := restyle_values hbase hrecords hrules
  refine ⟨hbase, hrecords, hrules, after, hafter, ?_, ?_, ?_⟩
  · rw [(hvalues _ _).1]
    decide +kernel
  · rw [(hvalues _ _).1]
    decide +kernel
  · rw [(hvalues _ _).1]
    decide +kernel

/-- A block with two spellings of one property under the first of two spellings of one condition. -/
def respelled : Block :=
  .nest "@media print"
    (.leaf "backgroundColor" (.text "red") (.leaf "background-color" (.text "blue") .nil))
    (.nest "@media  print" (.leaf "background-color" (.text "green") .nil) .nil)

/-- On an empty sheet the last declaration of the block does not win. -/
theorem restyle_respelled_pinned :
    respelled.base? = none ∧ (∀ rule ∈ flatten ".x" respelled, rule.Readable) ∧
      value? (spelled (flatten ".x" respelled) ".x@media print") "background-color" = some "green" ∧
      ∃ after, restyle ".x" respelled (.start Sheet.empty () .standard) = .ok () after ∧
        effective? after.host.records ".x@media print" "background-color" = some "blue" := by
  have hbase : respelled.base? = none := by decide
  refine ⟨hbase, by decide +kernel, by decide +kernel, _, restyle_eq hbase _ _, ?_⟩
  decide +kernel

end Session

end StyleSync
