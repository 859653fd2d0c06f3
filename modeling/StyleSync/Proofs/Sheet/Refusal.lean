import StyleSync.Proofs.Sheet.Reconciliation
import StyleSync.Sheet.Monitored

/-! # Hosts that refuse one removal

`RefusesOnce` describes a host that keeps its sheet as one in memory does, but for one removal, at any time,
that it refuses. `RefusesOnce.reconciles` says how reconciliation ends there: it completes with the
reconciled records, or it is stopped by the refusal, and then the records are reconciled with the first of
the rules.
-/

set_option autoImplicit false

namespace StyleSync

/-! ## Actions that can be refused once -/

/-- What is seen of a state: some part of it, and whether the one refusal has been. -/
structure Watch (σ τ : Type) where
  view : σ → τ
  spent : σ → Prop

namespace Watch

variable {σ τ α : Type} (watch : Watch σ τ)

/-- How an action ends: it completes with the view `done` and leaves the refusal as it was, or it is
refused with a view of which `partly` holds, and the refusal is spent on it. -/
def Yields (result : EStateM.Result Fault σ α) (before : σ) (done : τ) (partly : τ → Prop) : Prop :=
  (∃ value after, result = .ok value after ∧ watch.view after = done ∧
    (watch.spent after ↔ watch.spent before)) ∨
  (∃ fault after, result = .error fault after ∧ partly (watch.view after) ∧
    ¬watch.spent before ∧ watch.spent after)

variable {watch}

theorem Yields.completed {result : EStateM.Result Fault σ α} {before after : σ} {value : α} {done : τ}
    (hresult : result = .ok value after) (hview : watch.view after = done)
    (hspent : watch.spent after ↔ watch.spent before) (partly : τ → Prop) :
    watch.Yields result before done partly :=
  Or.inl ⟨value, after, hresult, hview, hspent⟩

theorem Yields.mono {result : EStateM.Result Fault σ α} {before : σ} {done : τ}
    {partly partly' : τ → Prop} (h : watch.Yields result before done partly)
    (himp : ∀ view, partly view → partly' view) : watch.Yields result before done partly' := by
  rcases h with h | ⟨fault, after, hresult, hpartly, hspent⟩
  · exact Or.inl h
  · exact Or.inr ⟨fault, after, hresult, himp _ hpartly, hspent⟩

/-- Two actions in turn: the second starts where the first completed. -/
theorem Yields.bind {β : Type} {first : EStateM Fault σ α} {second : α → EStateM Fault σ β} {before : σ}
    {middle done : τ} {partly : τ → Prop} (hfirst : watch.Yields (first before) before middle partly)
    (hsecond : ∀ value after, watch.view after = middle →
      watch.Yields (second value after) after done partly) :
    watch.Yields ((first >>= second) before) before done partly := by
  rcases hfirst with ⟨value, after, hresult, hview, hspent⟩ | ⟨fault, after, hresult, hrefused⟩
  · have hbind : (first >>= second) before = second value after := by
      simp only [Bind.bind, EStateM.bind, hresult]
    rw [hbind]
    rcases hsecond value after hview with
      ⟨value', last, hlast, hdone, hspent'⟩ | ⟨fault, last, hlast, hpartly, hfresh, hused⟩
    · exact Or.inl ⟨value', last, hlast, hdone, hspent'.trans hspent⟩
    · exact Or.inr ⟨fault, last, hlast, hpartly, fun h => hfresh (hspent.mpr h), hused⟩
  · have hbind : (first >>= second) before = .error fault after := by
      simp only [Bind.bind, EStateM.bind, hresult]
    exact Or.inr ⟨fault, after, hbind, hrefused⟩

theorem Yields.exists_ok {result : EStateM.Result Fault σ α} {before : σ} {done : τ} {partly : τ → Prop}
    (h : watch.Yields result before done partly) (hspent : watch.spent before) :
    ∃ value after, result = .ok value after ∧ watch.view after = done := by
  rcases h with ⟨value, after, hresult, hview, -⟩ | ⟨-, -, -, -, hfresh, -⟩
  · exact ⟨value, after, hresult, hview⟩
  · exact absurd hspent hfresh

end Watch

/-! ## Hosts -/

/-- A host that keeps a sheet as one in memory does, but that refuses one removal, which leaves the sheet as
it is. Nothing is asked of removals at an index that the sheet does not have. -/
structure RefusesOnce {σ : Type} [Host σ] (watch : Watch σ Sheet) : Prop where
  records : ∀ host : σ, Host.records host = (watch.view host).records
  append : ∀ (header block : String) (host : σ),
    watch.view (Host.append header block host) = (watch.view host).append header block ∧
      (watch.spent (Host.append header block host) ↔ watch.spent host)
  removeAt : ∀ (index : Nat) (host : σ), index < (watch.view host).size →
    watch.Yields (Host.removeAt index host) host ⟨(watch.view host).records.eraseIdx index⟩
      (· = watch.view host)

/-- A sheet in memory refuses nothing: the refusal is always spent. -/
def Sheet.watch : Watch Sheet Sheet := ⟨id, fun _ => True⟩

theorem Sheet.refusesOnce : RefusesOnce Sheet.watch where
  records _ := rfl
  append _ _ _ := ⟨rfl, Iff.rfl⟩
  removeAt _ _ h := Or.inl ⟨(), _, removeAt_of_lt h, rfl, Iff.rfl⟩

/-- The refusal of a monitored sheet is spent when there is no allowance left. -/
def MonitoredSheet.watching : Watch MonitoredSheet Sheet := ⟨sheet, fun host => host.allowance = none⟩

theorem MonitoredSheet.refusesOnce : RefusesOnce MonitoredSheet.watching where
  records _ := rfl
  append _ _ _ := ⟨rfl, Iff.rfl⟩
  removeAt index host h := by
    obtain ⟨sheet, calls, allowance⟩ := host
    have hremove : Sheet.removeAt index sheet = .ok () ⟨sheet.records.eraseIdx index⟩ :=
      Sheet.removeAt_of_lt h
    rcases allowance with - | (- | allowance)
    · refine Or.inl ⟨(), ⟨⟨sheet.records.eraseIdx index⟩, .removeAt index :: calls, none⟩, ?_, rfl, Iff.rfl⟩
      simp only [Host.removeAt, removeAt, hremove, Option.map_none]
    · exact Or.inr ⟨_, ⟨sheet, .removeAt index :: calls, none⟩, rfl, rfl, by simp [watching], rfl⟩
    · refine Or.inl ⟨(), ⟨⟨sheet.records.eraseIdx index⟩, .removeAt index :: calls, some allowance⟩,
        ?_, rfl, by simp [watching]⟩
      simp only [Host.removeAt, removeAt, hremove, Option.map_some, Nat.add_sub_cancel]

/-! ## Edits -/

/-- A sheet that follows the plan up to some rule. -/
def PartlyTracked (planned : List Tracked) (rules : List Rule) (sheet : Sheet) : Prop :=
  ∃ part, part <+: rules ∧ sheet = ⟨(part.foldl track planned).map Tracked.record⟩

namespace RefusesOnce

variable {σ : Type} [Host σ] {watch : Watch σ Sheet} (hhost : RefusesOnce watch)

include hhost

theorem run_ofRule {rule : Rule} {host : σ} {planned : List Tracked}
    (hview : watch.view host = ⟨planned.map Tracked.record⟩) (partly : Sheet → Prop) :
    watch.Yields ((Edit.ofRule rule).run host) host
      ⟨(planned ++ [Tracked.ofRule rule]).map Tracked.record⟩ partly := by
  obtain ⟨happend, hspent⟩ := hhost.append rule.header rule.block host
  refine Watch.Yields.completed rfl ?_ hspent _
  rw [happend, hview, List.map_append]
  rfl

theorem run_removeAt {host : σ} {before after : List Tracked} {found : Tracked}
    (hview : watch.view host = ⟨(before ++ found :: after).map Tracked.record⟩) :
    watch.Yields ((Edit.removeAt (before.map Tracked.record).length).run host) host
      ⟨(before ++ after).map Tracked.record⟩ (· = watch.view host) := by
  have hlt : (before.map Tracked.record).length < (watch.view host).size := by
    rw [hview, Sheet.size]
    simp
  have herase : (watch.view host).records.eraseIdx (before.map Tracked.record).length =
      (before ++ after).map Tracked.record := by
    rw [hview, List.map_append, List.eraseIdx_append_of_length_le (Nat.le_refl _), List.map_append]
    simp
  have hremove := hhost.removeAt _ host hlt
  rw [herase] at hremove
  exact hremove

/-- The sheet follows the plan to its end, or up to the rule whose record is not removed: after the turn of
every rule before it is what the plan says. -/
theorem runAll_editsFor (planned : List Tracked) (rules : List Rule) (host : σ)
    (hview : watch.view host = ⟨planned.map Tracked.record⟩) :
    watch.Yields (Edit.runAll (editsFor (planned.map Tracked.outline) rules) host) host
      ⟨(rules.foldl track planned).map Tracked.record⟩ (PartlyTracked planned rules) := by
  induction rules generalizing planned host with
  | nil => exact Watch.Yields.completed rfl hview Iff.rfl _
  | cons rule rules ih =>
    have hrest : ∀ after : σ, watch.view after = ⟨(track planned rule).map Tracked.record⟩ →
        watch.Yields
          (Edit.runAll (editsFor ((track planned rule).map Tracked.outline) rules) after) after
          ⟨((rule :: rules).foldl track planned).map Tracked.record⟩
          (PartlyTracked planned (rule :: rules)) := by
      intro after hafter
      refine (ih _ after hafter).mono fun sheet ⟨part, hpart, hsheet⟩ => ?_
      exact ⟨rule :: part, (List.prefix_cons_inj rule).mpr hpart, hsheet⟩
    rcases exists_last (Tracked.hasKey rule.key) planned with
      hnone | ⟨before, found, after, rfl, hfound, hafter⟩
    · rw [editsFor_of_not hnone]
      rw [track_of_not hnone] at hrest ⊢
      exact Watch.Yields.bind (hhost.run_ofRule hview _) fun _ => hrest
    · rw [editsFor_append_cons hfound hafter]
      have hstopped : ∀ sheet, sheet = watch.view host →
          PartlyTracked (before ++ found :: after) (rule :: rules) sheet := fun sheet hsheet =>
        ⟨[], List.nil_prefix, hsheet.trans hview⟩
      rw [track_append_cons hfound hafter] at hrest ⊢
      exact ((hhost.run_removeAt hview).mono hstopped).bind fun _ middle hmiddle =>
        Watch.Yields.bind (hhost.run_ofRule hmiddle _) fun _ => hrest

/-- Reconciliation ends with the reconciled records, or with records that are reconciled with the first of
the rules. -/
theorem reconciles (rules : List Rule) (host : σ) :
    watch.Yields
      (Edit.runAll (editsFor ((Host.records host).map Record.outline) rules) host) host
      ⟨reconciled (watch.view host).records rules⟩
      (fun sheet => ∃ part, part <+: rules ∧
        sheet = ⟨reconciled (watch.view host).records part⟩) := by
  have hview : watch.view host =
      ⟨((watch.view host).records.map Tracked.ofRecord).map Tracked.record⟩ := by
    rw [record_ofRecord]
  have hrun := hhost.runAll_editsFor _ rules host hview
  unfold PartlyTracked at hrun
  simp only [outline_ofRecord, foldl_track, map_record_trackedAfter] at hrun
  rw [hhost.records]
  exact hrun

end RefusesOnce

end StyleSync
