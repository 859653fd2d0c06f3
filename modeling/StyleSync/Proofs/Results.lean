import StyleSync.Fault

/-! # What actions leave behind

An action ends with a value or with a fault, and with a state in either case: `outcome` is the value or the
fault, and `after` is the state.
-/

set_option autoImplicit false

namespace StyleSync

/-- What an action leaves behind, whether it was refused or not. -/
def after {σ α : Type} (action : EStateM Fault σ α) (state : σ) : σ :=
  match action state with
  | .ok _ state => state
  | .error _ state => state

/-- What an action yields. -/
def outcome {σ α : Type} (action : EStateM Fault σ α) (state : σ) : Except Fault α :=
  match action state with
  | .ok value _ => .ok value
  | .error fault _ => .error fault

variable {σ α : Type} {action : EStateM Fault σ α} {state left : σ}

theorem after_of_ok {value : α} (h : action state = .ok value left) : after action state = left := by
  rw [after, h]

theorem after_of_error {fault : Fault} (h : action state = .error fault left) :
    after action state = left := by
  rw [after, h]

theorem outcome_of_ok {value : α} (h : action state = .ok value left) :
    outcome action state = .ok value := by
  rw [outcome, h]

theorem outcome_of_error {fault : Fault} (h : action state = .error fault left) :
    outcome action state = .error fault := by
  rw [outcome, h]

/-- What one action establishes and the next one keeps holds after both, even if one is refused. -/
theorem holds_after_bind {β : Type} {P : σ → Prop} {first : EStateM Fault σ α}
    {second : α → EStateM Fault σ β} (hfirst : P (after first state))
    (hsecond : ∀ value middle, P middle → P (after (second value) middle)) :
    P (after (first >>= second) state) := by
  have hbind : (first >>= second) state = EStateM.bind first second state := rfl
  unfold after at hfirst ⊢
  rw [hbind, EStateM.bind]
  cases hrun : first state with
  | ok value middle =>
    rw [hrun] at hfirst
    exact hsecond value middle hfirst
  | error fault middle =>
    rw [hrun] at hfirst
    exact hfirst

theorem after_map {β : Type} (f : α → β) (action : EStateM Fault σ α) (state : σ) :
    after (f <$> action) state = after action state := by
  have hmap : (f <$> action) state = EStateM.map f action state := rfl
  unfold after
  rw [hmap, EStateM.map]
  cases action state <;> rfl

end StyleSync
