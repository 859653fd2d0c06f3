/-! # Warnings

A warning is a line made of a component and a message. A line is logged the first time it is raised;
after that it is known and stays silent.
-/

set_option autoImplicit false

namespace StyleSync

/-- The lines logged so far, in order. -/
structure Warnings where
  lines : List String
deriving Repr, DecidableEq, Inhabited

namespace Warnings

/-- No warnings. -/
def empty : Warnings := ⟨[]⟩

/-- The line of a component and a message. -/
def line (component message : String) : String :=
  "[" ++ component ++ "] " ++ message

/-- Whether the line of a component and a message was logged. -/
def has (warnings : Warnings) (component message : String) : Bool :=
  warnings.lines.contains (line component message)

/-- Raise a warning: the lines that are logged, one or none, and the warnings after it. -/
def warn (warnings : Warnings) (component message : String) : List String × Warnings :=
  if warnings.has component message then ([], warnings)
  else ([line component message], ⟨warnings.lines ++ [line component message]⟩)

/-- A warning that was raised is known. -/
theorem has_warn_self (warnings : Warnings) (component message : String) :
    (warnings.warn component message).2.has component message = true := by
  unfold warn
  split
  · assumption
  · simp [has]

theorem warn_of_has {warnings : Warnings} {component message : String}
    (h : warnings.has component message) : (warnings.warn component message).2 = warnings := by
  rw [warn, if_pos h]

/-- What is known stays known. -/
theorem has_warn {warnings : Warnings} {component message : String}
    (h : warnings.has component message) (component' message' : String) :
    (warnings.warn component' message').2.has component message := by
  unfold warn
  split
  · exact h
  · simp only [has, List.contains_eq_mem, List.mem_append, decide_eq_true_eq] at h ⊢
    exact Or.inl h

/-- Raise several warnings of one component in turn: the lines that are logged, and the warnings after
them. -/
def warnAll (warnings : Warnings) (component : String) : List String → List String × Warnings
  | [] => ([], warnings)
  | message :: rest =>
    let (logged, warnings) := warnings.warn component message
    let (later, warnings) := warnAll warnings component rest
    (logged ++ later, warnings)

section All

variable (warnings : Warnings) (component : String)

theorem warnAll_cons (message : String) (rest : List String) :
    (warnings.warnAll component (message :: rest)).2 =
      ((warnings.warn component message).2.warnAll component rest).2 := rfl

theorem warnAll_append (messages more : List String) :
    (warnings.warnAll component (messages ++ more)).2 =
      ((warnings.warnAll component messages).2.warnAll component more).2 := by
  induction messages generalizing warnings with
  | nil => rfl
  | cons message rest ih => rw [List.cons_append, warnAll_cons, ih, warnAll_cons]

variable {warnings component} {messages : List String}

theorem has_warnAll {message : String} (h : warnings.has component message)
    (messages : List String) : (warnings.warnAll component messages).2.has component message := by
  induction messages generalizing warnings with
  | nil => exact h
  | cons other rest ih => exact ih (has_warn h component other)

theorem has_warnAll_of_mem {message : String} (h : message ∈ messages) :
    (warnings.warnAll component messages).2.has component message := by
  induction messages generalizing warnings with
  | nil => simp at h
  | cons other rest ih =>
    rcases List.mem_cons.mp h with rfl | hrest
    · exact has_warnAll (has_warn_self warnings component message) rest
    · exact ih hrest

theorem warnAll_of_has (h : ∀ message ∈ messages, warnings.has component message) :
    (warnings.warnAll component messages).2 = warnings := by
  induction messages with
  | nil => rfl
  | cons message rest ih =>
    rw [List.forall_mem_cons] at h
    rw [warnAll_cons, warn_of_has h.1, ih h.2]

/-- Warnings that were raised in part can be raised again from the start. -/
theorem warnAll_resume (messages more : List String) :
    ((warnings.warnAll component messages).2.warnAll component (messages ++ more)).2 =
      (warnings.warnAll component (messages ++ more)).2 := by
  have hknown : ∀ message ∈ messages,
      (warnings.warnAll component messages).2.has component message := fun message hmem =>
    has_warnAll_of_mem hmem
  rw [warnAll_append, warnAll_of_has hknown, warnAll_append]

end All

end Warnings

end StyleSync
