import StyleSync.Session.Basic

/-! # Rendering again and again

A component describes its styles anew each time it is rendered. A `Rendering` keeps what the last
successful time has shown, so that `Session.render` defines the styles the first time, later changes
only what differs, and always has the same class names. A `Component` keeps its last rendering.
-/

set_option autoImplicit false

namespace StyleSync

/-- What a successful render leaves behind. -/
structure Rendering where
  description : Description
  resolved : Entries Block
  names : ClassNames

namespace Rendering

/-- Whether an entry was last rendered with an equal block. -/
def shows (rendering : Rendering) (entry : String) (block : Block) : Bool :=
  match rendering.resolved.get? entry with
  | some shown => shown.same block
  | none => false

end Rendering

namespace Session

variable {σ ν : Type}

/-- Bring the classes of a rendering in line with resolved blocks: those whose entry has a block that
was not last rendered, in the order of the names. -/
def restyleChanged [Host σ] (previous : Rendering) (resolved : Entries Block) :
    Entries String → Action σ ν Unit
  | [] => pure ()
  | (entry, name) :: rest => do
    match resolved.get? entry with
    | none => pure ()
    | some block => if previous.shows entry block then pure () else restyleClass name block
    restyleChanged previous resolved rest

/-- Render a description, after the previous rendering if there was one. Entries are compared after
their bases are resolved. An entry that is new gets no class, and the rules of one that has gone stay.
A refused render has no rendering: the previous one stays the last. -/
def render [Host σ] [SuffixSource ν] (previous : Option Rendering) (description : Description) :
    Action σ ν Rendering :=
  match previous with
  | none => do
    let resolved ← attempt description.resolve
    let names ← define description
    return ⟨description, resolved, names⟩
  | some previous =>
    if previous.description.same description then
      pure previous
    else do
      let resolved ← attempt description.resolve
      restyleChanged previous resolved previous.names.entries
      return ⟨description, resolved, previous.names⟩

end Session

/-! ## Components -/

/-- A component: its last rendering, and the session that it renders in. -/
structure Component (σ ν : Type) where
  rendering : Option Rendering
  session : Session σ ν

namespace Component

variable {σ ν : Type}

/-- A component that was not rendered yet. -/
def start (session : Session σ ν) : Component σ ν := ⟨none, session⟩

/-- The class names of the component, once it was rendered. -/
def names? (component : Component σ ν) : Option ClassNames :=
  component.rendering.map Rendering.names

/-- Render a description and keep the rendering. The last rendering stays when a render is refused, but
the session is left as far as it was changed. -/
def render [Host σ] [SuffixSource ν] (description : Description) :
    EStateM Fault (Component σ ν) ClassNames := fun component =>
  match Session.render component.rendering description component.session with
  | .ok rendering session => .ok rendering.names ⟨some rendering, session⟩
  | .error fault session => .error fault { component with session }

end Component

end StyleSync
