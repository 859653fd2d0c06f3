import StyleSync.Css.Flattening
import StyleSync.Json.Fields
import StyleSync.Sheet.Record
import StyleSync.Style.OfJson

/-! # Animations

An animation consists of keyframes, which a sheet stores as one record, and of timing, which goes into
the value of the `animation` property next to the name of the keyframes.
-/

set_option autoImplicit false

namespace StyleSync

/-- The parts of an `animation` value behind the name, in their order there. -/
structure Timing where
  duration : Option Scalar
  timingFunction : Option Scalar
  delay : Option Scalar
  iterationCount : Option Scalar
  direction : Option Scalar
  fillMode : Option Scalar
deriving Repr, DecidableEq, Inhabited

namespace Timing

/-- No part set. -/
def unset : Timing := ⟨none, none, none, none, none, none⟩

/-- The parts with what stands for each when it is not set. -/
def parts (timing : Timing) : List (Option Scalar × String) :=
  [(timing.duration, "0s"), (timing.timingFunction, "ease"), (timing.delay, "0s"),
    (timing.iterationCount, "1"), (timing.direction, "normal"), (timing.fillMode, "none")]

/-- Whether any part is set. -/
def isSet (timing : Timing) : Bool :=
  timing.parts.any fun part => part.1.isSome

/-- The texts of the parts. -/
def texts (timing : Timing) : List String :=
  timing.parts.map fun part => (part.1.map Scalar.render).getD part.2

end Timing

/-- Keyframes, blocks under their keyframe selectors, with timing. -/
structure Animation where
  keyframes : Description
  timing : Timing

namespace Animation

/-! ## What a sheet and a style get -/

/-- The value of the `animation` property for keyframes of the given name: the name alone if no part
of the timing is set, else the name and all parts. -/
def shorthand (animation : Animation) (name : String) : String :=
  if animation.timing.isSet then " ".intercalate (name :: animation.timing.texts) else name

/-- The declaration of an entry of a keyframe; every scalar is one. -/
def declaration? (key : String) : Value → Option Declaration
  | .leaf scalar => some ⟨dashedName key, scalar.render⟩
  | .block _ => none

/-- A keyframe with its declarations in braces. -/
def frameText (selector : String) (block : Block) : String :=
  braced selector <|
    Declaration.render (block.entries.filterMap fun entry => declaration? entry.1 entry.2)

/-- The text of all keyframes. -/
def body (animation : Animation) : String :=
  " ".intercalate (animation.keyframes.entries.map fun frame => frameText frame.1 frame.2)

/-- The header of the keyframes under a name. -/
def header (name : String) : String :=
  keyframesHeader name

/-- The notice about an entry that a keyframe leaves out. -/
def notice? (selector key : String) : Value → Option String
  | .leaf _ => none
  | .block _ => some ("nested block '" ++ key ++ "' in keyframe '" ++ selector ++ "' ignored")

/-- The notices about the entries that the keyframes leave out, in order. -/
def notices (animation : Animation) : List String :=
  animation.keyframes.entries.flatMap fun frame =>
    frame.2.entries.filterMap fun entry => notice? frame.1 entry.1 entry.2

/-! ## Reading from JSON -/

/-- The scalar of a timing part, `none` where the value is null. -/
def part? : Json → Except ReadFault (Option Scalar)
  | .null => .ok none
  | json =>
    match Scalar.ofJson? json with
    | some scalar => .ok (some scalar)
    | none => .error .notScalar

/-- The keyframes of a value. -/
def keyframesOf (json : Json) : Except ReadFault Description :=
  (Description.ofJson json).mapError .style

/-- How the part under a key is set, `none` for a key that names no part. -/
def setter? (key : String) : Option (Timing → Option Scalar → Timing) :=
  match key with
  | "duration" => some fun timing value => { timing with duration := value }
  | "timingFunction" => some fun timing value => { timing with timingFunction := value }
  | "delay" => some fun timing value => { timing with delay := value }
  | "iterationCount" => some fun timing value => { timing with iterationCount := value }
  | "direction" => some fun timing value => { timing with direction := value }
  | "fillMode" => some fun timing value => { timing with fillMode := value }
  | _ => none

/-- The name of the field of the keyframes. -/
def keyframesField : String := "keyframes"

/-- The keyframes and the timing of an object's fields, on top of those read before. Fields of other
names are passed over. -/
def ofFields (keyframes : Option Description) (timing : Timing) :
    List (String × Json) → Except ReadFault Animation
  | [] =>
    match keyframes with
    | some keyframes => .ok ⟨keyframes, timing⟩
    | none => .error (.missingField keyframesField)
  | (key, json) :: rest =>
    if key = keyframesField then do
      let keyframes ← keyframesOf json
      ofFields (some keyframes) timing rest
    else
      match setter? key with
      | some set => do
        let value ← part? json
        ofFields keyframes (set timing value) rest
      | none => ofFields keyframes timing rest

/-- The timing of as many items as there are. -/
def timingOf : List Json → Except ReadFault (List (Option Scalar))
  | [] => .ok []
  | json :: rest => do
    let value ← part? json
    let values ← timingOf rest
    return value :: values

/-- The number of items of an animation in an array. -/
def itemCount : Nat := 7

/-- The animation of an array's items: the keyframes, then the parts of the timing in order. The items
are read before they are counted. -/
def ofItems (items : List Json) : Except ReadFault Animation :=
  let tooFew : Except ReadFault Animation :=
    .error (.wrongLength items.length "struct Animation with 7 elements")
  match items with
  | [] => tooFew
  | first :: rest => do
    let keyframes ← keyframesOf first
    let values ← timingOf (rest.take (itemCount - 1))
    match values with
    | [duration, timingFunction, delay, iterationCount, direction, fillMode] =>
      if itemCount < items.length then
        .error (.wrongLength items.length ReadFault.fewerItems)
      else
        .ok ⟨keyframes,
          ⟨duration, timingFunction, delay, iterationCount, direction, fillMode⟩⟩
    | _ => tooFew

/-- The animation that a JSON value spells. -/
def ofJson : Json → Except ReadFault Animation
  | .object fields => ofFields none .unset fields
  | .array items => ofItems items
  | json => .error (.wrongKind json "struct Animation")

end Animation

end StyleSync
