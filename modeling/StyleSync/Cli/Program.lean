import StyleSync.Cli.Arguments
import StyleSync.Cli.FileSystem
import StyleSync.Cli.Report
import StyleSync.Json.Reader
import StyleSync.Session.Rendering

/-! # The program

The program reads a description from a file, defines its classes or places it under a selector,
renders or restyles it with the changes from a second file if one is given, and reports the sheet.
Files come from a look-up, so that a run is a function of its arguments, its files and its suffixes.
-/

set_option autoImplicit false

namespace StyleSync.Cli

/-! ## What a run leaves behind -/

/-- The exit code of a run and the texts that it writes. -/
structure Outcome where
  exit : Nat
  output : String
  errors : String
deriving Repr, DecidableEq

/-- Why a run failed: a message and what it was caused by. -/
structure Failure where
  message : String
  cause : Option String
deriving Repr, DecidableEq

namespace Failure

/-- A failure without a cause of its own. -/
def ofMessage (message : String) : Failure := ⟨message, none⟩

/-- A cause with every line of it further in. -/
def indented (cause : String) : String :=
  String.ofList ("    ".toList ++ cause.toList.flatMap fun c =>
    if c = '\n' then "\n    ".toList else [c])

/-- The text of a failure. -/
def text (failure : Failure) : String :=
  match failure.cause with
  | none => "Error: " ++ failure.message ++ "\n"
  | some cause => "Error: " ++ failure.message ++ "\n\nCaused by:\n" ++ indented cause ++ "\n"

end Failure

/-- The value in a file. -/
def readJson (files : Files) (name : String) : Except Failure Json :=
  match files name with
  | .error fault => .error ⟨"failed to read " ++ name, some fault.message⟩
  | .ok text =>
    match Json.parse? Json.maxDepth text with
    | some value => .ok value
    | none => .error (.ofMessage (name ++ " is not valid JSON"))

/-- A result whose fault is the cause of a failure. -/
def because {α : Type} (message : String) (result : Except Fault α) : Except Failure α :=
  result.mapError fun fault => ⟨message, some fault.message⟩

/-- The result of an action and the session after it. -/
def perform {ν α : Type} (action : Session.Action Sheet ν α) (session : Session Sheet ν) :
    Except Failure (α × Session Sheet ν) :=
  match action session with
  | .ok value session => .ok (value, session)
  | .error fault _ => .error (.ofMessage fault.message)

/-! ## Runs -/

variable {ν : Type} [SuffixSource ν]

/-- Compile the input as one block under a selector. -/
def runSelector (files : Files) (arguments : Arguments) (selector : String) (input : Json)
    (session : Session Sheet ν) : Except Failure Report := do
  let block ← because "input is not a style block" (Block.ofJson input)
  let (_, session) ← perform (Session.place selector block) session
  match arguments.update with
  | none => return ⟨none, session.host⟩
  | some name => do
    let changes ← readJson files name
    let block ← because "update is not a style block" (Block.ofJson changes)
    let (_, session) ← perform (Session.restyle selector block) session
    return ⟨none, session.host⟩

/-- A description with the blocks of some entries changed. Only entries that have a class can be. -/
def change (names : ClassNames) (description : Description) :
    Entries Block → Except Failure Description
  | [] => .ok description
  | (entry, block) :: rest =>
    match names.get? entry with
    | none => .error (.ofMessage ("update names unknown entry '" ++ entry ++ "'"))
    | some _ => change names (description.insert entry block) rest

/-- Define the classes of the input, then render it with the changed entries. -/
def runClasses (files : Files) (arguments : Arguments) (input : Json)
    (session : Session Sheet ν) : Except Failure Report := do
  let description ← because "input is not a style description" (Description.ofJson input)
  let (rendering, session) ← perform (Session.render none description) session
  match arguments.update with
  | none => return ⟨some rendering.names, session.host⟩
  | some name => do
    let json ← readJson files name
    let changes ← because "update is not a style description" (Description.ofJson json)
    let changed ← change rendering.names description changes.entries
    let (rendering, session) ← perform (Session.render (some rendering) changed) session
    return ⟨some rendering.names, session.host⟩

/-- The report of a run, or why it failed. -/
def run (files : Files) (arguments : Arguments) (source : ν) : Except Failure Report := do
  let options : Options := ⟨arguments.stem, arguments.stem ++ "-animation"⟩
  let input ← readJson files arguments.input
  match arguments.selector with
  | some selector => runSelector files arguments selector input (.start .empty source options)
  | none => runClasses files arguments input (.start .empty source options)

/-- The text of a report. -/
def reportText (arguments : Arguments) (report : Report) : String :=
  if arguments.json then report.toJson.pretty ++ "\n" else report.plain

/-- The exit code of wrong arguments. -/
def usageExit : Nat := 2

/-- The text about the version. -/
def versionText : String := "otter 0.1.0\n"

/-- The text about the arguments. -/
def helpText : String :=
  "Compile nested style descriptions to CSS from the command line

Usage: otter [OPTIONS] <FILE>

Arguments:
  <FILE>  JSON style description

Options:
  -s, --selector <SELECTOR>  Compile the input as one block under this selector instead of generating classes
  -u, --update <FILE>        JSON description reconciled against the input
      --prefix <PREFIX>      Prefix for generated class names [default: otter]
      --seed <SEED>          Seed for class-name suffixes
      --json                 Print class names and rules as JSON
  -v, --verbose...           Log more (-v debug, -vv trace)
  -h, --help                 Print help
  -V, --version              Print version

EXAMPLES:
    # Compile a style description
    otter styles.json

    # Reproducible class names
    otter --seed 7 styles.json

    # Compile a block under a fixed selector
    otter --selector body base.json

    # Apply an update and print the reconciled sheet as JSON
    otter styles.json --update changes.json --json
"

/-- What the program leaves behind for a request; `source` has the suffixes of a seed, or random ones
where there is none. -/
def outcome (files : Files) (source : Option UInt64 → ν) : Request → Outcome
  | .usageError => ⟨usageExit, "", ""⟩
  | .version => ⟨0, versionText, ""⟩
  | .help => ⟨0, helpText, ""⟩
  | .run arguments =>
    match run files arguments (source arguments.seed) with
    | .ok report => ⟨0, reportText arguments report, ""⟩
    | .error failure => ⟨1, "", failure.text⟩

end StyleSync.Cli
