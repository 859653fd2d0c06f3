import StyleSync.Numeric.Digits

/-! # Command line arguments

The arguments are read from left to right. The first that is wrong ends the reading, and so does the
first that asks for help or for the version. Options that take a value take it from behind an equals
sign or from the next argument, which must not begin with a dash unless it is only a dash; short
options may be joined behind one dash.
-/

set_option autoImplicit false

namespace StyleSync.Cli

/-- What a run was asked to do. -/
structure Arguments where
  /-- The file with the description. -/
  input : String
  /-- The selector under which the input is compiled as one block. -/
  selector : Option String
  /-- The file with the changes. -/
  update : Option String
  /-- The prefix of generated names. -/
  stem : String
  /-- The seed of the suffixes. -/
  seed : Option UInt64
  /-- Whether the report is JSON. -/
  json : Bool
  /-- How often more logging was asked for. -/
  verbosity : Nat
deriving Repr, DecidableEq

/-- How reading arguments ends. -/
inductive Request where
  | run (arguments : Arguments)
  | help
  | version
  | usageError
deriving Repr, DecidableEq

/-! ## Single options -/

/-- Options with a value. -/
inductive ValueOption where
  | selector
  | update
  | stem
  | seed
deriving Repr, DecidableEq

/-- Options without a value. -/
inductive Flag where
  | json
  | verbose
  | help
  | version
deriving Repr, DecidableEq

/-- What an option's name stands for. -/
inductive Named where
  | takesValue (option : ValueOption)
  | flag (flag : Flag)
deriving Repr, DecidableEq

/-- The option of a long name. -/
def long? (name : String) : Option Named :=
  match name with
  | "selector" => some (.takesValue .selector)
  | "update" => some (.takesValue .update)
  | "prefix" => some (.takesValue .stem)
  | "seed" => some (.takesValue .seed)
  | "json" => some (.flag .json)
  | "verbose" => some (.flag .verbose)
  | "help" => some (.flag .help)
  | "version" => some (.flag .version)
  | _ => none

/-- The option of a short name. -/
def short? (name : Char) : Option Named :=
  match name with
  | 's' => some (.takesValue .selector)
  | 'u' => some (.takesValue .update)
  | 'v' => some (.flag .verbose)
  | 'h' => some (.flag .help)
  | 'V' => some (.flag .version)
  | _ => none

/-- A number of sixty-four bits in decimal digits, possibly behind a plus sign. -/
def seed? (text : String) : Option UInt64 :=
  let digits := match text.toList with
    | '+' :: rest => rest
    | chars => chars
  if digits.isEmpty || !digits.all Char.isDigit then
    none
  else
    let value := digitsValue 10 (digits.map digitOfChar)
    if value < UInt64.size then some (UInt64.ofNat value) else none

/-! ## What was read so far -/

/-- The options and the file that were read so far. -/
structure Given where
  input : Option String
  selector : Option String
  update : Option String
  stem : Option String
  seed : Option UInt64
  json : Bool
  verbosity : Nat
deriving Repr, DecidableEq

namespace Given

/-- Nothing read. -/
def nothing : Given := ⟨none, none, none, none, none, false, 0⟩

/-- Set an option. It must not have been set before; a file's name must not be empty. -/
def set? (given : Given) (option : ValueOption) (value : String) : Option Given :=
  match option with
  | .selector =>
    if given.selector.isSome then none else some { given with selector := some value }
  | .update =>
    if given.update.isSome || value.isEmpty then none else some { given with update := some value }
  | .stem =>
    if given.stem.isSome then none else some { given with stem := some value }
  | .seed =>
    match given.seed, seed? value with
    | none, some seed => some { given with seed := some seed }
    | _, _ => none

/-- Set the file. There is only one, and its name must not be empty. -/
def setInput? (given : Given) (value : String) : Option Given :=
  if given.input.isSome || value.isEmpty then none else some { given with input := some value }

/-- The prefix of generated names where none is given. -/
def standardStem : String := "otter"

/-- The request that all arguments together make. -/
def request (given : Given) : Request :=
  match given.input with
  | none => .usageError
  | some input =>
    .run ⟨input, given.selector, given.update, given.stem.getD standardStem, given.seed,
      given.json, given.verbosity⟩

/-- Raise a flag: either the reading ends, or it goes on with what is now given. -/
def raise (given : Given) : Flag → Except Request Given
  | .json => if given.json then .error .usageError else .ok { given with json := true }
  | .verbose => .ok { given with verbosity := given.verbosity + 1 }
  | .help => .error .help
  | .version => .error .version

/-- Set an option or end the reading. -/
def set (given : Given) (option : ValueOption) (value : String) : Except Request Given :=
  match given.set? option value with
  | some given => .ok given
  | none => .error .usageError

end Given

/-! ## Arguments -/

/-- Whether an argument can be the value of the option in front of it. -/
def isValue (argument : String) : Bool :=
  match argument.toList with
  | '-' :: _ :: _ => false
  | _ => true

/-- A name and the value behind the first equals sign, if there is one. -/
def splitEquals (chars : List Char) : String × Option String :=
  match chars.dropWhile (· != '=') with
  | [] => (String.ofList chars, none)
  | _ :: value => (String.ofList (chars.takeWhile (· != '=')), some (String.ofList value))

/-- What a cluster of short options leads to: what is given after it, and the option at its end that
still waits for its value. -/
def readCluster (given : Given) : List Char → Except Request (Given × Option ValueOption)
  | [] => .ok (given, none)
  | name :: rest =>
    match short? name with
    | none => .error .usageError
    | some (.flag flag) => do
      let given ← given.raise flag
      readCluster given rest
    | some (.takesValue option) =>
      match rest with
      | [] => .ok (given, some option)
      | '=' :: value => do return (← given.set option (String.ofList value), none)
      | value => do return (← given.set option (String.ofList value), none)

/-- What a long option leads to. -/
def readLong (given : Given) (chars : List Char) : Except Request (Given × Option ValueOption) :=
  let (name, value) := splitEquals chars
  match long? name, value with
  | some (.takesValue option), some value => do return (← given.set option value, none)
  | some (.takesValue option), none => .ok (given, some option)
  | some (.flag flag), none => do return (← given.raise flag, none)
  | _, _ => .error .usageError

/-- What an argument outside an option leads to. -/
def readInput (given : Given) (argument : String) : Except Request Given :=
  match given.setInput? argument with
  | some given => .ok given
  | none => .error .usageError

/-- The arguments after a double dash: none of them is an option. -/
def readPlain (given : Given) : List String → Except Request Given
  | [] => .ok given
  | argument :: rest => do
    let given ← readInput given argument
    readPlain given rest

/-- All arguments from the next on; `waiting` is the option in front that still needs its value. -/
def readArguments (given : Given) (waiting : Option ValueOption) :
    List String → Except Request Given
  | [] => if waiting.isSome then .error .usageError else .ok given
  | argument :: rest =>
    match waiting with
    | some option =>
      if isValue argument then do
        let given ← given.set option argument
        readArguments given none rest
      else
        .error .usageError
    | none =>
      match argument.toList with
      | ['-', '-'] => readPlain given rest
      | '-' :: '-' :: chars => do
        let (given, waiting) ← readLong given chars
        readArguments given waiting rest
      | '-' :: first :: chars => do
        let (given, waiting) ← readCluster given (first :: chars)
        readArguments given waiting rest
      | _ => do
        let given ← readInput given argument
        readArguments given none rest

/-- The request that a list of arguments makes. -/
def Request.ofArguments (arguments : List String) : Request :=
  match readArguments .nothing none arguments with
  | .ok given => given.request
  | .error request => request

end StyleSync.Cli
