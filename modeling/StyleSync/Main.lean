import StyleSync.Cli.Program

/-! # Entry point

Reads the files that the arguments name, runs the program on them, and writes what it leaves behind.
-/

set_option autoImplicit false

namespace StyleSync.Cli

/-- The number that the system gives to the fault of a directory that is read as a file. -/
def directoryNumber : UInt32 := 21

/-- Why a file cannot be read, from what the system says. -/
def faultOf : IO.Error → FileFault
  | .noFileOrDirectory .. => .noSuchFile
  | .inappropriateType _ number _ =>
    if number = directoryNumber then .isADirectory else .notADirectory
  | fault => .other (toString fault)

/-- The text of a file, or why it cannot be read. -/
def readFile (name : String) : IO (Except FileFault String) := do
  try
    let bytes ← IO.FS.readBinFile name
    match String.fromUTF8? bytes with
    | some text => return .ok text
    | none => return .error .notText
  catch fault =>
    return .error (faultOf fault)

/-- The files that a request names, as a look-up. -/
def readFiles : Request → IO Files
  | .run arguments => do
    let input ← readFile arguments.input
    let changes ← match arguments.update with
      | none => pure input
      | some name => readFile name
    return fun name => if name = arguments.input then input else changes
  | _ => return fun _ => .error .noSuchFile

/-- A seed from the system's source of random bytes. -/
def randomSeed : IO UInt64 := do
  let bytes ← IO.getRandomBytes 8
  return bytes.foldl (fun seed byte => seed * 256 + byte.toUInt64) 0

/-- Carry out what the arguments ask for; the result is the exit code. -/
def runArguments (arguments : List String) : IO UInt32 := do
  let request := Request.ofArguments arguments
  let files ← readFiles request
  let random ← randomSeed
  let result := outcome files (fun seed => RandomSuffix.ofSeed (seed.getD random)) request
  (← IO.getStdout).putStr result.output
  (← IO.getStderr).putStr result.errors
  return UInt32.ofNat result.exit

end StyleSync.Cli

def main (arguments : List String) : IO UInt32 :=
  StyleSync.Cli.runArguments arguments
