import StyleSync.OrderedMap

/-! # Files by name

The files that a run can read, as a tree with a current directory. A name is followed part by part: the
part of a name between two slashes is looked up in the directory reached so far, an empty part and a dot
stay in it, and two dots lead to the directory above it. So a name that ends in a slash needs a
directory in front of the slash.
-/

set_option autoImplicit false

namespace StyleSync.Cli

/-! ## Why a file cannot be read -/

/-- Why a file cannot be read. -/
inductive FileFault where
  /-- Nothing has the name. -/
  | noSuchFile
  /-- The name goes on behind a file. -/
  | notADirectory
  /-- The name is that of a directory. -/
  | isADirectory
  /-- The name, or a part of it, is longer than names can be. -/
  | nameTooLong
  /-- The bytes in the file are no text. -/
  | notText
  /-- Anything else. -/
  | other (description : String)
deriving Repr, DecidableEq

namespace FileFault

/-- A description with the number that the system gives to the fault. -/
def numbered (description : String) (number : Nat) : String :=
  description ++ " (os error " ++ toString number ++ ")"

/-- The text of a fault. -/
def message : FileFault → String
  | .noSuchFile => numbered "No such file or directory" 2
  | .notADirectory => numbered "Not a directory" 20
  | .isADirectory => numbered "Is a directory" 21
  | .nameTooLong => numbered "File name too long" 36
  | .notText => "stream did not contain valid UTF-8"
  | .other description => description

end FileFault

/-- How files are looked up: the text of a file, or why it cannot be read. -/
abbrev Files := String → Except FileFault String

/-! ## Parts of names -/

/-- The parts of a name between its slashes. -/
def partsOf : List Char → List (List Char)
  | [] => [[]]
  | c :: cs =>
    if c = '/' then
      [] :: partsOf cs
    else
      match partsOf cs with
      | [] => [[c]]
      | part :: parts => (c :: part) :: parts

/-- The parts of a name between its slashes, as texts. -/
def nameParts (name : String) : List String :=
  (partsOf name.toList).map String.ofList

/-- Whether a part of a name stays in the directory reached so far. -/
def staysInPlace (part : String) : Bool :=
  part == "" || part == "."

/-- The most bytes that a part of a name can have. -/
def partLimit : Nat := 255

/-- The most bytes that a name can have. -/
def nameLimit : Nat := 4095

/-! ## Trees of files -/

/-- Where a file or a directory lies: the names that lead to it from the root. -/
abbrev Location := List String

/-- Files with their locations and texts, and the directory that names begin in. -/
structure FileSystem where
  current : Location
  files : List (Location × String)
deriving Repr, DecidableEq

namespace FileSystem

/-- The text of the file at a location. -/
def text? (system : FileSystem) (location : Location) : Option String :=
  system.files.lookup location

/-- Whether a location is a directory: directories lie on the way to the current one or to a file. -/
def isDirectory (system : FileSystem) (location : Location) : Bool :=
  location.isPrefixOf system.current ||
    system.files.any fun file => location != file.1 && location.isPrefixOf file.1

/-- Whether there is a file or a directory at a location. -/
def isPresent (system : FileSystem) (location : Location) : Bool :=
  (system.text? location).isSome || system.isDirectory location

/-- Where one part of a name leads from a location. -/
def step (system : FileSystem) (location : Location) (part : String) : Except FileFault Location :=
  if !system.isDirectory location then
    .error .notADirectory
  else if staysInPlace part then
    .ok location
  else if part = ".." then
    .ok location.dropLast
  else if partLimit < part.utf8ByteSize then
    .error .nameTooLong
  else if system.isPresent (location ++ [part]) then
    .ok (location ++ [part])
  else
    .error .noSuchFile

/-- Where the parts of a name lead from a location. -/
def follow (system : FileSystem) (location : Location) : List String → Except FileFault Location
  | [] => .ok location
  | part :: parts => do
    let location ← system.step location part
    system.follow location parts

/-- Where a name leads. One that begins with a slash is followed from the root. -/
def resolve (system : FileSystem) (name : String) : Except FileFault Location :=
  if name.isEmpty then
    .error .noSuchFile
  else if nameLimit < name.utf8ByteSize then
    .error .nameTooLong
  else if name.toList.head? = some '/' then
    system.follow [] (nameParts name)
  else
    system.follow system.current (nameParts name)

/-- The text of the file with a name, or why it cannot be read. -/
def read (system : FileSystem) : Files := fun name =>
  match system.resolve name with
  | .error fault => .error fault
  | .ok location =>
    match system.text? location with
    | some text => .ok text
    | none => .error .isADirectory

/-! ## A directory of its own -/

/-- The directory that holds the files of a run and nothing else. -/
def workplace : Location := ["tmp", "workplace"]

/-- The file that is always empty. -/
def emptyFile : Location × String := (["dev", "null"], "")

/-- The files of a run in a directory of their own. Of files in one place the last has its text there. -/
def ofEntries (files : Entries String) : FileSystem :=
  let placed := files.map fun file =>
    (workplace ++ (nameParts file.1).filter fun part => !staysInPlace part, file.2)
  ⟨workplace, placed.reverse ++ [emptyFile]⟩

end FileSystem

end StyleSync.Cli
