/-!
# Hosts

What the commands ask of the system they run on: files, the standard input, and variables of the
environment. A path is a text: names with slashes between them. `PathName.ofText` takes it apart;
what the names lead to is told by the host.
-/

namespace EffortRank

namespace Cli

/-- Why a file cannot be read or written. -/
inductive FileError where
  | missing
  | notDirectory
  | directory
  | nameTooLong
  | noSpace
  | other (reason : String)
deriving DecidableEq, Repr

def FileError.message : FileError → String
  | .missing => "No such file or directory (os error 2)"
  | .notDirectory => "Not a directory (os error 20)"
  | .directory => "Is a directory (os error 21)"
  | .nameTooLong => "File name too long (os error 36)"
  | .noSpace => "No space left on device (os error 28)"
  | .other reason => reason

/-- The system that commands run on. -/
structure Host (m : Type → Type) where
  readFile : String → m (Except FileError String)
  readInput : m (Except FileError String)
  fileExists : String → m Bool
  writeFile : String → String → m (Except FileError Unit)
  lookupVariable : String → m (Option String)

/-- A path taken apart: whether it starts at the root, its names without the empty ones, and whether
it ends in a slash. -/
structure PathName where
  fromRoot : Bool
  names : List String
  slashed : Bool
deriving DecidableEq, Repr

def splitAtSlashes : List Char → List (List Char)
  | [] => [[]]
  | c :: cs =>
    if c = '/' then [] :: splitAtSlashes cs
    else
      match splitAtSlashes cs with
      | [] => [[c]]
      | name :: rest => (c :: name) :: rest

namespace PathName

def ofText (path : String) : PathName where
  fromRoot := path.toList.head? == some '/'
  names := ((splitAtSlashes path.toList).filter fun name => name != []).map String.ofList
  slashed := path.toList.getLast? == some '/'

/-- The path stands for the standard input: a dash, with nothing behind it but slashes and dots for
the same place. -/
def isDash (p : PathName) : Bool :=
  match p.names with
  | first :: rest => !p.fromRoot && first == "-" && rest.all (· == ".")
  | [] => false

end PathName

end Cli

end EffortRank
