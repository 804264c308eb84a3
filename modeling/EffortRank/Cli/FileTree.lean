import EffortRank.Cli.Host

/-!
# Trees of files

A tree holds directories, files with their texts, and the devices of the system. A place is the
list of names from the root down to it. A path is followed name by name, and each name but the last
must lead to a directory, also where the next one is a dot. `FileTree.find` is what a path leads to,
and `FileTree.target` is the place where writing to a path puts the text.
-/

namespace EffortRank

namespace Cli

/-- A device: one that swallows what is written, one that never has room for it, and the three
streams of the process. -/
inductive Device where
  | null
  | full
  | input
  | output
  | errors
deriving DecidableEq, Repr

/-- What stands at a place. -/
inductive Entry where
  | directory
  | file (text : String)
  | device (d : Device)
deriving DecidableEq, Repr

/-- The names from the root down to a place. -/
abbrev Place := List String

/-- The places that are taken. -/
structure FileTree where
  entries : List (Place × Entry)

namespace FileTree

/-- The longest name, in bytes. -/
def maxNameSize : Nat := 255

/-- Every path is shorter than this, in bytes. -/
def pathSizeLimit : Nat := 4096

/-- What stands at a place; the root is a directory. -/
def get? (t : FileTree) (place : Place) : Option Entry :=
  if place.isEmpty then some .directory else (t.entries.find? fun e => e.1 == place).map (·.2)

def set (t : FileTree) (place : Place) (entry : Entry) : FileTree :=
  ⟨(place, entry) :: t.entries.filter fun e => e.1 != place⟩

def isDirectory (t : FileTree) (place : Place) : Bool := t.get? place == some .directory

/-! ## Following paths -/

/-- Takes the step that a name stands for. The directory above the root is the root. -/
def step (t : FileTree) (place : Place) (name : String) : Except FileError Place :=
  if !t.isDirectory place then .error .notDirectory
  else if name = "." then .ok place
  else if name = ".." then .ok place.dropLast
  else if maxNameSize < name.utf8ByteSize then .error .nameTooLong
  else if (t.get? (place ++ [name])).isSome then .ok (place ++ [name])
  else .error .missing

def follow (t : FileTree) (place : Place) (names : List String) : Except FileError Place :=
  names.foldlM t.step place

/-- Takes a path apart that is not too long. -/
def pathName (path : String) : Except FileError PathName :=
  if path.utf8ByteSize < pathSizeLimit then .ok (.ofText path) else .error .nameTooLong

/-- The place from which a path starts. -/
def startOf (working : Place) (p : PathName) : Place := if p.fromRoot then [] else working

/-- What a path leads to, with its place. A path that ends in a slash leads to a directory. -/
def find (t : FileTree) (working : Place) (path : String) : Except FileError (Place × Entry) := do
  let p ← pathName path
  let place ← t.follow (startOf working p) p.names
  match t.get? place with
  | none => .error .missing
  | some entry =>
    if p.slashed && entry != .directory then .error .notDirectory else .ok (place, entry)

/-- The place to which a path writes: under a new or an old name of a directory. -/
def target (t : FileTree) (working : Place) (path : String) : Except FileError Place := do
  let p ← pathName path
  match p.names.reverse with
  | [] => .error .directory
  | last :: above =>
    let parent ← t.follow (startOf working p) above.reverse
    if !t.isDirectory parent then .error .notDirectory
    else if p.slashed || last == "." || last == ".." then .error .directory
    else if maxNameSize < last.utf8ByteSize then .error .nameTooLong
    else if t.isDirectory (parent ++ [last]) then .error .directory
    else .ok (parent ++ [last])

/-! ## Building trees -/

/-- Enters a directory, which is made if it is missing. -/
def enter (t : FileTree) (place : Place) (name : String) : FileTree × Place :=
  if name = "." then (t, place)
  else if name = ".." then (t, place.dropLast)
  else
    let inner := place ++ [name]
    (if t.isDirectory inner then t else t.set inner .directory, inner)

/-- Puts a file under a path, with the directories on the way. -/
def addFile (t : FileTree) (working : Place) (path text : String) : FileTree :=
  let p := PathName.ofText path
  let (t, parent) := p.names.dropLast.foldl (fun (t, place) name => t.enter place name)
    (t, startOf working p)
  match p.names.getLast? with
  | some name => t.set (parent ++ [name]) (.file text)
  | none => t

end FileTree

end Cli

end EffortRank
