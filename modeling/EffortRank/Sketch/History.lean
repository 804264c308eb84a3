import EffortRank.NameMap.Basic
import EffortRank.Replay.Change
import EffortRank.Replay.Run
import EffortRank.Sketch.UnifiedDiff
import EffortRank.Text.Basic

/-!
# Scripted histories

A sketch is a text in which a line `fn name` opens a function, a line `end` closes it, and a line
`call name` inside it is a call. Blanks around a line do not matter. A function that is opened
before the one above it is closed takes its place.

A script says which files each commit writes or deletes, as sketches. `stepsBy` follows the script
with the files as they are at each commit, and tells of each commit what a replay wants to know. The
patches in it are written by a differ; `steps` takes the one of `UnifiedDiff.render`.
-/

namespace EffortRank

namespace Sketch

open Text

/-! ## Sketches -/

/-- What a line of a sketch says. -/
inductive LineKind where
  | opening (name : String)
  | closing
  | call (name : String)
  | other
deriving DecidableEq, Repr

def lineKind (line : Line) : LineKind :=
  match trim line with
  | 'f' :: 'n' :: ' ' :: name => .opening (String.ofList (trim name))
  | ['e', 'n', 'd'] => .closing
  | 'c' :: 'a' :: 'l' :: 'l' :: ' ' :: name => .call (String.ofList (trim name))
  | _ => .other

/-- The functions in the lines from number `n` on, given the open function with its first line. -/
def functionsFrom (n : Int) (current : Option (String × Int)) : List Line → List FunctionRange
  | [] => []
  | line :: rest =>
    match lineKind line, current with
    | .opening name, _ => functionsFrom (n + 1) (some (name, n)) rest
    | .closing, some (name, first) => ⟨name, ⟨first, n⟩⟩ :: functionsFrom (n + 1) none rest
    | .closing, none => functionsFrom (n + 1) none rest
    | _, current => functionsFrom (n + 1) current rest

/-- The functions of a sketch, in the order in which they end. -/
def functions (source : String) : List FunctionRange :=
  functionsFrom 1 none (lines source.toList)

/-- The calls in some lines, given the open function. -/
def callsFrom (current : Option String) : List Line → List CallSite
  | [] => []
  | line :: rest =>
    match lineKind line, current with
    | .opening name, _ => callsFrom (some name) rest
    | .closing, _ => callsFrom none rest
    | .call callee, some caller => ⟨caller, callee⟩ :: callsFrom current rest
    | _, _ => callsFrom current rest

def calls (source : String) : List CallSite := callsFrom none (lines source.toList)

/-! ## Scripts -/

/-- A file with its new text, or without one if it is deleted. -/
structure Edit where
  path : String
  text : Option String
deriving DecidableEq, Repr

/-- One entry of a script. -/
structure ScriptStep where
  hash : String
  author : String
  mode : SeekingMode
  edits : List Edit
deriving DecidableEq, Repr

/-- Writes the unified diff of a file, given its path, its old text and its new one. -/
abbrev Differ := String → String → String → String

/-- The change of a file from one text to another; a file that is not there has none. -/
def change (differ : Differ) (path : String) (old new : Option String) (withSources : Bool) :
    FileChange :=
  let oldText := old.getD ""
  let newText := new.getD ""
  { oldPath := old.map fun _ => path
    newPath := new.map fun _ => path
    patch := differ path oldText newText
    functions := functions oldText
    newFunctions := functions newText
    oldSource := if withSources then some oldText else none
    newSource := if withSources then some newText else none
    calls := calls newText }

/-- The texts of the files that there are. -/
abbrev Files := NameMap String

def Files.apply (files : Files) (e : Edit) : Files :=
  match e.text with
  | some text => files.insert e.path text
  | none => files.filter fun path _ => path != e.path

/-- The changes of the edits of one commit, and the files after them. -/
def changes (differ : Differ) (withSources : Bool) (files : Files) :
    List Edit → List FileChange × Files
  | [] => ([], files)
  | e :: rest =>
    let (others, final) := changes differ withSources (files.apply e) rest
    (change differ e.path (files.get? e.path) e.text withSources :: others, final)

/-- The commits of a script that starts with the given files. A rewind says nothing but its hash
and leaves the files as they are. -/
def stepsBy (differ : Differ) (withSources : Bool) (files : Files) :
    List ScriptStep → List CommitStep
  | [] => []
  | s :: rest =>
    match s.mode with
    | .rewind => ⟨⟨s.hash, "", "", "", none⟩, .rewind, []⟩ :: stepsBy differ withSources files rest
    | mode =>
      let (found, files) := changes differ withSources files s.edits
      let info : CommitInfo :=
        ⟨s.hash, s.author, s!"{s.author}@example.org", s!"commit {s.hash}", none⟩
      ⟨info, mode, found⟩ :: stepsBy differ withSources files rest

/-- The commits of a script, with the patches of `UnifiedDiff.render`. -/
def steps (withSources : Bool) (files : Files) (script : List ScriptStep) : List CommitStep :=
  stepsBy UnifiedDiff.render withSources files script

/-- Replays the commits of a script on top of an empty graph, with the default filter. -/
def replay (history : List CommitStep) : CallGraph × Except (Halt ReplayError) ReplayStats :=
  match FileFilter.ofConfig .default with
  | .ok filter => CallGraph.empty.replay filter history
  | .error _ => CallGraph.empty.replay .all history

end Sketch

end EffortRank
