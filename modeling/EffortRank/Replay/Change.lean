import EffortRank.Churn.Attribution
import EffortRank.Graph.Basic

/-!
# Commits to replay

What a replay is told of a commit: for each file, its unified diff, the functions in it before and
after, its text before and after, and the calls in it. `FileChange.functionStats` counts what the
change did to each function.
-/

namespace EffortRank

/-- How a replay takes a commit. A merge shows calls but no history; a rewind steps back and shows
nothing. -/
inductive SeekingMode where
  | forward
  | merge
  | rewind
deriving DecidableEq, Repr

def SeekingMode.updatesEdges : SeekingMode → Bool
  | .forward => true
  | .merge => true
  | .rewind => false

def SeekingMode.updatesHistory : SeekingMode → Bool
  | .forward => true
  | .merge => false
  | .rewind => false

/-- A call in the new version of a file. -/
structure CallSite where
  caller : String
  callee : String
deriving DecidableEq, Repr

/-- The change of one file. The old path is missing for a new file, the new one for a file that is
deleted. -/
structure FileChange where
  oldPath : Option String
  newPath : Option String
  patch : String
  functions : List FunctionRange
  newFunctions : List FunctionRange
  oldSource : Option String
  newSource : Option String
  calls : List CallSite
deriving DecidableEq, Repr

/-- A commit with the changes of its files. -/
structure CommitStep where
  info : CommitInfo
  mode : SeekingMode
  changes : List FileChange
deriving DecidableEq, Repr

namespace FileChange

/-- The path that the file is known by. -/
def path? (c : FileChange) : Option String := c.newPath <|> c.oldPath

def sources? (c : FileChange) : Option SourceTexts :=
  match c.oldSource, c.newSource with
  | some old, some new => some ⟨old, new⟩
  | _, _ => none

/-- The text of both versions, read in the opposite direction. -/
def reversedSources? (c : FileChange) : Option SourceTexts := c.sources?.map fun s => ⟨s.new, s.old⟩

/-- What the change did to the functions of the new version, found in the inverse of the change. -/
def newFunctionStats (c : FileChange) (d : FileDiff) : NameMap ChangeStats :=
  (changedStats c.newFunctions d.inverse c.reversedSources?).map ChangeStats.swap

/-- What the change did to each function. The functions of the old version count first; those of
the new version are for names that the old ones do not have. -/
def functionStats (c : FileChange) (d : FileDiff) : NameMap ChangeStats :=
  (changedStats c.functions d c.sources?).mergeWith (fun old _ => old) (c.newFunctionStats d)

/-- What the change did to the functions of the new version, if all numbers fit. The change is
inverted only if there are such functions. -/
def newFunctionStats? (c : FileChange) (d : FileDiff) : Option (NameMap ChangeStats) :=
  if c.newFunctions.isEmpty then some .empty
  else do
    let found ← changedStats? c.newFunctions (← d.inverse?) c.reversedSources?
    return found.map ChangeStats.swap

/-- What the change did to each function, if all numbers fit. -/
def functionStats? (c : FileChange) (d : FileDiff) : Option (NameMap ChangeStats) := do
  let old ← changedStats? c.functions d c.sources?
  let new ← c.newFunctionStats? d
  return old.mergeWith (fun old _ => old) new

end FileChange

end EffortRank
