import EffortRank.Filter.Basic
import EffortRank.Graph.Basic
import EffortRank.Patch.Body
import EffortRank.Replay.Change

/-!
# Replaying a history

A commit is registered, and its changes are applied to the graph one by one, each as a whole or not
at all: if the patch or the functions of a change are out of order, the graph stays as the changes
before it left it. A history is replayed commit by commit, up to the first that is refused; what
came before stays in the graph. How a change is put into the store of a graph, bit by bit, is told
by `GraphStore.replay`.
-/

namespace EffortRank

/-! ## Commits -/

/-- Why a change is refused. -/
inductive ReplayError where
  | order (error : OrderError)
  | graph (error : GraphError)
deriving DecidableEq, Repr

def ReplayError.message : ReplayError → String
  | .order e => s!"Diff error: {e.message}"
  | .graph e => s!"Graph error: {e.message}"

/-- What one commit did to the graph, in numbers. -/
structure CommitUpdate where
  filesApplied : Nat
  filesSkipped : Nat
  functionsTouched : Nat
  edgesAdded : Nat
deriving DecidableEq, Repr

def CommitUpdate.zero : CommitUpdate := ⟨0, 0, 0, 0⟩

def CommitUpdate.add (u v : CommitUpdate) : CommitUpdate :=
  ⟨u.filesApplied + v.filesApplied, u.filesSkipped + v.filesSkipped,
    u.functionsTouched + v.functionsTouched, u.edgesAdded + v.edgesAdded⟩

def FileFilter.wants (f : FileFilter) (c : FileChange) : Bool :=
  (c.oldPath.toList ++ c.newPath.toList).any f.accepts

/-- The change that the patch describes, if it and the functions of both versions are in order. -/
def FileChange.checkedDiff (c : FileChange) : Except (Halt OrderError) FileDiff := do
  let d ← Halt.ofFitting (readPatch? c.patch.toList)
  Halt.ofChecked d.check
  Halt.ofChecked (checkFunctions c.functions)
  Halt.ofChecked (checkFunctions c.newFunctions)
  return d

namespace CallGraph

/-- Adds a call with its ends where they are new. The file of a call is that of its caller. -/
def addCall (g : CallGraph) (path : String) (call : CallSite) : Except GraphError CallGraph :=
  let g := if g.contains call.caller then g else g.addNode call.caller [path]
  let g := if g.contains call.callee then g else g.addNode call.callee []
  g.addEdge call.caller call.callee

/-- Adds the functions of a file, those of its new version first. -/
def addFunctions (g : CallGraph) (path : String) (c : FileChange) : CallGraph :=
  (c.newFunctions ++ c.functions).foldl (fun g f => g.addNode f.name [path]) g

def recordAll (g : CallGraph) (stats : NameMap ChangeStats) :
    Except (Halt GraphError) CallGraph :=
  stats.entries.foldlM (fun g e => g.recordHistory e.1 e.2) g

/-- Adds the functions of a change, its history and its calls to the graph. -/
def applyDiff (g : CallGraph) (mode : SeekingMode) (c : FileChange) (d : FileDiff) :
    Except (Halt GraphError) (CallGraph × CommitUpdate) := do
  let path := c.path?.getD ""
  let stats ← Halt.ofFitting (if mode.updatesHistory then c.functionStats? d else some .empty)
  let calls := if mode.updatesEdges then c.calls else []
  let g ← (g.addFunctions path c).recordAll stats
  let g ← Halt.ofChecked (calls.foldlM (fun g call => g.addCall path call) g)
  return (g, ⟨1, 0, stats.size, calls.length⟩)

def applyChange (g : CallGraph) (mode : SeekingMode) (c : FileChange) :
    Except (Halt ReplayError) (CallGraph × CommitUpdate) :=
  match c.checkedDiff with
  | .error halt => .error (halt.map .order)
  | .ok d => (g.applyDiff mode c d).mapError (Halt.map .graph)

/-- Applies the changes that the filter wants, up to the first that is refused. Returns the graph
as it is then. -/
def applyChanges (g : CallGraph) (filter : FileFilter) (mode : SeekingMode) (done : CommitUpdate) :
    List FileChange → CallGraph × Except (Halt ReplayError) CommitUpdate
  | [] => (g, .ok done)
  | c :: cs =>
    if filter.wants c then
      match g.applyChange mode c with
      | .error e => (g, .error e)
      | .ok (g, update) => g.applyChanges filter mode (done.add update) cs
    else g.applyChanges filter mode (done.add ⟨0, 1, 0, 0⟩) cs

/-- Takes one commit. A rewind leaves the graph untouched. -/
def replayCommit (g : CallGraph) (filter : FileFilter) (commit : CommitStep) :
    CallGraph × Except (Halt ReplayError) CommitUpdate :=
  match commit.mode with
  | .rewind => (g, .ok .zero)
  | mode => (g.addCommit commit.info).applyChanges filter mode .zero commit.changes

end CallGraph

/-! ## Histories -/

/-- What a replay did, in numbers. -/
structure ReplayStats where
  commits : Nat
  forward : Nat
  merges : Nat
  rewinds : Nat
  filesApplied : Nat
  filesSkipped : Nat
  functionsTouched : Nat
  edgesAdded : Nat
deriving DecidableEq, Repr

namespace ReplayStats

def zero : ReplayStats := ⟨0, 0, 0, 0, 0, 0, 0, 0⟩

/-- One more commit that was taken in the given mode. -/
def count (s : ReplayStats) (mode : SeekingMode) (u : CommitUpdate) : ReplayStats :=
  { commits := s.commits + 1
    forward := s.forward + (if mode = .forward then 1 else 0)
    merges := s.merges + (if mode = .merge then 1 else 0)
    rewinds := s.rewinds + (if mode = .rewind then 1 else 0)
    filesApplied := s.filesApplied + u.filesApplied
    filesSkipped := s.filesSkipped + u.filesSkipped
    functionsTouched := s.functionsTouched + u.functionsTouched
    edgesAdded := s.edgesAdded + u.edgesAdded }

end ReplayStats

namespace CallGraph

/-- Takes the commits that are left. -/
def replayFrom (g : CallGraph) (filter : FileFilter) (done : ReplayStats) :
    List CommitStep → CallGraph × Except (Halt ReplayError) ReplayStats
  | [] => (g, .ok done)
  | commit :: rest =>
    match g.replayCommit filter commit with
    | (g, .error e) => (g, .error e)
    | (g, .ok update) => g.replayFrom filter (done.count commit.mode update) rest

def replay (g : CallGraph) (filter : FileFilter) (history : List CommitStep) :
    CallGraph × Except (Halt ReplayError) ReplayStats :=
  g.replayFrom filter .zero history

end CallGraph

end EffortRank
