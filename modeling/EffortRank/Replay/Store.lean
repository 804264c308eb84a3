import EffortRank.Graph.Store
import EffortRank.Replay.Run

/-!
# Replaying into a store

The steps of a replay on the store of a graph. A change is checked first; then its functions, its
history and its calls are put into the store one by one, and whatever fails on the way leaves what
was put in before. `CallGraph.replay` says what the graph is that the store shows at the end.
-/

namespace EffortRank

namespace GraphStore

/-- Adds a function of a file unless it is known. -/
def ensure (s : GraphStore) (name : String) (files : List String) : GraphStore :=
  if s.contains name then s else s.addNode name files

/-- Adds a call with its ends where they are new. The file of a call is that of its caller. -/
def addCall (path : String) (call : CallSite) : Step GraphError Unit := do
  modify fun s => s.ensure call.caller [path]
  modify fun s => s.ensure call.callee []
  addEdge call.caller call.callee

/-- Adds the functions of a file, those of its new version first. -/
def addFunctions (s : GraphStore) (path : String) (c : FileChange) : GraphStore :=
  (c.newFunctions ++ c.functions).foldl (fun s f => s.addNode f.name [path]) s

/-- Adds the functions of a change, its history and its calls. -/
def applyDiff (mode : SeekingMode) (c : FileChange) (d : FileDiff) :
    Step GraphError CommitUpdate := do
  let path := c.path?.getD ""
  modify fun s => s.addFunctions path c
  let stats ← MonadExcept.ofExcept
    (Halt.ofFitting (if mode.updatesHistory then c.functionStats? d else some .empty))
  stats.entries.forM fun e => recordHistory e.1 e.2
  let calls := if mode.updatesEdges then c.calls else []
  calls.forM fun call => addCall path call
  return ⟨1, 0, stats.size, calls.length⟩

def applyChange (mode : SeekingMode) (c : FileChange) : Step ReplayError CommitUpdate := do
  let d ← MonadExcept.ofExcept (c.checkedDiff.mapError (Halt.map .order))
  EStateM.adaptExcept (Halt.map .graph) (applyDiff mode c d)

/-- Applies the changes that the filter wants, up to the first that fails. -/
def applyChanges (filter : FileFilter) (mode : SeekingMode) (done : CommitUpdate) :
    List FileChange → Step ReplayError CommitUpdate
  | [] => return done
  | c :: cs => do
    if filter.wants c then
      let update ← applyChange mode c
      applyChanges filter mode (done.add update) cs
    else applyChanges filter mode (done.add ⟨0, 1, 0, 0⟩) cs

/-- Takes one commit. A rewind leaves the store untouched. -/
def replayCommit (filter : FileFilter) (commit : CommitStep) : Step ReplayError CommitUpdate :=
  match commit.mode with
  | .rewind => return .zero
  | mode => do
    modify fun s => s.addCommit commit.info
    applyChanges filter mode .zero commit.changes

/-- Takes the commits that are left. -/
def replayFrom (filter : FileFilter) (done : ReplayStats) :
    List CommitStep → Step ReplayError ReplayStats
  | [] => return done
  | commit :: rest => do
    let update ← replayCommit filter commit
    replayFrom filter (done.count commit.mode update) rest

def replay (filter : FileFilter) (history : List CommitStep) : Step ReplayError ReplayStats :=
  replayFrom filter .zero history

end GraphStore

end EffortRank
