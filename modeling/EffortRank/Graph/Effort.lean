import EffortRank.Graph.Basic

/-!
# Development effort

How much work went into functions and commits. The effort of a function is the sum over the commits
in its history, and that of a commit the sum over the functions it changed. Commits on a blacklist
count for nothing.

`HistoryMode` is the measure of a sum over the whole graph: logical units or lines, decided once.
-/

namespace EffortRank

/-- The hashes of commits that count for nothing. -/
abbrev Blacklist := List String

namespace FunctionNode

/-- The effort of each commit that counts. -/
def efforts (node : FunctionNode) (blacklist : Blacklist) : NameMap Nat :=
  (node.history.filter fun hash _ => !blacklist.contains hash).map ChangeStats.effort

/-- The effort that went into the function, at least one so that it may divide. -/
def effort (node : FunctionNode) (blacklist : Blacklist) : Nat :=
  max (total (node.efforts blacklist).values) 1

/-- The effort of each commit that counts, if all of them fit. -/
def efforts? (node : FunctionNode) (blacklist : Blacklist) : Option (NameMap Nat) :=
  fitting ((node.efforts blacklist).values.all countFits) (node.efforts blacklist)

/-- The effort that went into the function, if it fits. -/
def effort? (node : FunctionNode) (blacklist : Blacklist) : Option Nat :=
  fitting (countFits (node.effort blacklist)) (node.effort blacklist)

end FunctionNode

namespace CallGraph

def nodeEfforts (g : CallGraph) (name : String) (blacklist : Blacklist) :
    Except (Halt GraphError) (NameMap Nat) :=
  match g.node? name with
  | some node => Halt.ofFitting (node.efforts? blacklist)
  | none => .error (.refused (.unknownNode name))

def nodeEffort (g : CallGraph) (name : String) (blacklist : Blacklist) :
    Except (Halt GraphError) Nat :=
  match g.node? name with
  | some node => Halt.ofFitting (node.effort? blacklist)
  | none => .error (.refused (.unknownNode name))

/-- The effort of every registered commit, zero for one that changed nothing. -/
def commitEfforts (g : CallGraph) (blacklist : Blacklist) : NameMap Nat :=
  let zeros : NameMap Nat := .ofList (g.commits.map fun info => (info.hash, 0))
  (g.nodes.flatMap fun node => (node.efforts blacklist).entries).foldl
    (fun totals e => totals.alter e.1 fun old => old.getD 0 + e.2) zeros

/-- The effort of every registered commit, if all of them fit. -/
def commitEfforts? (g : CallGraph) (blacklist : Blacklist) : Option (NameMap Nat) :=
  fitting ((g.commitEfforts blacklist).values.all countFits) (g.commitEfforts blacklist)

def effortsFit (g : CallGraph) (blacklist : Blacklist) : Bool :=
  g.nodes.all fun node => countFits (node.effort blacklist)

end CallGraph

/-- The measure of history in a sum over the whole graph. -/
inductive HistoryMode where
  | logicalUnits
  | lines
deriving DecidableEq, Repr

namespace HistoryMode

/-- The measure that fits a graph. The first entry of the first function with a history decides:
without logical units it is lines. -/
def resolve (g : CallGraph) : HistoryMode :=
  match (g.nodes.flatMap fun node => node.history.values).head? with
  | some stats => if stats.hasUnits then .logicalUnits else .lines
  | none => .logicalUnits

/-- The churn of one entry; without logical units it has none in that measure. -/
def churn (mode : HistoryMode) (stats : ChangeStats) : Nat :=
  match mode with
  | .logicalUnits => stats.unitChurn?.getD 0
  | .lines => stats.lineChurn

end HistoryMode

namespace CallGraph

/-- The churn of all commits that count. -/
def churn (g : CallGraph) (mode : HistoryMode) (blacklist : Blacklist) : Nat :=
  total (g.nodes.flatMap fun node =>
    (node.history.filter fun hash _ => !blacklist.contains hash).values.map mode.churn)

def churnFits (g : CallGraph) (mode : HistoryMode) (blacklist : Blacklist) : Bool :=
  countFits (g.churn mode blacklist)

end CallGraph

end EffortRank
