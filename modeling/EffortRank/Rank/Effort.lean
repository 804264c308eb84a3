import EffortRank.Graph.Effort
import EffortRank.Rank.Iteration

/-!
# Ranks of functions, commits and developers

The rank of a function is that of its node in the call graph, where a function weighs as much as
the effort that went into it. A commit earns of each function it changed the share of the rank that
its effort has in the effort of the function, and a developer earns what their commits earn.
-/

namespace EffortRank

variable {α : Type} [Scalar α]

namespace CallGraph

def indexOf (names : List String) (name : String) : Nat := names.idxOf name

/-- The calls between the functions, by their places in the graph. -/
def digraph (g : CallGraph) : Digraph :=
  let names := g.nodes.map FunctionNode.name
  ⟨g.nodes.length, g.edges.map fun e => (indexOf names e.caller, indexOf names e.callee)⟩

/-- Numbers for the functions, under their names. -/
def named (g : CallGraph) (ranks : Array α) : NameMap α :=
  .ofList ((g.nodes.map FunctionNode.name).zip ranks.toList)

@[specialize]
def centrality (g : CallGraph) (config : RankConfig α) : NameMap α :=
  g.named ((pagerank? g.digraph config).getD #[])

@[specialize]
def weights (g : CallGraph) (blacklist : Blacklist) : Array α :=
  (g.nodes.map fun node => Scalar.ofNat (node.effort blacklist)).toArray

@[specialize]
def functionRanks (g : CallGraph) (config : RankConfig α) (blacklist : Blacklist) : NameMap α :=
  g.named ((weightedRank? g.digraph (g.weights blacklist) config).getD #[])

@[specialize]
def shares (node : FunctionNode) (rank : α) (blacklist : Blacklist) : NameMap α :=
  (node.efforts blacklist).map fun effort =>
    rank * Scalar.ofNat effort / Scalar.ofNat (node.effort blacklist)

/-- What each registered commit earns of each function that it changed. -/
@[specialize]
def commitShares (g : CallGraph) (functions : NameMap α) (blacklist : Blacklist) :
    NameMap (NameMap α) :=
  let nothing : NameMap (NameMap α) := .ofList (g.commits.map fun info => (info.hash, .empty))
  let earned := g.nodes.flatMap fun node =>
    let rank := (functions.get? node.name).getD Scalar.zero
    (shares node rank blacklist).entries.map fun e => (e.1, node.name, e.2)
  earned.foldl
    (fun split e => split.alter e.1 fun old => (old.getD .empty).insert e.2.1 e.2.2) nothing

/-- What each commit earns, over all functions in the order of their names. -/
@[specialize]
def commitRanks (split : NameMap (NameMap α)) : NameMap α :=
  split.map fun functions => Scalar.sum functions.values

/-- What each developer earns, over their commits in the order of registration. A developer goes
by an e-mail address. -/
@[specialize]
def developerRanks (g : CallGraph) (commits : NameMap α) : NameMap α :=
  g.commits.foldl
    (fun developers info =>
      match commits.get? info.hash with
      | some rank =>
        developers.alter info.authorEmail fun old => old.getD Scalar.zero + rank
      | none => developers)
    .empty

end CallGraph

/-- All ranks of one graph. -/
structure EffortRanks (α : Type) where
  functions : NameMap α
  commitFunctions : NameMap (NameMap α)
  commits : NameMap α
  developers : NameMap α

@[specialize]
def CallGraph.effortRanks (g : CallGraph) (config : RankConfig α) (blacklist : Blacklist) :
    EffortRanks α :=
  let functions := g.functionRanks config blacklist
  let commitFunctions := g.commitShares functions blacklist
  let commits := commitRanks commitFunctions
  ⟨functions, commitFunctions, commits, g.developerRanks commits⟩

/-- The ranks of a graph, if the effort of every function fits. -/
@[specialize]
def CallGraph.effortRanks? (g : CallGraph) (config : RankConfig α) (blacklist : Blacklist) :
    Option (EffortRanks α) :=
  fitting (g.effortsFit blacklist) (g.effortRanks config blacklist)

/-- The complexity of a graph: its churn, and a constant for each function and each call. -/
@[specialize]
def CallGraph.complexity (g : CallGraph) (perNode perEdge : α) (blacklist : Blacklist)
    (mode : HistoryMode) : α :=
  Scalar.ofNat (g.churn mode blacklist) + perNode * Scalar.ofNat g.nodes.length +
    perEdge * Scalar.ofNat g.edges.length

/-- The complexity of a graph, if its churn fits. -/
@[specialize]
def CallGraph.complexity? (g : CallGraph) (perNode perEdge : α) (blacklist : Blacklist)
    (mode : HistoryMode) : Option α :=
  fitting (g.churnFits mode blacklist) (g.complexity perNode perEdge blacklist mode)

end EffortRank
