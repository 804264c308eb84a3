import EffortRank.Graph.Basic

/-!
# Saved forms and requests

`GraphData` lists the commits, functions and calls of a graph, so that it can be written to a file.
`CallGraph.ofData` builds a graph from such lists, which may repeat entries: a repeated commit takes
the later description, a repeated function joins its files and history, a repeated call takes the
later stamp. It refuses lists that name an unknown commit or function. No commit is current in the
graph that it builds.

Whatever changes a graph is a `GraphRequest`, to build it from a saved form included.
`CallGraph.answer` says what graph a request asks for, if there is one, and `CallGraph.run` makes
requests one after the other; the graphs that come up in this way, from the graph that knows
nothing, are the reachable ones. How a request is carried out, and what it leaves where it fails, is
a matter of the store of a graph (`GraphStore.perform`).
-/

namespace EffortRank

/-! ## Saved forms -/

/-- The commits, functions and calls of a graph. -/
structure GraphData where
  commits : List CommitInfo
  nodes : List FunctionNode
  edges : List CallEdge
deriving DecidableEq

namespace CallGraph

def toData (g : CallGraph) : GraphData := ⟨g.commits, g.nodes, g.edges⟩

/-- The first of some commits, in the order of their hashes, that is not registered. -/
def unknownCommit? (g : CallGraph) (hashes : List String) : Option String :=
  hashes.find? fun hash => !g.hasCommit hash

/-- Adds a listed function, whose history must name registered commits only. -/
def loadNode (g : CallGraph) (node : FunctionNode) : Except (Halt GraphError) CallGraph :=
  match g.unknownCommit? node.history.keys with
  | some hash => .error (.refused (.unknownCommit hash))
  | none =>
    let known := (g.node? node.name).getD (.new node.name)
    if node.history.entries.all fun e => known.recordFits e.1 e.2 then
      .ok (g.withNode node.name fun old =>
        node.history.entries.foldl (fun old e => old.record e.1 e.2)
          (old.addFiles node.files.keys))
    else .error .overflow

/-- Adds a listed call, whose stamp must be a registered commit and whose ends known functions. -/
def loadEdge (g : CallGraph) (edge : CallEdge) : Except GraphError CallGraph :=
  match g.unknownCommit? edge.addedBy.toList with
  | some hash => .error (.unknownCommit hash)
  | none =>
    if !g.contains edge.caller then .error (.unknownNode edge.caller)
    else if !g.contains edge.callee then .error (.unknownNode edge.callee)
    else .ok (g.link edge)

/-- Builds a graph from its lists: first the commits, then the functions, then the calls. -/
def ofData (data : GraphData) : Except (Halt GraphError) CallGraph := do
  let commits := data.commits.foldl registerCommit empty
  let nodes ← data.nodes.foldlM loadNode commits
  Halt.ofChecked (data.edges.foldlM loadEdge nodes)

end CallGraph

/-! ## Requests -/

/-- A request to change a graph. `load` puts the graph of a saved form in its place. -/
inductive GraphRequest where
  | addCommit (info : CommitInfo)
  | addNode (name : String) (files : List String)
  | addEdge (caller callee : String)
  | setFiles (name : String) (files : List String)
  | recordHistory (name : String) (stats : ChangeStats)
  | load (data : GraphData)
deriving DecidableEq

namespace CallGraph

/-- The graph that a request asks for. -/
def answer (g : CallGraph) : GraphRequest → Except (Halt GraphError) CallGraph
  | .addCommit info => .ok (g.addCommit info)
  | .addNode name files => .ok (g.addNode name files)
  | .addEdge caller callee => Halt.ofChecked (g.addEdge caller callee)
  | .setFiles name files => Halt.ofChecked (g.setFiles name files)
  | .recordHistory name stats => g.recordHistory name stats
  | .load data => ofData data

/-- Makes a request. Returns the graph as it is then. -/
def perform (g : CallGraph) (request : GraphRequest) :
    CallGraph × Except (Halt GraphError) Unit :=
  match g.answer request with
  | .ok g => (g, .ok ())
  | .error halt => (g, .error halt)

/-- The graph after some requests, whether they are answered or not. -/
def run (g : CallGraph) (requests : List GraphRequest) : CallGraph :=
  requests.foldl (fun g request => (g.perform request).1) g

/-- Requests lead from the graph that knows nothing to this one. -/
def Reachable (g : CallGraph) : Prop := ∃ requests, empty.run requests = g

end CallGraph

end EffortRank
