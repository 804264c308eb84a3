import EffortRank.Graph.Request

/-!
# The store of a graph

`GraphStore` is how a graph is kept while it is worked on. The functions stand in an arena and never
move; `index` leads from the name of a function to its place, and a call is between two places. What
works on a store (`GraphStore.Step`) changes it bit by bit and may fail on the way; then the store
stays as it is at that moment.

`GraphStore.graph` is the graph that a store shows: the calls between names.
-/

namespace EffortRank

/-- A call between the functions at two places, stamped with the commit that showed it last. -/
structure PlacedCall where
  source : Nat
  target : Nat
  addedBy : Option String
deriving DecidableEq, Repr

/-- The places of the caller and the callee. There is one call for each such pair. -/
def PlacedCall.ends (c : PlacedCall) : Nat × Nat := (c.source, c.target)

/-- Functions at their places, the places under the names, the calls between places, and the commits
seen so far. -/
structure GraphStore where
  nodes : Array FunctionNode
  index : NameMap Nat
  calls : List PlacedCall
  commits : List CommitInfo
  current : Option String
deriving DecidableEq

namespace GraphStore

def empty : GraphStore := ⟨#[], .empty, [], [], none⟩

/-! ## Looking up -/

/-- The function with a name, at the place that the index tells. -/
def node? (s : GraphStore) (name : String) : Option FunctionNode :=
  (s.index.get? name).bind fun i => s.nodes[i]?

def contains (s : GraphStore) (name : String) : Bool := (s.index.get? name).isSome

def hasCommit (s : GraphStore) (hash : String) : Bool :=
  s.commits.any fun info => info.hash == hash

/-- The first of some commits, in the order of their hashes, that is not registered. -/
def unknownCommit? (s : GraphStore) (hashes : List String) : Option String :=
  hashes.find? fun hash => !s.hasCommit hash

/-- The name of the function at a place. -/
def nameAt (s : GraphStore) (i : Nat) : String := s.nodes[i]?.elim "" FunctionNode.name

/-- A call with the names of its ends. -/
def named (s : GraphStore) (c : PlacedCall) : CallEdge :=
  ⟨s.nameAt c.source, s.nameAt c.target, c.addedBy⟩

/-- The graph that the store shows. -/
def graph (s : GraphStore) : CallGraph :=
  ⟨s.commits, s.nodes.toList, s.calls.map s.named, s.current⟩

/-! ## Changing -/

/-- Registers a commit and makes it current; a known hash gets the new description. -/
def addCommit (s : GraphStore) (info : CommitInfo) : GraphStore :=
  { s with
    commits := updateOrAppend (fun old => old.hash == info.hash) (fun _ => info) info s.commits
    current := some info.hash }

/-- Adds a function at the next place of the arena. -/
def push (s : GraphStore) (name : String) : GraphStore :=
  { s with nodes := s.nodes.push (.new name), index := s.index.insert name s.nodes.size }

/-- The place of a function, which is added if its name is new. -/
def intern (s : GraphStore) (name : String) : Nat × GraphStore :=
  match s.index.get? name with
  | some i => (i, s)
  | none => (s.nodes.size, s.push name)

def changeAt (s : GraphStore) (i : Nat) (change : FunctionNode → FunctionNode) : GraphStore :=
  { s with nodes := s.nodes.modify i change }

/-- Adds a function, or more files to a known one. -/
def addNode (s : GraphStore) (name : String) (files : List String) : GraphStore :=
  let (i, s) := s.intern name
  s.changeAt i fun node => node.addFiles files

/-- Puts a call between two places, or a new stamp on it. -/
def link (s : GraphStore) (c : PlacedCall) : GraphStore :=
  { s with calls := updateOrAppend (fun old => old.ends == c.ends) (fun _ => c) c s.calls }

/-! ## Steps that may fail -/

/-- Works on a store and may fail, which leaves the store as the work has made it so far. -/
abbrev Step (ε α : Type) := EStateM (Halt ε) GraphStore α

/-- The result of a step with the store that it leaves, or why it failed. -/
def Step.outcome {ε α : Type} (step : Step ε α) (s : GraphStore) :
    Except (Halt ε) (α × GraphStore) :=
  match step.run s with
  | .ok x s => .ok (x, s)
  | .error halt _ => .error halt

/-- The store that a step leaves, whether it fails or not. -/
def Step.after {ε α : Type} (step : Step ε α) (s : GraphStore) : GraphStore :=
  match step.run s with
  | .ok _ s => s
  | .error _ s => s

/-- The place of a known function. -/
def lookup (name : String) : Step GraphError Nat := do
  match (← get).index.get? name with
  | some i => return i
  | none => throw (.refused (.unknownNode name))

/-- Puts a call between two known functions, or a new stamp on it. -/
def connect (caller callee : String) (stamp : Option String) : Step GraphError Unit := do
  let i ← lookup caller
  let j ← lookup callee
  modify fun s => s.link ⟨i, j, stamp⟩

/-- Adds a call between two known functions, stamped with the current commit. -/
def addEdge (caller callee : String) : Step GraphError Unit := do
  connect caller callee (← get).current

def setFiles (name : String) (files : List String) : Step GraphError Unit := do
  let i ← lookup name
  modify fun s => s.changeAt i fun node => { node with files := NameSet.ofNames files }

/-- Adds to what a commit did to the function at a place, as far as the counts fit. -/
def recordAt (i : Nat) (hash : String) (stats : ChangeStats) : Step GraphError Unit := do
  if (← get).nodes[i]?.all fun node => node.recordFits hash stats then
    modify fun s => s.changeAt i fun node => node.record hash stats
  else throw .overflow

/-- Adds to what the current commit did to a known function. -/
def recordHistory (name : String) (stats : ChangeStats) : Step GraphError Unit := do
  match (← get).current with
  | none => throw (.refused .noCurrentCommit)
  | some hash =>
    let i ← lookup name
    recordAt i hash stats

/-! ## Loading -/

/-- Adds a listed function, whose history must name registered commits only. -/
def loadNode (node : FunctionNode) : Step GraphError Unit := do
  match (← get).unknownCommit? node.history.keys with
  | some hash => throw (.refused (.unknownCommit hash))
  | none =>
    let i ← modifyGet fun s => s.intern node.name
    modify fun s => s.changeAt i fun old => old.addFiles node.files.keys
    node.history.entries.forM fun e => recordAt i e.1 e.2

/-- Adds a listed call, whose stamp must be a registered commit and whose ends known functions. -/
def loadEdge (edge : CallEdge) : Step GraphError Unit := do
  match (← get).unknownCommit? edge.addedBy.toList with
  | some hash => throw (.refused (.unknownCommit hash))
  | none => connect edge.caller edge.callee edge.addedBy

/-- Adds all that is listed: first the commits, of which none is current then, next the functions,
and then the calls. -/
def loadAll (data : GraphData) : Step GraphError Unit := do
  modify fun s => { data.commits.foldl addCommit s with current := none }
  data.nodes.forM loadNode
  data.edges.forM loadEdge

/-- Builds a store from the lists of a graph. -/
def ofData (data : GraphData) : Except (Halt GraphError) GraphStore :=
  ((loadAll data).outcome empty).map Prod.snd

/-! ## Requests -/

/-- Does what a request asks for. A saved form is built up apart, and takes the place of the store
when it is complete. -/
def perform : GraphRequest → Step GraphError Unit
  | .addCommit info => modify fun s => s.addCommit info
  | .addNode name files => modify fun s => s.addNode name files
  | .addEdge caller callee => addEdge caller callee
  | .setFiles name files => setFiles name files
  | .recordHistory name stats => recordHistory name stats
  | .load data => do set (← MonadExcept.ofExcept (ofData data))

/-- The store after some requests, whether they are answered or not. -/
def run (s : GraphStore) (requests : List GraphRequest) : GraphStore :=
  requests.foldl (fun s request => (perform request).after s) s

/-- Requests lead from the store that knows nothing to this one. -/
def Reachable (s : GraphStore) : Prop := ∃ requests, empty.run requests = s

end GraphStore

end EffortRank
