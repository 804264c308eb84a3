import EffortRank.Churn.Stats
import EffortRank.NameMap.Basic
import EffortRank.Time.Instant

/-!
# The call graph

`CallGraph` holds the functions of a program, the calls between them, and the commits that changed
them. A commit is named by its hash. Functions, calls and commits stand in the order in which they
were first seen; seeing one again changes it in place. One commit may be current: calls are stamped
with it, and history is recorded for it.
-/

namespace EffortRank

/-- A registered commit. -/
structure CommitInfo where
  hash : String
  authorName : String
  authorEmail : String
  message : String
  committedAt : Option Instant
deriving DecidableEq, Repr

/-- A function with the files it was seen in and what each commit did to it. -/
structure FunctionNode where
  name : String
  files : NameSet
  history : NameMap ChangeStats
deriving DecidableEq

/-- A call of one function by another, stamped with the commit that showed it last. -/
structure CallEdge where
  caller : String
  callee : String
  addedBy : Option String
deriving DecidableEq, Repr

/-- The functions, calls and commits seen so far. -/
structure CallGraph where
  commits : List CommitInfo
  nodes : List FunctionNode
  edges : List CallEdge
  current : Option String
deriving DecidableEq

/-- Why a graph refuses a request. -/
inductive GraphError where
  | unknownNode (name : String)
  | noCurrentCommit
  | unknownCommit (hash : String)
deriving DecidableEq, Repr

def GraphError.message : GraphError → String
  | .unknownNode name => s!"Unknown node: {name}"
  | .noCurrentCommit => "No current commit: call add_commit before recording history"
  | .unknownCommit hash => s!"Unknown commit: {hash}"

/-- Changes the first element that passes a test; where none does, puts a fresh one at the end. -/
def updateOrAppend {α : Type} (test : α → Bool) (change : α → α) (fresh : α) : List α → List α
  | [] => [fresh]
  | x :: xs =>
    if test x then change x :: xs else x :: updateOrAppend test change fresh xs

namespace FunctionNode

/-- A function that nothing is known of. -/
def new (name : String) : FunctionNode := ⟨name, .empty, .empty⟩

def addFiles (node : FunctionNode) (files : List String) : FunctionNode :=
  { node with files := NameSet.addNames node.files files }

def record (node : FunctionNode) (hash : String) (stats : ChangeStats) : FunctionNode :=
  { node with
    history := node.history.alter hash fun
      | some old => old.merge stats
      | none => stats }

def recordFits (node : FunctionNode) (hash : String) (stats : ChangeStats) : Bool :=
  (node.history.get? hash).all fun old => (old.merge stats).fits

end FunctionNode

namespace CallGraph

def empty : CallGraph := ⟨[], [], [], none⟩

instance : Inhabited CallGraph := ⟨empty⟩

/-! ## Looking up -/

def node? (g : CallGraph) (name : String) : Option FunctionNode :=
  g.nodes.find? fun node => node.name == name

def contains (g : CallGraph) (name : String) : Bool := (g.node? name).isSome

def commit? (g : CallGraph) (hash : String) : Option CommitInfo :=
  g.commits.find? fun info => info.hash == hash

def hasCommit (g : CallGraph) (hash : String) : Bool := (g.commit? hash).isSome

/-! ## Growing -/

/-- Registers a commit without making it current; a known hash gets the new description. -/
def registerCommit (g : CallGraph) (info : CommitInfo) : CallGraph :=
  { g with
    commits := updateOrAppend (fun old => old.hash == info.hash) (fun _ => info) info g.commits }

def addCommit (g : CallGraph) (info : CommitInfo) : CallGraph :=
  { g.registerCommit info with current := some info.hash }

/-- Changes the function with a name, which is new if the name is. -/
def withNode (g : CallGraph) (name : String) (change : FunctionNode → FunctionNode) : CallGraph :=
  { g with
    nodes := updateOrAppend (fun node => node.name == name) change (change (.new name)) g.nodes }

/-- Adds a function, or more files to a known one. -/
def addNode (g : CallGraph) (name : String) (files : List String) : CallGraph :=
  g.withNode name fun node => node.addFiles files

/-- Puts a call between two functions, or a new stamp on it. -/
def link (g : CallGraph) (edge : CallEdge) : CallGraph :=
  { g with
    edges := updateOrAppend (fun old => old.caller == edge.caller && old.callee == edge.callee)
      (fun _ => edge) edge g.edges }

/-- Adds a call between two known functions, stamped with the current commit. -/
def addEdge (g : CallGraph) (caller callee : String) : Except GraphError CallGraph :=
  if !g.contains caller then .error (.unknownNode caller)
  else if !g.contains callee then .error (.unknownNode callee)
  else .ok (g.link ⟨caller, callee, g.current⟩)

def setFiles (g : CallGraph) (name : String) (files : List String) : Except GraphError CallGraph :=
  if g.contains name then
    .ok (g.withNode name fun node => { node with files := NameSet.ofNames files })
  else .error (.unknownNode name)

def recordHistory (g : CallGraph) (name : String) (stats : ChangeStats) :
    Except (Halt GraphError) CallGraph :=
  match g.current, g.node? name with
  | none, _ => .error (.refused .noCurrentCommit)
  | some _, none => .error (.refused (.unknownNode name))
  | some hash, some node =>
    if node.recordFits hash stats then .ok (g.withNode name fun node => node.record hash stats)
    else .error .overflow

end CallGraph

end EffortRank
