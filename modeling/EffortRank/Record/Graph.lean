import EffortRank.Graph.Store
import EffortRank.Json.Printer
import EffortRank.Record.Diff

/-!
# Graphs as records

How commits, functions, calls and whole graphs are written as JSON records, and how they are read
back. A graph that is read must be well linked as well as well formed.
-/

namespace EffortRank

open Json

namespace CommitInfo

def encode (c : CommitInfo) : Json :=
  .obj ([("hexsha", .str c.hash), ("author_name", .str c.authorName),
    ("author_email", .str c.authorEmail), ("message", .str c.message)] ++
    match c.committedAt with
    | some t => [("committed_at", .str t.text)]
    | none => [])

def decodeInstant : Node → Except Fault Instant
  | .str s =>
    match Instant.parse? s with
    | some t => .ok t
    | none => .error ⟨[], .malformed "no date and time"⟩
  | v => v.refuse "an RFC 3339 formatted date and time string"

def decode : Node → Except Fault CommitInfo :=
  readRecord ["hexsha", "author_name", "author_email", "message", "committed_at"] fun r =>
    CommitInfo.mk <$> r.required "hexsha" asText <*> r.defaulted "author_name" "" asText <*>
      r.defaulted "author_email" "" asText <*> r.defaulted "message" "" asText <*>
      r.optional "committed_at" decodeInstant

end CommitInfo

def NameMap.encode {α : Type} (f : α → Json) (m : NameMap α) : Json := .obj (m.map f).entries

def NameSet.encode (s : NameSet) : Json := list .str s.keys

def NameSet.decode (v : Node) : Except Fault NameSet := (asList asText v).map NameSet.ofNames

namespace FunctionNode

/-- The function as a record; an empty history is left out. -/
def encode (node : FunctionNode) : Json :=
  .obj ([("name", .str node.name), ("files", NameSet.encode node.files)] ++
    if node.history.isEmpty then []
    else [("history", node.history.encode ChangeStats.encode)])

def decode : Node → Except Fault FunctionNode :=
  readRecord ["name", "files", "history"] fun r =>
    FunctionNode.mk <$> r.required "name" asText <*> r.defaulted "files" .empty NameSet.decode <*>
      r.defaulted "history" .empty (asMap ChangeStats.decode)

end FunctionNode

namespace CallEdge

def encode (e : CallEdge) : Json :=
  .obj ([("source", .str e.caller), ("target", .str e.callee)] ++
    match e.addedBy with
    | some hash => [("added_by", .str hash)]
    | none => [])

def decode : Node → Except Fault CallEdge :=
  readRecord ["source", "target", "added_by"] fun r =>
    CallEdge.mk <$> r.required "source" asText <*> r.required "target" asText <*>
      r.optional "added_by" asText

end CallEdge

namespace GraphData

def encode (d : GraphData) : Json :=
  .obj [("commits", list CommitInfo.encode d.commits), ("nodes", list FunctionNode.encode d.nodes),
    ("edges", list CallEdge.encode d.edges)]

def decode : Node → Except Fault GraphData :=
  readRecord ["commits", "nodes", "edges"] fun r =>
    GraphData.mk <$> r.defaulted "commits" [] (asList CommitInfo.decode) <*>
      r.defaulted "nodes" [] (asList FunctionNode.decode) <*>
      r.defaulted "edges" [] (asList CallEdge.decode)

end GraphData

/-- Why a text holds no graph: it holds no such record, or one that is badly linked. -/
inductive GraphTextError where
  | malformed (reason : String)
  | badlyLinked (error : GraphError)
deriving DecidableEq, Repr

namespace CallGraph

def toText (g : CallGraph) : String := g.toData.encode.pretty

def ofText (text : String) : Except (Halt GraphTextError) CallGraph :=
  match decodeText GraphData.decode text with
  | .error reason => .error (.refused (.malformed reason))
  | .ok data => (ofData data).mapError (Halt.map .badlyLinked)

end CallGraph

/-- Builds the store of the graph in a text. -/
def GraphStore.ofText (text : String) : Except (Halt GraphTextError) GraphStore :=
  match decodeText GraphData.decode text with
  | .error reason => .error (.refused (.malformed reason))
  | .ok data => (ofData data).mapError (Halt.map .badlyLinked)

end EffortRank
