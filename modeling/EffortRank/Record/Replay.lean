import EffortRank.Record.Graph
import EffortRank.Replay.Run

/-!
# Histories as records

How commits to replay are written as JSON records, and how they are read back.
-/

namespace EffortRank

open Json

namespace SeekingMode

def name : SeekingMode → String
  | .forward => "normal_forward"
  | .merge => "merge_commit"
  | .rewind => "rewind"

def ofName? (s : String) : Option SeekingMode :=
  if s = "normal_forward" then some .forward
  else if s = "merge_commit" then some .merge
  else if s = "rewind" then some .rewind
  else none

def encode (m : SeekingMode) : Json := .str m.name

/-- The mode with a name, which stands at the end of a path. -/
def ofName (path : List Step) (s : String) : Except Fault SeekingMode :=
  match ofName? s with
  | some m => .ok m
  | none =>
    .error ⟨path, .unknownChoice s ([SeekingMode.forward, .merge, .rewind].map SeekingMode.name)⟩

/-- Reads a mode: its name, or an object with its name and null. -/
def decode : Node → Except Fault SeekingMode
  | .str s => ofName [] s
  | .obj [] => .error ⟨[], .malformed "expected value"⟩
  | .obj ((name, v) :: rest) => do
    let m ← ofName [.name 0] (← readName 0 (name, v))
    match v, rest with
    | .null, [] => .ok m
    | .null, _ :: _ => .error ⟨[.name 1], .malformed "expected value"⟩
    | v, _ => (v.refuse "unit").mapError (·.inside (.value 0))
  | v => .error ⟨[], match v with
    | .broken reason => .malformed reason
    | _ => .malformed "expected value"⟩

end SeekingMode

namespace CallSite

def encode (c : CallSite) : Json := .obj [("caller", .str c.caller), ("callee", .str c.callee)]

def decode : Node → Except Fault CallSite :=
  readRecord ["caller", "callee"] fun r =>
    CallSite.mk <$> r.required "caller" asText <*> r.required "callee" asText

end CallSite

namespace FileChange

def encode (c : FileChange) : Json :=
  .obj [("old_path", option .str c.oldPath), ("new_path", option .str c.newPath),
    ("patch", .str c.patch), ("functions", list FunctionRange.encode c.functions),
    ("new_functions", list FunctionRange.encode c.newFunctions),
    ("old_source", option .str c.oldSource), ("new_source", option .str c.newSource),
    ("calls", list CallSite.encode c.calls)]

def decode : Node → Except Fault FileChange :=
  readRecord ["old_path", "new_path", "patch", "functions", "new_functions", "old_source",
    "new_source", "calls"] fun r =>
    FileChange.mk <$> r.optional "old_path" asText <*> r.optional "new_path" asText <*>
      r.defaulted "patch" "" asText <*>
      r.defaulted "functions" [] (asList FunctionRange.decode) <*>
      r.defaulted "new_functions" [] (asList FunctionRange.decode) <*>
      r.optional "old_source" asText <*> r.optional "new_source" asText <*>
      r.defaulted "calls" [] (asList CallSite.decode)

end FileChange

namespace CommitStep

def encode (c : CommitStep) : Json :=
  .obj [("info", c.info.encode), ("seeking_mode", c.mode.encode),
    ("changes", list FileChange.encode c.changes)]

def decode : Node → Except Fault CommitStep :=
  readRecord ["info", "seeking_mode", "changes"] fun r =>
    CommitStep.mk <$> r.required "info" CommitInfo.decode <*>
      r.defaulted "seeking_mode" .forward SeekingMode.decode <*>
      r.defaulted "changes" [] (asList FileChange.decode)

end CommitStep

def historyOfText (text : String) : Except String (List CommitStep) :=
  decodeText (asList CommitStep.decode) text

def CommitUpdate.encode (u : CommitUpdate) : Json :=
  .obj [("files_applied", nat u.filesApplied), ("files_skipped", nat u.filesSkipped),
    ("functions_touched", nat u.functionsTouched), ("edges_added", nat u.edgesAdded)]

def ReplayStats.encode (s : ReplayStats) : Json :=
  .obj [("commits", nat s.commits), ("forward", nat s.forward), ("merges", nat s.merges),
    ("rewinds", nat s.rewinds), ("files_applied", nat s.filesApplied),
    ("files_skipped", nat s.filesSkipped), ("functions_touched", nat s.functionsTouched),
    ("edges_added", nat s.edgesAdded)]

end EffortRank
