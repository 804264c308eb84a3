import EffortRank.Churn.Stats
import EffortRank.Diff.Basic
import EffortRank.Json.Printer
import EffortRank.Json.Record
import EffortRank.Patch.Header

/-!
# Changes as records

How ranges, additions, changes, functions, hunks and change counts are written as JSON records, and
how they are read back.
-/

namespace EffortRank

open Json

namespace LineRange

def encode (r : LineRange) : Json := .obj [("start", .int r.first), ("end", .int r.last)]

def decode : Node → Except Fault LineRange :=
  readRecord ["start", "end"] fun r =>
    LineRange.mk <$> r.required "start" asLine <*> r.required "end" asLine

end LineRange

namespace Addition

def encode (a : Addition) : Json := .obj [("position", .int a.position), ("length", .int a.length)]

def decode : Node → Except Fault Addition :=
  readRecord ["position", "length"] fun r =>
    Addition.mk <$> r.required "position" asLine <*> r.required "length" asLine

end Addition

namespace FileDiff

def encode (d : FileDiff) : Json :=
  .obj [("additions", list Addition.encode d.additions),
    ("deletions", list LineRange.encode d.deletions)]

def decode : Node → Except Fault FileDiff :=
  readRecord ["additions", "deletions"] fun r =>
    FileDiff.mk <$> r.required "additions" (asList Addition.decode) <*>
      r.required "deletions" (asList LineRange.decode)

end FileDiff

namespace FunctionRange

def encode (f : FunctionRange) : Json := .obj [("name", .str f.name), ("range", f.range.encode)]

def decode : Node → Except Fault FunctionRange :=
  readRecord ["name", "range"] fun r =>
    FunctionRange.mk <$> r.required "name" asText <*> r.required "range" LineRange.decode

end FunctionRange

def Hunk.encode (h : Hunk) : Json :=
  .obj [("old_start", .int h.oldStart), ("old_len", .int h.oldLength),
    ("new_start", .int h.newStart), ("new_len", .int h.newLength)]

namespace ChangeStats

/-- A count that may be missing, as a field that may be missing. -/
def countField (name : String) : Option Nat → List (String × Json)
  | some n => [(name, nat n)]
  | none => []

def encode (s : ChangeStats) : Json :=
  .obj ([("adds", nat s.adds), ("dels", nat s.dels)] ++ countField "added_units" s.addedUnits ++
    countField "removed_units" s.removedUnits)

def decode : Node → Except Fault ChangeStats :=
  readRecord ["adds", "dels", "added_units", "removed_units"] fun r =>
    ChangeStats.mk <$> r.required "adds" asCount <*> r.required "dels" asCount <*>
      r.optional "added_units" asCount <*> r.optional "removed_units" asCount

end ChangeStats

end EffortRank
