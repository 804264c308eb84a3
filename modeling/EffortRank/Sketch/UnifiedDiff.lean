import EffortRank.Text.Basic

/-!
# Unified diffs

The unified diff of two texts shows their changed lines with three unchanged lines around them.
The lines that stay are a longest common subsequence; of the lines in between, the deleted ones come
before the new ones. Changes that at most six unchanged lines part are shown in one hunk.

A line keeps its ending here, and a carriage return of its own ends a line too.
-/

namespace EffortRank

namespace UnifiedDiff

open Text

def endedLines : List Char → List Line
  | [] => []
  | '\r' :: '\n' :: cs => ['\r', '\n'] :: endedLines cs
  | '\n' :: cs => ['\n'] :: endedLines cs
  | '\r' :: cs => ['\r'] :: endedLines cs
  | c :: cs => consLine c (endedLines cs)

/-! ## Common lines -/

/-- One row of the table of lengths of longest common subsequences: for a line in front of some old
lines, against all rests of the new ones, given the row `below` of those old lines alone. -/
def lengthRow (line : Line) : List Line → List Nat → List Nat
  | new :: rest, under :: diagonal :: below =>
    let row := lengthRow line rest (diagonal :: below)
    let here := if line = new then diagonal + 1 else max under (row.head?.getD 0)
    here :: row
  | _, _ => [0]

/-- The rows for all rests of the old lines, longest first. -/
def lengthRows (new : List Line) : List Line → List (List Nat)
  | [] => [List.replicate (new.length + 1) 0]
  | line :: rest =>
    let rows := lengthRows new rest
    lengthRow line new (rows.head?.getD []) :: rows

/-- A line of an edit script. -/
inductive EditLine where
  | kept (line : Line)
  | deleted (line : Line)
  | added (line : Line)
deriving DecidableEq, Repr

/-- The script from old lines to new ones, given the rows for the old lines. A line that both start
with is kept; otherwise an old line is deleted if that loses no common line. -/
def scriptFrom : List Line → List Line → List (List Nat) → List EditLine
  | [], new, _ => new.map .added
  | old, [], _ => old.map .deleted
  | a :: old, b :: new, rows =>
    if a = b then .kept a :: scriptFrom old new ((rows.drop 1).map (List.drop 1))
    else
      let total := ((rows.head?).bind List.head?).getD 0
      let without := (((rows.drop 1).head?).bind List.head?).getD 0
      if total ≤ without then .deleted a :: scriptFrom old (b :: new) (rows.drop 1)
      else .added b :: scriptFrom (a :: old) new (rows.map (List.drop 1))
termination_by old new => old.length + new.length

def script (old new : List Line) : List EditLine := scriptFrom old new (lengthRows new old)

/-! ## Hunks -/

def context : Nat := 3

/-- A part of a script: unchanged lines, or deleted and new ones. -/
inductive EditRun where
  | same (lines : List Line)
  | changed (lines : List EditLine)
deriving DecidableEq, Repr

def consRun (e : EditLine) (runs : List EditRun) : List EditRun :=
  match e, runs with
  | .kept line, .same lines :: rest => .same (line :: lines) :: rest
  | .kept line, rest => .same [line] :: rest
  | e, .changed lines :: rest => .changed (e :: lines) :: rest
  | e, rest => .changed [e] :: rest

def runs (script : List EditLine) : List EditRun := script.foldr consRun []

/-- A hunk: how many old and new lines come before it, and its lines. -/
structure TextHunk where
  oldBefore : Nat
  newBefore : Nat
  lines : List EditLine
deriving DecidableEq, Repr

namespace TextHunk

def oldCount (h : TextHunk) : Nat :=
  (h.lines.filter fun
    | .added _ => false
    | _ => true).length

def newCount (h : TextHunk) : Nat :=
  (h.lines.filter fun
    | .deleted _ => false
    | _ => true).length

def extend (h : TextHunk) (lines : List EditLine) : TextHunk := { h with lines := h.lines ++ lines }

/-- The hunk that starts a number of unchanged lines behind `h`, with the lines before its
change. -/
def following (h : TextHunk) (skipped : Nat) (lines : List Line) : TextHunk :=
  ⟨h.oldBefore + h.oldCount + skipped, h.newBefore + h.newCount + skipped, lines.map .kept⟩

end TextHunk

def hunksFrom (h : TextHunk) : List EditRun → List TextHunk
  | [] => [h]
  | [.same lines] => [h.extend ((lines.take context).map .kept)]
  | .same lines :: rest =>
    if 2 * context < lines.length then
      let done := h.extend ((lines.take context).map .kept)
      let skipped := lines.length - 2 * context
      done :: hunksFrom (done.following skipped (lines.drop (lines.length - context))) rest
    else hunksFrom (h.extend (lines.map .kept)) rest
  | .changed lines :: rest => hunksFrom (h.extend lines) rest

def hunks (script : List EditLine) : List TextHunk :=
  match runs script with
  | [] => []
  | [.same _] => []
  | .same lines :: rest =>
    let skipped := lines.length - context
    hunksFrom ⟨skipped, skipped, (lines.drop skipped).map .kept⟩ rest
  | rest => hunksFrom ⟨0, 0, []⟩ rest

/-! ## Text -/

/-- One side of a hunk header: the first line and the number of lines, which is left out if it is
one. Without lines, the line before is named. -/
def rangeText (before count : Nat) : String :=
  if count = 1 then toString (before + 1)
  else if count = 0 then s!"{before},0"
  else s!"{before + 1},{count}"

/-- A line behind its mark. A line without an ending is followed by a remark. -/
def markedLine (mark : Char) (line : Line) : String :=
  let ended := match line.getLast? with
    | some c => c == '\n' || c == '\r'
    | none => false
  String.ofList (mark :: line) ++ (if ended then "" else "\n\\ No newline at end of file\n")

def EditLine.text : EditLine → String
  | .kept line => markedLine ' ' line
  | .deleted line => markedLine '-' line
  | .added line => markedLine '+' line

def TextHunk.text (h : TextHunk) : String :=
  let old := rangeText h.oldBefore h.oldCount
  let new := rangeText h.newBefore h.newCount
  s!"@@ -{old} +{new} @@\n" ++ String.join (h.lines.map EditLine.text)

/-- The unified diff of two versions of a file; equal ones have none. -/
def render (path old new : String) : String :=
  match hunks (script (endedLines old.toList) (endedLines new.toList)) with
  | [] => ""
  | found => s!"--- a/{path}\n+++ b/{path}\n" ++ String.join (found.map TextHunk.text)

end UnifiedDiff

end EffortRank
