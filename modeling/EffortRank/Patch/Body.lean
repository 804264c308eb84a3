import EffortRank.Diff.Basic
import EffortRank.Patch.Header
import EffortRank.Text.Basic

/-!
# Hunk bodies

`readPatch` walks over the lines of a unified diff of one file and collects its change. Each run
of `-` lines is one deletion. Each run of `+` lines is one addition behind the old line that comes
before it, which is the last deleted line if a `-` run comes right before it. A marker line that
starts with a backslash belongs to no run and ends none. Lines outside a hunk mean nothing.

The walk emits records as the runs end, so the change of a text is the concatenation of what its
lines emit.
-/

namespace EffortRank

open Text

/-- The run of changed lines that the walk is in. -/
inductive ChangeRun where
  | none
  | adding (position length : Int)
  | deleting (start : Int)
deriving DecidableEq, Repr

/-- Where the walk stands: its run, the next old line, and how many lines of each side the hunk
still shows. -/
structure PatchWalk where
  run : ChangeRun
  cursor : Int
  oldLeft : Int
  newLeft : Int
deriving DecidableEq, Repr

namespace PatchWalk

def start : PatchWalk := ⟨.none, 0, 0, 0⟩

def inHunk (w : PatchWalk) : Bool := 0 < w.oldLeft || 0 < w.newLeft

/-- The record that ends the run. -/
def closed (w : PatchWalk) : FileDiff :=
  match w.run with
  | .none => FileDiff.empty
  | .adding position length => ⟨[⟨position, length⟩], []⟩
  | .deleting first => ⟨[], [⟨first, w.cursor - 1⟩]⟩

def idle (w : PatchWalk) : PatchWalk := { w with run := .none }

/-- Enters the hunk that a header line announces. A hunk that shows no old line names the line
that its additions follow. Behind a line that is no header, there is no hunk. -/
def enter (w : PatchWalk) (line : Line) : PatchWalk :=
  match (Header.read? line).bind fun h => h.1.hunk? with
  | some h =>
    { run := .none
      cursor := if h.oldLength = 0 then h.oldStart + 1 else max h.oldStart 1
      oldLeft := h.oldLength
      newLeft := h.newLength }
  | none => { w with run := .none, oldLeft := 0, newLeft := 0 }

/-- Takes a `-` line. -/
def delete (w : PatchWalk) : FileDiff × PatchWalk :=
  let next := { w with cursor := w.cursor + 1, oldLeft := w.oldLeft - 1 }
  match w.run with
  | .deleting _ => (FileDiff.empty, next)
  | _ => (w.closed, { next with run := .deleting w.cursor })

/-- Takes a `+` line. -/
def add (w : PatchWalk) : FileDiff × PatchWalk :=
  let next := { w with newLeft := w.newLeft - 1 }
  match w.run with
  | .adding position length => (FileDiff.empty, { next with run := .adding position (length + 1) })
  | _ => (w.closed, { next with run := .adding (w.cursor - 1) 1 })

/-- Takes a line that both versions have. -/
def keep (w : PatchWalk) : FileDiff × PatchWalk :=
  (w.closed, ⟨.none, w.cursor + 1, w.oldLeft - 1, w.newLeft - 1⟩)

/-- Takes a line of a hunk, by its first character. -/
def takeLine (w : PatchWalk) : Line → FileDiff × PatchWalk
  | '-' :: _ => w.delete
  | '+' :: _ => w.add
  | '\\' :: _ => (FileDiff.empty, w)
  | _ => w.keep

def isHeaderLine : Line → Bool
  | '@' :: '@' :: _ => true
  | _ => false

/-- What one line emits, and the walk behind it. The last line of a hunk ends its run. -/
def step (w : PatchWalk) (line : Line) : FileDiff × PatchWalk :=
  if isHeaderLine line then (w.closed, w.enter line)
  else if w.inHunk then
    let (emitted, next) := w.takeLine line
    if next.inHunk then (emitted, next) else (emitted ++ next.closed, next.idle)
  else (FileDiff.empty, w)

/-- What the lines that are left emit; the end of the text ends the run. -/
def collect (w : PatchWalk) : List Line → FileDiff
  | [] => w.closed
  | line :: rest =>
    let (emitted, next) := w.step line
    emitted ++ next.collect rest

/-- The old line numbers on the way through the lines that are left fit. -/
def fits (w : PatchWalk) : List Line → Bool
  | [] => lineFits w.cursor
  | line :: rest => lineFits w.cursor && (w.step line).2.fits rest

end PatchWalk

/-- The change that a unified diff of one file describes. -/
def readPatch (text : List Char) : FileDiff := PatchWalk.start.collect (lines text)

/-- The change that a unified diff describes, if its line numbers fit. -/
def readPatch? (text : List Char) : Option FileDiff :=
  fitting (PatchWalk.start.fits (lines text)) (readPatch text)

end EffortRank
