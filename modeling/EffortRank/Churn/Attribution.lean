import EffortRank.Churn.Stats
import EffortRank.Diff.Basic
import EffortRank.NameMap.Basic
import EffortRank.Text.Basic
import EffortRank.Text.Word

/-!
# Attributing a change to functions

A pass visits the functions of the old version in order and finds, for each, the additions and the
parts of deletions inside it. `ScanCursor` remembers where the next function goes on: an addition
is one point and belongs to at most one function, whereas a deletion may reach into several.

`changedLines` sums the found lines per function. `changedStats` keeps the two sides apart and,
given the text of both versions, measures them in logical units too: the words on the lines of a
range. Line numbers outside the text have none.
-/

namespace EffortRank

open Text

/-! ## Logical units -/

def linesIn (text : List Line) (r : LineRange) : List Line :=
  (text.take r.last.toNat).drop (r.first.toNat - 1)

def unitCount (text : List Line) (r : LineRange) : Nat := total ((linesIn text r).map wordCount)

/-- A piece of a change inside a function: the addition with the given index in the change, or the
part of a deletion that the function holds. -/
inductive Contribution where
  | added (index length : Nat)
  | deleted (shared : LineRange)
deriving DecidableEq, Repr

def Contribution.lines : Contribution → Nat
  | .added _ length => length
  | .deleted shared => shared.length

/-! ## The scan -/

/-- The first records that the next function has to look at. -/
structure ScanCursor where
  nextAddition : Nat
  nextDeletion : Nat
deriving DecidableEq, Repr

/-- Looks at the additions that are left, the first of which has index `i`, up to the last line of
the range. An addition behind the last line belongs outside. Returns the index to go on with. -/
def scanAdditions (range : LineRange) (i : Nat) : List Addition → List Contribution × Nat
  | [] => ([], i)
  | a :: as =>
    if range.last ≤ a.position then ([], i)
    else
      let (found, next) := scanAdditions range (i + 1) as
      if a.position < range.first ∨ a.lines = 0 then (found, next)
      else (.added i a.lines :: found, next)

/-- Looks at the deletions that are left, the first of which has index `j`, up to the last line of
the range. Returns the index to go on with, which is `next` as long as nothing moves it. -/
def scanDeletions (range : LineRange) (next j : Nat) : List LineRange → List Contribution × Nat
  | [] => ([], next)
  | d :: ds =>
    if range.last < d.first then ([], next)
    else if d.last < range.first then scanDeletions range (j + 1) (j + 1) ds
    else
      match range.intersection? d with
      | some shared =>
        let (found, next) := scanDeletions range j (j + 1) ds
        (.deleted shared :: found, next)
      | none => scanDeletions range next (j + 1) ds

namespace ScanCursor

def start : ScanCursor := ⟨0, 0⟩

/-- The pieces of the change inside a range, additions first, and the cursor for the next range. -/
def visit (c : ScanCursor) (range : LineRange) (d : FileDiff) :
    List Contribution × ScanCursor :=
  let (added, nextAddition) :=
    scanAdditions range c.nextAddition (d.additions.drop c.nextAddition)
  let (deleted, nextDeletion) :=
    scanDeletions range c.nextDeletion c.nextDeletion (d.deletions.drop c.nextDeletion)
  (added ++ deleted, ⟨nextAddition, nextDeletion⟩)

/-- The pieces inside each of a list of ranges, with the cursor behind each. -/
def visitAll (c : ScanCursor) (d : FileDiff) :
    List LineRange → List (List Contribution × ScanCursor)
  | [] => []
  | r :: rs =>
    let found := c.visit r d
    found :: found.2.visitAll d rs

end ScanCursor

/-- The pieces of a change inside each function, found in one pass. -/
def contributions (functions : List FunctionRange) (d : FileDiff) :
    List (String × List Contribution) :=
  (functions.map FunctionRange.name).zip
    ((ScanCursor.start.visitAll d (functions.map FunctionRange.range)).map (·.1))

def namedPieces (functions : List FunctionRange) (d : FileDiff) : List (String × Contribution) :=
  (contributions functions d).flatMap fun e => e.2.map fun piece => (e.1, piece)

/-! ## Counting -/

/-- The number of changed lines of each function; one that is not touched is left out. -/
def changedLines (functions : List FunctionRange) (d : FileDiff) : NameMap Nat :=
  (namedPieces functions d).foldl
    (fun m e => m.alter e.1 fun old => old.getD 0 + e.2.lines) .empty

/-- The number of changed lines of each function, if all of them fit. -/
def changedLines? (functions : List FunctionRange) (d : FileDiff) : Option (NameMap Nat) :=
  let found := changedLines functions d
  fitting (found.values.all countFits) found

/-- The text of both versions of a file. -/
structure SourceTexts where
  old : String
  new : String
deriving DecidableEq, Repr

/-- The lines of both versions, and the new lines of each addition of a change. -/
structure UnitMeter where
  oldLines : List Line
  newLines : List Line
  addedRanges : List LineRange

def UnitMeter.of (sources : SourceTexts) (d : FileDiff) : UnitMeter :=
  ⟨lines sources.old.toList, lines sources.new.toList, d.inverse.deletions⟩

def UnitMeter.added (m : UnitMeter) (index : Nat) : Nat :=
  (m.addedRanges[index]?.map (unitCount m.newLines)).getD 0

def UnitMeter.removed (m : UnitMeter) (shared : LineRange) : Nat := unitCount m.oldLines shared

def Contribution.stats (meter : Option UnitMeter) : Contribution → ChangeStats
  | .added index length =>
    ⟨length, 0, meter.map fun m => m.added index, meter.map fun _ => 0⟩
  | .deleted shared =>
    ⟨0, shared.length, meter.map fun _ => 0, meter.map fun m => m.removed shared⟩

/-- The change of each function; one that is not touched is left out. Logical units are measured
if the text of both versions is given. -/
def changedStats (functions : List FunctionRange) (d : FileDiff) (sources : Option SourceTexts) :
    NameMap ChangeStats :=
  let meter := sources.map fun s => UnitMeter.of s d
  (namedPieces functions d).foldl
    (fun m e => m.alter e.1 fun old => (old.getD .zero).merge (e.2.stats meter)) .empty

/-- The change of each function, if all counts fit. To measure logical units, the change is
inverted. -/
def changedStats? (functions : List FunctionRange) (d : FileDiff) (sources : Option SourceTexts) :
    Option (NameMap ChangeStats) :=
  let found := changedStats functions d sources
  fitting ((sources.isNone || d.inverseFits) && found.values.all ChangeStats.fits) found

end EffortRank
