import EffortRank.Bounds

/-!
# Change counts

What one commit did to one function: the lines put in and taken out, and, where the text of both
versions is at hand, the logical units (words) in those lines. Counts of the same function and
commit are merged.
-/

namespace EffortRank

/-- What one commit did to one function. -/
structure ChangeStats where
  adds : Nat
  dels : Nat
  addedUnits : Option Nat
  removedUnits : Option Nat
deriving DecidableEq, Repr, Inhabited

/-- The sum of two counts either of which may be missing; the one that is there stands for both. -/
def addMeasured : Option Nat → Option Nat → Option Nat
  | some m, some n => some (m + n)
  | some m, none => some m
  | none, n => n

namespace ChangeStats

/-- No change, without logical units. -/
def zero : ChangeStats := ⟨0, 0, none, none⟩

def lineChurn (s : ChangeStats) : Nat := s.adds + s.dels

/-- The number of changed logical units, if both sides were measured. -/
def unitChurn? (s : ChangeStats) : Option Nat :=
  match s.addedUnits, s.removedUnits with
  | some added, some removed => some (added + removed)
  | _, _ => none

def hasUnits (s : ChangeStats) : Bool := s.addedUnits.isSome && s.removedUnits.isSome

/-- The development effort of the change: its logical units where they were measured, its lines
elsewhere. -/
def effort (s : ChangeStats) : Nat := s.unitChurn?.getD s.lineChurn

def merge (s t : ChangeStats) : ChangeStats :=
  { adds := s.adds + t.adds
    dels := s.dels + t.dels
    addedUnits := addMeasured s.addedUnits t.addedUnits
    removedUnits := addMeasured s.removedUnits t.removedUnits }

def fits (s : ChangeStats) : Bool :=
  countFits s.adds && countFits s.dels && s.addedUnits.all countFits && s.removedUnits.all countFits

/-- Both changes together, if their counts fit. -/
def merge? (s t : ChangeStats) : Option ChangeStats := fitting (s.merge t).fits (s.merge t)

/-- The churn fits, in lines and in logical units. -/
def churnFits (s : ChangeStats) : Bool := countFits s.lineChurn && s.unitChurn?.all countFits

def swap (s : ChangeStats) : ChangeStats := ⟨s.dels, s.adds, s.removedUnits, s.addedUnits⟩

end ChangeStats

end EffortRank
