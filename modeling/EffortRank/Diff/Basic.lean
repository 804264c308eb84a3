import EffortRank.Bounds

/-!
# The change of one file

A range `[first, last]` of 1-based line numbers in one version of a file is closed. One whose first
line comes after its last is empty: its length is zero and it shares no line with any other.

`FileDiff` says which lines a commit put into a file and which it took out, both in the line
numbers of the old version. `FileDiff.check` refuses a change whose records are out of order, and
`checkFunctions` does the same for the functions of a file.

The inverse of a change turns the new version of the file back into the old one, in the line
numbers of the new version. What was put in is taken out, and what was taken out is put in. The
records of both kinds are taken in the order of their places in the old version; between them, new
line numbers run a `shift` ahead of old ones.
-/

namespace EffortRank

/-! ## Ranges of lines -/

/-- The closed range of lines from `first` to `last`. -/
structure LineRange where
  first : Int
  last : Int
deriving DecidableEq, Repr, Inhabited

namespace LineRange

def isEmpty (r : LineRange) : Bool := r.last < r.first

/-- The number of lines in the range; one too long to be counted counts as the largest count. -/
def length (r : LineRange) : Nat := min (r.last + 1 - r.first).toNat maxCount

def contains (r : LineRange) (line : Int) : Bool := r.first ≤ line && line ≤ r.last

/-- The lines that two ranges share; `none` when they share none. -/
def intersection? (r s : LineRange) : Option LineRange :=
  let shared : LineRange := ⟨max r.first s.first, min r.last s.last⟩
  if shared.isEmpty then none else some shared

/-- The number of lines that two ranges share. -/
def sharedLength (r s : LineRange) : Nat := ((r.intersection? s).map length).getD 0

def text (r : LineRange) : String := s!"[{r.first}, {r.last}]"

/-- Membership in the range, as a proposition. -/
theorem contains_iff {r : LineRange} {line : Int} :
    r.contains line = true ↔ r.first ≤ line ∧ line ≤ r.last := by
  simp [contains]

end LineRange

/-! ## Changes -/

/-- A block of `length` new lines after the old line `position`; at the top of the file the
position is `0`. -/
structure Addition where
  position : Int
  length : Int
deriving DecidableEq, Repr, Inhabited

/-- The number of new lines; a negative length counts as none. -/
def Addition.lines (a : Addition) : Nat := a.length.toNat

/-- The change that one commit made to one file. -/
structure FileDiff where
  additions : List Addition
  deletions : List LineRange
deriving DecidableEq, Repr, Inhabited

/-- A function with its lines in one version of a file. -/
structure FunctionRange where
  name : String
  range : LineRange
deriving DecidableEq, Repr, Inhabited

namespace FileDiff

/-- The change that does nothing. -/
def empty : FileDiff := ⟨[], []⟩

def append (d e : FileDiff) : FileDiff :=
  ⟨d.additions ++ e.additions, d.deletions ++ e.deletions⟩

instance : Append FileDiff := ⟨append⟩

def isEmpty (d : FileDiff) : Bool := d.additions.isEmpty && d.deletions.isEmpty

def addedLines (d : FileDiff) : Nat := total (d.additions.map Addition.lines)

def deletedLines (d : FileDiff) : Nat := total (d.deletions.map LineRange.length)

def linesFit (d : FileDiff) : Bool := countFits d.addedLines && countFits d.deletedLines

@[simp] theorem additions_empty : empty.additions = [] := rfl

@[simp] theorem deletions_empty : empty.deletions = [] := rfl

@[simp] theorem additions_append (d e : FileDiff) :
    (d ++ e).additions = d.additions ++ e.additions := rfl

@[simp] theorem deletions_append (d e : FileDiff) :
    (d ++ e).deletions = d.deletions ++ e.deletions := rfl

@[simp] theorem empty_append (d : FileDiff) : empty ++ d = d := rfl

@[simp] theorem append_empty (d : FileDiff) : d ++ empty = d := by
  show FileDiff.mk (d.additions ++ []) (d.deletions ++ []) = d
  simp

theorem append_assoc (d e f : FileDiff) : d ++ e ++ f = d ++ (e ++ f) := by
  show FileDiff.mk (d.additions ++ e.additions ++ f.additions)
      (d.deletions ++ e.deletions ++ f.deletions) =
    ⟨d.additions ++ (e.additions ++ f.additions), d.deletions ++ (e.deletions ++ f.deletions)⟩
  simp

end FileDiff

/-! ## Order -/

/-- The kinds of records whose order is checked. -/
inductive Listing where
  | addition
  | deletion
  | functionRange
deriving DecidableEq, Repr

def Listing.text : Listing → String
  | .addition => "addition"
  | .deletion => "deletion"
  | .functionRange => "function range"

/-- Why a list of records is refused: the record at `index` starts before its predecessor, or it
shares a line with it. -/
inductive OrderError where
  | unsorted (listing : Listing) (index : Nat) (start previous : Int)
  | overlapping (listing : Listing) (index : Nat) (previous current : LineRange)
deriving DecidableEq, Repr

def OrderError.message : OrderError → String
  | .unsorted listing index start previous =>
    s!"{listing.text} #{index} starts at line {start}, before the previous one at line {previous}"
  | .overlapping listing index previous current =>
    s!"{listing.text} #{index} {current.text} overlaps the previous one {previous.text}"

/-- Checks the ranges that follow `previous`, the first of which has the given index. -/
def checkAfter (listing : Listing) (index : Nat) (previous : LineRange) :
    List LineRange → Except OrderError Unit
  | [] => .ok ()
  | r :: rs =>
    if r.first < previous.first then .error (.unsorted listing index r.first previous.first)
    else if r.first ≤ previous.last then .error (.overlapping listing index previous r)
    else checkAfter listing (index + 1) r rs

def checkDisjoint (listing : Listing) : List LineRange → Except OrderError Unit
  | [] => .ok ()
  | r :: rs => checkAfter listing 1 r rs

/-- Checks the additions that follow `previous`, the first of which has the given index. -/
def checkPositionsAfter (index : Nat) (previous : Int) : List Addition → Except OrderError Unit
  | [] => .ok ()
  | a :: as =>
    if a.position < previous then .error (.unsorted .addition index a.position previous)
    else checkPositionsAfter (index + 1) a.position as

def checkPositions : List Addition → Except OrderError Unit
  | [] => .ok ()
  | a :: as => checkPositionsAfter 1 a.position as

/-- The additions ascend, and so do the deletions, without a common line. The additions are looked
at first. -/
def FileDiff.check (d : FileDiff) : Except OrderError Unit :=
  match checkPositions d.additions with
  | .error e => .error e
  | .ok () => checkDisjoint .deletion d.deletions

def checkFunctions (functions : List FunctionRange) : Except OrderError Unit :=
  checkDisjoint .functionRange (functions.map FunctionRange.range)

/-! ## Inverting -/

/-- A record of a change: lines put in, or lines taken out. -/
inductive ChangeRecord where
  | added (addition : Addition)
  | deleted (range : LineRange)
deriving DecidableEq, Repr

/-- An addition goes before a deletion only if it stands before the first line of the deletion. -/
def ChangeRecord.goesBefore : ChangeRecord → ChangeRecord → Bool
  | .added a, .deleted d => a.position < d.first
  | _, _ => true

/-- The records of a change in the order of their places; those of one kind keep their order. -/
def FileDiff.records (d : FileDiff) : List ChangeRecord :=
  (d.additions.map .added).merge (d.deletions.map .deleted) ChangeRecord.goesBefore

/-- Inverts the records that are left, in front of which new line numbers run `shift` ahead. -/
def inverseFrom (shift : Int) : List ChangeRecord → FileDiff
  | [] => .empty
  | .added a :: rest =>
    let later := inverseFrom (shift + a.length) rest
    ⟨later.additions, ⟨shift + a.position + 1, shift + a.position + a.length⟩ :: later.deletions⟩
  | .deleted d :: rest =>
    let removed := d.last - d.first + 1
    let later := inverseFrom (shift - removed) rest
    ⟨⟨shift + d.first - 1, removed⟩ :: later.additions, later.deletions⟩

/-- The change that undoes `d`. Its deletion with a given index is the block that the addition
with that index became. -/
def FileDiff.inverse (d : FileDiff) : FileDiff := inverseFrom 0 d.records

/-! ## Bounds -/

/-- The line numbers on the way through the records that are left fit. -/
def shiftsFit (shift : Int) : List ChangeRecord → Bool
  | [] => true
  | .added a :: rest =>
    [shift + a.position, shift + a.position + 1, shift + a.position + a.length,
      shift + a.length].all lineFits && shiftsFit (shift + a.length) rest
  | .deleted d :: rest =>
    let removed := d.last - d.first + 1
    [d.last - d.first, removed, shift + d.first, shift + d.first - 1, shift - removed].all lineFits
      && shiftsFit (shift - removed) rest

def FileDiff.inverseFits (d : FileDiff) : Bool := shiftsFit 0 d.records

/-- The inverse of a change, if its numbers fit. -/
def FileDiff.inverse? (d : FileDiff) : Option FileDiff := fitting d.inverseFits d.inverse

end EffortRank
