import EffortRank.Diff.Basic
import EffortRank.Proofs.Patch.HeaderText
import EffortRank.Text.Basic

/-!
# Well formed unified diffs

A unified diff of one file is a list of hunks with other lines before, between and behind them
(`PatchText`). Each hunk has a header, whose numbers are those of the hunk, and a body of marked
lines; markers such as `\ No newline at end of file` may follow any line of a body. It is well
formed if the header counts the lines of the body, and if each hunk starts where the one before it
stopped taking old lines, or later.

`PatchText.change` is the change that such a diff describes: one record for each maximal run of
equally marked lines (`recordOf`), at the place that the run has in the old version.
-/

namespace EffortRank

open Text

/-- What a line in the body of a hunk shows: a line of both versions, of the old one only, or of the
new one only. -/
inductive Mark where
  | keep
  | delete
  | add
deriving DecidableEq, Repr

/-- The line starts like a header. -/
def LooksLikeHeader (line : Line) : Prop := ['@', '@'] <+: line

instance (line : Line) : Decidable (LooksLikeHeader line) :=
  inferInstanceAs (Decidable (_ <+: _))

/-- The line is written with the given mark. A line of both versions usually starts with a blank,
but nothing more is asked of it than that it starts unlike all other lines. -/
def Mark.Marks : Mark → Line → Prop
  | .keep, line => ¬ LooksLikeHeader line ∧ ∀ c ∈ line.head?, c ≠ '-' ∧ c ≠ '+' ∧ c ≠ '\\'
  | .delete, line => line.head? = some '-'
  | .add, line => line.head? = some '+'

instance : (m : Mark) → (line : Line) → Decidable (m.Marks line)
  | .keep, line =>
    decidable_of_iff (¬ LooksLikeHeader line ∧
        (line.head?.all fun c => c ≠ '-' ∧ c ≠ '+' ∧ c ≠ '\\') = true)
      (by simp only [Mark.Marks, Option.all_eq_true, decide_eq_true_eq, Option.mem_def])
  | .delete, line => inferInstanceAs (Decidable (line.head? = some '-'))
  | .add, line => inferInstanceAs (Decidable (line.head? = some '+'))

theorem Mark.Marks.not_looksLikeHeader {m : Mark} {line : Line} (h : m.Marks line) :
    ¬ LooksLikeHeader line := by
  cases m with
  | keep => exact h.1
  | delete =>
    obtain ⟨rest, rfl⟩ := List.head?_eq_some_iff.1 h
    simp [LooksLikeHeader]
  | add =>
    obtain ⟨rest, rfl⟩ := List.head?_eq_some_iff.1 h
    simp [LooksLikeHeader]

def oldCount (ms : List Mark) : Nat := ms.countP (· ≠ .add)

def newCount (ms : List Mark) : Nat := ms.countP (· ≠ .delete)

/-- A line in the body of a hunk, with the marker lines behind it. -/
structure BodyLine where
  mark : Mark
  line : Line
  markers : List Line
deriving DecidableEq

def BodyLine.WellFormed (b : BodyLine) : Prop :=
  b.mark.Marks b.line ∧ ∀ marker ∈ b.markers, marker.head? = some '\\'

instance (b : BodyLine) : Decidable b.WellFormed := inferInstanceAs (Decidable (_ ∧ _))

/-- A hunk: its header line, the numbers of the header, its body, and the lines behind it. -/
structure HunkText where
  header : HeaderLine
  hunk : Hunk
  body : List BodyLine
  trailer : List Line
deriving DecidableEq

namespace HunkText

def marks (h : HunkText) : List Mark := h.body.map BodyLine.mark

def lines (h : HunkText) : List Line :=
  h.header.text :: ((h.body.flatMap fun b => b.line :: b.markers) ++ h.trailer)

/-- The number of old lines in front of the body. A hunk names the first old line of its body; one
without old lines names the old line that its additions follow. -/
def linesBefore (h : HunkText) : Int :=
  if h.hunk.oldLength = 0 then h.hunk.oldStart else h.hunk.oldStart - 1

def linesAfter (h : HunkText) : Int := h.linesBefore + oldCount h.marks

/-- The header announces the body. -/
structure WellFormed (h : HunkText) : Prop where
  blanks : h.header.Blanks
  announced : h.header.header.hunk? = some h.hunk
  oldLength : h.hunk.oldLength = oldCount h.marks
  newLength : h.hunk.newLength = newCount h.marks
  oldStart : 0 < h.hunk.oldLength → 1 ≤ h.hunk.oldStart
  body : ∀ b ∈ h.body, b.WellFormed
  trailer : ∀ line ∈ h.trailer, ¬ LooksLikeHeader line

end HunkText

/-- A unified diff of one file: the lines in front of the first hunk, and the hunks. -/
structure PatchText where
  preamble : List Line
  hunks : List HunkText
deriving DecidableEq

namespace PatchText

def lines (p : PatchText) : List Line := p.preamble ++ p.hunks.flatMap HunkText.lines

/-- The hunks are well formed and ascend. -/
structure WellFormed (p : PatchText) : Prop where
  preamble : ∀ line ∈ p.preamble, ¬ LooksLikeHeader line
  hunks : ∀ h ∈ p.hunks, h.WellFormed
  ascending : p.hunks.IsChain fun g h => g.linesAfter ≤ h.linesBefore

end PatchText

/-! ## The change -/

/-- The record of a run of equally marked lines behind the old line `p`. -/
def recordOf (p : Int) (run : List Mark) : FileDiff :=
  match run with
  | .delete :: _ => ⟨[], [⟨p + 1, p + run.length⟩]⟩
  | .add :: _ => ⟨[⟨p, run.length⟩], []⟩
  | _ => .empty

/-- The records of runs, the first of which comes behind the old line `p`. -/
def changeOfRuns (p : Int) : List (List Mark) → FileDiff
  | [] => .empty
  | run :: rest => recordOf p run ++ changeOfRuns (p + oldCount run) rest

/-- The change that a hunk describes: a record for each maximal run of equal marks. -/
def HunkText.change (h : HunkText) : FileDiff :=
  changeOfRuns h.linesBefore (h.marks.splitBy (· == ·))

def changeOfHunks : List HunkText → FileDiff
  | [] => .empty
  | h :: hs => h.change ++ changeOfHunks hs

def PatchText.change (p : PatchText) : FileDiff := changeOfHunks p.hunks

/-! ## Counting marks -/

@[simp]
theorem oldCount_nil : oldCount [] = 0 := rfl

theorem oldCount_append (ms ns : List Mark) : oldCount (ms ++ ns) = oldCount ms + oldCount ns :=
  List.countP_append

theorem oldCount_replicate (n : Nat) (m : Mark) :
    oldCount (List.replicate n m) = if m = .add then 0 else n := by
  cases m <;> simp [oldCount, List.countP_replicate]

theorem oldCount_cons (m : Mark) (ms : List Mark) :
    oldCount (m :: ms) = oldCount ms + if m = .add then 0 else 1 := by
  cases m <;> simp [oldCount]

theorem newCount_cons (m : Mark) (ms : List Mark) :
    newCount (m :: ms) = newCount ms + if m = .delete then 0 else 1 := by
  cases m <;> simp [newCount]

theorem oldCount_pos_or_newCount_pos (m : Mark) (ms : List Mark) :
    0 < oldCount (m :: ms) ∨ 0 < newCount (m :: ms) := by
  cases m <;> simp [oldCount_cons, newCount_cons]

end EffortRank
