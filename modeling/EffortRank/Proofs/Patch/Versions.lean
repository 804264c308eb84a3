import EffortRank.Proofs.Diff.Conservation
import EffortRank.Proofs.Patch.Inverting
import EffortRank.Proofs.Patch.Reading

/-!
# Diffs of two texts

Hunks turn the lines of one version into those of the other (`Turns`): a hunk replaces the old lines
of its body by the new ones, at the place that its header names, and between hunks the lines stay.
A text `IsDiff` of two others if it spells a well formed unified diff that turns the lines of the
one into those of the other.

Such a diff is read as a change that has its place in the old version. The change puts in and takes
out no more lines than the diff has, and it can be inverted, and inverted back, if the lines of both
versions can be numbered (`IsDiff.exists_change`).
-/

namespace EffortRank

open Text

namespace HunkText

/-- The lines of the old version that the body of a hunk shows. -/
def oldLines (h : HunkText) : List Line :=
  (h.body.filter fun b => b.mark ≠ .add).map fun b => b.line.tail

/-- The lines of the new version that the body of a hunk shows. -/
def newLines (h : HunkText) : List Line :=
  (h.body.filter fun b => b.mark ≠ .delete).map fun b => b.line.tail

theorem length_oldLines (h : HunkText) : h.oldLines.length = oldCount h.marks := by
  rw [oldLines, List.length_map, oldCount, marks, List.countP_map, List.countP_eq_length_filter]
  rfl

theorem length_newLines (h : HunkText) : h.newLines.length = newCount h.marks := by
  rw [newLines, List.length_map, newCount, marks, List.countP_map, List.countP_eq_length_filter]
  rfl

end HunkText

/-- The hunks turn the lines behind the old line `p` into those of the new version. -/
inductive Turns : Int → List HunkText → List Line → List Line → Prop where
  | rest {p : Int} (same : List Line) : Turns p [] same same
  | hunk {p : Int} {h : HunkText} {hs : List HunkText} {old new : List Line} (same : List Line) :
      h.linesBefore = p + same.length → Turns h.linesAfter hs old new →
      Turns p (h :: hs) (same ++ (h.oldLines ++ old)) (same ++ (h.newLines ++ new))

/-- The text is a well formed unified diff of two others. -/
def IsDiff (patch old new : String) : Prop :=
  ∃ p : PatchText, p.WellFormed ∧ Spells p.lines patch.toList ∧
    Turns 0 p.hunks (lines old.toList) (lines new.toList)

/-- A diff of one hunk that shows all lines of both versions. -/
theorem isDiff_of_hunk {patch old new : String} {preamble : List Line} {h : HunkText}
    (hpreamble : ∀ line ∈ preamble, ¬ LooksLikeHeader line) (hwellFormed : h.WellFormed)
    (hspells : Spells (preamble ++ h.lines) patch.toList) (hbefore : h.linesBefore = 0)
    (hold : lines old.toList = h.oldLines) (hnew : lines new.toList = h.newLines) :
    IsDiff patch old new := by
  refine ⟨⟨preamble, [h]⟩, ⟨hpreamble, by simpa using hwellFormed, .singleton h⟩, ?_, ?_⟩
  · rwa [PatchText.lines, List.flatMap_cons, List.flatMap_nil, List.append_nil]
  · have hturns : Turns 0 [h] ([] ++ (h.oldLines ++ [])) ([] ++ (h.newLines ++ [])) :=
      .hunk [] hbefore (.rest [])
    rw [hold, hnew]
    rwa [List.nil_append, List.nil_append, List.append_nil, List.append_nil] at hturns

/-! ## Places -/

/-- The change of hunks has its place where the lines are that they turn. -/
theorem Turns.placed_change {p : Int} {hs : List HunkText} {old new : List Line}
    (h : Turns p hs old new) : (changeOfHunks hs).Placed p (p + old.length) := by
  induction h with
  | rest same => exact FileDiff.Placed.empty
  | @hunk p h hs old new same hbefore _ ih =>
    have hafter : h.linesAfter = h.linesBefore + h.oldLines.length := by
      rw [HunkText.linesAfter, h.length_oldLines]
    have hfirst := h.placed_change.mono (show p ≤ h.linesBefore by omega) (Int.le_refl _)
    have hend : p + (same ++ (h.oldLines ++ old)).length = h.linesAfter + old.length := by
      rw [List.length_append, List.length_append]
      omega
    rw [hend]
    exact hfirst.append ih (by omega) (by omega)

/-! ## Counting lines -/

theorem FileDiff.addedLines_append (d e : FileDiff) :
    (d ++ e).addedLines = d.addedLines + e.addedLines := by
  rw [addedLines, additions_append, List.map_append]
  exact List.sum_append

theorem FileDiff.removedLines_append (d e : FileDiff) :
    (d ++ e).removedLines = d.removedLines + e.removedLines := by
  rw [removedLines, deletions_append, List.map_append]
  exact List.sum_append

theorem lines_recordOf (p : Int) (m : Mark) (n : Nat) :
    (recordOf p (List.replicate n m)).addedLines = (List.replicate n m).count .add ∧
      (recordOf p (List.replicate n m)).removedLines = (List.replicate n m).count .delete := by
  cases n with
  | zero => exact ⟨rfl, rfl⟩
  | succ n =>
    rw [List.count_replicate, List.count_replicate]
    cases m with
    | keep => exact ⟨rfl, rfl⟩
    | delete =>
      rw [List.replicate_succ, recordOf, ← List.replicate_succ, List.length_replicate]
      refine ⟨rfl, ?_⟩
      simp [FileDiff.removedLines, LineRange.length_lines]
    | add =>
      rw [List.replicate_succ, recordOf, ← List.replicate_succ, List.length_replicate]
      exact ⟨rfl, rfl⟩

/-- The records of runs have the lines that are marked so. -/
theorem lines_changeOfRuns {runs : List (List Mark)} (p : Int)
    (h : ∀ run ∈ runs, ∃ m n, run = List.replicate n m) :
    (changeOfRuns p runs).addedLines = runs.flatten.count .add ∧
      (changeOfRuns p runs).removedLines = runs.flatten.count .delete := by
  induction runs generalizing p with
  | nil => exact ⟨rfl, rfl⟩
  | cons run rest ih =>
    rw [List.forall_mem_cons] at h
    obtain ⟨⟨m, n, rfl⟩, hruns⟩ := h
    obtain ⟨hadded, hremoved⟩ := ih (p + oldCount (List.replicate n m)) hruns
    obtain ⟨hadded', hremoved'⟩ := lines_recordOf p m n
    rw [changeOfRuns, FileDiff.addedLines_append, FileDiff.removedLines_append, List.flatten_cons,
      List.count_append, List.count_append, hadded, hremoved, hadded', hremoved']
    exact ⟨rfl, rfl⟩

theorem HunkText.lines_change (h : HunkText) :
    h.change.addedLines = h.marks.count .add ∧ h.change.removedLines = h.marks.count .delete := by
  have hruns := lines_changeOfRuns h.linesBefore
    fun run (hrun : run ∈ h.marks.splitBy (· == ·)) => eq_replicate_of_mem_splitBy hrun
  rwa [List.flatten_splitBy] at hruns

/-- The lines that are put in, and those that are taken out, are lines of the diff. -/
theorem HunkText.lines_change_le (h : HunkText) :
    h.change.addedLines ≤ h.lines.length ∧ h.change.removedLines ≤ h.lines.length := by
  have hmarks : h.marks.length ≤ h.lines.length := by
    have hbody : ∀ body : List BodyLine,
        body.length ≤ (body.flatMap fun b => b.line :: b.markers).length := by
      intro body
      induction body with
      | nil => exact Nat.le_refl 0
      | cons b body ih =>
        rw [List.flatMap_cons, List.length_append, List.length_cons, List.length_cons]
        omega
    have hlines := hbody h.body
    rw [marks, List.length_map, lines, List.length_cons, List.length_append]
    omega
  obtain ⟨hadded, hremoved⟩ := h.lines_change
  rw [hadded, hremoved]
  exact ⟨List.count_le_length.trans hmarks, List.count_le_length.trans hmarks⟩

theorem lines_changeOfHunks_le (hs : List HunkText) :
    (changeOfHunks hs).addedLines ≤ (hs.flatMap HunkText.lines).length ∧
      (changeOfHunks hs).removedLines ≤ (hs.flatMap HunkText.lines).length := by
  induction hs with
  | nil => exact ⟨Nat.le_refl 0, Nat.le_refl 0⟩
  | cons h hs ih =>
    have hfirst := h.lines_change_le
    rw [changeOfHunks, FileDiff.addedLines_append, FileDiff.removedLines_append, List.flatMap_cons,
      List.length_append]
    exact ⟨Nat.add_le_add hfirst.1 ih.1, Nat.add_le_add hfirst.2 ih.2⟩

/-- The new version has the lines of the old one, less those taken out, and those put in. -/
theorem Turns.length_eq {p : Int} {hs : List HunkText} {old new : List Line}
    (h : Turns p hs old new) :
    new.length + (changeOfHunks hs).removedLines = old.length + (changeOfHunks hs).addedLines := by
  have hcount : ∀ ms : List Mark,
      newCount ms + ms.count .delete = oldCount ms + ms.count .add := by
    intro ms
    induction ms with
    | nil => rfl
    | cons m ms ih =>
      rw [newCount_cons, oldCount_cons, List.count_cons, List.count_cons]
      cases m with
      | keep => simp; omega
      | delete => simp; omega
      | add => simp; omega
  induction h with
  | rest same => rfl
  | @hunk p h hs old new same _ _ ih =>
    have hmarks := hcount h.marks
    obtain ⟨hadded, hremoved⟩ := h.lines_change
    rw [← h.length_oldLines, ← h.length_newLines, ← hadded, ← hremoved] at hmarks
    rw [changeOfHunks, FileDiff.addedLines_append, FileDiff.removedLines_append,
      List.length_append, List.length_append, List.length_append, List.length_append]
    omega

/-! ## The whole diff -/

/-- **A diff of two texts** is read as a change of the old one. The change has no more lines than
the diff, and it can be inverted and inverted back. -/
theorem IsDiff.exists_change {patch old new : String} (h : IsDiff patch old new)
    (hold : lineFits ((lines old.toList).length + 1) = true)
    (hnew : lineFits ((lines new.toList).length + 1) = true) :
    ∃ d, readPatch? patch.toList = some d ∧ d.WellPlaced (lines old.toList).length ∧
      d.inverseFits = true ∧ d.inverse.inverseFits = true ∧
      d.addedLines ≤ patch.toList.length ∧ d.removedLines ≤ patch.toList.length := by
  obtain ⟨p, hp, hspells, hturns⟩ := h
  have hread := hp.readPatch?_eq hspells
  have hlines := readPatch?_onLines hread
  have hplaced : p.change.WellPlaced (lines old.toList).length := by
    have hplaced := hturns.placed_change
    rwa [Int.zero_add] at hplaced
  have hinverse : p.change.inverse? = some p.change.inverse := by
    have hlength : (lines new.toList).length + p.change.removedLines =
        (lines old.toList).length + p.change.addedLines := hturns.length_eq
    have hcount : ((lines old.toList).length : Int) + p.change.addedLines - p.change.deletedLines =
        (lines new.toList).length := by
      rw [hlines.deletedLines_eq]
      omega
    have hnext := congrArg (fun n : Int => lineFits (n + 1)) hcount
    exact hlines.inverse?_eq_some hplaced hold (hnext.trans hnew)
  have hback := hlines.inverse?_inverse? hplaced.check_eq_ok hplaced.apart hinverse
  have hsize : (p.hunks.flatMap HunkText.lines).length ≤ patch.toList.length := by
    have hlength := length_lines_le patch.toList
    rw [hspells.lines_eq, PatchText.lines, List.length_append] at hlength
    omega
  obtain ⟨hadded, hremoved⟩ := lines_changeOfHunks_le p.hunks
  exact ⟨p.change, hread, hplaced, (FileDiff.inverse?_eq_some_iff.1 hinverse).1,
    (FileDiff.inverse?_eq_some_iff.1 hback).1, hadded.trans hsize, hremoved.trans hsize⟩

end EffortRank
