import EffortRank.Proofs.Diff.Conservation
import EffortRank.Proofs.Diff.Involution
import EffortRank.Proofs.Patch.Numbering

/-!
# Inverting what a text describes

The check of a change looks at its additions and at its deletions, but not at how they stand to each
other. The hunks of a text may overlap, so that its change may pass the check and still put lines in
between two lines that it takes out together. Such a change has no inverse: what is computed for it
may be out of order, name lines in front of the first one, and does not give the change back when it
is inverted again (`inverse?_of_overlapping_hunks`). For all other changes that pass the check the
inverse is in order, names lines of a file, and is undone by inverting it again
(`readPatch?_inverse?_iff`).
-/

namespace EffortRank

namespace FileDiff

variable {d e : FileDiff}

theorem OnLines.inOrder (h : d.OnLines) (hcheck : d.check = .ok ()) :
    d.InOrder (maxLineNumber - 1) where
  additions_sorted := (check_eq_ok_iff.1 hcheck).1
  additions_sound a ha := by
    have hposition := h.additions a ha
    omega
  deletions_sorted := (check_eq_ok_iff.1 hcheck).2
  deletions_sound r hr := by
    have hlines := h.deletions r hr
    omega

theorem OnLines.placed (h : d.OnLines) (hcheck : d.check = .ok ()) (hapart : d.Apart) :
    d.Placed 0 (maxLineNumber - 1) :=
  (h.inOrder hcheck).placed hapart (fun a ha => (h.additions a ha).1) fun r hr => by
    have hlines := h.deletions r hr
    omega

theorem inverse?_eq_some_iff : d.inverse? = some e ↔ d.inverseFits = true ∧ d.inverse = e := by
  rw [inverse?, fitting_eq_some_iff]

/-- Ranges of numbered lines can be counted. -/
theorem OnLines.deletedLines_eq (h : d.OnLines) : d.deletedLines = d.removedLines := by
  refine congrArg List.sum (List.map_congr_left fun r hr => ?_)
  have hr := h.deletions r hr
  rw [maxLineNumber] at hr
  refine LineRange.length_of_le ?_
  rw [r.length_lines, maxCount]
  omega

/-- The inverse has a result if the lines of both versions can be numbered. -/
theorem OnLines.inverse?_eq_some (h : d.OnLines) {lineCount : Nat}
    (hplaced : d.WellPlaced lineCount) (hold : lineFits (lineCount + 1) = true)
    (hnew : lineFits (lineCount + d.addedLines - d.deletedLines + 1) = true) :
    d.inverse? = some d.inverse := by
  have hafter : shiftAfter 0 d.records = d.addedLines - d.deletedLines := by
    rw [h.deletedLines_eq, hplaced.shiftAfter_records]
  have htiles := Placed.tiles_records hplaced (Int.natCast_nonneg lineCount)
  have hfits : shiftsFit 0 d.records = true := by
    refine htiles.shiftsFit (Int.le_refl 0) (Int.le_refl 0) hold ?_
    rwa [hafter, ← Int.add_sub_assoc]
  exact inverse?_eq_some_iff.2 ⟨hfits, rfl⟩

/-- An inverse that has a result is undone by inverting it again, and this has a result as well. -/
theorem OnLines.inverse?_inverse? (h : d.OnLines) (hcheck : d.check = .ok ()) (hapart : d.Apart)
    (he : d.inverse? = some e) : e.inverse? = some d := by
  obtain ⟨hfits, rfl⟩ := inverse?_eq_some_iff.1 he
  have hplaced := h.placed hcheck hapart
  have hle : (0 : Int) ≤ maxLineNumber - 1 := by decide
  have htwice : shiftsFit (-0) (inverseRecords 0 d.records) = true :=
    shiftsFit_inverseRecords (hplaced.tiles_records hle) (Int.le_refl 0) (Int.le_refl 0)
      (by omega) hfits
  refine inverse?_eq_some_iff.2 ⟨?_, hplaced.inverse_inverse hle⟩
  rwa [inverseFits, hplaced.records_inverse hle]

end FileDiff

open FileDiff

variable {text : List Char} {d : FileDiff}

/-- **What a text describes can be inverted and inverted back if and only if it puts no lines in
between lines that it takes out together.** Let the change of a text pass the check. If it has an
inverse, then the inverse passes the check, takes out lines from the first one on and is undone by
inverting it again, all this just if the additions and deletions of the change are apart. If they
are, the change of a file has an inverse as long as the lines of both versions can be numbered. -/
theorem readPatch?_inverse?_iff (h : readPatch? text = some d) (hcheck : d.check = .ok ()) :
    (∀ e, d.inverse? = some e →
      (e.check = .ok () ∧ (∀ r ∈ e.deletions, 1 ≤ r.first) ∧ e.inverse? = some d ↔ d.Apart)) ∧
    (d.Apart → ∀ lineCount : Nat, (∀ a ∈ d.additions, a.position ≤ lineCount) →
      (∀ r ∈ d.deletions, r.last ≤ lineCount) → lineFits (lineCount + 1) = true →
      lineFits (lineCount + d.addedLines - d.deletedLines + 1) = true →
      d.inverse? = some d.inverse) := by
  have hlines := readPatch?_onLines h
  have hle : (0 : Int) ≤ maxLineNumber - 1 := by decide
  constructor
  · intro e he
    constructor
    · rintro ⟨-, -, hback⟩
      obtain ⟨-, rfl⟩ := inverse?_eq_some_iff.1 he
      obtain ⟨-, htwice⟩ := inverse?_eq_some_iff.1 hback
      refine ((hlines.inOrder hcheck).inverse_inverse_eq_iff
        (fun a ha => (hlines.additions a ha).1) (fun r hr => ?_) hle).1 htwice
      have hr := hlines.deletions r hr
      omega
    · intro hapart
      have hback := hlines.inverse?_inverse? hcheck hapart he
      obtain ⟨-, rfl⟩ := inverse?_eq_some_iff.1 he
      have hinverse := (hlines.placed hcheck hapart).inverse hle
      refine ⟨hinverse.check_eq_ok, fun r hr => ?_, hback⟩
      have hfirst := (hinverse.deletions_within r hr).1
      omega
  · intro hapart lineCount hadditions hdeletions hold hnew
    have hplaced := hlines.placed hcheck hapart
    refine hlines.inverse?_eq_some ⟨hplaced.additions_sorted, fun a ha => ?_,
      hplaced.additions_nonempty, hplaced.deletions_sorted, fun r hr => ?_, hapart⟩ hold hnew
    · exact ⟨(hlines.additions a ha).1, hadditions a ha⟩
    · obtain ⟨hfirst, hr', -⟩ := hlines.deletions r hr
      exact ⟨by omega, hr', hdeletions r hr⟩

/-- Three hunks at one place: a line is put in right in front of two deleted lines, and another one
right behind them. -/
theorem readPatch?_inverse?_iff_touching :
    let text := "@@ -3,0 +4 @@\n+x\n@@ -4,2 +5,0 @@\n-a\n-b\n@@ -5,0 +5 @@\n+y\n".toList
    let d : FileDiff := ⟨[⟨3, 1⟩, ⟨5, 1⟩], [⟨4, 5⟩]⟩
    let e : FileDiff := ⟨[⟨4, 2⟩], [⟨4, 4⟩, ⟨5, 5⟩]⟩
    readPatch? text = some d ∧ d.check = .ok () ∧ d.Apart ∧ d.inverse? = some e ∧
      e.check = .ok () ∧ e.inverse? = some d := by
  intro text d e
  have hread : readPatch? text = some d := by decide +kernel
  have hapart : d.Apart := by decide
  have hinverse : d.inverse = e := by
    simp [FileDiff.inverse, FileDiff.records, ChangeRecord.goesBefore, inverseFrom, FileDiff.empty,
      d, e]
  obtain ⟨hiff, hsome⟩ := readPatch?_inverse?_iff hread rfl
  have he : d.inverse? = some e :=
    (hsome hapart 5 (by decide) (by decide) (by decide) (by decide)).trans (congrArg some hinverse)
  obtain ⟨hcheck, -, hback⟩ := (hiff e he).2 hapart
  exact ⟨hread, rfl, hapart, he, hcheck, hback⟩

/-- **Overlapping hunks pass the check, but cannot be inverted.** In the first text a line is put in
between lines that are taken out together: inverting twice moves both records. In the second one
another line is put in before: the inverse is out of order, and takes out line `0`. -/
theorem inverse?_of_overlapping_hunks :
    (let text := "@@ -5,6 +4,0 @@\n-a\n-b\n-c\n-d\n-e\n-f\n@@ -7,0 +2 @@\n+x\n".toList
      let d : FileDiff := ⟨[⟨7, 1⟩], [⟨5, 10⟩]⟩
      let e : FileDiff := ⟨[⟨4, 6⟩], [⟨2, 2⟩]⟩
      readPatch? text = some d ∧ d.check = .ok () ∧ d.inverse? = some e ∧
        e.inverse? = some ⟨[⟨1, 1⟩], [⟨4, 9⟩]⟩) ∧
    (let text := "@@ -0,0 +1 @@\n+a\n@@ -1,3 +2,0 @@\n-b\n-c\n-d\n@@ -1,0 +2 @@\n+e\n".toList
      let d : FileDiff := ⟨[⟨0, 1⟩, ⟨1, 1⟩], [⟨1, 3⟩]⟩
      let e : FileDiff := ⟨[⟨1, 3⟩], [⟨1, 1⟩, ⟨0, 0⟩]⟩
      readPatch? text = some d ∧ d.check = .ok () ∧ d.inverse? = some e ∧
        e.check = .error (.unsorted .deletion 1 0 1) ∧ ∃ r ∈ e.deletions, r.first < 1) := by
  have hinverse? : ∀ {d : FileDiff} (records : List ChangeRecord), d.records = records →
      d.inverse? = fitting (shiftsFit 0 records) (inverseFrom 0 records) := by
    rintro d records rfl
    rfl
  refine ⟨⟨by decide +kernel, rfl, ?_, ?_⟩, by decide +kernel, rfl, ?_, rfl, by decide⟩
  · rw [hinverse? [.deleted ⟨5, 10⟩, .added ⟨7, 1⟩] (by
      simp [FileDiff.records, ChangeRecord.goesBefore])]
    rfl
  · rw [hinverse? [.deleted ⟨2, 2⟩, .added ⟨4, 6⟩] (by
      simp [FileDiff.records, ChangeRecord.goesBefore])]
    rfl
  · rw [hinverse? [.added ⟨0, 1⟩, .deleted ⟨1, 3⟩, .added ⟨1, 1⟩] (by
      simp [FileDiff.records, ChangeRecord.goesBefore])]
    rfl

end EffortRank
