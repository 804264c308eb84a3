import EffortRank.Proofs.Churn.Shares

/-!
# Lines are conserved

Inverting a change takes each of its records once, in whatever order they come. For each block that
was put in it takes out a block of as many lines, and for each range that was taken out it puts in
as many lines (`FileDiff.inverse?_conserves_lines`). This asks for no order: it holds of changes
that no check accepts, and of records without lines, which may even shift what comes behind them
the other way.

The lengths of the ranges are counts of 64 bits, and a range may have more lines than that. It has
not if the line numbers on the way fit (`lines_le_of_shiftsFit`).
-/

namespace EffortRank

theorem LineRange.length_of_le {r : LineRange} (h : r.lines.length ≤ maxCount) :
    r.length = r.lines.length := by
  rw [r.length_lines] at h ⊢
  exact Nat.min_eq_left h

/-- The number of lines that a change takes out, also if it is no count. -/
def FileDiff.removedLines (d : FileDiff) : Nat := (d.deletions.map fun r => r.lines.length).sum

theorem FileDiff.removedLines_inverse (d : FileDiff) : d.inverse.removedLines = d.addedLines := by
  rw [removedLines, ← map_lines_of_forall₂ d.forall₂_inverse.1]
  rfl

theorem FileDiff.addedLines_inverse (d : FileDiff) : d.inverse.addedLines = d.removedLines := by
  rw [addedLines, map_lines_of_forall₂ d.forall₂_inverse.2]
  rfl

/-- How far new line numbers run ahead in the end: by the lines put in, less those taken out. -/
theorem shiftAfter_eq {L : List ChangeRecord}
    (hadditions : ∀ a ∈ (FileDiff.ofRecords L).additions, 1 ≤ a.length)
    (hdeletions : ∀ r ∈ (FileDiff.ofRecords L).deletions, r.first ≤ r.last) (shift : Int) :
    shiftAfter shift L =
      shift + (FileDiff.ofRecords L).addedLines - (FileDiff.ofRecords L).removedLines := by
  induction L generalizing shift with
  | nil => simp [shiftAfter, FileDiff.ofRecords, FileDiff.addedLines, FileDiff.removedLines, total]
  | cons record rest ih =>
    cases record with
    | added a =>
      rw [FileDiff.ofRecords, List.forall_mem_cons] at hadditions
      have hlines : (FileDiff.ofRecords (.added a :: rest)).addedLines =
          a.length.toNat + (FileDiff.ofRecords rest).addedLines := rfl
      have hremoved : (FileDiff.ofRecords (.added a :: rest)).removedLines =
          (FileDiff.ofRecords rest).removedLines := rfl
      rw [shiftAfter, ih hadditions.2 hdeletions, hlines, hremoved]
      omega
    | deleted r =>
      rw [FileDiff.ofRecords, List.forall_mem_cons] at hdeletions
      have hadded : (FileDiff.ofRecords (.deleted r :: rest)).addedLines =
          (FileDiff.ofRecords rest).addedLines := rfl
      have hlines : (FileDiff.ofRecords (.deleted r :: rest)).removedLines =
          r.lines.length + (FileDiff.ofRecords rest).removedLines := List.sum_cons
      rw [shiftAfter, ih hadditions hdeletions.2, hlines, hadded, r.length_lines]
      omega

/-- A change takes out no more lines than there are where it is placed. -/
theorem Tiles.removedLines_le {lo hi : Int} {L : List ChangeRecord} (h : Tiles hi lo L) :
    ((FileDiff.ofRecords L).removedLines : Int) ≤ hi - lo := by
  induction h with
  | done h =>
    have hnone : (FileDiff.ofRecords []).removedLines = 0 := rfl
    omega
  | @added lo a rest hlo hn hrest ih =>
    have hlines : (FileDiff.ofRecords (.added a :: rest)).removedLines =
        (FileDiff.ofRecords rest).removedLines := rfl
    omega
  | @deleted lo r rest hlo hr hrest ih =>
    have hlines : (FileDiff.ofRecords (.deleted r :: rest)).removedLines =
        r.lines.length + (FileDiff.ofRecords rest).removedLines := List.sum_cons
    have hlength := r.length_lines
    omega

/-- The shifts in front of a record and behind it have 64 bits, so that their distance is a
count. -/
theorem lines_le_of_shiftsFit {shift : Int} {L : List ChangeRecord}
    (hshift : lineFits shift = true) (h : shiftsFit shift L = true) :
    (∀ a ∈ (FileDiff.ofRecords L).additions, a.lines ≤ maxCount) ∧
      ∀ a ∈ (FileDiff.ofRecords (inverseRecords shift L)).additions, a.lines ≤ maxCount := by
  have hdistance : ∀ m n : Int, lineFits m = true → lineFits n = true →
      (m - n).toNat ≤ maxCount := by
    intro m n hm hn
    rw [lineFits, Bool.and_eq_true, decide_eq_true_eq, decide_eq_true_eq, maxLineNumber] at hm hn
    rw [maxCount]
    omega
  induction L generalizing shift with
  | nil => exact ⟨List.forall_mem_nil _, List.forall_mem_nil _⟩
  | cons record rest ih =>
    cases record with
    | added a =>
      simp only [shiftsFit, List.all_cons, List.all_nil, Bool.and_eq_true] at h
      obtain ⟨⟨-, -, -, hnext, -⟩, hrest⟩ := h
      obtain ⟨hadditions, hinverse⟩ := ih hnext hrest
      refine ⟨List.forall_mem_cons.2 ⟨?_, hadditions⟩, hinverse⟩
      have hlength : a.length = shift + a.length - shift := by omega
      rw [Addition.lines, hlength]
      exact hdistance _ _ hnext hshift
    | deleted r =>
      simp only [shiftsFit, List.all_cons, List.all_nil, Bool.and_eq_true] at h
      obtain ⟨⟨-, -, -, -, hnext, -⟩, hrest⟩ := h
      obtain ⟨hadditions, hinverse⟩ := ih hnext hrest
      refine ⟨hadditions, List.forall_mem_cons.2 ⟨?_, hinverse⟩⟩
      have hlength : r.last - r.first + 1 = shift - (shift - (r.last - r.first + 1)) := by omega
      rw [Addition.lines, hlength]
      exact hdistance _ _ hshift hnext

/-- Blocks of a length that is a count have just that length. -/
theorem forall₂_length_of_forall₂_lines {as : List Addition} {blocks : List LineRange}
    (h : List.Forall₂ (fun a block => block.lines.length = a.lines) as blocks)
    (hle : ∀ a ∈ as, a.lines ≤ maxCount) :
    List.Forall₂ (fun a block => block.length = a.lines) as blocks := by
  refine ((List.forall₂_and_left _ _).2 ⟨hle, h⟩).imp fun a block hblock => ?_
  obtain ⟨hle, hlines⟩ := hblock
  rw [← hlines] at hle ⊢
  exact LineRange.length_of_le hle

namespace FileDiff

theorem Placed.shiftAfter_records {lo hi : Int} {d : FileDiff} (h : d.Placed lo hi) :
    shiftAfter 0 d.records = d.addedLines - d.removedLines := by
  have hrecords := d.ofRecords_records
  have hshift := shiftAfter_eq (L := d.records) (by rw [hrecords]; exact h.additions_nonempty)
    (by rw [hrecords]; exact fun r hr => (h.deletions_within r hr).2.1) 0
  rw [hrecords] at hshift
  omega

theorem Placed.removedLines_le {lo hi : Int} {d : FileDiff} (h : d.Placed lo hi) (hle : lo ≤ hi) :
    (d.removedLines : Int) ≤ hi - lo := by
  have hlines := (h.tiles_records hle).removedLines_le
  rwa [d.ofRecords_records] at hlines

/-- Merging takes each record of the two lists once. -/
theorem records_perm (d : FileDiff) :
    d.records.Perm (d.additions.map .added ++ d.deletions.map .deleted) :=
  List.merge_perm_append _

/-- **Inverting conserves lines**, whatever the change is, if the numbers on the way fit: each of
its records is taken once, those of one kind in their order; the inverse takes out a block of as
many lines for each addition, and puts in a block of as many lines for each deletion. So it takes
out all the lines that the change puts in, and puts in all those that the change takes out. -/
theorem inverse?_conserves_lines {d : FileDiff} (hfits : d.inverseFits = true) :
    ∃ e, d.inverse? = some e ∧
      d.records.Perm (d.additions.map .added ++ d.deletions.map .deleted) ∧
      ofRecords d.records = d ∧
      List.Forall₂ (fun a block => block.length = a.lines) d.additions e.deletions ∧
      List.Forall₂ (fun a block => block.length = a.lines) e.additions d.deletions ∧
      e.deletedLines = d.addedLines ∧ e.addedLines = d.deletedLines := by
  have hle := lines_le_of_shiftsFit (by decide) hfits
  rw [← inverse_eq, ofRecords_records] at hle
  obtain ⟨hadditions, hdeletions⟩ := d.forall₂_inverse
  have hout := forall₂_length_of_forall₂_lines hadditions hle.1
  have hin := forall₂_length_of_forall₂_lines hdeletions hle.2
  refine ⟨d.inverse, fitting_eq_some_iff.2 ⟨hfits, rfl⟩, d.records_perm, d.ofRecords_records, hout,
    hin, ?_, ?_⟩
  · rw [deletedLines, ← map_lines_of_forall₂ hout, addedLines]
  · rw [addedLines, map_lines_of_forall₂ hin, deletedLines]

/-- Additions out of order, one of a negative length, and deletions of which one is empty and two
overlap. -/
theorem inverse?_conserves_lines_unordered :
    let d : FileDiff := ⟨[⟨9, 2⟩, ⟨3, -4⟩], [⟨5, 8⟩, ⟨7, 6⟩, ⟨2, 2⟩]⟩
    let e : FileDiff := ⟨[⟨4, 4⟩, ⟨2, 0⟩, ⟨-3, 1⟩], [⟨5, 6⟩, ⟨1, -4⟩]⟩
    d.inverseFits = true ∧ d.inverse? = some e ∧
      List.Forall₂ (fun a block => block.length = a.lines) d.additions e.deletions ∧
      List.Forall₂ (fun a block => block.length = a.lines) e.additions d.deletions ∧
      e.deletedLines = d.addedLines ∧ e.addedLines = d.deletedLines := by
  intro d e
  have hrecords : d.records =
      [.deleted ⟨5, 8⟩, .deleted ⟨7, 6⟩, .deleted ⟨2, 2⟩, .added ⟨9, 2⟩, .added ⟨3, -4⟩] := by
    simp [d, records, ChangeRecord.goesBefore]
  have hfits : d.inverseFits = true := by
    rw [inverseFits, hrecords]
    decide
  obtain ⟨inverse, hinverse, -, -, hlines⟩ := inverse?_conserves_lines hfits
  have he : d.inverse? = some e := by
    rw [inverse?, inverseFits, FileDiff.inverse, hrecords]
    decide
  obtain rfl : inverse = e := Option.some.inj (hinverse.symm.trans he)
  exact ⟨hfits, he, hlines⟩

end FileDiff

end EffortRank
