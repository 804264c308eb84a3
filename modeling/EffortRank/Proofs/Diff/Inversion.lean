import EffortRank.Proofs.Diff.Records

/-!
# Inverting record by record

The inverse of a change has one record for each record of the change, in the same order
(`FileDiff.Placed.records_inverse`): a block that was put in is taken out, and lines that were taken
out are put in. This is where the rule counts that an addition goes before a deletion only if it
stands before its first line. Line numbers of the new version run `shift` ahead of those of the old
one, and `shiftAfter` says by how much in the end.
-/

namespace EffortRank

/-- The records of the inverse, where new line numbers run `shift` ahead in front of them. -/
def inverseRecords (shift : Int) : List ChangeRecord → List ChangeRecord
  | [] => []
  | .added a :: rest =>
    .deleted ⟨shift + a.position + 1, shift + a.position + a.length⟩ ::
      inverseRecords (shift + a.length) rest
  | .deleted r :: rest =>
    .added ⟨shift + r.first - 1, r.last - r.first + 1⟩ ::
      inverseRecords (shift - (r.last - r.first + 1)) rest

/-- How far new line numbers run ahead behind some records. -/
def shiftAfter (shift : Int) : List ChangeRecord → Int
  | [] => shift
  | .added a :: rest => shiftAfter (shift + a.length) rest
  | .deleted r :: rest => shiftAfter (shift - (r.last - r.first + 1)) rest

theorem inverseFrom_eq (shift : Int) (L : List ChangeRecord) :
    inverseFrom shift L = FileDiff.ofRecords (inverseRecords shift L) := by
  induction L generalizing shift with
  | nil => rfl
  | cons record rest ih =>
    cases record with
    | added a => simp only [inverseFrom, inverseRecords, FileDiff.ofRecords, ih]
    | deleted r => simp only [inverseFrom, inverseRecords, FileDiff.ofRecords, ih]

theorem length_deletions_inverseRecords (shift : Int) (L : List ChangeRecord) :
    (FileDiff.ofRecords (inverseRecords shift L)).deletions.length =
      (FileDiff.ofRecords L).additions.length := by
  induction L generalizing shift with
  | nil => rfl
  | cons record rest ih =>
    cases record with
    | added a => simp only [inverseRecords, FileDiff.ofRecords, List.length_cons, ih]
    | deleted r => simp only [inverseRecords, FileDiff.ofRecords, ih]

/-- **The inverse tiles the new version**: the inverted records follow each other as the records
did, in the line numbers of the new version. -/
theorem Tiles.inverse {lo hi : Int} {L : List ChangeRecord} (h : Tiles hi lo L) (shift : Int) :
    Tiles (hi + shiftAfter shift L) (lo + shift) (inverseRecords shift L) := by
  induction h generalizing shift with
  | done h =>
    refine .done ?_
    simp only [shiftAfter]
    omega
  | @added lo a rest hlo hn _ ih =>
    rw [inverseRecords]
    refine .deleted (by dsimp only; omega) (by dsimp only; omega) ?_
    have hnext : a.position + (shift + a.length) = shift + a.position + a.length := by omega
    rw [← hnext]
    exact ih (shift + a.length)
  | @deleted lo r rest hlo hr _ ih =>
    rw [inverseRecords]
    refine .added (by dsimp only; omega) (by dsimp only; omega) ?_
    have hnext : r.last + (shift - (r.last - r.first + 1)) = shift + r.first - 1 := by omega
    rw [← hnext]
    exact ih (shift - (r.last - r.first + 1))

namespace FileDiff

variable {lo hi : Int} {d : FileDiff}

theorem inverse_eq (d : FileDiff) : d.inverse = ofRecords (inverseRecords 0 d.records) :=
  inverseFrom_eq 0 d.records

/-- Lines that are replaced are taken out first, and so are the lines that replace them. -/
theorem records_replacement {first last length : Int} (h : first ≤ last) :
    records ⟨[⟨last, length⟩], [⟨first, last⟩]⟩ =
      [.deleted ⟨first, last⟩, .added ⟨last, length⟩] := by
  rw [records_cons_of_le h, records_of_additions]
  rfl

theorem inverse_replacement {first last length : Int} (h : first ≤ last) :
    inverse ⟨[⟨last, length⟩], [⟨first, last⟩]⟩ =
      ⟨[⟨first - 1, last - first + 1⟩], [⟨first, first + length - 1⟩]⟩ := by
  rw [inverse, records_replacement h]
  simp only [inverseFrom, FileDiff.empty, FileDiff.mk.injEq, List.cons.injEq, Addition.mk.injEq,
    LineRange.mk.injEq, and_true]
  omega

/-- **Inverting keeps the order of the records**: merging the lists of the inverse gives the
inverted records in the order in which they were inverted. -/
theorem Placed.records_inverse (h : d.Placed lo hi) (hle : lo ≤ hi) :
    d.inverse.records = inverseRecords 0 d.records := by
  rw [inverse_eq]
  exact ((h.tiles_records hle).inverse 0).records_ofRecords

theorem Placed.inverse (h : d.Placed lo hi) (hle : lo ≤ hi) :
    d.inverse.Placed lo (hi + shiftAfter 0 d.records) := by
  have htiles := (h.tiles_records hle).inverse 0
  rw [inverse_eq]
  simpa using htiles.placed

end FileDiff

/-- The numbers on the way to the inverse fit if those of the lines of both versions do. -/
theorem Tiles.shiftsFit {lo hi shift : Int} {L : List ChangeRecord} (h : Tiles hi lo L)
    (hlo : 0 ≤ lo) (hshift : 0 ≤ lo + shift) (hhi : lineFits (hi + 1) = true)
    (hnew : lineFits (hi + shiftAfter shift L + 1) = true) : shiftsFit shift L = true := by
  induction h generalizing shift with
  | done h => rfl
  | @added lo a rest hpos hn hrest ih =>
    have hlast := hrest.le
    have hnext := (hrest.inverse (shift + a.length)).le
    simp only [shiftAfter] at hnew
    have hfits := ih (by omega) (by omega) hnew
    simp only [EffortRank.shiftsFit, hfits, List.all_cons, List.all_nil, lineFits,
      Bool.and_eq_true, decide_eq_true_eq, and_true] at hhi hnew ⊢
    omega
  | @deleted lo r rest hfirst hr hrest ih =>
    have hlast := hrest.le
    have hnext := (hrest.inverse (shift - (r.last - r.first + 1))).le
    simp only [shiftAfter] at hnew
    have hfits := ih (by omega) (by omega) hnew
    simp only [EffortRank.shiftsFit, hfits, List.all_cons, List.all_nil, lineFits,
      Bool.and_eq_true, decide_eq_true_eq, and_true] at hhi hnew ⊢
    omega

theorem lineFits_shiftAfter {shift : Int} {L : List ChangeRecord} (hshift : lineFits shift = true)
    (h : shiftsFit shift L = true) : lineFits (shiftAfter shift L) = true := by
  induction L generalizing shift with
  | nil => exact hshift
  | cons record rest ih =>
    cases record with
    | added a =>
      simp only [shiftsFit, List.all_cons, List.all_nil, Bool.and_eq_true] at h
      obtain ⟨⟨-, -, -, hnext, -⟩, hrest⟩ := h
      exact ih hnext hrest
    | deleted r =>
      simp only [shiftsFit, List.all_cons, List.all_nil, Bool.and_eq_true] at h
      obtain ⟨⟨-, -, -, -, hnext, -⟩, hrest⟩ := h
      exact ih hnext hrest

end EffortRank
