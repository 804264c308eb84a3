import EffortRank.Proofs.Diff.Inversion

/-!
# Inverting twice

Inverting the records of a change twice gives them back (`inverseRecords_inverseRecords`). The
inverse of a change is more than its inverted records, though: it forgets their order, and merges
them anew. If they are merged in another order, the shifts differ, and the second inverse is not the
change (`FileDiff.InOrder.eq_inverseRecords`). The order stays the same only if no addition stands
inside a deletion, in front of its last line.

So inverting twice gives a change in order back if and only if its records are apart
(`FileDiff.InOrder.inverse_inverse_eq_iff`).
-/

namespace EffortRank

/-- Inverting the inverted records, with the opposite shift, gives the records back. -/
theorem inverseRecords_inverseRecords (shift : Int) (L : List ChangeRecord) :
    inverseRecords (-shift) (inverseRecords shift L) = L := by
  induction L generalizing shift with
  | nil => rfl
  | cons record rest ih =>
    cases record with
    | added a =>
      have hlength : shift + a.position + a.length - (shift + a.position + 1) + 1 = a.length := by
        omega
      have hposition : -shift + (shift + a.position + 1) - 1 = a.position := by omega
      have hshift : -shift - a.length = -(shift + a.length) := by omega
      simp only [inverseRecords, hlength, hposition, hshift, ih]
    | deleted r =>
      have hfirst : -shift + (shift + r.first - 1) + 1 = r.first := by omega
      have hlast : -shift + (shift + r.first - 1) + (r.last - r.first + 1) = r.last := by omega
      have hshift : -shift + (r.last - r.first + 1) = -(shift - (r.last - r.first + 1)) := by omega
      simp only [inverseRecords, hfirst, hlast, hshift, ih]

namespace FileDiff

variable {lo hi shift : Int} {d e : FileDiff} {L M : List ChangeRecord}

theorem eq_of_lists (hadditions : d.additions = e.additions)
    (hdeletions : d.deletions = e.deletions) : d = e := by
  cases d
  cases e
  rw [mk.injEq]
  exact ⟨hadditions, hdeletions⟩

/-- The records are not empty, those of either kind ascend, and none goes beyond the old line
`hi`. Nothing is said on how the two kinds stand to each other. -/
structure InOrder (hi : Int) (d : FileDiff) : Prop where
  additions_sorted : d.additions.Pairwise Addition.Precedes
  additions_sound : ∀ a ∈ d.additions, 1 ≤ a.length ∧ a.position ≤ hi
  deletions_sorted : d.deletions.Pairwise LineRange.Precedes
  deletions_sound : ∀ r ∈ d.deletions, r.first ≤ r.last ∧ r.last ≤ hi

/-- No addition stands inside a deletion, in front of its last line. -/
def Apart (d : FileDiff) : Prop :=
  ∀ a ∈ d.additions, ∀ r ∈ d.deletions, ¬ (r.first ≤ a.position ∧ a.position < r.last)

instance (d : FileDiff) : Decidable d.Apart :=
  inferInstanceAs (Decidable (∀ a ∈ d.additions, ∀ r ∈ d.deletions, ¬ (_ ∧ _)))

namespace InOrder

theorem tail_added {a : Addition} (h : (ofRecords (.added a :: L)).InOrder hi) :
    (ofRecords L).InOrder hi where
  additions_sorted := (List.pairwise_cons.1 h.additions_sorted).2
  additions_sound := (List.forall_mem_cons.1 h.additions_sound).2
  deletions_sorted := h.deletions_sorted
  deletions_sound := h.deletions_sound

theorem tail_deleted {r : LineRange} (h : (ofRecords (.deleted r :: L)).InOrder hi) :
    (ofRecords L).InOrder hi where
  additions_sorted := h.additions_sorted
  additions_sound := h.additions_sound
  deletions_sorted := (List.pairwise_cons.1 h.deletions_sorted).2
  deletions_sound := (List.forall_mem_cons.1 h.deletions_sound).2

/-- A change in order whose records are apart is placed. -/
theorem placed (h : d.InOrder hi) (hapart : d.Apart)
    (hadditions : ∀ a ∈ d.additions, lo ≤ a.position)
    (hdeletions : ∀ r ∈ d.deletions, lo < r.first) : d.Placed lo hi where
  additions_sorted := h.additions_sorted
  additions_within a ha := ⟨hadditions a ha, (h.additions_sound a ha).2⟩
  additions_nonempty a ha := (h.additions_sound a ha).1
  deletions_sorted := h.deletions_sorted
  deletions_within r hr := ⟨hdeletions r hr, h.deletions_sound r hr⟩
  apart := hapart

/-! ## The order of the inverted records -/

/-- The first addition of the inverse undoes the first deletion. Blocks may be put in before. -/
theorem exists_additions_inverse (h : (ofRecords L).InOrder hi) {r : LineRange}
    {rs : List LineRange} (hr : (ofRecords L).deletions = r :: rs) (shift : Int) :
    ∃ ahead as, shift ≤ ahead ∧ (ofRecords (inverseRecords shift L)).additions =
      ⟨ahead + r.first - 1, r.last - r.first + 1⟩ :: as := by
  induction L generalizing shift with
  | nil => cases hr
  | cons record rest ih =>
    cases record with
    | added a =>
      have hlength := (h.additions_sound a List.mem_cons_self).1
      obtain ⟨ahead, as, hahead, has⟩ := ih h.tail_added hr (shift + a.length)
      exact ⟨ahead, as, by omega, has⟩
    | deleted s =>
      cases hr
      exact ⟨shift, _, Int.le_refl _, rfl⟩

/-- The first deletion of the inverse undoes the first addition. Lines may be taken out before. -/
theorem exists_deletions_inverse (h : (ofRecords L).InOrder hi) {a : Addition} {as : List Addition}
    (ha : (ofRecords L).additions = a :: as) (shift : Int) :
    ∃ ahead rs, ahead ≤ shift ∧ (ofRecords (inverseRecords shift L)).deletions =
      ⟨ahead + a.position + 1, ahead + a.position + a.length⟩ :: rs := by
  induction L generalizing shift with
  | nil => cases ha
  | cons record rest ih =>
    cases record with
    | added b =>
      cases ha
      exact ⟨shift, _, Int.le_refl _, rfl⟩
    | deleted r =>
      have hr := (h.deletions_sound r List.mem_cons_self).1
      obtain ⟨ahead, rs, hahead, hrs⟩ :=
        ih h.tail_deleted ha (shift - (r.last - r.first + 1))
      exact ⟨ahead, rs, by omega, hrs⟩

/-- **Another order, another change**: if records have the two lists of the inverse, and inverting
them gives the two lists of the change, they stand in the order of the inverted records. Where the
order differs first, one shift is ahead of the other. -/
theorem eq_inverseRecords (h : (ofRecords L).InOrder hi)
    (hM : ofRecords M = ofRecords (inverseRecords shift L))
    (htwice : ofRecords (inverseRecords (-shift) M) = ofRecords L) :
    M = inverseRecords shift L := by
  induction L generalizing M shift with
  | nil =>
    cases M with
    | nil => rfl
    | cons record M => cases record <;> simp [inverseRecords, ofRecords, FileDiff.empty] at hM
  | cons record rest ih =>
    cases record with
    | added a =>
      have hlength := (h.additions_sound a List.mem_cons_self).1
      cases M with
      | nil => simp [inverseRecords, ofRecords, FileDiff.empty] at hM
      | cons other M =>
        cases other with
        | deleted s =>
          simp only [inverseRecords, ofRecords, FileDiff.mk.injEq, List.cons.injEq] at hM htwice
          obtain ⟨hadditions, rfl, hdeletions⟩ := hM
          have hremoved :
              -shift - (shift + a.position + a.length - (shift + a.position + 1) + 1) =
                -(shift + a.length) := by
            omega
          rw [hremoved] at htwice
          have hrest := ih h.tail_added (eq_of_lists hadditions hdeletions)
            (eq_of_lists htwice.1.2 htwice.2)
          rw [inverseRecords, hrest]
        | added b =>
          -- The first deletion was taken out too early: the blocks before it are not yet there.
          simp only [inverseRecords, ofRecords, FileDiff.mk.injEq] at hM htwice
          obtain ⟨ahead, as, hahead, hfirst⟩ :=
            exists_additions_inverse h.tail_added htwice.2.symm (shift + a.length)
          rw [hfirst, List.cons.injEq] at hM
          have hb : b.position = ahead + (-shift + b.position + 1) - 1 := congrArg _ hM.1.1
          omega
    | deleted r =>
      have hr := (h.deletions_sound r List.mem_cons_self).1
      cases M with
      | nil => simp [inverseRecords, ofRecords, FileDiff.empty] at hM
      | cons other M =>
        cases other with
        | added b =>
          simp only [inverseRecords, ofRecords, FileDiff.mk.injEq, List.cons.injEq] at hM htwice
          obtain ⟨⟨rfl, hadditions⟩, hdeletions⟩ := hM
          have hinserted : -shift + (r.last - r.first + 1) = -(shift - (r.last - r.first + 1)) := by
            omega
          rw [hinserted] at htwice
          have hrest := ih h.tail_deleted (eq_of_lists hadditions hdeletions)
            (eq_of_lists htwice.1 htwice.2.2)
          rw [inverseRecords, hrest]
        | deleted s =>
          -- The first block was taken out too early: the lines before it are still there.
          simp only [inverseRecords, ofRecords, FileDiff.mk.injEq] at hM htwice
          obtain ⟨ahead, rs, hahead, hfirst⟩ :=
            exists_deletions_inverse h.tail_deleted htwice.1.symm
              (shift - (r.last - r.first + 1))
          rw [hfirst, List.cons.injEq] at hM
          have hs : s.first = ahead + (-shift + s.first - 1) + 1 := congrArg _ hM.2.1
          omega

end InOrder

/-! ## Records in the order of a merge -/

theorem records_tail {record : ChangeRecord}
    (h : (ofRecords (record :: L)).records = record :: L) : (ofRecords L).records = L := by
  cases record with
  | added a =>
    rw [ofRecords] at h
    cases hdeletions : (ofRecords L).deletions with
    | nil =>
      rw [hdeletions, records_of_additions, List.map_cons, List.cons.injEq,
        ← records_of_additions, ← hdeletions] at h
      exact h.2
    | cons r rs =>
      rw [hdeletions] at h
      by_cases hlt : a.position < r.first
      · rw [records_cons_of_lt hlt, List.cons.injEq, ← hdeletions] at h
        exact h.2
      · rw [records_cons_of_le (Int.not_lt.1 hlt)] at h
        cases h
  | deleted r =>
    rw [ofRecords] at h
    cases hadditions : (ofRecords L).additions with
    | nil =>
      rw [hadditions, records_of_deletions, List.map_cons, List.cons.injEq,
        ← records_of_deletions, ← hadditions] at h
      exact h.2
    | cons a as =>
      rw [hadditions] at h
      by_cases hlt : a.position < r.first
      · rw [records_cons_of_lt hlt] at h
        cases h
      · rw [records_cons_of_le (Int.not_lt.1 hlt), List.cons.injEq, ← hadditions] at h
        exact h.2

theorem lt_of_records {a : Addition} {r : LineRange}
    (h : (ofRecords (.added a :: .deleted r :: L)).records = .added a :: .deleted r :: L) :
    a.position < r.first := by
  by_contra hle
  simp only [ofRecords] at h
  rw [records_cons_of_le (Int.not_lt.1 hle)] at h
  cases h

/-- The records start behind the old line `lo`. -/
def StartsBehind (lo : Int) : List ChangeRecord → Prop
  | [] => True
  | .added a :: _ => lo ≤ a.position
  | .deleted r :: _ => lo < r.first

/-- Records tile if their order is that of a merge, and so is the order of the inverted records:
then a block that comes behind a deletion comes behind its last line. -/
theorem InOrder.tiles (h : (ofRecords L).InOrder hi) (hrecords : (ofRecords L).records = L)
    (hinverse : (ofRecords (inverseRecords shift L)).records = inverseRecords shift L)
    (hstart : StartsBehind lo L) (hle : lo ≤ hi) : Tiles hi lo L := by
  induction L generalizing lo shift with
  | nil => exact .done hle
  | cons record rest ih =>
    cases record with
    | added a =>
      obtain ⟨hlength, hposition⟩ := h.additions_sound a List.mem_cons_self
      rw [inverseRecords] at hinverse
      have hrest : StartsBehind a.position rest := by
        cases rest with
        | nil => trivial
        | cons next rest =>
          cases next with
          | added b => exact (List.pairwise_cons.1 h.additions_sorted).1 b List.mem_cons_self
          | deleted r => exact lt_of_records hrecords
      exact .added hstart hlength
        (ih h.tail_added (records_tail hrecords) (records_tail hinverse) hrest hposition)
    | deleted r =>
      obtain ⟨hr, hlast⟩ := h.deletions_sound r List.mem_cons_self
      rw [inverseRecords] at hinverse
      have hrest : StartsBehind r.last rest := by
        cases rest with
        | nil => trivial
        | cons next rest =>
          cases next with
          | added b =>
            have hbehind := lt_of_records hinverse
            dsimp only at hbehind
            show r.last ≤ b.position
            omega
          | deleted s => exact ((List.pairwise_cons.1 h.deletions_sorted).1 s List.mem_cons_self).2
      exact .deleted hstart hr
        (ih h.tail_deleted (records_tail hrecords) (records_tail hinverse) hrest hlast)

theorem startsBehind (hadditions : ∀ a ∈ (ofRecords L).additions, lo ≤ a.position)
    (hdeletions : ∀ r ∈ (ofRecords L).deletions, lo < r.first) : StartsBehind lo L := by
  cases L with
  | nil => trivial
  | cons record rest =>
    cases record with
    | added a => exact hadditions a List.mem_cons_self
    | deleted r => exact hdeletions r List.mem_cons_self

/-! ## Changes -/

theorem Placed.inverse_inverse (h : d.Placed lo hi) (hle : lo ≤ hi) : d.inverse.inverse = d := by
  have htwice := inverseRecords_inverseRecords 0 d.records
  rw [Int.neg_zero] at htwice
  rw [inverse_eq d.inverse, h.records_inverse hle, htwice, ofRecords_records]

/-- **Inverting twice gives a change in order back if and only if its records are apart.** -/
theorem InOrder.inverse_inverse_eq_iff (h : d.InOrder hi)
    (hadditions : ∀ a ∈ d.additions, lo ≤ a.position)
    (hdeletions : ∀ r ∈ d.deletions, lo < r.first) (hle : lo ≤ hi) :
    d.inverse.inverse = d ↔ d.Apart := by
  constructor
  · intro htwice
    have hrecords := ofRecords_records d
    have horder : (ofRecords d.records).InOrder hi := by rwa [hrecords]
    have hsame : d.inverse.records = inverseRecords 0 d.records := by
      refine horder.eq_inverseRecords ?_ ?_
      · rw [ofRecords_records, inverse_eq]
      · rw [Int.neg_zero, ← inverse_eq, htwice, hrecords]
    have hinverse : (ofRecords (inverseRecords 0 d.records)).records =
        inverseRecords 0 d.records := by
      rw [← inverse_eq, hsame]
    have hstart : StartsBehind lo d.records :=
      startsBehind (by rwa [hrecords]) (by rwa [hrecords])
    have hplaced := (horder.tiles (by rw [hrecords]) hinverse hstart hle).placed
    rw [hrecords] at hplaced
    exact hplaced.apart
  · intro hapart
    exact (h.placed hapart hadditions hdeletions).inverse_inverse hle

end FileDiff

/-- The numbers on the way to the second inverse fit if those on the way to the first one do. -/
theorem shiftsFit_inverseRecords {lo hi shift : Int} {L : List ChangeRecord} (h : Tiles hi lo L)
    (hlo : 0 ≤ lo) (hshift : 0 ≤ lo + shift) (hhi : hi < maxLineNumber)
    (hfits : shiftsFit shift L = true) :
    shiftsFit (-shift) (inverseRecords shift L) = true := by
  induction h generalizing shift with
  | done h => rfl
  | @added lo a rest hpos hn hrest ih =>
    have hlast := hrest.le
    simp only [shiftsFit, List.all_cons, List.all_nil, lineFits, Bool.and_eq_true,
      decide_eq_true_eq, and_true] at hfits
    have hshift' : -shift - (shift + a.position + a.length - (shift + a.position + 1) + 1) =
        -(shift + a.length) := by
      omega
    have hnext := ih (by omega) (by omega) hfits.2
    simp only [inverseRecords, shiftsFit, hshift', hnext, List.all_cons, List.all_nil, lineFits,
      Bool.and_eq_true, decide_eq_true_eq, and_true]
    omega
  | @deleted lo r rest hfirst hr hrest ih =>
    have hlast := hrest.le
    simp only [shiftsFit, List.all_cons, List.all_nil, lineFits, Bool.and_eq_true,
      decide_eq_true_eq, and_true] at hfits
    have hshift' : -shift + (r.last - r.first + 1) = -(shift - (r.last - r.first + 1)) := by omega
    have hnext := ih (by omega) (by omega) hfits.2
    simp only [inverseRecords, shiftsFit, hshift', hnext, List.all_cons, List.all_nil, lineFits,
      Bool.and_eq_true, decide_eq_true_eq, and_true]
    omega

end EffortRank
