import EffortRank.Diff.Basic
import EffortRank.Proofs.Diff.Placement

/-!
# The records of a change in one list

`FileDiff.records` merges the two lists of a change. Nothing gets lost on the way: the change can be
read off its records (`FileDiff.ofRecords_records`).

A list of records tiles (`Tiles lo hi`) if each record starts where the one before it stopped taking
old lines, or later. The records of a placed change tile (`FileDiff.Placed.tiles_records`); and if a
list of records tiles, its change is placed and merges to just that list (`Tiles.placed`,
`Tiles.records_ofRecords`). So a placed change and its list of records are the same thing.
-/

namespace EffortRank

def FileDiff.ofRecords : List ChangeRecord → FileDiff
  | [] => .empty
  | .added a :: rest => ⟨a :: (ofRecords rest).additions, (ofRecords rest).deletions⟩
  | .deleted r :: rest => ⟨(ofRecords rest).additions, r :: (ofRecords rest).deletions⟩

/-! ## Merging -/

namespace FileDiff

theorem records_of_additions (as : List Addition) :
    records ⟨as, []⟩ = as.map ChangeRecord.added := by
  simp [records]

theorem records_of_deletions (rs : List LineRange) :
    records ⟨[], rs⟩ = rs.map ChangeRecord.deleted := by
  simp [records]

theorem records_cons_of_lt {a : Addition} {as : List Addition} {r : LineRange}
    {rs : List LineRange} (h : a.position < r.first) :
    records ⟨a :: as, r :: rs⟩ = .added a :: records ⟨as, r :: rs⟩ := by
  simp [records, ChangeRecord.goesBefore, h]

theorem records_cons_of_le {a : Addition} {as : List Addition} {r : LineRange}
    {rs : List LineRange} (h : r.first ≤ a.position) :
    records ⟨a :: as, r :: rs⟩ = .deleted r :: records ⟨a :: as, rs⟩ := by
  have hnot : ¬ a.position < r.first := by omega
  simp [records, ChangeRecord.goesBefore, hnot]

/-- **Merging loses nothing**: a change has the records of its two lists. -/
theorem ofRecords_records (d : FileDiff) : ofRecords d.records = d := by
  obtain ⟨as, rs⟩ := d
  induction as generalizing rs with
  | nil =>
    rw [records_of_deletions]
    induction rs with
    | nil => rfl
    | cons r rs ih => simp [ofRecords, ih]
  | cons a as iha =>
    induction rs with
    | nil =>
      have h := iha []
      rw [records_of_additions] at h ⊢
      simp [ofRecords, h]
    | cons r rs ihr =>
      by_cases hlt : a.position < r.first
      · rw [records_cons_of_lt hlt]
        simp [ofRecords, iha]
      · rw [records_cons_of_le (Int.not_lt.1 hlt)]
        simp [ofRecords, ihr]

end FileDiff

/-! ## Tilings -/

/-- The records follow each other from the old line `lo` to the old line `hi`. -/
inductive Tiles (hi : Int) : Int → List ChangeRecord → Prop where
  | done {lo : Int} : lo ≤ hi → Tiles hi lo []
  | added {lo : Int} {a : Addition} {rest : List ChangeRecord} :
      lo ≤ a.position → 1 ≤ a.length → Tiles hi a.position rest → Tiles hi lo (.added a :: rest)
  | deleted {lo : Int} {r : LineRange} {rest : List ChangeRecord} :
      lo < r.first → r.first ≤ r.last → Tiles hi r.last rest → Tiles hi lo (.deleted r :: rest)

namespace Tiles

variable {lo hi : Int} {L : List ChangeRecord}

theorem le (h : Tiles hi lo L) : lo ≤ hi := by
  induction h with
  | done h => exact h
  | added h _ _ ih => omega
  | deleted h₁ h₂ _ ih => omega

theorem placed (h : Tiles hi lo L) : (FileDiff.ofRecords L).Placed lo hi := by
  induction h with
  | done h => exact FileDiff.Placed.empty
  | @added lo a rest hlo hn hrest ih =>
    exact (FileDiff.Placed.addition hlo (Int.le_refl _) hn).append ih hlo hrest.le
  | @deleted lo r rest hlo hr hrest ih =>
    exact (FileDiff.Placed.deletion hlo hr (Int.le_refl _)).append ih (by omega) hrest.le

/-- A first addition stands before all deletions, so that it goes first. -/
theorem records_added {a : Addition} {as : List Addition} {rs : List LineRange}
    (h : FileDiff.Placed a.position hi ⟨as, rs⟩) :
    FileDiff.records ⟨a :: as, rs⟩ = .added a :: FileDiff.records ⟨as, rs⟩ := by
  cases rs with
  | nil => rw [FileDiff.records_of_additions, FileDiff.records_of_additions, List.map_cons]
  | cons r rs =>
    exact FileDiff.records_cons_of_lt (h.deletions_within r List.mem_cons_self).1

/-- No addition stands before the end of a first deletion, so that it goes first. -/
theorem records_deleted {r : LineRange} {as : List Addition} {rs : List LineRange}
    (hr : r.first ≤ r.last) (h : FileDiff.Placed r.last hi ⟨as, rs⟩) :
    FileDiff.records ⟨as, r :: rs⟩ = .deleted r :: FileDiff.records ⟨as, rs⟩ := by
  cases as with
  | nil => rw [FileDiff.records_of_deletions, FileDiff.records_of_deletions, List.map_cons]
  | cons a as =>
    have ha := h.additions_within a List.mem_cons_self
    exact FileDiff.records_cons_of_le (Int.le_trans hr ha.1)

/-- **Records that tile stay in their order** when their change is merged again. -/
theorem records_ofRecords (h : Tiles hi lo L) : (FileDiff.ofRecords L).records = L := by
  induction h with
  | done h => exact FileDiff.records_of_additions []
  | @added lo a rest hlo hn hrest ih =>
    rw [FileDiff.ofRecords, records_added hrest.placed, ih]
  | @deleted lo r rest hlo hr hrest ih =>
    rw [FileDiff.ofRecords, records_deleted hr hrest.placed, ih]

end Tiles

/-- **The records of a placed change tile.** -/
theorem FileDiff.Placed.tiles_records {lo hi : Int} {d : FileDiff} (h : d.Placed lo hi)
    (hle : lo ≤ hi) : Tiles hi lo d.records := by
  obtain ⟨as, rs⟩ := d
  induction as generalizing lo rs with
  | nil =>
    rw [records_of_deletions]
    induction rs generalizing lo with
    | nil => exact .done hle
    | cons r rs ih =>
      have hr := h.deletions_within r List.mem_cons_self
      exact .deleted hr.1 hr.2.1 (ih hr.2.2 (h.tail_deletion (by simp)))
  | cons a as iha =>
    have ha := h.additions_within a List.mem_cons_self
    have hn := h.additions_nonempty a List.mem_cons_self
    induction rs generalizing lo with
    | nil =>
      rw [Tiles.records_added (h.tail_addition (by simp))]
      exact .added ha.1 hn (iha ha.2 [] (h.tail_addition (by simp)))
    | cons r rs ihr =>
      have hr := h.deletions_within r List.mem_cons_self
      by_cases hlt : a.position < r.first
      · -- All deletions come behind the addition, since they come behind the first one.
        have hall : ∀ s ∈ r :: rs, a.position < s.first := by
          intro s hs
          rcases List.mem_cons.1 hs with rfl | hs
          · exact hlt
          · have := (List.pairwise_cons.1 h.deletions_sorted).1 s hs
            exact Int.lt_of_lt_of_le hlt this.1
        rw [records_cons_of_lt hlt]
        exact .added ha.1 hn (iha ha.2 (r :: rs) (h.tail_addition hall))
      · -- All additions come behind the start of the deletion, hence behind its end.
        have hall : ∀ b ∈ a :: as, r.first ≤ b.position := by
          intro b hb
          rcases List.mem_cons.1 hb with rfl | hb
          · exact Int.not_lt.1 hlt
          · have := (List.pairwise_cons.1 h.additions_sorted).1 b hb
            exact Int.le_trans (Int.not_lt.1 hlt) this
        have htail := h.tail_deletion hall
        rw [records_cons_of_le (Int.not_lt.1 hlt)]
        exact .deleted hr.1 hr.2.1
          (ihr hr.2.2 htail (htail.additions_within a List.mem_cons_self))

end EffortRank
