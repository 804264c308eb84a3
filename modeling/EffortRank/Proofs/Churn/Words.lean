import EffortRank.Proofs.Churn.Shares
import EffortRank.Proofs.Churn.Units

/-!
# How functions share the words of a change

The parts of deletions that functions in order hold are ranges in order of the old text, so that one
pass counts no old word twice (`sum_removedUnits_changedStats_le`). At most one function takes in a
given addition, so that it counts no word of the blocks that the additions became twice either
(`sum_addedUnits_changedStats_le`).
-/

namespace EffortRank

open Text

/-! ## Added words -/

section

variable {functions : List FunctionRange} {d : FileDiff}

/-- The words of an addition are those of the block that it became. -/
theorem map_added (sources : SourceTexts) (d : FileDiff) :
    (d.additions.zipIdx.map fun e => (e.1, (UnitMeter.of sources d).added e.2)) =
      d.additions.zip (d.inverse.deletions.map (unitCount (lines sources.new.toList))) := by
  have hlength : d.additions.length = d.inverse.deletions.length :=
    d.forall₂_inverse.1.length_eq
  refine List.ext_getElem (by simp [hlength]) fun i hi hi' => ?_
  have hblock : i < d.inverse.deletions.length := by simpa [hlength] using hi'
  simp [UnitMeter.added, UnitMeter.of, hblock]

/-- What an addition without lines became has no words. -/
theorem words_eq_zero_of_mem_zip (text : List Line) {d : FileDiff} {e : Addition × Nat}
    (he : e ∈ d.additions.zip (d.inverse.deletions.map (unitCount text)))
    (hlength : ¬ 0 < e.1.length) : e.2 = 0 := by
  rw [List.zip_map_right, List.mem_map] at he
  obtain ⟨⟨a, block⟩, hmem, rfl⟩ := he
  have hlines : block.lines.length = a.lines := (List.forall₂_iff_zip.1 d.forall₂_inverse.1).2 hmem
  have hnone : block.lines = [] := by
    change ¬ 0 < a.length at hlength
    rw [← List.length_eq_zero_iff, hlines, Addition.lines]
    omega
  show unitCount text block = 0
  rw [unitCount_eq, hnone]
  rfl

/-- The new words of a change in a range are those of the blocks behind lines of the range, except
for its last line. -/
theorem sum_addedUnits_piecesIn (sources : SourceTexts) (d : FileDiff) (range : LineRange) :
    ((d.piecesIn range).map fun piece =>
        (piece.stats (some (.of sources d))).addedUnits.getD 0).sum =
      ((d.additions.zip (d.inverse.deletions.map (unitCount (lines sources.new.toList)))).map
        fun e => if range.TakesIn e.1 then e.2 else 0).sum := by
  have hheld : ∀ t, ((Contribution.deleted t).stats (some (.of sources d))).addedUnits.getD 0 = 0 :=
    fun _ => rfl
  have hlines : ((d.additions.zip (d.inverse.deletions.map
        (unitCount (lines sources.new.toList)))).map fun e =>
          if range.TakesIn e.1 then e.2 else 0) =
      (d.additions.zip (d.inverse.deletions.map (unitCount (lines sources.new.toList)))).map
        fun e => if range.TakesIn e.1 ∧ 0 < e.1.length then e.2 else 0 := by
    refine List.map_congr_left fun e he => ?_
    by_cases hlength : 0 < e.1.length
    · simp only [hlength, and_true]
    · rw [words_eq_zero_of_mem_zip _ he hlength, ite_self, ite_self]
  rw [sum_piecesIn, hlines, ← map_added]
  simp only [hheld, List.map_const', List.sum_replicate, smul_zero, Nat.add_zero, List.map_map,
    Function.comp_def, LineRange.TakesIn, and_assoc]
  rfl

theorem sum_removedUnits_piecesIn (m : UnitMeter) (d : FileDiff) (range : LineRange) :
    ((d.piecesIn range).map fun piece => (piece.stats (some m)).removedUnits.getD 0).sum =
      ((d.deletions.filterMap range.intersection?).map (unitCount m.oldLines)).sum := by
  have htaken : ∀ e : Addition × Nat,
      ((Contribution.added e.2 e.1.lines).stats (some m)).removedUnits.getD 0 = 0 := fun _ => rfl
  rw [sum_piecesIn]
  simp only [htaken, ite_self, List.map_const', List.sum_replicate, smul_zero, Nat.zero_add]
  rfl

theorem addMeasured_getD (m n : Option Nat) : (addMeasured m n).getD 0 = m.getD 0 + n.getD 0 := by
  cases m <;> cases n <;> simp [addMeasured]

/-- **One pass counts no new word twice**, block by block. -/
theorem sum_addedUnits_changedStats_le (p : String → Prop) [DecidablePred p]
    (hf : checkFunctions functions = .ok ()) (d : FileDiff) (sources : SourceTexts) :
    ((changedStats functions d (some sources)).sumOf fun name s =>
        if p name then s.addedUnits.getD 0 else 0) ≤
      (d.inverse.deletions.map (unitCount (lines sources.new.toList))).sum := by
  let words := d.inverse.deletions.map (unitCount (lines sources.new.toList))
  let takers := functions.filter fun f => p f.name
  have hsorted := checkFunctions_eq_ok_iff.1 (checkFunctions_filter hf fun f => p f.name)
  have hlength : words.length ≤ d.additions.length := by
    rw [List.length_map]
    exact d.forall₂_inverse.1.length_eq.ge
  calc ((changedStats functions d (some sources)).sumOf fun name s =>
        if p name then s.addedUnits.getD 0 else 0)
      ≤ (takers.map fun f => ((d.piecesIn f.range).map fun piece =>
          (piece.stats (some (.of sources d))).addedUnits.getD 0).sum).sum :=
        sumOf_changedStats_le rfl (fun s t => addMeasured_getD _ _) p functions d (some sources)
    _ = (takers.map fun f => ((d.additions.zip words).map fun e =>
          if f.range.TakesIn e.1 then e.2 else 0).sum).sum := by
        simp only [sum_addedUnits_piecesIn]
        rfl
    _ = ((d.additions.zip words).map fun e =>
          if ∃ f ∈ takers, f.range.TakesIn e.1 then e.2 else 0).sum :=
        sum_exists_of_disjoint ((List.pairwise_map.1 (disjoint_takesIn hsorted)).imp
          fun h (e : Addition × Nat) => h e.1) Prod.snd (d.additions.zip words)
    _ ≤ ((d.additions.zip words).map (·.2)).sum :=
        List.sum_le_sum fun e _ => by split <;> omega
    _ = words.sum := by rw [List.map_snd_zip hlength]

/-! ## Removed words -/

/-- What the functions hold of the deletions, function by function. -/
def heldRanges (functions : List FunctionRange) (ds : List LineRange) : List LineRange :=
  functions.flatMap fun f => ds.filterMap f.range.intersection?

theorem within_of_intersection? {r s t : LineRange} (h : r.intersection? s = some t) :
    t.first ≤ t.last ∧ (r.first ≤ t.first ∧ t.last ≤ r.last) ∧
      s.first ≤ t.first ∧ t.last ≤ s.last := by
  rw [LineRange.intersection?] at h
  split at h
  · cases h
  · rename_i hempty
    cases h
    rw [LineRange.isEmpty, decide_eq_true_eq] at hempty
    dsimp only at hempty ⊢
    omega

/-- The parts of deletions in order that functions in order hold are in order. -/
theorem pairwise_heldRanges {ds : List LineRange}
    (hf : (functions.map FunctionRange.range).Pairwise LineRange.Precedes)
    (hds : ds.Pairwise LineRange.Precedes) :
    (heldRanges functions ds).Pairwise LineRange.Precedes := by
  rw [heldRanges, List.pairwise_flatMap]
  constructor
  · intro f _
    rw [List.pairwise_filterMap]
    refine hds.imp fun {s s'} hprec t ht t' ht' => ?_
    have hin := within_of_intersection? ht
    have hin' := within_of_intersection? ht'
    obtain ⟨hfirst, hlast⟩ := hprec
    exact ⟨by omega, by omega⟩
  · rw [List.pairwise_map] at hf
    refine hf.imp fun {f f'} hprec t ht t' ht' => ?_
    obtain ⟨s, -, hs⟩ := List.mem_filterMap.1 ht
    obtain ⟨s', -, hs'⟩ := List.mem_filterMap.1 ht'
    have hin := within_of_intersection? hs
    have hin' := within_of_intersection? hs'
    obtain ⟨hfirst, hlast⟩ := hprec
    exact ⟨by omega, by omega⟩

/-- **One pass counts no old word twice.** -/
theorem sum_removedUnits_changedStats_le (p : String → Prop) [DecidablePred p]
    (hf : checkFunctions functions = .ok ()) (hd : d.deletions.Pairwise LineRange.Precedes)
    (sources : SourceTexts) :
    ((changedStats functions d (some sources)).sumOf fun name s =>
        if p name then s.removedUnits.getD 0 else 0) ≤ wordsOf (lines sources.old.toList) := by
  let m := UnitMeter.of sources d
  have hsorted := checkFunctions_eq_ok_iff.1 (checkFunctions_filter hf fun f => p f.name)
  calc ((changedStats functions d (some sources)).sumOf fun name s =>
        if p name then s.removedUnits.getD 0 else 0)
      ≤ ((functions.filter fun f => p f.name).map fun f => ((d.piecesIn f.range).map fun piece =>
          (piece.stats (some m)).removedUnits.getD 0).sum).sum :=
        sumOf_changedStats_le rfl (fun s t => addMeasured_getD _ _) p functions d (some sources)
    _ = ((heldRanges (functions.filter fun f => p f.name) d.deletions).map
          (unitCount m.oldLines)).sum := by
        rw [heldRanges, List.map_flatMap, List.flatMap_def, List.sum_flatten, List.map_map]
        simp only [sum_removedUnits_piecesIn, Function.comp_def]
    _ ≤ wordsOf (lines sources.old.toList) :=
        sum_unitCount_le (pairwise_heldRanges hsorted hd) m.oldLines

end

end EffortRank
