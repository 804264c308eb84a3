import EffortRank.Proofs.Diff.Involution
import Mathlib.Data.Finset.Dedup
import Mathlib.Data.Finset.Order

/-!
# Regular changes

A change is regular (`FileDiff.Regular`) if its additions have lines and ascend, its deletions have
lines and ascend without a common line, and no addition stands in between lines that are taken out
together. Which line numbers there are does not matter: the records of a change are finitely many,
so that a regular change has a place (`FileDiff.Regular.exists_placed`), and what inverting does to
placed changes it does to regular ones (`FileDiff.Regular.inverse_involutive`).

Only that line numbers have 64 bits sets a limit: lines at the very end of them may have no number
any more in the other version (`FileDiff.inverse?_of_last_line_numbers`).
-/

namespace EffortRank

namespace FileDiff

/-- The records have lines, those of either kind ascend, and the two kinds are apart. -/
structure Regular (d : FileDiff) : Prop where
  additions_sorted : d.additions.Pairwise Addition.Precedes
  additions_nonempty : ∀ a ∈ d.additions, 1 ≤ a.length
  deletions_sorted : d.deletions.Pairwise LineRange.Precedes
  deletions_nonempty : ∀ r ∈ d.deletions, r.first ≤ r.last
  apart : d.Apart

variable {lo hi : Int} {d : FileDiff}

theorem Placed.regular (h : d.Placed lo hi) : d.Regular where
  additions_sorted := h.additions_sorted
  additions_nonempty := h.additions_nonempty
  deletions_sorted := h.deletions_sorted
  deletions_nonempty r hr := (h.deletions_within r hr).2.1
  apart := h.apart

/-- A regular change has its place between any bounds of its line numbers. -/
theorem Regular.exists_placed (h : d.Regular) : ∃ lo hi, lo ≤ hi ∧ d.Placed lo hi := by
  let numbers := d.additions.map Addition.position ++
    (d.deletions.map LineRange.first ++ d.deletions.map LineRange.last)
  obtain ⟨bound, hbound⟩ := (numbers.map Int.natAbs).toFinset.exists_le
  have hnumber : ∀ n ∈ numbers, n.natAbs ≤ bound := fun n hn =>
    hbound _ (List.mem_toFinset.2 (List.mem_map_of_mem hn))
  simp only [numbers, List.forall_mem_append, List.forall_mem_map] at hnumber
  obtain ⟨hposition, hfirst, hlast⟩ := hnumber
  refine ⟨-bound - 1, bound, by omega, { h with additions_within := ?_, deletions_within := ?_ }⟩
  · intro a ha
    have := hposition a ha
    omega
  · intro r hr
    have := hfirst r hr
    have := hlast r hr
    have := h.deletions_nonempty r hr
    omega

/-- **Inverting is an involution on regular changes, and keeps them regular.** If the numbers of the
inverse fit, this is what is found, and if those of the second inverse fit, the change is found
again. -/
theorem Regular.inverse_involutive (h : d.Regular) :
    d.inverse.Regular ∧ d.inverse.check = .ok () ∧ d.inverse.inverse = d ∧
      (d.inverseFits = true → d.inverse? = some d.inverse) ∧
      (d.inverse.inverseFits = true → d.inverse.inverse? = some d) := by
  obtain ⟨lo, hi, hle, hplaced⟩ := h.exists_placed
  have hinverse := hplaced.inverse hle
  have htwice := hplaced.inverse_inverse hle
  refine ⟨hinverse.regular, hinverse.check_eq_ok, htwice, fun hfits => ?_, fun hfits => ?_⟩
  · exact fitting_eq_some_iff.2 ⟨hfits, rfl⟩
  · exact fitting_eq_some_iff.2 ⟨hfits, htwice⟩

/-- Two blocks at one place, behind lines that are taken out, and a deletion behind them. -/
theorem Regular.inverse_involutive_of_touching :
    let d : FileDiff := ⟨[⟨3, 2⟩, ⟨3, 1⟩], [⟨2, 3⟩, ⟨4, 4⟩]⟩
    let e : FileDiff := ⟨[⟨1, 2⟩, ⟨4, 1⟩], [⟨2, 3⟩, ⟨4, 4⟩]⟩
    d.Regular ∧ d.inverse? = some e ∧ e.Regular ∧ e.check = .ok () ∧ e.inverse? = some d := by
  intro d e
  have hregular : d.Regular := by
    constructor <;> decide
  have hrecords : d.records =
      [.deleted ⟨2, 3⟩, .added ⟨3, 2⟩, .added ⟨3, 1⟩, .deleted ⟨4, 4⟩] := by
    simp [d, records, ChangeRecord.goesBefore]
  have hinverse : d.inverse = e := by
    rw [FileDiff.inverse, hrecords]
    rfl
  have hfits : d.inverseFits = true := by
    rw [inverseFits, hrecords]
    decide
  have hback : e.inverseFits = true := by
    simp [e, inverseFits, records, ChangeRecord.goesBefore, shiftsFit, lineFits, maxLineNumber]
  obtain ⟨he, hcheck, -, hfound, hagain⟩ := Regular.inverse_involutive hregular
  rw [hinverse] at he hcheck hfound hagain
  exact ⟨hregular, hfound hfits, he, hcheck, hagain hback⟩

/-- Two new lines behind the last line but one that has a number: the second of them has none, so
that no inverse can take it out. -/
theorem inverse?_of_last_line_numbers :
    let d : FileDiff := ⟨[⟨maxLineNumber - 1, 1⟩, ⟨maxLineNumber - 1, 1⟩], []⟩
    d.Regular ∧ d.inverse? = none ∧
      d.inverse =
        ⟨[], [⟨maxLineNumber, maxLineNumber⟩, ⟨maxLineNumber + 1, maxLineNumber + 1⟩]⟩ := by
  intro d
  have hrecords : d.records = d.additions.map .added := records_of_additions _
  refine ⟨by constructor <;> decide, ?_, ?_⟩
  · rw [inverse?, inverseFits, hrecords]
    rfl
  · rw [FileDiff.inverse, hrecords]
    rfl

end FileDiff

end EffortRank
