import EffortRank.Proofs.Diff.Placement
import EffortRank.Proofs.Patch.WellFormed
import Mathlib.Data.List.SplitBy

/-!
# The change of a well formed diff

The maximal runs of a body are split off one by one (`changeOfRuns_replicate`), and each has its
record at the place of its lines (`placed_recordOf`). So the change of a hunk has its place where
its body stands (`HunkText.placed_change`), and ascending hunks describe a change in order
(`placed_changeOfHunks`).
-/

namespace EffortRank

/-- A run that ends where another mark follows is the first of the maximal runs. -/
theorem changeOfRuns_replicate (p : Int) (m : Mark) (n : Nat) {ms : List Mark}
    (hms : ms.head? ≠ some m) :
    changeOfRuns p ((List.replicate n m ++ ms).splitBy (· == ·)) =
      recordOf p (List.replicate n m) ++
        changeOfRuns (p + oldCount (List.replicate n m)) (ms.splitBy (· == ·)) := by
  cases n with
  | zero =>
    rw [List.replicate_zero, List.nil_append]
    simp [recordOf, oldCount]
  | succ n =>
    have hrun : (List.replicate (n + 1) m).splitBy (· == ·) = [List.replicate (n + 1) m] :=
      List.splitBy_of_isChain (by simp) (List.isChain_replicate_of_rel _ (by simp))
    have hsplit : ∀ x ∈ (List.replicate (n + 1) m).getLast?, ∀ y ∈ ms.head?, (x == y) = false := by
      intro x hx y hy
      have hxm : x = m := List.eq_of_mem_replicate (List.mem_of_mem_getLast? hx)
      rw [Option.mem_def] at hy
      rw [beq_eq_false_iff_ne, hxm]
      rintro rfl
      exact hms hy
    rw [List.splitBy_append hsplit, hrun, List.singleton_append, changeOfRuns]

theorem changeOfRuns_of_replicate (p : Int) (m : Mark) (n : Nat) :
    changeOfRuns p ((List.replicate n m ++ []).splitBy (· == ·)) =
      recordOf p (List.replicate n m) := by
  have hhead : ([] : List Mark).head? ≠ some m := by simp
  rw [changeOfRuns_replicate p m n hhead, List.splitBy_nil, changeOfRuns, FileDiff.append_empty]

theorem placed_recordOf (p : Int) (m : Mark) (n : Nat) :
    (recordOf p (List.replicate n m)).Placed p (p + oldCount (List.replicate n m)) := by
  cases n with
  | zero => exact FileDiff.Placed.empty
  | succ n =>
    rw [oldCount_replicate]
    cases m with
    | keep => exact FileDiff.Placed.empty
    | delete =>
      rw [if_neg (by decide), List.replicate_succ, recordOf, List.length_cons,
        List.length_replicate]
      exact FileDiff.Placed.deletion (by dsimp only; omega) (by dsimp only; omega)
        (by dsimp only; omega)
    | add =>
      rw [if_pos rfl, List.replicate_succ, recordOf, List.length_cons, List.length_replicate]
      exact FileDiff.Placed.addition (by dsimp only; omega) (by dsimp only; omega)
        (by dsimp only; omega)

/-- A maximal run of marks is a repetition of one mark. -/
theorem eq_replicate_of_mem_splitBy {ms run : List Mark} (h : run ∈ ms.splitBy (· == ·)) :
    ∃ m n, run = List.replicate n m := by
  have hchain := List.isChain_of_mem_splitBy h
  cases run with
  | nil => exact ⟨.keep, 0, rfl⟩
  | cons m run =>
    have heq : (m :: run).IsChain (· = ·) := hchain.imp fun a b hab => by simpa using hab
    exact ⟨m, run.length + 1, List.isChain_eq_iff_eq_replicate.1 heq m rfl⟩

theorem placed_changeOfRuns {runs : List (List Mark)} (p : Int)
    (h : ∀ run ∈ runs, ∃ m n, run = List.replicate n m) :
    (changeOfRuns p runs).Placed p (p + oldCount runs.flatten) := by
  induction runs generalizing p with
  | nil => exact FileDiff.Placed.empty
  | cons run rest ih =>
    obtain ⟨m, n, rfl⟩ := h run List.mem_cons_self
    have hrest := ih (p + oldCount (List.replicate n m))
      fun run hrun => h run (List.mem_cons_of_mem _ hrun)
    have hsum : p + oldCount (List.replicate n m) + oldCount rest.flatten =
        p + oldCount (List.replicate n m :: rest).flatten := by
      rw [List.flatten_cons, oldCount_append]
      omega
    rw [hsum] at hrest
    exact (placed_recordOf p m n).append hrest (by omega) (by omega)

theorem HunkText.placed_change (h : HunkText) : h.change.Placed h.linesBefore h.linesAfter := by
  have hplaced := placed_changeOfRuns h.linesBefore
    fun run (hrun : run ∈ h.marks.splitBy (· == ·)) => eq_replicate_of_mem_splitBy hrun
  rwa [List.flatten_splitBy] at hplaced

/-- Ascending hunks describe a change in order. -/
theorem placed_changeOfHunks {hs : List HunkText} {lo : Int}
    (hlo : ∀ h ∈ hs.head?, lo ≤ h.linesBefore)
    (hchain : hs.IsChain fun g h => g.linesAfter ≤ h.linesBefore) :
    ∃ hi, lo ≤ hi ∧ (changeOfHunks hs).Placed lo hi := by
  induction hs generalizing lo with
  | nil => exact ⟨lo, Int.le_refl lo, FileDiff.Placed.empty⟩
  | cons h hs ih =>
    rw [List.isChain_cons] at hchain
    obtain ⟨hi, hle, hplaced⟩ := ih hchain.1 hchain.2
    have hbefore := hlo h rfl
    have hafter : h.linesBefore ≤ h.linesAfter := by
      rw [HunkText.linesAfter]
      omega
    exact ⟨hi, by omega,
      (h.placed_change.mono hbefore (Int.le_refl _)).append hplaced (by omega) hle⟩

end EffortRank
