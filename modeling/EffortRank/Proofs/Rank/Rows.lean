import EffortRank.Rank.Transition
import Mathlib

/-!
# The rows of a matrix

A matrix that is built from entries holds in each row just the entries of that row, in the order in
which they are sorted (`TransitionMatrix.toList_row_ofEntries`): the counts of the rows add up to
the numbers of entries in front of each row, which are the places where the rows start in the sorted
list (`TransitionMatrix.getElem?_rowOffsets`).
-/

namespace EffortRank

section Sorted

variable {α : Type} {key : α → Nat} {l : List α}

/-- In a list in the order of its keys, the elements with a small key come first. -/
theorem filter_append_filter_not (h : l.Pairwise fun a b => key a ≤ key b) (r : Nat) :
    l.filter (fun a => key a < r) ++ l.filter (fun a => !decide (key a < r)) = l := by
  induction l with
  | nil => rfl
  | cons a l ih =>
    obtain ⟨ha, hl⟩ := List.pairwise_cons.1 h
    by_cases hlt : key a < r
    · simp [hlt, ih hl]
    · have hnone : ∀ b ∈ l, ¬ decide (key b < r) = true := by
        intro b hb
        have hab := ha b hb
        simp only [decide_eq_true_eq]
        omega
      have hall : ∀ b ∈ a :: l, (!decide (key b < r)) = true := by
        rw [List.forall_mem_cons]
        exact ⟨by simpa using hlt, fun b hb => by simpa using hnone b hb⟩
      rw [List.filter_cons_of_neg (by simpa using hlt), List.filter_eq_nil_iff.2 hnone,
        List.filter_eq_self.2 hall, List.nil_append]

theorem take_countP (h : l.Pairwise fun a b => key a ≤ key b) (r : Nat) :
    l.take (l.countP fun a => key a < r) = l.filter fun a => key a < r := by
  nth_rewrite 2 [← filter_append_filter_not h r]
  exact List.take_left' List.countP_eq_length_filter.symm

theorem drop_countP (h : l.Pairwise fun a b => key a ≤ key b) (r : Nat) :
    l.drop (l.countP fun a => key a < r) = l.filter fun a => !decide (key a < r) := by
  nth_rewrite 2 [← filter_append_filter_not h r]
  exact List.drop_left' List.countP_eq_length_filter.symm

/-- In a list in the order of its keys, the elements with one key stand together. -/
theorem extract_countP (h : l.Pairwise fun a b => key a ≤ key b) (r : Nat) :
    l.extract (l.countP fun a => key a < r) (l.countP fun a => key a < r + 1) =
      l.filter fun a => key a = r := by
  have hcount : (l.countP fun a => key a < r) =
      (l.filter fun a => key a < r + 1).countP fun a => key a < r := by
    rw [List.countP_filter]
    apply List.countP_congr
    intro a _
    simp only [Bool.and_eq_true, decide_eq_true_eq]
    omega
  rw [List.extract_eq_take_drop, ← List.drop_take, take_countP h, hcount,
    drop_countP (h.filter _), List.filter_filter]
  apply List.filter_congr
  intro a _
  rw [Bool.eq_iff_iff]
  simp only [Bool.and_eq_true, Bool.not_eq_true', decide_eq_true_eq, decide_eq_false_iff_not]
  omega

theorem countP_lt_succ (key : α → Nat) (l : List α) (r : Nat) :
    (l.countP fun a => key a < r + 1) =
      (l.countP fun a => key a < r) + l.countP fun a => key a = r := by
  induction l with
  | nil => rfl
  | cons a l ih =>
    rw [List.countP_cons, List.countP_cons, List.countP_cons, ih]
    simp only [decide_eq_true_eq]
    split_ifs <;> omega

end Sorted

namespace TransitionMatrix

variable {β : Type} {size r : Nat} {entries : List (MatrixEntry β)}

/-! ## Where the rows start -/

theorem toList_rowCounts (size : Nat) (entries : List (MatrixEntry β)) :
    (rowCounts size entries).toList =
      (List.range size).map fun r => entries.countP fun e => e.row = r := by
  have hfold : ∀ (es : List (MatrixEntry β)) (counts : Array Nat) (r : Nat),
      (es.foldl (fun counts e => counts.modify e.row (· + 1)) counts)[r]? =
        counts[r]?.map (· + es.countP fun e => e.row = r) := by
    intro es
    induction es with
    | nil => simp
    | cons e es ih =>
      intro counts r
      rw [List.foldl_cons, ih, Array.getElem?_modify, List.countP_cons]
      by_cases he : e.row = r
      · simp [he, Function.comp_def, Nat.add_assoc, Nat.add_comm]
      · simp [he]
  apply List.ext_getElem?
  intro r
  rw [Array.getElem?_toList, rowCounts, hfold, Array.getElem?_replicate, List.getElem?_map]
  by_cases hr : r < size
  · simp [hr]
  · simp [hr]

theorem toList_offsets (counts : Array Nat) :
    (offsets counts).toList =
      (List.range (counts.size + 1)).map fun k => (counts.toList.take k).sum := by
  rw [offsets, ← Array.foldl_toList, ← Array.length_toList]
  generalize counts.toList = l
  induction l using List.reverseRecOn with
  | nil => rfl
  | append_singleton l n ih =>
    have hback : ((l.foldl (fun sums n => sums.push (sums.back?.getD 0 + n)) #[0]).back?).getD 0 =
        l.sum := by
      rw [← Array.getLast?_toList, ih, List.range_succ, List.map_append]
      simp
    have hbefore : (List.range (l.length + 1)).map (fun k => ((l ++ [n]).take k).sum) =
        (List.range (l.length + 1)).map fun k => (l.take k).sum := by
      apply List.map_congr_left
      intro k hk
      rw [List.take_append_of_le_length (Nat.le_of_lt_succ (List.mem_range.1 hk))]
    rw [List.foldl_append, List.foldl_cons, List.foldl_nil, Array.toList_push, ih, hback,
      List.length_append, List.length_singleton, List.range_succ (n := l.length + 1),
      List.map_append, hbefore]
    simp

/-- The entries in front of a row are those of the rows before it. -/
theorem sum_take_rowCounts (hr : r ≤ size) :
    ((rowCounts size entries).toList.take r).sum = entries.countP fun e => e.row < r := by
  rw [toList_rowCounts, ← List.map_take, List.take_range, Nat.min_eq_left hr]
  clear hr
  induction r with
  | zero => simp
  | succ r ih => rw [List.sum_range_succ, ih, countP_lt_succ]

/-- A row starts behind the entries of the rows before it. -/
theorem getElem?_rowOffsets (hr : r ≤ size) :
    (ofEntries size entries).rowOffsets[r]? =
      some ((entries.mergeSort entryLE).countP fun e => e.row < r) := by
  have hsize : (rowCounts size (entries.mergeSort entryLE)).size = size := by
    rw [← Array.length_toList, toList_rowCounts, List.length_map, List.length_range]
  rw [ofEntries, ← Array.getElem?_toList, toList_offsets, List.getElem?_map,
    List.getElem?_range (by omega), Option.map_some, sum_take_rowCounts hr]

/-! ## What stands in a row -/

theorem pairwise_sorted (entries : List (MatrixEntry β)) :
    (entries.mergeSort entryLE).Pairwise fun a b => entryLE a b = true := by
  refine List.pairwise_mergeSort (fun a b c hab hbc => ?_) (fun a b => ?_) entries
  · simp only [entryLE, Bool.or_eq_true, Bool.and_eq_true, decide_eq_true_eq, beq_iff_eq] at *
    omega
  · simp only [entryLE, Bool.or_eq_true, Bool.and_eq_true, decide_eq_true_eq, beq_iff_eq]
    omega

theorem rows_sorted (entries : List (MatrixEntry β)) :
    (entries.mergeSort entryLE).Pairwise fun a b => a.row ≤ b.row := by
  refine (pairwise_sorted entries).imp fun {a b} h => ?_
  simp only [entryLE, Bool.or_eq_true, Bool.and_eq_true, decide_eq_true_eq, beq_iff_eq] at h
  omega

/-- **A row holds the entries of that row**, as they are sorted. -/
theorem toList_row_ofEntries (hr : r < size) :
    ((ofEntries size entries).row r).toList =
      ((entries.mergeSort entryLE).filter fun e => e.row = r).map fun e => (e.column, e.value) := by
  have hstart : (ofEntries size entries).rowOffsets[r]? = some _ := getElem?_rowOffsets hr.le
  have hstop : (ofEntries size entries).rowOffsets[r + 1]? = some _ := getElem?_rowOffsets hr
  rw [row, hstart, hstop, Option.getD_some, Option.getD_some, ofEntries, Array.toList_zip,
    Array.toList_extract, Array.toList_extract]
  dsimp only
  rw [List.extract_eq_take_drop, List.extract_eq_take_drop, ← List.map_drop, ← List.map_drop,
    ← List.map_take, ← List.map_take, List.zip_map', ← List.extract_eq_take_drop,
    extract_countP (rows_sorted entries)]

end TransitionMatrix

end EffortRank
