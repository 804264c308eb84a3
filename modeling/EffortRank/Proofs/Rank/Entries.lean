import EffortRank.Proofs.Rank.Digraph
import EffortRank.Proofs.Rank.Rows

/-!
# Matrices over any scalars

Nothing is read outside of its array. The entries of a matrix are made of the weights of nodes that
have one (`entriesFrom?_eq`), the rows of a matrix tile its entries (`WellFormed.ofEntries`), and a
product reads columns that are places of the vector (`WellFormed.scaledProduct?_eq`). All sums are
kept in the order in which they are computed, so that this holds of doubles as well.
-/

namespace EffortRank

theorem mapM_eq_some_map {ε φ : Type} {f : ε → Option φ} {g : ε → φ} {l : List ε}
    (h : ∀ e ∈ l, f e = some (g e)) : l.mapM f = some (l.map g) := by
  induction l with
  | nil => rfl
  | cons e l ih =>
    rw [List.forall_mem_cons] at h
    rw [List.mapM_cons, h.1, ih h.2]
    rfl

namespace TransitionMatrix

variable {α : Type} [Scalar α]

/-- The number in a place of an array, zero outside. -/
def numberAt (v : Array α) (i : Nat) : α := v[i]?.getD Scalar.zero

theorem getElem?_eq_numberAt {v : Array α} {i : Nat} (hi : i < v.size) :
    v[i]? = some (numberAt v i) := by
  rw [numberAt, Array.getElem?_eq_getElem hi, Option.getD_some]

/-! ## Entries by columns -/

/-- The entries of the column of a node with the given targets. -/
def columnOf (weights : Array α) (column : Nat) (targets : List Nat) : List (MatrixEntry α) :=
  if Scalar.le (Scalar.sum (targets.map (numberAt weights))) Scalar.zero then []
  else targets.map fun row =>
    ⟨row, column, numberAt weights row / Scalar.sum (targets.map (numberAt weights))⟩

theorem columnEntries?_eq {weights : Array α} {targets : List Nat}
    (h : ∀ row ∈ targets, row < weights.size) (column : Nat) :
    columnEntries? weights column targets = some (columnOf weights column targets) := by
  have hfound : (targets.mapM fun row => (weights[row]?).map fun w => (row, w)) =
      some (targets.map fun row => (row, numberAt weights row)) := by
    apply mapM_eq_some_map
    intro row hrow
    rw [getElem?_eq_numberAt (h row hrow)]
    rfl
  have htotal : (targets.map fun row => (row, numberAt weights row)).map (·.2) =
      targets.map (numberAt weights) := by
    rw [List.map_map]
    rfl
  rw [columnEntries?, hfound, columnOf, ← htotal]
  simp only [Option.bind_eq_bind, Option.bind_some]
  split
  · rfl
  · rw [List.map_map]
    rfl

/-- The entries of the columns from `start` on, one column after the other. -/
theorem entriesFrom?_eq {weights : Array α} {targets : Nat → List Nat}
    (h : ∀ c, ∀ row ∈ targets c, row < weights.size) (start count : Nat) :
    entriesFrom? weights start ((List.range' start count).map targets) =
      some ((List.range' start count).flatMap fun c => columnOf weights c (targets c)) := by
  induction count generalizing start with
  | zero => rfl
  | succ count ih =>
    rw [List.range'_succ, List.map_cons, entriesFrom?, columnEntries?_eq (h start), ih,
      List.flatMap_cons]
    rfl

theorem mem_columnOf {weights : Array α} {column : Nat} {targets : List Nat} {e : MatrixEntry α}
    (he : e ∈ columnOf weights column targets) : e.row ∈ targets ∧ e.column = column := by
  unfold columnOf at he
  split at he
  · cases he
  · obtain ⟨row, hrow, rfl⟩ := List.mem_map.1 he
    exact ⟨hrow, rfl⟩

/-! ## Rows -/

/-- The rows lie one behind the other and hold all entries, and all columns are in the matrix. -/
structure WellFormed {β : Type} (m : TransitionMatrix β) : Prop where
  size_rowOffsets : m.rowOffsets.size = m.size + 1
  first_eq : m.rowOffsets[0]? = some 0
  ascending : m.rowOffsets.toList.Pairwise (· ≤ ·)
  last_eq : m.rowOffsets[m.size]? = some m.entryCount
  size_columns : m.columns.size = m.entryCount
  columns_lt : ∀ c ∈ m.columns, c < m.size

theorem WellFormed.ofEntries {β : Type} {size : Nat} {entries : List (MatrixEntry β)}
    (h : ∀ e ∈ entries, e.row < size ∧ e.column < size) :
    (TransitionMatrix.ofEntries size entries).WellFormed where
  size_rowOffsets := by
    rw [← Array.length_toList, TransitionMatrix.ofEntries, toList_offsets, List.length_map,
      List.length_range, ← Array.length_toList, toList_rowCounts, List.length_map,
      List.length_range]
  first_eq := by
    rw [getElem?_rowOffsets (Nat.zero_le size)]
    simp
  ascending := by
    rw [TransitionMatrix.ofEntries, toList_offsets, List.pairwise_map]
    refine List.pairwise_lt_range.imp fun {i j} hij => ?_
    exact (List.take_sublist_take_left hij.le).sum_le_sum fun _ _ => Nat.zero_le _
  last_eq := by
    have hrows : ∀ e ∈ entries.mergeSort entryLE, decide (e.row < size) = true := by
      intro e he
      exact decide_eq_true (h e (List.mem_mergeSort.1 he)).1
    rw [show (TransitionMatrix.ofEntries size entries).size = size from rfl,
      getElem?_rowOffsets le_rfl, List.countP_eq_length.2 hrows]
    simp [TransitionMatrix.ofEntries, entryCount]
  size_columns := by simp [TransitionMatrix.ofEntries, entryCount]
  columns_lt c hc := by
    rw [TransitionMatrix.ofEntries, List.mem_toArray] at hc
    obtain ⟨e, he, rfl⟩ := List.mem_map.1 hc
    exact (h e (List.mem_mergeSort.1 he)).2

theorem WellFormed.column_lt_of_mem_row {β : Type} {m : TransitionMatrix β} (h : m.WellFormed)
    {r : Nat} {e : Nat × β} (he : e ∈ (m.row r).toList) : e.1 < m.size := by
  rw [row, Array.toList_zip] at he
  have hcolumn := (List.of_mem_zip he).1
  rw [Array.toList_extract, List.extract_eq_take_drop] at hcolumn
  have hmem := List.mem_of_mem_drop (List.mem_of_mem_take hcolumn)
  exact h.columns_lt e.1 (Array.mem_toList_iff.1 hmem)

/-! ## Products -/

/-- A row is gone through to the end if all its columns are places of the vector. -/
theorem foldlM_products {row : List (Nat × α)} {v : Array α} (hrow : ∀ e ∈ row, e.1 < v.size)
    (start : α) :
    row.foldlM (fun sum e => (v[e.1]?).map fun x => sum + e.2 * x) start =
      some ((row.map fun e => e.2 * numberAt v e.1).foldl (· + ·) start) := by
  induction row generalizing start with
  | nil => rfl
  | cons e row ih =>
    rw [List.forall_mem_cons] at hrow
    rw [List.foldlM_cons, getElem?_eq_numberAt hrow.1]
    exact ih hrow.2 _

/-- The product of a row with a vector. -/
def rowSum (m : TransitionMatrix α) (v : Array α) (r : Nat) : α :=
  Scalar.sum ((m.row r).toList.map fun e => e.2 * numberAt v e.1)

theorem rowProduct?_eq {m : TransitionMatrix α} {v : Array α} {r : Nat}
    (h : ∀ e ∈ (m.row r).toList, e.1 < v.size) : m.rowProduct? v r = some (m.rowSum v r) := by
  rw [rowProduct?, ← Array.foldlM_toList]
  exact foldlM_products h _

theorem scaledProduct?_eq {m : TransitionMatrix α} {v : Array α}
    (h : ∀ r < m.size, ∀ e ∈ (m.row r).toList, e.1 < v.size) (factor : α) :
    m.scaledProduct? v factor = some ((Array.range m.size).map fun r => factor * m.rowSum v r) := by
  have hrows : (List.range m.size).mapM (fun r =>
      (m.rowProduct? v r).map fun x => factor * x) =
        some ((List.range m.size).map fun r => factor * m.rowSum v r) := by
    apply mapM_eq_some_map
    intro r hr
    rw [rowProduct?_eq (h r (List.mem_range.1 hr))]
    rfl
  rw [scaledProduct?, Array.mapM_eq_mapM_toList, Array.toList_range]
  refine (congrArg (Option.map List.toArray) hrows).trans (congrArg some ?_)
  simp [← Array.toList_inj]

/-- **A product reads no place that the vector does not have.** -/
theorem WellFormed.scaledProduct?_eq {m : TransitionMatrix α} (h : m.WellFormed) {v : Array α}
    (hv : m.size ≤ v.size) (factor : α) :
    m.scaledProduct? v factor = some ((Array.range m.size).map fun r => factor * m.rowSum v r) :=
  TransitionMatrix.scaledProduct?_eq
    (fun _ _ _ he => (h.column_lt_of_mem_row he).trans_le hv) factor

end TransitionMatrix

/-! ## Digraphs -/

namespace Digraph

open TransitionMatrix

/-- Every edge leads from a node to a node. -/
def WellFormed (g : Digraph) : Prop := ∀ e ∈ g.edges, e.1 < g.size ∧ e.2 < g.size

instance (g : Digraph) : Decidable g.WellFormed :=
  inferInstanceAs (Decidable (∀ e ∈ g.edges, _ ∧ _))

/-- The nodes that a node has an edge to, that of the latest edge first. -/
def targetsOf (g : Digraph) (node : Nat) : List Nat :=
  ((g.edges.filter fun e => e.1 = node).map (·.2)).reverse

theorem toList_targets (g : Digraph) : g.targets.toList = (List.range g.size).map g.targetsOf := by
  apply List.ext_getElem?
  intro i
  rw [Array.getElem?_toList, getElem?_targets, List.getElem?_map]
  split_ifs with hi
  · rw [List.getElem?_range hi]
    rfl
  · rw [List.getElem?_eq_none (by simpa using hi)]
    rfl

theorem WellFormed.lt_of_mem_targetsOf {g : Digraph} (h : g.WellFormed) {node target : Nat}
    (htarget : target ∈ g.targetsOf node) : target < g.size := by
  rw [targetsOf, List.mem_reverse, List.mem_map] at htarget
  obtain ⟨e, he, rfl⟩ := htarget
  exact (h e (List.mem_filter.1 he).1).2

/-- The entries of the matrix of a digraph, column by column. -/
def entriesByColumn {α : Type} [Scalar α] (g : Digraph) (weights : Array α) :
    List (MatrixEntry α) :=
  (List.range g.size).flatMap fun c => columnOf weights c (g.targetsOf c)

/-- The matrix of a digraph is made of weights that the nodes have. -/
theorem WellFormed.ofDigraph?_eq {α : Type} [Scalar α] {g : Digraph} (h : g.WellFormed)
    {weights : Array α} (hsize : g.size ≤ weights.size) :
    ofDigraph? g weights = some (ofEntries g.size (g.entriesByColumn weights)) := by
  have hreads : ∀ c, ∀ row ∈ g.targetsOf c, row < weights.size := by
    intro c row hrow
    exact (h.lt_of_mem_targetsOf hrow).trans_le hsize
  rw [ofDigraph?, toList_targets, List.range_eq_range', entriesFrom?_eq hreads,
    ← List.range_eq_range', Option.map_some, entriesByColumn]

theorem WellFormed.bounds_of_mem_entriesByColumn {α : Type} [Scalar α] {g : Digraph}
    (h : g.WellFormed) {weights : Array α} {e : MatrixEntry α}
    (he : e ∈ g.entriesByColumn weights) : e.row < g.size ∧ e.column < g.size := by
  obtain ⟨c, hc, he⟩ := List.mem_flatMap.1 he
  obtain ⟨hrow, hcolumn⟩ := mem_columnOf he
  rw [hcolumn]
  exact ⟨h.lt_of_mem_targetsOf hrow, List.mem_range.1 hc⟩

end Digraph

end EffortRank
