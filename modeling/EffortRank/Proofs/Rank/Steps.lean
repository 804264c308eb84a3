import EffortRank.Proofs.Rank.Product

/-!
# The steps of a walker

The matrix of a digraph has one entry for each edge, in the column of its source, unless the ways
out of the source weigh nothing (`Digraph.entries`). In rational numbers, with weights that are not
negative, no entry is negative and a column adds up to one or, if it is empty, to zero
(`Digraph.substochastic_steps`). A walker who jumps where there is no step follows a matrix all of
whose columns add up to one (`Substochastic.withJumps_mem`).
-/

namespace EffortRank

open Matrix TransitionMatrix

/-! ## Entries by columns -/

section Columns

variable {n : Nat} (w : Fin n → ℚ)

/-- The entries of the column of a node with the given targets. -/
def columnEntries (column : Nat) (targets : List Nat) : List (MatrixEntry ℚ) :=
  if (targets.map (coordinate w)).sum ≤ 0 then []
  else targets.map fun row =>
    ⟨row, column, coordinate w row / (targets.map (coordinate w)).sum⟩

theorem columnOf_ofFn (column : Nat) (targets : List Nat) :
    columnOf (Array.ofFn w) column targets = columnEntries w column targets := by
  rw [columnOf, columnEntries, Scalar.sum_eq, show numberAt (Array.ofFn w) = coordinate w from
    funext (numberAt_ofFn w)]
  by_cases hle : (targets.map (coordinate w)).sum ≤ 0
  · rw [if_pos hle]
    exact if_pos (decide_eq_true hle)
  · rw [if_neg hle]
    exact if_neg fun h => hle (of_decide_eq_true h)

theorem column_of_mem_columnEntries {column : Nat} {targets : List Nat} {e : MatrixEntry ℚ}
    (he : e ∈ columnEntries w column targets) : e.column = column := by
  rw [← columnOf_ofFn] at he
  exact (mem_columnOf he).2

theorem sum_columnEntries (column : Nat) (targets : List Nat) :
    ((columnEntries w column targets).map MatrixEntry.value).sum =
      if (targets.map (coordinate w)).sum ≤ 0 then 0 else 1 := by
  unfold columnEntries
  split_ifs with hle
  · rfl
  · rw [List.map_map]
    have hdiv : MatrixEntry.value ∘ (fun row => (⟨row, column, coordinate w row /
        (targets.map (coordinate w)).sum⟩ : MatrixEntry ℚ)) =
          fun row => coordinate w row * (targets.map (coordinate w)).sum⁻¹ :=
      funext fun _ => div_eq_mul_inv _ _
    rw [hdiv, List.sum_map_mul_right]
    exact mul_inv_cancel₀ (not_le.1 hle).ne'

theorem value_nonneg_of_mem_columnEntries (hw : ∀ i, 0 ≤ w i) {column : Nat} {targets : List Nat}
    {e : MatrixEntry ℚ} (he : e ∈ columnEntries w column targets) : 0 ≤ e.value := by
  unfold columnEntries at he
  split_ifs at he with hle
  · cases he
  · obtain ⟨row, -, rfl⟩ := List.mem_map.1 he
    refine div_nonneg ?_ (not_le.1 hle).le
    unfold coordinate
    split_ifs with hrow
    · exact hw _
    · exact le_refl 0

end Columns

namespace Digraph

variable {g : Digraph}

/-- The entries of the matrix of a digraph, column by column. -/
def entries (g : Digraph) (w : Fin g.size → ℚ) : List (MatrixEntry ℚ) :=
  (List.range g.size).flatMap fun c => columnEntries w c (g.targetsOf c)

theorem entriesByColumn_ofFn (g : Digraph) (w : Fin g.size → ℚ) :
    g.entriesByColumn (Array.ofFn w) = g.entries w := by
  rw [entriesByColumn, entries]
  simp only [columnOf_ofFn]

theorem WellFormed.ofDigraph?_ofFn (h : g.WellFormed) (w : Fin g.size → ℚ) :
    ofDigraph? g (Array.ofFn w) = some (ofEntries g.size (g.entries w)) := by
  rw [h.ofDigraph?_eq (by rw [Array.size_ofFn]), entriesByColumn_ofFn]

theorem WellFormed.bounds_of_mem_entries (h : g.WellFormed) {w : Fin g.size → ℚ}
    {e : MatrixEntry ℚ} (he : e ∈ g.entries w) : e.row < g.size ∧ e.column < g.size := by
  rw [← entriesByColumn_ofFn] at he
  exact h.bounds_of_mem_entriesByColumn he

/-- A list that one member alone contributes to is what that member contributes. -/
theorem flatMap_ite_eq {ε φ : Type} [DecidableEq ε] {l : List ε} {c : ε} (out : List φ)
    (hl : l.Nodup) (hc : c ∈ l) : (l.flatMap fun k => if k = c then out else []) = out := by
  induction l with
  | nil => cases hc
  | cons k l ih =>
    obtain ⟨hk, hl⟩ := List.nodup_cons.1 hl
    rw [List.flatMap_cons]
    obtain rfl | hc := List.mem_cons.1 hc
    · have hrest : (l.flatMap fun j => if j = c then out else []) = [] :=
        List.flatMap_eq_nil_iff.2 fun j hj => if_neg (ne_of_mem_of_not_mem hj hk)
      rw [if_pos rfl, hrest, List.append_nil]
    · rw [if_neg (ne_of_mem_of_not_mem hc hk).symm, List.nil_append, ih hl hc]

/-- The entries of a column are those of its node. -/
theorem filter_entries (w : Fin g.size → ℚ) {c : Nat} (hc : c < g.size) :
    (g.entries w).filter (fun e => e.column = c) = columnEntries w c (g.targetsOf c) := by
  have hcolumn : ∀ k, (columnEntries w k (g.targetsOf k)).filter (fun e => e.column = c) =
      if k = c then columnEntries w c (g.targetsOf c) else [] := by
    intro k
    split_ifs with hk
    · subst hk
      apply List.filter_eq_self.2
      intro e he
      exact decide_eq_true (column_of_mem_columnEntries w he)
    · apply List.filter_eq_nil_iff.2
      intro e he
      rw [decide_eq_true_eq, column_of_mem_columnEntries w he]
      exact hk
  rw [entries, List.filter_flatMap]
  simp only [hcolumn]
  exact flatMap_ite_eq _ List.nodup_range (List.mem_range.2 hc)

/-- The matrix of a digraph. -/
def steps (g : Digraph) (w : Fin g.size → ℚ) : Matrix (Fin g.size) (Fin g.size) ℚ :=
  ofList g.size (g.entries w)

theorem WellFormed.sum_column_steps (h : g.WellFormed) (w : Fin g.size → ℚ) (c : Fin g.size) :
    ∑ r, g.steps w r c = if ((g.targetsOf c).map (coordinate w)).sum ≤ 0 then 0 else 1 := by
  have hrows : ∀ e ∈ (g.entries w).filter fun e => e.column = c.val, e.row < g.size := by
    intro e he
    exact (h.bounds_of_mem_entries (List.mem_filter.1 he).1).1
  rw [← sum_columnEntries w c, ← filter_entries w c.isLt, ← sum_filter_key hrows]
  apply Finset.sum_congr rfl
  intro r _
  rw [List.filter_filter, steps, ofList, Matrix.of_apply]
  simp only [Bool.decide_and]

end Digraph

/-! ## Substochastic matrices -/

/-- No entry is negative, and no column adds up to more than one. -/
structure Substochastic {n : Nat} (P : Matrix (Fin n) (Fin n) ℚ) : Prop where
  nonneg : ∀ r c, 0 ≤ P r c
  column_le : ∀ c, ∑ r, P r c ≤ 1

theorem Digraph.WellFormed.substochastic_steps {g : Digraph} (h : g.WellFormed)
    {w : Fin g.size → ℚ} (hw : ∀ i, 0 ≤ w i) : Substochastic (g.steps w) where
  nonneg r c := by
    apply List.sum_nonneg
    intro v hv
    obtain ⟨e, he, rfl⟩ := List.mem_map.1 hv
    obtain ⟨k, -, he⟩ := List.mem_flatMap.1 (List.mem_filter.1 he).1
    exact value_nonneg_of_mem_columnEntries w hw he
  column_le c := by
    rw [h.sum_column_steps]
    split_ifs <;> norm_num

/-- **The matrix of a digraph.** Its entries stand in columns of nodes, and with weights that are
not negative it is substochastic. -/
theorem Digraph.WellFormed.exists_entries {g : Digraph} (h : g.WellFormed) {weights : Array ℚ}
    (hsize : weights.size = g.size) :
    ∃ entries, ofDigraph? g weights = some (ofEntries g.size entries) ∧
      (∀ e ∈ entries, e.column < g.size) ∧
      ((∀ w ∈ weights, 0 ≤ w) → Substochastic (ofList g.size entries)) := by
  obtain ⟨w, rfl⟩ := exists_eq_ofFn hsize
  refine ⟨g.entries w, h.ofDigraph?_ofFn w, ?_, ?_⟩
  · intro e he
    exact (h.bounds_of_mem_entries he).2
  · intro hw
    apply h.substochastic_steps
    intro i
    exact hw _ (Array.mem_ofFn.2 ⟨i, rfl⟩)

/-- The matrix of a walker who jumps, where there is no step, to a node chosen by `t`. -/
def withJumps {n : Nat} (P : Matrix (Fin n) (Fin n) ℚ) (t : Fin n → ℚ) :
    Matrix (Fin n) (Fin n) ℚ :=
  Matrix.of fun r c => P r c + (1 - ∑ k, P k c) * t r

theorem Substochastic.withJumps_mem {n : Nat} {P : Matrix (Fin n) (Fin n) ℚ}
    (hP : Substochastic P) {t : Fin n → ℚ} (ht : t ∈ stdSimplex ℚ (Fin n)) :
    withJumps P t ∈ colStochastic ℚ (Fin n) := by
  rw [mem_colStochastic_iff_sum]
  constructor
  · intro r c
    have hlost : 0 ≤ 1 - ∑ k, P k c := sub_nonneg.2 (hP.column_le c)
    exact add_nonneg (hP.nonneg r c) (mul_nonneg hlost (ht.1 r))
  · intro c
    simp only [withJumps, Matrix.of_apply]
    rw [Finset.sum_add_distrib, ← Finset.mul_sum, ht.2, mul_one, add_sub_cancel]

end EffortRank
