import EffortRank.Proofs.Rank.Entries
import EffortRank.Proofs.Rank.OrderedScalars

/-!
# The product by edges

A walker follows the edges of the nodes whose ways out weigh more than nothing together
(`Digraph.followedEdges`). Each makes one entry of the matrix, and a row of the matrix is the sorted
list of those that lead to its node (`Digraph.WellFormed.toList_row`). So the product of the matrix
with a vector is a sum over edges (`Digraph.WellFormed.ofDigraph?_product`): how the entries are
counted, placed and sorted does not show. The sums are those of the scalars, in a fixed order, since
doubles are rounded after each addition.
-/

namespace EffortRank

/-- A list is made of the parts under its keys. -/
theorem flatMap_filter_perm {ε : Type} (key : ε → Nat) (l : List ε) (n : Nat) :
    ((List.range n).flatMap fun k => l.filter fun e => key e = k).Perm
      (l.filter fun e => key e < n) := by
  induction n with
  | zero => simp
  | succ n ih =>
    have hbelow : (l.filter fun e => key e < n + 1).filter (fun e => key e < n) =
        l.filter fun e => key e < n := by
      rw [List.filter_filter]
      apply List.filter_congr
      intro e _
      rw [Bool.eq_iff_iff]
      simp only [Bool.and_eq_true, decide_eq_true_eq]
      omega
    have hlast : (l.filter fun e => key e < n + 1).filter (fun e => !decide (key e < n)) =
        l.filter fun e => key e = n := by
      rw [List.filter_filter]
      apply List.filter_congr
      intro e _
      rw [Bool.eq_iff_iff]
      simp only [Bool.and_eq_true, Bool.not_eq_true', decide_eq_true_eq, decide_eq_false_iff_not]
      omega
    have hsplit := List.filter_append_perm (fun e => decide (key e < n))
      (l.filter fun e => key e < n + 1)
    rw [hbelow, hlast] at hsplit
    rw [List.range_succ, List.flatMap_append, List.flatMap_singleton]
    exact (ih.append_right _).trans hsplit

namespace Digraph

open TransitionMatrix

variable {α : Type} [Scalar α] {g : Digraph} {weights : Array α}

/-- What the ways out of a node weigh together. -/
def outWeight (g : Digraph) (weights : Array α) (node : Nat) : α :=
  Scalar.sum ((g.targetsOf node).map (numberAt weights))

/-- The edges of the nodes whose ways out weigh more than nothing together. -/
def followedEdges (g : Digraph) (weights : Array α) : List (Nat × Nat) :=
  g.edges.filter fun e => Scalar.lt Scalar.zero (g.outWeight weights e.1)

/-- The edges to a node that are followed, in ascending order of their sources. -/
def followedInto (g : Digraph) (weights : Array α) (target : Nat) : List (Nat × Nat) :=
  ((g.followedEdges weights).filter fun e => e.2 = target).mergeSort fun e f => e.1 ≤ f.1

/-- How likely a walker is to follow an edge: the share of its target in what the ways out of its
source weigh. -/
def likelihood (g : Digraph) (weights : Array α) (e : Nat × Nat) : α :=
  numberAt weights e.2 / g.outWeight weights e.1

/-- The entry of the matrix that an edge makes. -/
def entryOf (g : Digraph) (weights : Array α) (e : Nat × Nat) : MatrixEntry α :=
  ⟨e.2, e.1, g.likelihood weights e⟩

/-! ## Entries and edges -/

/-- The edges that make entries, in the order in which their entries are made. -/
def followedByColumn (g : Digraph) (weights : Array α) : List (Nat × Nat) :=
  ((List.range g.size).flatMap fun c => (g.targetsOf c).map (Prod.mk c)).filter
    fun e => Scalar.lt Scalar.zero (g.outWeight weights e.1)

theorem map_targetsOf (g : Digraph) (node : Nat) :
    (g.targetsOf node).map (Prod.mk node) = (g.edges.filter fun e => e.1 = node).reverse := by
  have hends : ∀ e ∈ g.edges.filter fun e => e.1 = node, (Prod.mk node ∘ Prod.snd) e = id e := by
    intro e he
    exact Prod.ext (of_decide_eq_true (List.mem_filter.1 he).2).symm rfl
  rw [targetsOf, List.map_reverse, List.map_map, List.map_congr_left hends, List.map_id]

theorem WellFormed.followedByColumn_perm (h : g.WellFormed) (weights : Array α) :
    (g.followedByColumn weights).Perm (g.followedEdges weights) := by
  have hall : (g.edges.filter fun e => e.1 < g.size) = g.edges :=
    List.filter_eq_self.2 fun e he => decide_eq_true (h e he).1
  have hsources := flatMap_filter_perm Prod.fst g.edges g.size
  rw [hall] at hsources
  refine List.Perm.filter _ (List.Perm.trans ?_ hsources)
  apply List.Perm.flatMap_left
  intro c _
  rw [map_targetsOf]
  exact List.reverse_perm _

/-! ## Which edges are followed -/

section Followed

variable [OrderedScalar α] (h : g.WellFormed) (hsize : g.size ≤ weights.size)
  (hw : ∀ w ∈ weights, Scalar.le Scalar.zero w = true)

include h hsize hw

theorem WellFormed.outWeight_nonneg (node : Nat) :
    Scalar.le Scalar.zero (g.outWeight weights node) = true := by
  apply Scalar.sum_nonneg
  intro x hx
  obtain ⟨row, hrow, rfl⟩ := List.mem_map.1 hx
  have hlt : row < weights.size := (h.lt_of_mem_targetsOf hrow).trans_le hsize
  rw [numberAt, Array.getElem?_eq_getElem hlt]
  exact hw _ (Array.getElem_mem hlt)

/-- The column of a node has the entries of its ways out, or none of them. -/
theorem WellFormed.columnOf_eq (node : Nat) :
    columnOf weights node (g.targetsOf node) =
      (((g.targetsOf node).map (Prod.mk node)).filter
        fun e => Scalar.lt Scalar.zero (g.outWeight weights e.1)).map (g.entryOf weights) := by
  have hsource : ∀ e ∈ (g.targetsOf node).map (Prod.mk node), e.1 = node := by
    intro e he
    obtain ⟨row, -, rfl⟩ := List.mem_map.1 he
    rfl
  have hlt := OrderedScalar.lt_eq_not_le (h.outWeight_nonneg hsize hw node)
  cases hle : Scalar.le (g.outWeight weights node) Scalar.zero with
  | true =>
    rw [List.filter_eq_nil_iff.2 fun e he => by simp [hsource e he, hlt, hle]]
    exact if_pos hle
  | false =>
    rw [List.filter_eq_self.2 fun e he => by simp [hsource e he, hlt, hle], List.map_map]
    exact if_neg (by rw [← outWeight, hle]; decide)

theorem WellFormed.entriesByColumn_eq :
    g.entriesByColumn weights = (g.followedByColumn weights).map (g.entryOf weights) := by
  rw [entriesByColumn, followedByColumn, List.filter_flatMap, List.map_flatMap]
  simp only [h.columnOf_eq hsize hw]

end Followed

/-! ## Rows and edges -/

theorem pairwise_followedInto (g : Digraph) (weights : Array α) (r : Nat) :
    (g.followedInto weights r).Pairwise fun e f => e.1 ≤ f.1 := by
  refine (List.pairwise_mergeSort (fun e e' e'' h h' => ?_) (fun e f => ?_) _).imp
    fun {e f} h => of_decide_eq_true h
  · exact decide_eq_true ((of_decide_eq_true h).trans (of_decide_eq_true h'))
  · rw [Bool.or_eq_true, decide_eq_true_eq, decide_eq_true_eq]
    exact Nat.le_total e.1 f.1

theorem target_of_mem_followedInto {e : Nat × Nat} {r : Nat}
    (he : e ∈ g.followedInto weights r) : e.2 = r :=
  of_decide_eq_true (List.mem_filter.1 (List.mem_mergeSort.1 he)).2

/-- The order in which the entries of edges are sorted: by their rows, then by their columns. -/
def edgeLE (e f : Nat × Nat) : Bool := e.2 < f.2 || (e.2 == f.2 && e.1 ≤ f.1)

theorem map_mergeSort_edges (g : Digraph) (weights : Array α) (l : List (Nat × Nat)) :
    (l.mergeSort edgeLE).map (g.entryOf weights) =
      (l.map (g.entryOf weights)).mergeSort entryLE :=
  List.map_mergeSort fun _ _ _ _ => rfl

/-- In one row, edges that are sorted by both ends are in ascending order of their sources. There is
no other such order, since parallel edges are equal. -/
theorem WellFormed.filter_sorted_edges (h : g.WellFormed) (weights : Array α) (r : Nat) :
    ((g.followedByColumn weights).mergeSort edgeLE).filter (fun e => e.2 = r) =
      g.followedInto weights r := by
  have hsorted : ((g.followedByColumn weights).mergeSort edgeLE).Pairwise
      fun e f => edgeLE e f = true := by
    have hentries := pairwise_sorted ((g.followedByColumn weights).map (g.entryOf weights))
    rw [← map_mergeSort_edges, List.pairwise_map] at hentries
    exact hentries
  have hperm : (((g.followedByColumn weights).mergeSort edgeLE).filter fun e => e.2 = r).Perm
      (g.followedInto weights r) :=
    (((List.mergeSort_perm _ _).trans (h.followedByColumn_perm weights)).filter _).trans
      (List.mergeSort_perm _ _).symm
  have htarget : ∀ e ∈ ((g.followedByColumn weights).mergeSort edgeLE).filter (fun e => e.2 = r),
      e.2 = r := fun e he => of_decide_eq_true (List.mem_filter.1 he).2
  refine hperm.eq_of_pairwise (fun e f he hf hef hfe => ?_) ?_ (g.pairwise_followedInto weights r)
  · have hsame : e.2 = f.2 := (htarget e he).trans (target_of_mem_followedInto hf).symm
    exact Prod.ext (Nat.le_antisymm hef hfe) hsame
  · refine (hsorted.filter _).imp_of_mem fun {e f} he hf hef => ?_
    have hsame : e.2 = f.2 := (htarget e he).trans (htarget f hf).symm
    simp only [edgeLE, Bool.or_eq_true, Bool.and_eq_true, decide_eq_true_eq, beq_iff_eq] at hef
    omega

section Product

variable [OrderedScalar α] (h : g.WellFormed) (hsize : g.size ≤ weights.size)
  (hw : ∀ w ∈ weights, Scalar.le Scalar.zero w = true)

include h hsize hw

theorem WellFormed.toList_row (r : Nat) (hr : r < g.size) :
    ((ofEntries g.size (g.entriesByColumn weights)).row r).toList =
      (g.followedInto weights r).map fun e => (e.1, g.likelihood weights e) := by
  rw [toList_row_ofEntries hr, h.entriesByColumn_eq hsize hw, ← map_mergeSort_edges,
    List.filter_map, List.map_map]
  exact congrArg _ (h.filter_sorted_edges weights r)

/-- **The product by edges.** On every digraph, with weights that are not negative, the matrix has
its rows one behind the other and an entry for each edge that is followed. Its product with a vector
has for each node the factor times a sum over the edges to that node that are followed, in ascending
order of their sources: of how likely the edge is to be followed, times the number of its source. -/
theorem WellFormed.ofDigraph?_product :
    ∃ m, ofDigraph? g weights = some m ∧ m.size = g.size ∧ m.WellFormed ∧
      m.entryCount = (g.followedEdges weights).length ∧
      ∀ (v : Array α) (factor : α), v.size = g.size →
        ∃ product, m.scaledProduct? v factor = some product ∧ product.size = g.size ∧
          ∀ r < g.size, product[r]? = some (factor *
            Scalar.sum ((g.followedInto weights r).map
              fun e => g.likelihood weights e * numberAt v e.1)) := by
  have hm : (ofEntries g.size (g.entriesByColumn weights)).WellFormed :=
    TransitionMatrix.WellFormed.ofEntries fun e he => h.bounds_of_mem_entriesByColumn he
  refine ⟨_, h.ofDigraph?_eq hsize, rfl, hm, ?_, ?_⟩
  · rw [h.entriesByColumn_eq hsize hw, entryCount, ofEntries, List.size_toArray, List.length_map,
      List.length_mergeSort, List.length_map]
    exact (h.followedByColumn_perm weights).length_eq
  · intro v factor hv
    refine ⟨_, hm.scaledProduct?_eq hv.ge factor, by simp [ofEntries], fun r hr => ?_⟩
    have hrow : (ofEntries g.size (g.entriesByColumn weights)).rowSum v r =
        Scalar.sum ((g.followedInto weights r).map
          fun e => g.likelihood weights e * numberAt v e.1) := by
      rw [rowSum, h.toList_row hsize hw r hr, List.map_map]
      rfl
    rw [Array.getElem?_map, Array.getElem?_range, ← hrow]
    simp [ofEntries, hr]

end Product

/-- A node with a loop and two ways to another, from which the only way out weighs nothing. -/
def loopAndDetour : Digraph := ⟨4, [(0, 1), (1, 3), (0, 0), (2, 0), (0, 1)]⟩

theorem ofDigraph?_product_loopAndDetour :
    loopAndDetour.WellFormed ∧ (∀ w ∈ #[(1 : ℚ), 2, 5, 0, 7], Scalar.le Scalar.zero w = true) ∧
      ∃ m, ofDigraph? loopAndDetour #[(1 : ℚ), 2, 5, 0, 7] = some m ∧ m.entryCount = 4 ∧
        ∃ product, m.scaledProduct? #[1 / 2, 1 / 4, 1 / 8, 1 / 8] (17 / 20) = some product ∧
          product[0]? = some (17 / 20 * (1 / 5 * (1 / 2) + 1 * (1 / 8))) := by
  have hg : loopAndDetour.WellFormed := by decide
  have hw : ∀ w ∈ #[(1 : ℚ), 2, 5, 0, 7], Scalar.le Scalar.zero w = true := by decide +kernel
  have hfollowed : loopAndDetour.followedEdges #[(1 : ℚ), 2, 5, 0, 7] =
      [(0, 1), (0, 0), (2, 0), (0, 1)] := by decide +kernel
  have hinto : loopAndDetour.followedInto #[(1 : ℚ), 2, 5, 0, 7] 0 = [(0, 0), (2, 0)] := by
    rw [followedInto, hfollowed]
    exact List.mergeSort_of_pairwise (by decide)
  obtain ⟨m, hm, -, -, hcount, hproduct⟩ := hg.ofDigraph?_product (by decide) hw
  obtain ⟨product, hsome, -, hrow⟩ := hproduct #[1 / 2, 1 / 4, 1 / 8, 1 / 8] (17 / 20) rfl
  refine ⟨hg, hw, m, hm, by rw [hcount, hfollowed]; rfl, product, hsome, ?_⟩
  rw [hrow 0 (by decide), hinto]
  decide +kernel

end Digraph

end EffortRank
