import EffortRank.Proofs.Rank.Distribution
import EffortRank.Proofs.Rank.Keys

/-!
# Relative weights

A walker chooses a step and a jump by the shares of weights in sums of weights. So it does not
matter in which unit weights are measured (`Digraph.WellFormed.weightedRank?_smul`), and with equal
weights the walk is the one that knows no weights (`Digraph.WellFormed.weightedRank?_const`). In a
call graph all of whose functions took the same effort, effort says no more than calls do
(`CallGraph.WellFormed.functionRanks_eq_centrality`).
-/

namespace EffortRank

open TransitionMatrix

/-! ## Another unit -/

section Unit

variable {n : Nat} {c : ℚ} (hc : 0 < c)

theorem coordinate_smul (c : ℚ) (w : Fin n → ℚ) (i : Nat) :
    coordinate (c • w) i = c * coordinate w i := by
  unfold coordinate
  split
  · rfl
  · exact (mul_zero c).symm

include hc

/-- The unit cancels out in each share of a column. -/
theorem columnEntries_smul (w : Fin n → ℚ) (column : Nat) (targets : List Nat) :
    columnEntries (c • w) column targets = columnEntries w column targets := by
  have htotal : (targets.map (coordinate (c • w))).sum = c * (targets.map (coordinate w)).sum := by
    rw [← List.sum_map_mul_left, funext (coordinate_smul c w)]
  have hsign : c * (targets.map (coordinate w)).sum ≤ 0 ↔ (targets.map (coordinate w)).sum ≤ 0 :=
    mul_nonpos_iff_pos_imp_nonpos.trans ⟨fun h => h.1 hc, fun h => ⟨fun _ => h, fun _ => hc.le⟩⟩
  unfold columnEntries
  rw [htotal]
  refine if_congr hsign rfl (List.map_congr_left fun row _ => ?_)
  rw [coordinate_smul, mul_div_mul_left _ _ hc.ne']

theorem weightShares_smul (w : Fin n → ℚ) : weightShares (c • w) = weightShares w := by
  have htotal : ∑ i, (c • w) i = c * ∑ i, w i := (Finset.mul_sum _ _ _).symm
  unfold weightShares
  rw [htotal]
  refine if_congr (mul_pos_iff_of_pos_left hc) (funext fun i => ?_) rfl
  exact mul_div_mul_left _ _ hc.ne'

/-- **Ranks depend on relative weights only.** -/
theorem Digraph.WellFormed.weightedRank?_smul {g : Digraph} (hg : g.WellFormed)
    {weights : Array ℚ} (hsize : weights.size = g.size) (config : RankConfig ℚ) :
    weightedRank? g (weights.map fun w => c * w) config = weightedRank? g weights config := by
  obtain ⟨w, rfl⟩ := exists_eq_ofFn hsize
  have hscaled : (Array.ofFn w).map (fun x => c * x) = Array.ofFn (c • w) := Array.map_ofFn
  have hentries : g.entries (c • w) = g.entries w := by
    unfold entries
    simp only [columnEntries_smul hc]
  unfold weightedRank?
  rw [hscaled, hg.ofDigraph?_ofFn, hg.ofDigraph?_ofFn, hentries, teleportOf_ofFn, teleportOf_ofFn,
    weightShares_smul hc]

end Unit

/-! ## Equal weights -/

theorem replicate_one (n : Nat) :
    Array.replicate n (Scalar.one : ℚ) = Array.ofFn fun _ : Fin n => 1 := by
  refine Array.ext (by simp) fun i _ _ => ?_
  rw [Array.getElem_replicate, Array.getElem_ofFn]
  exact Nat.cast_one

theorem weightShares_one (n : Nat) : weightShares (fun _ : Fin n => 1) = uniformShares n := by
  unfold weightShares
  split
  · funext i
    simp [uniformShares]
  · rfl

namespace Digraph.WellFormed

variable {g : Digraph} (hg : g.WellFormed)

include hg

/-- With equal weights a jump goes to all nodes alike. -/
theorem weightedRank?_one (config : RankConfig ℚ) :
    weightedRank? g (Array.replicate g.size Scalar.one) config = pagerank? g config := by
  by_cases hn : g.size = 0
  · obtain ⟨ranks, hranks, hsize⟩ := hg.exists_pagerank? config
    rw [hranks, weightedRank?, if_pos hn, Array.eq_empty_of_size_eq_zero (hsize.trans hn)]
  · rw [weightedRank?, if_neg hn, pagerank?, replicate_one, teleportOf_ofFn, weightShares_one,
      uniform_eq]

/-- **Equal weights are no weights.** -/
theorem weightedRank?_const {weights : Array ℚ} (hsize : weights.size = g.size) {x : ℚ}
    (hx : 0 < x) (hequal : ∀ w ∈ weights, w = x) (config : RankConfig ℚ) :
    weightedRank? g weights config = pagerank? g config := by
  have hweights : weights = (Array.replicate g.size (Scalar.one : ℚ)).map fun w => x * w := by
    rw [Array.map_replicate, Array.eq_replicate_iff]
    refine ⟨hsize, fun w hw => (hequal w hw).trans ?_⟩
    exact (mul_one x).symm
  rw [hweights, hg.weightedRank?_smul hx Array.size_replicate, hg.weightedRank?_one]

end Digraph.WellFormed

/-- **Functions of the same effort** are ranked by calls alone. -/
theorem CallGraph.WellFormed.functionRanks_eq_centrality {g : CallGraph} (h : g.WellFormed)
    {blacklist : Blacklist} {effort : Nat}
    (heffort : ∀ node ∈ g.nodes, node.effort blacklist = effort) (config : RankConfig ℚ) :
    g.functionRanks config blacklist = g.centrality config := by
  have hpos : (0 : ℚ) < max effort 1 := Nat.cast_pos.2 (Nat.le_max_right effort 1)
  have hequal : ∀ w ∈ (g.weights blacklist : Array ℚ), w = (max effort 1 : Nat) := by
    intro w hw
    rw [weights, List.mem_toArray, List.mem_map] at hw
    obtain ⟨node, hnode, rfl⟩ := hw
    have hone : 1 ≤ node.effort blacklist := Nat.le_max_right _ 1
    rw [← heffort node hnode, Nat.max_eq_left hone]
    rfl
  rw [functionRanks, centrality,
    h.digraph.weightedRank?_const (g.size_weights blacklist) hpos hequal]

/-! ## Ranks -/

/-- **Ranks depend on relative weights only, and generalize the ranks without weights.** On every
digraph and with positive weights, the ranks are the same in any unit of weight, and those of
`pagerank?` if all weights are equal. So on every graph that requests lead to, if all functions took
the same effort, their ranks are told and are those by calls alone. -/
theorem weightedRank?_relative (config : RankConfig ℚ) :
    (∀ (g : Digraph) (weights : Array ℚ), g.WellFormed → weights.size = g.size →
      (∀ w ∈ weights, 0 < w) →
      ∃ ranks, weightedRank? g weights config = some ranks ∧ ranks.size = g.size ∧
        (∀ c, 0 < c → weightedRank? g (weights.map fun w => c * w) config = some ranks) ∧
        ((∀ w ∈ weights, ∀ w' ∈ weights, w = w') → pagerank? g config = some ranks)) ∧
      ∀ (requests : List GraphRequest) (blacklist : Blacklist) (effort : Nat),
        let g := CallGraph.empty.run requests
        (∀ node ∈ g.nodes, g.nodeEffort node.name blacklist = .ok effort) →
        ∃ told, g.effortRanks? config blacklist = some told ∧
          told.functions = g.centrality config := by
  constructor
  · intro g weights hg hsize hw
    obtain ⟨ranks, hranks, hcount⟩ := hg.exists_weightedRank? hsize config
    refine ⟨ranks, hranks, hcount, ?_, ?_⟩
    · intro c hc
      rw [hg.weightedRank?_smul hc hsize, hranks]
    · intro hequal
      obtain ⟨x, hx, hall⟩ : ∃ x, 0 < x ∧ ∀ w ∈ weights, w = x := by
        by_cases hn : weights = #[]
        · exact ⟨1, one_pos, by simp [hn]⟩
        · obtain ⟨x, hx⟩ := Array.exists_mem_of_ne_empty weights hn
          exact ⟨x, hw x hx, fun w hw => hequal w hw x hx⟩
      rw [← hranks, hg.weightedRank?_const hsize hx hall]
  · intro requests blacklist effort g heffort
    have h : g.WellFormed := CallGraph.WellFormed.empty.run requests
    have hnode : ∀ node ∈ g.nodes, countFits (node.effort blacklist) = true ∧
        node.effort blacklist = effort := by
      intro node hnode
      have hfound : g.node? node.name = some node := h.node?_eq_some_iff.2 ⟨hnode, rfl⟩
      have hok := heffort node hnode
      rw [CallGraph.nodeEffort_of_node? hfound, Halt.ofFitting_eq_ok_iff,
        fitting_eq_some_iff] at hok
      exact hok
    have hfits : g.effortsFit blacklist = true :=
      List.all_eq_true.2 fun node hmem => (hnode node hmem).1
    refine ⟨g.effortRanks config blacklist, fitting_eq_some_iff.2 ⟨hfits, rfl⟩, ?_⟩
    exact h.functionRanks_eq_centrality (fun node hmem => (hnode node hmem).2) config

/-- Parallel edges and a dead end in another unit, and two functions with three changed lines each,
one of which calls the other. -/
theorem weightedRank?_relative_dead_end :
    let config : RankConfig ℚ := ⟨17 / 20, 1 / 100, 300⟩
    let d : Digraph := ⟨3, [(0, 1), (0, 1), (1, 0), (1, 2)]⟩
    let g := CallGraph.empty.run [.addCommit ⟨"c", "", "", "", none⟩, .addNode "f" [],
      .addNode "g" [], .addEdge "f" "g", .recordHistory "f" ⟨2, 1, none, none⟩,
      .recordHistory "g" ⟨0, 3, none, none⟩]
    (∃ ranks, weightedRank? d #[2, 2, 2] config = some ranks ∧
      weightedRank? d #[3, 3, 3] config = some ranks ∧ pagerank? d config = some ranks) ∧
      g.nodes.length = 2 ∧ (∀ node ∈ g.nodes, g.nodeEffort node.name [] = .ok 3) ∧
      ∃ told, g.effortRanks? config [] = some told ∧ told.functions = g.centrality config := by
  intro config d g
  have hd : d.WellFormed := by decide
  have hpos : ∀ w ∈ #[(2 : ℚ), 2, 2], 0 < w := by decide +kernel
  have hequal : ∀ w ∈ #[(2 : ℚ), 2, 2], ∀ w' ∈ #[(2 : ℚ), 2, 2], w = w' := by decide +kernel
  have hscaled : #[(2 : ℚ), 2, 2].map (fun w => 3 / 2 * w) = #[3, 3, 3] := by decide +kernel
  have heffort : ∀ node ∈ g.nodes, g.nodeEffort node.name [] = .ok 3 := by decide
  obtain ⟨ranks, hranks, -, hunit, hplain⟩ :=
    (weightedRank?_relative config).1 d #[2, 2, 2] hd rfl hpos
  refine ⟨⟨ranks, hranks, ?_, hplain hequal⟩, by decide, heffort,
    (weightedRank?_relative config).2 _ [] 3 heffort⟩
  rw [← hscaled]
  exact hunit (3 / 2) (by norm_num)

end EffortRank
