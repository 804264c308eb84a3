import EffortRank.Proofs.Rank.Entries
import EffortRank.Rank.Iteration

/-!
# Walks end

Over any scalars, doubles included, an iteration comes to its end with a number for each node: a
round takes a vector with a number for each node to another one (`exists_rankRound?`), whatever
the teleport distribution is and whatever is configured. No number is read that is not there
(`Digraph.WellFormed.exists_pagerank?`, `Digraph.WellFormed.exists_weightedRank?`).
-/

namespace EffortRank

open TransitionMatrix

variable {α : Type} [Scalar α]

variable {m : TransitionMatrix α} {v : Array α}

theorem TransitionMatrix.WellFormed.exists_scaledProduct? (h : m.WellFormed)
    (hv : v.size = m.size) (factor : α) :
    ∃ product, m.scaledProduct? v factor = some product ∧ product.size = m.size :=
  ⟨_, h.scaledProduct?_eq hv.ge factor, by simp⟩

theorem size_addTeleport (v : Array α) (mass : α) (teleport : Array α) :
    (addTeleport v mass teleport).size = v.size := by
  rw [addTeleport, Array.size_mapIdx]

theorem exists_rankRound? (h : m.WellFormed) (hv : v.size = m.size) (teleport : Array α)
    (alpha : α) :
    ∃ next, rankRound? m teleport alpha v = some next ∧ next.size = m.size := by
  obtain ⟨stepped, hstepped, hsize⟩ := h.exists_scaledProduct? hv alpha
  rw [rankRound?, hstepped]
  exact ⟨_, rfl, (size_addTeleport _ _ _).trans hsize⟩

theorem exists_iterateFrom? (h : m.WellFormed) (hv : v.size = m.size) (teleport : Array α)
    (config : RankConfig α) (done left : Nat) :
    ∃ outcome, iterateFrom? m teleport config done v left = some outcome ∧
      outcome.ranks.size = m.size := by
  induction left generalizing done v with
  | zero => exact ⟨_, rfl, hv⟩
  | succ left ih =>
    obtain ⟨next, hnext, hsize⟩ := exists_rankRound? h hv teleport config.alpha
    rw [iterateFrom?, hnext]
    dsimp only
    split
    · exact ⟨_, rfl, hsize⟩
    · exact ih hsize (done + 1)

theorem exists_powerIterate? (h : m.WellFormed) (teleport : Array α) (config : RankConfig α) :
    ∃ outcome, powerIterate? m teleport config = some outcome ∧ outcome.ranks.size = m.size := by
  unfold powerIterate?
  split
  · rename_i hzero
    exact ⟨_, rfl, hzero.symm⟩
  · exact exists_iterateFrom? h Array.size_replicate teleport config 0 config.maxRounds

namespace Digraph.WellFormed

variable {g : Digraph} (hg : g.WellFormed)

include hg

/-- **A digraph has a matrix**, for weights of which there is one for each node. -/
theorem exists_ofDigraph? {weights : Array α} (hsize : g.size ≤ weights.size) :
    ∃ m, ofDigraph? g weights = some m ∧ m.size = g.size ∧ m.WellFormed :=
  ⟨_, hg.ofDigraph?_eq hsize, rfl,
    TransitionMatrix.WellFormed.ofEntries fun _ he => hg.bounds_of_mem_entriesByColumn he⟩

theorem exists_pagerank? (config : RankConfig α) :
    ∃ ranks, pagerank? g config = some ranks ∧ ranks.size = g.size := by
  have hones : (Array.replicate g.size (Scalar.one : α)).size = g.size := Array.size_replicate
  obtain ⟨m, hm, hsize, hwell⟩ := hg.exists_ofDigraph? hones.ge
  obtain ⟨outcome, houtcome, hranks⟩ := exists_powerIterate? hwell (uniform g.size) config
  refine ⟨outcome.ranks, ?_, hranks.trans hsize⟩
  rw [pagerank?, hm, Option.bind_eq_bind, Option.bind_some, houtcome]
  rfl

theorem exists_weightedRank? {weights : Array α} (hweights : weights.size = g.size)
    (config : RankConfig α) :
    ∃ ranks, weightedRank? g weights config = some ranks ∧ ranks.size = g.size := by
  unfold weightedRank?
  split
  · rename_i hzero
    exact ⟨#[], rfl, hzero.symm⟩
  · obtain ⟨m, hm, hsize, hwell⟩ := hg.exists_ofDigraph? hweights.ge
    obtain ⟨outcome, houtcome, hranks⟩ :=
      exists_powerIterate? hwell (teleportOf g.size weights) config
    refine ⟨outcome.ranks, ?_, hranks.trans hsize⟩
    rw [hm, Option.bind_eq_bind, Option.bind_some, houtcome]
    rfl

end Digraph.WellFormed

end EffortRank
