import EffortRank.Proofs.Rank.Rounds

/-!
# Ranks are distributions

The ranks start as a distribution, and a round keeps them one: the jump puts back just the mass that
the step lost, whether to damping or to nodes without a way out. So the ranks are a distribution
wherever the iteration stops (`powerIterate?_isDistribution`).
-/

namespace EffortRank

open Matrix TransitionMatrix

/-- The numbers are the shares that `n` nodes have of a whole. -/
structure IsDistribution (n : Nat) (v : Array ℚ) : Prop where
  size_eq : v.size = n
  nonneg : ∀ x ∈ v, 0 ≤ x
  sum_eq : v.toList.sum = 1

instance (n : Nat) (v : Array ℚ) : Decidable (IsDistribution n v) :=
  decidable_of_iff (v.size = n ∧ (∀ x ∈ v, 0 ≤ x) ∧ v.toList.sum = 1)
    ⟨fun ⟨hsize, hnonneg, hsum⟩ => ⟨hsize, hnonneg, hsum⟩, fun h => ⟨h.1, h.2, h.3⟩⟩

variable {n : Nat}

theorem isDistribution_ofFn {x : Fin n → ℚ} :
    IsDistribution n (Array.ofFn x) ↔ x ∈ stdSimplex ℚ (Fin n) := by
  constructor
  · intro h
    constructor
    · intro i
      exact h.nonneg _ (Array.mem_ofFn.2 ⟨i, rfl⟩)
    · rw [← List.sum_ofFn, ← Array.toList_ofFn]
      exact h.sum_eq
  · intro h
    refine ⟨Array.size_ofFn, ?_, ?_⟩
    · intro v hv
      obtain ⟨i, rfl⟩ := Array.mem_ofFn.1 hv
      exact h.1 i
    · rw [Array.toList_ofFn, List.sum_ofFn]
      exact h.2

theorem IsDistribution.exists_eq {v : Array ℚ} (h : IsDistribution n v) :
    ∃ x ∈ stdSimplex ℚ (Fin n), v = Array.ofFn x := by
  obtain ⟨x, rfl⟩ := exists_eq_ofFn h.size_eq
  exact ⟨x, isDistribution_ofFn.1 h, rfl⟩

/-! ## Where the walker starts and jumps to -/

/-- The same share for each node. -/
def uniformShares (n : Nat) : Fin n → ℚ := fun _ => 1 / n

theorem uniform_eq (n : Nat) : uniform n = Array.ofFn (uniformShares n) := by
  refine Array.ext (by simp [uniform]) fun i hi _ => ?_
  rw [Array.getElem_ofFn]
  simp only [uniform, Array.getElem_replicate]
  rfl

theorem uniformShares_mem (hn : 0 < n) : uniformShares n ∈ stdSimplex ℚ (Fin n) := by
  have hne : (n : ℚ) ≠ 0 := Nat.cast_ne_zero.2 hn.ne'
  constructor
  · intro i
    exact div_nonneg zero_le_one (Nat.cast_nonneg n)
  · simp only [uniformShares, Finset.sum_const, Finset.card_univ, Fintype.card_fin, nsmul_eq_mul]
    exact mul_one_div_cancel hne

theorem isDistribution_uniform (hn : 0 < n) : IsDistribution n (uniform n) := by
  rw [uniform_eq]
  exact isDistribution_ofFn.2 (uniformShares_mem hn)

/-- The share of each weight in their sum; without weight all nodes have the same share. -/
def weightShares (w : Fin n → ℚ) : Fin n → ℚ :=
  if 0 < ∑ i, w i then fun i => w i / ∑ j, w j else uniformShares n

theorem teleportOf_ofFn (w : Fin n → ℚ) :
    teleportOf n (Array.ofFn w) = Array.ofFn (weightShares w) := by
  unfold teleportOf weightShares
  rw [arraySum_ofFn, Scalar.zero_eq]
  dsimp only
  by_cases hpos : (0 : ℚ) < ∑ i, w i
  · rw [if_pos (Scalar.lt_iff.2 hpos), if_pos hpos, Array.map_ofFn]
    rfl
  · rw [if_neg fun h => hpos (Scalar.lt_iff.1 h), if_neg hpos, uniform_eq]

theorem weightShares_mem (hn : 0 < n) {w : Fin n → ℚ} (hw : ∀ i, 0 ≤ w i) :
    weightShares w ∈ stdSimplex ℚ (Fin n) := by
  unfold weightShares
  split_ifs with hpos
  · constructor
    · intro i
      exact div_nonneg (hw i) hpos.le
    · exact (Finset.sum_div _ _ _).symm.trans (div_self hpos.ne')
  · exact uniformShares_mem hn

theorem isDistribution_teleportOf (hn : 0 < n) {weights : Array ℚ} (hsize : weights.size = n)
    (hw : ∀ w ∈ weights, 0 ≤ w) : IsDistribution n (teleportOf n weights) := by
  obtain ⟨w, rfl⟩ := exists_eq_ofFn hsize
  rw [teleportOf_ofFn, isDistribution_ofFn]
  apply weightShares_mem hn
  intro i
  exact hw _ (Array.mem_ofFn.2 ⟨i, rfl⟩)

/-! ## Where the iteration ends -/

theorem powerIterate?_ofFn (hn : 0 < n) {entries : List (MatrixEntry ℚ)}
    (hcolumns : ∀ e ∈ entries, e.column < n) (t : Fin n → ℚ) (config : RankConfig ℚ) :
    ∃ k converged,
      powerIterate? (ofEntries n entries) (Array.ofFn t) config =
        some ⟨Array.ofFn ((rankRound (ofList n entries) t config.alpha)^[k] (uniformShares n)), k,
          converged⟩ ∧
      StopsAfter (rankRound (ofList n entries) t config.alpha) config.epsilon (uniformShares n)
        config.maxRounds k converged := by
  obtain ⟨k, converged, hresult, hstops⟩ :=
    iterateFrom?_ofFn hcolumns t config 0 (uniformShares n) config.maxRounds
  refine ⟨k, converged, ?_, hstops⟩
  rw [Nat.zero_add, ← uniform_eq] at hresult
  rw [powerIterate?, ← hresult]
  exact if_neg hn.ne'

variable {g : Digraph} {weights : Array ℚ} {config : RankConfig ℚ}

/-- The walk over a digraph ends with a distribution, wherever the walker jumps to. -/
theorem Digraph.WellFormed.walk_isDistribution (hg : g.WellFormed) (hn : 0 < g.size)
    (hsize : weights.size = g.size) (hw : ∀ w ∈ weights, 0 ≤ w) (ha : 0 ≤ config.alpha)
    (ha1 : config.alpha ≤ 1) {teleport : Array ℚ} (ht : IsDistribution g.size teleport) :
    ∃ m outcome, ofDigraph? g weights = some m ∧ powerIterate? m teleport config = some outcome ∧
      IsDistribution g.size outcome.ranks := by
  obtain ⟨t, hsimplex, rfl⟩ := ht.exists_eq
  obtain ⟨entries, hentries, hcolumns, hsteps⟩ := hg.exists_entries hsize
  obtain ⟨k, converged, hresult, -⟩ := powerIterate?_ofFn hn hcolumns t config
  refine ⟨_, _, hentries, hresult, isDistribution_ofFn.2 ?_⟩
  exact (hsteps hw).iterate_mem hsimplex ha ha1 (uniformShares_mem hn) k

/-- **Ranks are distributions.** On every digraph with nodes, with weights that are not negative,
and wherever the walker jumps to, the iteration ends with as many numbers as there are nodes, none
of them negative, which add up to one. So do the ranks with equal and with given weights. -/
theorem powerIterate?_isDistribution (hg : g.WellFormed) (hn : 0 < g.size)
    (hsize : weights.size = g.size) (hw : ∀ w ∈ weights, 0 ≤ w) (ha : 0 ≤ config.alpha)
    (ha1 : config.alpha ≤ 1) :
    (∀ teleport, IsDistribution g.size teleport →
      ∃ m outcome, ofDigraph? g weights = some m ∧
        powerIterate? m teleport config = some outcome ∧
          IsDistribution g.size outcome.ranks) ∧
      (∃ ranks, pagerank? g config = some ranks ∧ IsDistribution g.size ranks) ∧
        ∃ ranks, weightedRank? g weights config = some ranks ∧ IsDistribution g.size ranks := by
  refine ⟨?_, ?_, ?_⟩
  · intro teleport ht
    exact hg.walk_isDistribution hn hsize hw ha ha1 ht
  · have hones : ∀ w ∈ Array.replicate g.size (Scalar.one : ℚ), 0 ≤ w := by
      intro w hmem
      rw [(Array.mem_replicate.1 hmem).2]
      exact Nat.cast_nonneg 1
    obtain ⟨m, outcome, hm, houtcome, hranks⟩ :=
      hg.walk_isDistribution hn Array.size_replicate hones ha ha1 (isDistribution_uniform hn)
    refine ⟨outcome.ranks, ?_, hranks⟩
    rw [pagerank?, hm, Option.bind_eq_bind, Option.bind_some, houtcome]
    rfl
  · obtain ⟨m, outcome, hm, houtcome, hranks⟩ :=
      hg.walk_isDistribution hn hsize hw ha ha1 (isDistribution_teleportOf hn hsize hw)
    refine ⟨outcome.ranks, ?_, hranks⟩
    rw [weightedRank?, if_neg hn.ne', hm, Option.bind_eq_bind, Option.bind_some, houtcome]
    rfl

/-- A node with a loop and two ways to the next, a node with one way back, and one that is a dead
end. -/
theorem powerIterate?_isDistribution_parallel_edges :
    Digraph.WellFormed ⟨3, [(0, 0), (0, 1), (0, 1), (1, 0), (1, 2)]⟩ ∧
      IsDistribution 3 #[1 / 2, 0, 1 / 2] ∧
      ∃ m outcome, ofDigraph? ⟨3, [(0, 0), (0, 1), (0, 1), (1, 0), (1, 2)]⟩ #[1, 2, 3] = some m ∧
        powerIterate? m #[1 / 2, 0, 1 / 2] ⟨17 / 20, 1 / 100, 300⟩ = some outcome ∧
          IsDistribution 3 outcome.ranks := by
  have hg : Digraph.WellFormed ⟨3, [(0, 0), (0, 1), (0, 1), (1, 0), (1, 2)]⟩ := by decide
  have ht : IsDistribution 3 #[1 / 2, 0, 1 / 2] := by decide +kernel
  have hw : ∀ w ∈ #[(1 : ℚ), 2, 3], 0 ≤ w := by decide +kernel
  exact ⟨hg, ht, (powerIterate?_isDistribution hg (by decide) rfl hw (by norm_num)
    (by norm_num)).1 _ ht⟩

end EffortRank
