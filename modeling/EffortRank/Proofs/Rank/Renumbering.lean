import EffortRank.Proofs.Rank.RelativeWeights
import EffortRank.Proofs.Rank.SparseProduct

/-!
# Other numbers for the nodes

The nodes of a digraph have numbers, and its edges an order. Neither matters to the walker. Of the
edges from one node to another only their count enters the matrix
(`Digraph.WellFormed.steps_apply`). So if two digraphs are one under a renumbering of their nodes
(`Digraph.Renumbered`), their matrices are too (`Digraph.Renumbered.steps_submatrix`). A round
commutes with the renumbering (`rankRound_comp`) and changes as much under new numbers as under old
ones (`change_comp`), so that both walks stop in the same round (`StopsAfter.unique`), with the same
rank for a node under either number (`Digraph.Renumbered.exists_weightedRank?`).
-/

namespace EffortRank

open Matrix TransitionMatrix

/-! ## Steps by the number of edges -/

namespace Digraph

variable {g : Digraph}

theorem count_targetsOf (g : Digraph) (c r : Nat) :
    (g.targetsOf c).count r = g.edges.count (c, r) := by
  rw [← List.count_map_of_injective _ (Prod.mk c) (Prod.mk_right_injective c), map_targetsOf,
    List.count_reverse, List.count_filter]
  exact decide_eq_true rfl

/-- The targets with one number are parallel edges. -/
theorem filter_targetsOf (g : Digraph) (c r : Nat) :
    (g.targetsOf c).filter (fun row => row = r) = List.replicate (g.edges.count (c, r)) r := by
  rw [← count_targetsOf]
  exact List.filter_eq r

/-- What the ways out of a node weigh together: the weight of each node, as often as an edge leads
there. -/
theorem WellFormed.sum_targetsOf (h : g.WellFormed) (w : Fin g.size → ℚ) (c : Nat) :
    ((g.targetsOf c).map (coordinate w)).sum =
      ∑ r : Fin g.size, g.edges.count (c, r.val) * w r := by
  have hrows : ∀ row ∈ g.targetsOf c, id row < g.size := fun row hrow => h.lt_of_mem_targetsOf hrow
  rw [← sum_filter_key hrows]
  apply Finset.sum_congr rfl
  intro r _
  dsimp only [id]
  rw [filter_targetsOf, List.map_replicate, List.sum_replicate, nsmul_eq_mul, coordinate_val]

/-- **The matrix of a digraph by its edges.** -/
theorem WellFormed.steps_apply (h : g.WellFormed) (w : Fin g.size → ℚ) (r c : Fin g.size) :
    g.steps w r c =
      if ∑ k : Fin g.size, g.edges.count (c.val, k.val) * w k ≤ 0 then 0
      else g.edges.count (c.val, r.val) *
        (w r / ∑ k : Fin g.size, g.edges.count (c.val, k.val) * w k) := by
  have hplace : (g.entries w).filter (fun e => e.row = r.val ∧ e.column = c.val) =
      (columnEntries w c (g.targetsOf c)).filter fun e => e.row = r.val := by
    rw [← filter_entries w c.isLt, List.filter_filter]
    simp only [Bool.decide_and]
  rw [steps, ofList, Matrix.of_apply, hplace, columnEntries, h.sum_targetsOf]
  split_ifs with hle
  · rfl
  · rw [List.filter_map]
    dsimp only [Function.comp_def]
    rw [filter_targetsOf, List.map_replicate, List.map_replicate, List.sum_replicate, nsmul_eq_mul,
      coordinate_val]

end Digraph

/-! ## Vectors under other numbers -/

section Vectors

variable {m n : Nat} (e : Fin m ≃ Fin n)

theorem change_comp (x y : Fin n → ℚ) : change (x ∘ e) (y ∘ e) = change x y :=
  Equiv.sum_comp e fun i => |x i - y i|

theorem rankRound_comp (P : Matrix (Fin n) (Fin n) ℚ) (t : Fin n → ℚ) (a : ℚ) (x : Fin n → ℚ) :
    rankRound (P.submatrix e e) (t ∘ e) a (x ∘ e) = rankRound P t a x ∘ e := by
  have hstep : P.submatrix e e *ᵥ (x ∘ e) = (P *ᵥ x) ∘ e := by
    rw [submatrix_mulVec_equiv, Function.comp_assoc, Equiv.self_comp_symm, Function.comp_id]
  have hmass : ∑ j, |(x ∘ e) j| = ∑ j, |x j| := Equiv.sum_comp e fun j => |x j|
  have hstepped : ∑ j, |a * ((P *ᵥ x) ∘ e) j| = ∑ j, |a * (P *ᵥ x) j| :=
    Equiv.sum_comp e fun j => |a * (P *ᵥ x) j|
  funext i
  rw [rankRound, hstep, hmass, hstepped]
  rfl

theorem uniformShares_comp : uniformShares n ∘ e = uniformShares m := by
  have hsize : m = n := Fin.equiv_iff_eq.1 ⟨e⟩
  subst hsize
  rfl

theorem weightShares_comp (w : Fin n → ℚ) : weightShares (w ∘ e) = weightShares w ∘ e := by
  have htotal : ∑ i, (w ∘ e) i = ∑ i, w i := Equiv.sum_comp e w
  unfold weightShares
  rw [htotal]
  split_ifs
  · rfl
  · exact (uniformShares_comp e).symm

end Vectors

/-! ## Runs under other numbers -/

namespace StopsAfter

variable {n : Nat} {F : (Fin n → ℚ) → Fin n → ℚ} {epsilon : ℚ} {x : Fin n → ℚ} {left k k' : Nat}
  {converged converged' : Bool}

theorem le_rounds (h : StopsAfter F epsilon x left k converged)
    (h' : StopsAfter F epsilon x left k' converged') : k' ≤ k := by
  cases converged with
  | false =>
    rw [(h.runs_out rfl).1]
    exact h'.le
  | true =>
    obtain ⟨j, rfl, hsmall⟩ := h.stops rfl
    exact (h'.converged_of_lt h.le hsmall).2

/-- A run stops in one place only. -/
theorem unique (h : StopsAfter F epsilon x left k converged)
    (h' : StopsAfter F epsilon x left k' converged') : k = k' :=
  Nat.le_antisymm (h'.le_rounds h) (h.le_rounds h')

end StopsAfter

section Runs

variable {m n : Nat} {e : Fin m ≃ Fin n} {F : (Fin n → ℚ) → Fin n → ℚ}
  {G : (Fin m → ℚ) → Fin m → ℚ} (hG : ∀ y, G (y ∘ e) = F y ∘ e)

include hG

theorem iterate_comp (k : Nat) (x : Fin n → ℚ) : G^[k] (x ∘ e) = F^[k] x ∘ e := by
  have hsemiconj : Function.Semiconj (fun y : Fin n → ℚ => y ∘ e) F G := fun y => (hG y).symm
  exact (hsemiconj.iterate_right k x).symm

/-- Rounds under other numbers stop where the rounds do. -/
theorem StopsAfter.of_comp {epsilon : ℚ} {x : Fin n → ℚ} {left k : Nat} {converged : Bool}
    (h : StopsAfter G epsilon (x ∘ e) left k converged) :
    StopsAfter F epsilon x left k converged := by
  have hchange : ∀ j, change (G^[j + 1] (x ∘ e)) (G^[j] (x ∘ e)) =
      change (F^[j + 1] x) (F^[j] x) := by
    intro j
    rw [iterate_comp hG, iterate_comp hG, change_comp]
  obtain ⟨hle, hgoes, hstops, hruns⟩ := h
  simp only [hchange] at hgoes hstops hruns
  exact ⟨hle, hgoes, hstops, hruns⟩

end Runs

/-! ## Digraphs under other numbers -/

namespace Digraph

/-- The walk goes through the rounds until it stops. -/
theorem WellFormed.weightedRank?_ofFn {g : Digraph} (h : g.WellFormed) (hn : 0 < g.size)
    (w : Fin g.size → ℚ) (config : RankConfig ℚ) :
    ∃ k converged,
      weightedRank? g (Array.ofFn w) config =
        some (Array.ofFn ((rankRound (g.steps w) (weightShares w) config.alpha)^[k]
          (uniformShares g.size))) ∧
      StopsAfter (rankRound (g.steps w) (weightShares w) config.alpha) config.epsilon
        (uniformShares g.size) config.maxRounds k converged := by
  have hcolumns : ∀ entry ∈ g.entries w, entry.column < g.size := by
    intro entry hentry
    exact (h.bounds_of_mem_entries hentry).2
  obtain ⟨k, converged, hresult, hstops⟩ :=
    powerIterate?_ofFn hn hcolumns (weightShares w) config
  refine ⟨k, converged, ?_, hstops⟩
  rw [weightedRank?, if_neg hn.ne', h.ofDigraph?_ofFn, teleportOf_ofFn, Option.bind_eq_bind,
    Option.bind_some, hresult]
  rfl

/-- Under the numbers that `e` gives to the nodes of `g`, there are as many edges of `h` between any
two of them. -/
def Renumbered (g h : Digraph) (e : Fin g.size ≃ Fin h.size) : Prop :=
  ∀ c r, h.edges.count ((e c).val, (e r).val) = g.edges.count (c.val, r.val)

namespace Renumbered

variable {g h : Digraph} {e : Fin g.size ≃ Fin h.size} (he : g.Renumbered h e) (hg : g.WellFormed)
  (hh : h.WellFormed)

include he hg hh

theorem steps_submatrix (w : Fin h.size → ℚ) :
    (h.steps w).submatrix e e = g.steps (w ∘ e) := by
  have htotal : ∀ c, ∑ k : Fin h.size, h.edges.count ((e c).val, k.val) * w k =
      ∑ k : Fin g.size, g.edges.count (c.val, k.val) * (w ∘ e) k := by
    intro c
    rw [← Equiv.sum_comp e]
    exact Finset.sum_congr rfl fun k _ => by rw [he, Function.comp_apply]
  ext r c
  rw [submatrix_apply, hh.steps_apply, hg.steps_apply, htotal, he]
  rfl

/-- **Ranks follow the nodes**, whichever numbers these have. -/
theorem exists_weightedRank? (w : Fin h.size → ℚ) (config : RankConfig ℚ) :
    ∃ x : Fin h.size → ℚ, weightedRank? h (Array.ofFn w) config = some (Array.ofFn x) ∧
      weightedRank? g (Array.ofFn (w ∘ e)) config = some (Array.ofFn (x ∘ e)) := by
  have hsize : g.size = h.size := Fin.equiv_iff_eq.1 ⟨e⟩
  rcases Nat.eq_zero_or_pos h.size with hn | hn
  · refine ⟨fun _ => 0, ?_, ?_⟩
    · rw [weightedRank?, if_pos hn, Array.eq_empty_of_size_eq_zero (Array.size_ofFn.trans hn)]
    · rw [weightedRank?, if_pos (hsize.trans hn),
        Array.eq_empty_of_size_eq_zero (Array.size_ofFn.trans (hsize.trans hn))]
  · have hround : ∀ y, rankRound (g.steps (w ∘ e)) (weightShares (w ∘ e)) config.alpha (y ∘ e) =
        rankRound (h.steps w) (weightShares w) config.alpha y ∘ e := by
      intro y
      rw [← he.steps_submatrix hg hh, weightShares_comp, rankRound_comp]
    obtain ⟨k, converged, hresult, hstops⟩ := hh.weightedRank?_ofFn hn w config
    obtain ⟨k', converged', hresult', hstops'⟩ :=
      hg.weightedRank?_ofFn (hn.trans_eq hsize.symm) (w ∘ e) config
    -- Both walks start with all nodes alike, so that the two runs are one.
    rw [← uniformShares_comp e] at hresult' hstops'
    rw [(hstops'.of_comp hround).unique hstops, iterate_comp hround] at hresult'
    exact ⟨_, hresult, hresult'⟩

theorem exists_pagerank? (config : RankConfig ℚ) :
    ∃ x : Fin h.size → ℚ, pagerank? h config = some (Array.ofFn x) ∧
      pagerank? g config = some (Array.ofFn (x ∘ e)) := by
  rw [← hh.weightedRank?_one, ← hg.weightedRank?_one, replicate_one, replicate_one]
  exact he.exists_weightedRank? hg hh (fun _ => 1) config

end Renumbered

end Digraph

end EffortRank
