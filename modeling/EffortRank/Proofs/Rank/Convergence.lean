import EffortRank.Proofs.Rank.Distribution

/-!
# Convergence of the ranks

Each round changes the ranks at most `a` times as much as the one before, and the first changes them
by two at most (`Substochastic.change_iterate_le`, `Substochastic.change_iterate_le_pow`). So below
damping one the changes fall under any bound, and when the iteration stops for that reason its ranks
are close to the only distribution that a round leaves as it is (`powerIterate?_converges`).
-/

namespace EffortRank

open Matrix TransitionMatrix

variable {n : Nat}

/-! ## Changes from round to round -/

section Changes

variable {P : Matrix (Fin n) (Fin n) ℚ} {t x y : Fin n → ℚ} {a : ℚ}

theorem Substochastic.change_iterate_le (hP : Substochastic P) (ht : t ∈ stdSimplex ℚ (Fin n))
    (ha : 0 ≤ a) (ha1 : a ≤ 1) (hx : x ∈ stdSimplex ℚ (Fin n)) (k : Nat) :
    change ((rankRound P t a)^[k + 2] x) ((rankRound P t a)^[k + 1] x) ≤
      a * change ((rankRound P t a)^[k + 1] x) ((rankRound P t a)^[k] x) := by
  have hlater := hP.iterate_mem ht ha ha1 hx (k + 1)
  have hearlier := hP.iterate_mem ht ha ha1 hx k
  rw [Function.iterate_succ_apply' _ (k + 1), Function.iterate_succ_apply' _ k] at *
  exact hP.change_rankRound_le ht ha hlater hearlier

theorem Substochastic.change_iterate_le_pow (hP : Substochastic P) (ht : t ∈ stdSimplex ℚ (Fin n))
    (ha : 0 ≤ a) (ha1 : a ≤ 1) (hx : x ∈ stdSimplex ℚ (Fin n)) (k : Nat) :
    change ((rankRound P t a)^[k + 1] x) ((rankRound P t a)^[k] x) ≤ 2 * a ^ k := by
  induction k with
  | zero =>
    rw [pow_zero, mul_one]
    exact change_le_two (hP.iterate_mem ht ha ha1 hx 1) hx
  | succ k ih =>
    calc change ((rankRound P t a)^[k + 2] x) ((rankRound P t a)^[k + 1] x)
        ≤ a * change ((rankRound P t a)^[k + 1] x) ((rankRound P t a)^[k] x) :=
          hP.change_iterate_le ht ha ha1 hx k
      _ ≤ a * (2 * a ^ k) := mul_le_mul_of_nonneg_left ih ha
      _ = 2 * a ^ (k + 1) := by rw [pow_succ', mul_left_comm]

/-- Below damping one a round leaves no two distributions as they are. -/
theorem Substochastic.fixed_unique (hP : Substochastic P) (ht : t ∈ stdSimplex ℚ (Fin n))
    (ha : 0 ≤ a) (ha1 : a < 1) (hx : x ∈ stdSimplex ℚ (Fin n)) (hy : y ∈ stdSimplex ℚ (Fin n))
    (hfixedx : rankRound P t a x = x) (hfixedy : rankRound P t a y = y) : x = y := by
  have hcloser : change x y ≤ a * change x y := by
    simpa only [hfixedx, hfixedy] using hP.change_rankRound_le ht ha hx hy
  refine eq_of_change_le_zero (le_of_mul_le_mul_left ?_ (sub_pos.2 ha1))
  linarith only [hcloser]

/-- A run that has converged after `k` rounds is near to what a round leaves as it is. -/
theorem Substochastic.change_fixed_le_of_converged (hP : Substochastic P)
    (ht : t ∈ stdSimplex ℚ (Fin n)) (ha : 0 ≤ a) (ha1 : a < 1) (hx : x ∈ stdSimplex ℚ (Fin n))
    (hy : y ∈ stdSimplex ℚ (Fin n)) (hfixed : rankRound P t a y = y) {epsilon : ℚ} {left k : Nat}
    (hstops : StopsAfter (rankRound P t a) epsilon x left k true) :
    change ((rankRound P t a)^[k] x) y ≤ a * epsilon / (1 - a) := by
  obtain ⟨j, rfl, hsmall⟩ := hstops.stops rfl
  have hmem := hP.iterate_mem ht ha ha1.le hx j
  rw [Function.iterate_succ_apply'] at hsmall ⊢
  refine (hP.change_fixed_le ht ha ha1 hmem hy hfixed).trans ?_
  exact div_le_div_of_nonneg_right (mul_le_mul_of_nonneg_left hsmall.le ha) (sub_nonneg.2 ha1.le)

end Changes

/-! ## The iteration -/

/-- The ranks after each number of rounds, from equal ranks on. -/
structure IsRun (m : TransitionMatrix ℚ) (teleport : Array ℚ) (alpha : ℚ)
    (ranks : Nat → Array ℚ) : Prop where
  start : ranks 0 = uniform m.size
  round : ∀ k, rankRound? m teleport alpha (ranks k) = some (ranks (k + 1))

theorem isRun_ofFn {entries : List (MatrixEntry ℚ)} (hcolumns : ∀ e ∈ entries, e.column < n)
    (t : Fin n → ℚ) (alpha : ℚ) :
    IsRun (ofEntries n entries) (Array.ofFn t) alpha fun k =>
      Array.ofFn ((rankRound (ofList n entries) t alpha)^[k] (uniformShares n)) where
  start := (uniform_eq n).symm
  round k := by rw [rankRound?_ofFn hcolumns, Function.iterate_succ_apply']

/-- A distribution that a round leaves as it is, as a vector. -/
theorem IsDistribution.exists_fixed {entries : List (MatrixEntry ℚ)}
    (hcolumns : ∀ e ∈ entries, e.column < n) {t : Fin n → ℚ} {alpha : ℚ} {v : Array ℚ}
    (hv : IsDistribution n v)
    (hfixed : rankRound? (ofEntries n entries) (Array.ofFn t) alpha v = some v) :
    ∃ x ∈ stdSimplex ℚ (Fin n), v = Array.ofFn x ∧
      rankRound (ofList n entries) t alpha x = x := by
  obtain ⟨x, hx, rfl⟩ := hv.exists_eq
  rw [rankRound?_ofFn hcolumns, Option.some_inj] at hfixed
  exact ⟨x, hx, rfl, ofFn_injective hfixed⟩

variable {g : Digraph} {weights teleport : Array ℚ} {config : RankConfig ℚ}

/-- **The iteration converges and is accurate.** With damping below one, the first round changes the
ranks by two at most, and each round at most `alpha` times as much as the one before. As soon as
`2 * alpha ^ (k - 1)` is less than `epsilon`, for a `k` within the permitted rounds, the iteration
has converged, after `k` rounds at most. Where it says so, its ranks are within
`alpha * epsilon / (1 - alpha)` of the distribution that a round leaves as it is, of which there is
at most one. -/
theorem powerIterate?_converges (hg : g.WellFormed) (hn : 0 < g.size)
    (hsize : weights.size = g.size) (hw : ∀ w ∈ weights, 0 ≤ w)
    (ht : IsDistribution g.size teleport) (ha : 0 ≤ config.alpha) (ha1 : config.alpha < 1) :
    ∃ m ranks outcome, ofDigraph? g weights = some m ∧ IsRun m teleport config.alpha ranks ∧
      powerIterate? m teleport config = some outcome ∧ outcome.ranks = ranks outcome.rounds ∧
      rankChange (ranks 1) (ranks 0) ≤ 2 ∧
      (∀ k, rankChange (ranks (k + 2)) (ranks (k + 1)) ≤
        config.alpha * rankChange (ranks (k + 1)) (ranks k)) ∧
      (∀ k, 1 ≤ k → k ≤ config.maxRounds → 2 * config.alpha ^ (k - 1) < config.epsilon →
        outcome.converged = true ∧ outcome.rounds ≤ k) ∧
      (outcome.converged = true → ∀ v, IsDistribution g.size v →
        rankRound? m teleport config.alpha v = some v →
          rankChange outcome.ranks v ≤ config.alpha * config.epsilon / (1 - config.alpha)) ∧
      ∀ v v', IsDistribution g.size v → IsDistribution g.size v' →
        rankRound? m teleport config.alpha v = some v →
          rankRound? m teleport config.alpha v' = some v' → v = v' := by
  obtain ⟨t, hjump, rfl⟩ := ht.exists_eq
  obtain ⟨entries, hentries, hcolumns, hsubstochastic⟩ := hg.exists_entries hsize
  have hsteps := hsubstochastic hw
  have hstart := uniformShares_mem hn
  obtain ⟨k, converged, hresult, hstops⟩ := powerIterate?_ofFn hn hcolumns t config
  refine ⟨_, _, _, hentries, isRun_ofFn hcolumns t config.alpha, hresult, rfl,
    ?_, ?_, ?_, ?_, ?_⟩
  · rw [rankChange_ofFn]
    exact change_le_two (hsteps.iterate_mem hjump ha ha1.le hstart 1) hstart
  · intro k
    rw [rankChange_ofFn, rankChange_ofFn]
    exact hsteps.change_iterate_le hjump ha ha1.le hstart k
  · intro k hk hmax hsmall
    obtain ⟨j, rfl⟩ := Nat.exists_eq_add_of_le' hk
    refine hstops.converged_of_lt hmax (lt_of_le_of_lt ?_ hsmall)
    exact hsteps.change_iterate_le_pow hjump ha ha1.le hstart j
  · rintro rfl v hv hfixed
    obtain ⟨y, hy, rfl, hy'⟩ := hv.exists_fixed hcolumns hfixed
    rw [rankChange_ofFn]
    exact hsteps.change_fixed_le_of_converged hjump ha ha1 hstart hy hy' hstops
  · intro v v' hv hv' hfixed hfixed'
    obtain ⟨x, hx, rfl, hx'⟩ := hv.exists_fixed hcolumns hfixed
    obtain ⟨y, hy, rfl, hy'⟩ := hv'.exists_fixed hcolumns hfixed'
    rw [hsteps.fixed_unique hjump ha ha1 hx hy hx' hy']

/-- A node that leads to two others, of which one leads back and one is a dead end: the iteration
has converged after six rounds at most. -/
theorem powerIterate?_converges_dead_end :
    Digraph.WellFormed ⟨3, [(0, 1), (0, 2), (1, 0)]⟩ ∧ IsDistribution 3 #[1 / 2, 0, 1 / 2] ∧
      ∃ m outcome, ofDigraph? ⟨3, [(0, 1), (0, 2), (1, 0)]⟩ #[(1 : ℚ), 2, 3] = some m ∧
        powerIterate? m #[1 / 2, 0, 1 / 2] ⟨1 / 2, 1 / 10, 10⟩ = some outcome ∧
          outcome.converged = true ∧ outcome.rounds ≤ 6 := by
  have hg : Digraph.WellFormed ⟨3, [(0, 1), (0, 2), (1, 0)]⟩ := by decide
  have ht : IsDistribution 3 #[1 / 2, 0, 1 / 2] := by decide +kernel
  have hw : ∀ w ∈ #[(1 : ℚ), 2, 3], 0 ≤ w := by decide +kernel
  obtain ⟨m, _, outcome, hm, -, houtcome, -, -, -, hconverges, -, -⟩ :=
    @powerIterate?_converges _ _ _ ⟨1 / 2, 1 / 10, 10⟩ hg (by decide) rfl hw ht (by norm_num)
      (by norm_num)
  exact ⟨hg, ht, m, outcome, hm, houtcome,
    hconverges 6 (by decide) (by decide) (by norm_num)⟩

end EffortRank
