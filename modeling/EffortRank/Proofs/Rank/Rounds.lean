import EffortRank.Proofs.Rank.Steps

/-!
# Rounds of a walk

A round of the iteration is a map of vectors (`rankRound`, `rankRound?_ofFn`). It takes the mass
that a step loses from a difference of norms. On distributions that mass is what the walker jumps
with, so that a round is affine: with probability `a` the walker follows the steps, jumping where
there are none, and else jumps at once (`Substochastic.rankRound_eq`). Hence a round takes
distributions to distributions (`Substochastic.rankRound_mem`), and brings them closer to each other
by the factor `a` (`Substochastic.change_rankRound_le`).

The iteration goes through the rounds one after the other and stops in the first one that changes
little (`iterateFrom?_ofFn`).
-/

namespace EffortRank

open Matrix TransitionMatrix

variable {n : Nat}

/-! ## One round -/

/-- One round: a step, and a jump with the mass that the step lost. -/
def rankRound (P : Matrix (Fin n) (Fin n) ℚ) (t : Fin n → ℚ) (a : ℚ) (x : Fin n → ℚ) : Fin n → ℚ :=
  fun i => a * (P *ᵥ x) i + (∑ j, |x j| - ∑ j, |a * (P *ᵥ x) j|) * t i

theorem rankRound?_ofFn {entries : List (MatrixEntry ℚ)} (hcolumns : ∀ e ∈ entries, e.column < n)
    (t : Fin n → ℚ) (a : ℚ) (x : Fin n → ℚ) :
    rankRound? (ofEntries n entries) (Array.ofFn t) a (Array.ofFn x) =
      some (Array.ofFn (rankRound (ofList n entries) t a x)) := by
  rw [rankRound?, scaledProduct?_ofFn hcolumns]
  refine congrArg some ?_
  rw [addTeleport_ofFn, absoluteSum_ofFn, absoluteSum_ofFn]
  rfl

section Simplex

variable {P : Matrix (Fin n) (Fin n) ℚ} {t x y : Fin n → ℚ} {a : ℚ}

theorem Substochastic.mulVec_nonneg (hP : Substochastic P) (hx : ∀ i, 0 ≤ x i) (i : Fin n) :
    0 ≤ (P *ᵥ x) i :=
  Finset.sum_nonneg fun c _ => mul_nonneg (hP.nonneg i c) (hx c)

/-- A walker who jumps takes along what the steps alone would lose. -/
theorem withJumps_mulVec (P : Matrix (Fin n) (Fin n) ℚ) (t x : Fin n → ℚ) (i : Fin n) :
    (withJumps P t *ᵥ x) i = (P *ᵥ x) i + (∑ c, x c - ∑ k, (P *ᵥ x) k) * t i := by
  have hlost : ∑ c, (1 - ∑ k, P k c) * x c = ∑ c, x c - ∑ k, (P *ᵥ x) k := by
    simp only [sub_mul, one_mul, Finset.sum_sub_distrib, Finset.sum_mul]
    rw [Finset.sum_comm]
    rfl
  rw [← hlost, Finset.sum_mul, mulVec, mulVec, dotProduct, dotProduct, ← Finset.sum_add_distrib]
  apply Finset.sum_congr rfl
  intro c _
  rw [withJumps, Matrix.of_apply, add_mul, mul_right_comm]

/-- **A round on distributions is affine.** -/
theorem Substochastic.rankRound_eq (hP : Substochastic P) (ha : 0 ≤ a)
    (hx : x ∈ stdSimplex ℚ (Fin n)) :
    rankRound P t a x = a • (withJumps P t *ᵥ x) + (1 - a) • t := by
  -- Nothing is negative, so that the norms are sums.
  have hmass : ∑ j, |x j| = 1 := by
    rw [← hx.2]
    exact Finset.sum_congr rfl fun j _ => abs_of_nonneg (hx.1 j)
  have hstepped : ∑ j, |a * (P *ᵥ x) j| = a * ∑ j, (P *ᵥ x) j := by
    rw [Finset.mul_sum]
    exact Finset.sum_congr rfl fun j _ => abs_of_nonneg (mul_nonneg ha (hP.mulVec_nonneg hx.1 j))
  funext i
  rw [rankRound, hmass, hstepped, Pi.add_apply, Pi.smul_apply, Pi.smul_apply, withJumps_mulVec,
    hx.2, smul_eq_mul, smul_eq_mul]
  ring

theorem mulVec_mem_stdSimplex {M : Matrix (Fin n) (Fin n) ℚ} (hM : M ∈ colStochastic ℚ (Fin n))
    (hx : x ∈ stdSimplex ℚ (Fin n)) : M *ᵥ x ∈ stdSimplex ℚ (Fin n) :=
  ⟨nonneg_mulVec_of_mem_colStochastic hM hx.1, (sum_mulVec_of_mem_colStochastic hM).trans hx.2⟩

/-- **A round takes distributions to distributions.** -/
theorem Substochastic.rankRound_mem (hP : Substochastic P) (ht : t ∈ stdSimplex ℚ (Fin n))
    (ha : 0 ≤ a) (ha1 : a ≤ 1) (hx : x ∈ stdSimplex ℚ (Fin n)) :
    rankRound P t a x ∈ stdSimplex ℚ (Fin n) := by
  rw [hP.rankRound_eq ha hx]
  exact convex_stdSimplex ℚ (Fin n) (mulVec_mem_stdSimplex (hP.withJumps_mem ht) hx) ht ha
    (sub_nonneg.2 ha1) (add_sub_cancel a 1)

theorem Substochastic.iterate_mem (hP : Substochastic P) (ht : t ∈ stdSimplex ℚ (Fin n))
    (ha : 0 ≤ a) (ha1 : a ≤ 1) (hx : x ∈ stdSimplex ℚ (Fin n)) (k : Nat) :
    (rankRound P t a)^[k] x ∈ stdSimplex ℚ (Fin n) := by
  induction k with
  | zero => exact hx
  | succ k ih =>
    rw [Function.iterate_succ_apply']
    exact hP.rankRound_mem ht ha ha1 ih

/-! ## Distances -/

theorem change_comm (x y : Fin n → ℚ) : change x y = change y x :=
  Finset.sum_congr rfl fun i _ => abs_sub_comm (x i) (y i)

theorem change_triangle (x y z : Fin n → ℚ) : change x z ≤ change x y + change y z := by
  rw [change, change, change, ← Finset.sum_add_distrib]
  exact Finset.sum_le_sum fun i _ => abs_sub_le (x i) (y i) (z i)

theorem change_nonneg (x y : Fin n → ℚ) : 0 ≤ change x y :=
  Finset.sum_nonneg fun _ _ => abs_nonneg _

theorem eq_of_change_le_zero (h : change x y ≤ 0) : x = y := by
  have hzero := le_antisymm h (change_nonneg x y)
  rw [change, Finset.sum_eq_zero_iff_of_nonneg fun _ _ => abs_nonneg _] at hzero
  funext i
  exact sub_eq_zero.1 (abs_eq_zero.1 (hzero i (Finset.mem_univ i)))

/-- Two distributions are no further apart than their masses together. -/
theorem change_le_two (hx : x ∈ stdSimplex ℚ (Fin n)) (hy : y ∈ stdSimplex ℚ (Fin n)) :
    change x y ≤ 2 := by
  have hle : ∀ i, |x i - y i| ≤ x i + y i := by
    intro i
    refine (abs_sub (x i) (y i)).trans_eq ?_
    rw [abs_of_nonneg (hx.1 i), abs_of_nonneg (hy.1 i)]
  calc change x y ≤ ∑ i, (x i + y i) := Finset.sum_le_sum fun i _ => hle i
    _ = 2 := by rw [Finset.sum_add_distrib, hx.2, hy.2, one_add_one_eq_two]

/-- A column-stochastic matrix brings no two vectors further apart. -/
theorem change_mulVec_le {M : Matrix (Fin n) (Fin n) ℚ} (hM : M ∈ colStochastic ℚ (Fin n))
    (x y : Fin n → ℚ) : change (M *ᵥ x) (M *ᵥ y) ≤ change x y := by
  have hentry : ∀ i, |(M *ᵥ x) i - (M *ᵥ y) i| ≤ (M *ᵥ fun c => |x c - y c|) i := by
    intro i
    rw [← Pi.sub_apply, ← mulVec_sub, mulVec, mulVec, dotProduct, dotProduct]
    refine (Finset.abs_sum_le_sum_abs _ _).trans_eq (Finset.sum_congr rfl fun c _ => ?_)
    rw [abs_mul, abs_of_nonneg (nonneg_of_mem_colStochastic hM), Pi.sub_apply]
  calc change (M *ᵥ x) (M *ᵥ y) ≤ ∑ i, (M *ᵥ fun c => |x c - y c|) i :=
        Finset.sum_le_sum fun i _ => hentry i
    _ = change x y := sum_mulVec_of_mem_colStochastic hM

/-- **A round brings two distributions closer to each other.** -/
theorem Substochastic.change_rankRound_le (hP : Substochastic P) (ht : t ∈ stdSimplex ℚ (Fin n))
    (ha : 0 ≤ a) (hx : x ∈ stdSimplex ℚ (Fin n)) (hy : y ∈ stdSimplex ℚ (Fin n)) :
    change (rankRound P t a x) (rankRound P t a y) ≤ a * change x y := by
  have hscale : change (rankRound P t a x) (rankRound P t a y) =
      a * change (withJumps P t *ᵥ x) (withJumps P t *ᵥ y) := by
    rw [hP.rankRound_eq ha hx, hP.rankRound_eq ha hy, change, change, Finset.mul_sum]
    apply Finset.sum_congr rfl
    intro i _
    rw [Pi.add_apply, Pi.add_apply, add_sub_add_right_eq_sub, Pi.smul_apply, Pi.smul_apply,
      smul_eq_mul, smul_eq_mul, ← mul_sub, abs_mul, abs_of_nonneg ha]
  rw [hscale]
  exact mul_le_mul_of_nonneg_left (change_mulVec_le (hP.withJumps_mem ht) x y) ha

/-- A fixed point of a round is near to a distribution that the last round hardly changed. -/
theorem Substochastic.change_fixed_le (hP : Substochastic P) (ht : t ∈ stdSimplex ℚ (Fin n))
    (ha : 0 ≤ a) (ha1 : a < 1) (hx : x ∈ stdSimplex ℚ (Fin n)) (hy : y ∈ stdSimplex ℚ (Fin n))
    (hfixed : rankRound P t a y = y) :
    change (rankRound P t a x) y ≤ a * change (rankRound P t a x) x / (1 - a) := by
  have hcloser : change (rankRound P t a x) y ≤ a * change x y := by
    simpa only [hfixed] using hP.change_rankRound_le ht ha hx hy
  have hvia : change x y ≤ change (rankRound P t a x) x + change (rankRound P t a x) y := by
    rw [change_comm _ x]
    exact change_triangle x _ y
  rw [le_div_iff₀ (sub_pos.2 ha1)]
  linarith only [hcloser, mul_le_mul_of_nonneg_left hvia ha]

end Simplex

/-! ## All rounds -/

/-- A run of at most `left` rounds `F` from `x` on stops after `k` of them: no round before the last
changed less than `epsilon`, and neither did the last one unless the run has converged. -/
structure StopsAfter (F : (Fin n → ℚ) → Fin n → ℚ) (epsilon : ℚ) (x : Fin n → ℚ) (left k : Nat)
    (converged : Bool) : Prop where
  le : k ≤ left
  goes_on : ∀ j, j + 1 < k → epsilon ≤ change (F^[j + 1] x) (F^[j] x)
  stops : converged = true → ∃ j, k = j + 1 ∧ change (F^[j + 1] x) (F^[j] x) < epsilon
  runs_out : converged = false → k = left ∧ ∀ j < k, epsilon ≤ change (F^[j + 1] x) (F^[j] x)

namespace StopsAfter

variable {F : (Fin n → ℚ) → Fin n → ℚ} {epsilon : ℚ} {x : Fin n → ℚ} {left k : Nat}
  {converged : Bool}

theorem zero (F : (Fin n → ℚ) → Fin n → ℚ) (epsilon : ℚ) (x : Fin n → ℚ) :
    StopsAfter F epsilon x 0 0 false where
  le := le_refl 0
  goes_on _ hj := absurd hj (Nat.not_lt_zero _)
  stops h := Bool.noConfusion h
  runs_out _ := ⟨rfl, fun _ hj => absurd hj (Nat.not_lt_zero _)⟩

theorem one (left : Nat) (h : change (F x) x < epsilon) :
    StopsAfter F epsilon x (left + 1) 1 true where
  le := Nat.le_add_left 1 left
  goes_on j hj := absurd hj (by omega)
  stops _ := ⟨0, rfl, h⟩
  runs_out h := Bool.noConfusion h

theorem succ (h : epsilon ≤ change (F x) x) (hrest : StopsAfter F epsilon (F x) left k converged) :
    StopsAfter F epsilon x (left + 1) (k + 1) converged where
  le := Nat.succ_le_succ hrest.le
  goes_on j hj := by
    cases j with
    | zero => exact h
    | succ j => exact hrest.goes_on j (Nat.lt_of_succ_lt_succ hj)
  stops hconverged := by
    obtain ⟨j, rfl, hj⟩ := hrest.stops hconverged
    exact ⟨j + 1, rfl, hj⟩
  runs_out hconverged := by
    obtain ⟨rfl, hall⟩ := hrest.runs_out hconverged
    refine ⟨rfl, fun j hj => ?_⟩
    cases j with
    | zero => exact h
    | succ j => exact hall j (Nat.lt_of_succ_lt_succ hj)

/-- A run converges with a round that changes less than `epsilon`, if it gets there. -/
theorem converged_of_lt (h : StopsAfter F epsilon x left k converged) {j : Nat} (hj : j < left)
    (hsmall : change (F^[j + 1] x) (F^[j] x) < epsilon) : converged = true ∧ k ≤ j + 1 := by
  constructor
  · rw [← Bool.not_eq_false]
    intro hfalse
    obtain ⟨rfl, hall⟩ := h.runs_out hfalse
    exact absurd hsmall (not_lt.2 (hall j hj))
  · by_contra hlate
    exact absurd hsmall (not_lt.2 (h.goes_on j (not_le.1 hlate)))

end StopsAfter

/-- **The iteration goes through the rounds** until it stops. -/
theorem iterateFrom?_ofFn {entries : List (MatrixEntry ℚ)} (hcolumns : ∀ e ∈ entries, e.column < n)
    (t : Fin n → ℚ) (config : RankConfig ℚ) (done : Nat) (x : Fin n → ℚ) (left : Nat) :
    ∃ k converged,
      iterateFrom? (ofEntries n entries) (Array.ofFn t) config done (Array.ofFn x) left =
        some ⟨Array.ofFn ((rankRound (ofList n entries) t config.alpha)^[k] x), done + k,
          converged⟩ ∧
      StopsAfter (rankRound (ofList n entries) t config.alpha) config.epsilon x left k
        converged := by
  induction left generalizing done x with
  | zero => exact ⟨0, false, rfl, .zero _ _ _⟩
  | succ left ih =>
    rw [iterateFrom?, rankRound?_ofFn hcolumns]
    dsimp only
    rw [rankChange_ofFn]
    by_cases hsmall :
        change (rankRound (ofList n entries) t config.alpha x) x < config.epsilon
    · rw [if_pos (Scalar.lt_iff.2 hsmall)]
      exact ⟨1, true, rfl, .one left hsmall⟩
    · obtain ⟨k, converged, hrest, hstops⟩ :=
        ih (done + 1) (rankRound (ofList n entries) t config.alpha x)
      refine ⟨k + 1, converged, ?_, .succ (not_lt.1 hsmall) hstops⟩
      rw [if_neg fun h => hsmall (Scalar.lt_iff.1 h), hrest, Function.iterate_succ_apply,
        Nat.add_right_comm, Nat.add_assoc]

end EffortRank
