import EffortRank.Proofs.Rank.Entries
import EffortRank.Rank.Iteration
import Mathlib

/-!
# Ranks in rational numbers

In rational numbers sums do not depend on their order, and the operations on the arrays of an
iteration are those of linear algebra. An array of `n` ranks is `Array.ofFn x` for a vector `x`, and
a list of entries is a matrix (`TransitionMatrix.ofList`). The product that is computed row by row
is that of the matrix with the vector (`TransitionMatrix.scaledProduct?_ofFn`).
-/

namespace EffortRank

open Matrix

variable {n : Nat}

/-! ## Arrays as vectors -/

theorem Scalar.sum_eq (xs : List ℚ) : Scalar.sum xs = xs.sum := by
  rw [List.sum_eq_foldl]
  rfl

theorem arraySum_ofFn (x : Fin n → ℚ) : Scalar.arraySum (Array.ofFn x) = ∑ i, x i := by
  rw [← List.sum_ofFn, ← Scalar.sum_eq, ← Array.toList_ofFn]
  exact (Array.foldl_toList _).symm

theorem Scalar.abs_eq (x : ℚ) : Scalar.abs x = |x| := by
  show (if x < 0 then -x else x) = |x|
  split_ifs with h
  · exact (abs_of_neg h).symm
  · exact (abs_of_nonneg (not_lt.1 h)).symm

theorem Scalar.zero_eq : (Scalar.zero : ℚ) = 0 := Nat.cast_zero

theorem Scalar.lt_iff {x y : ℚ} : Scalar.lt x y = true ↔ x < y := decide_eq_true_iff

theorem Scalar.le_iff {x y : ℚ} : Scalar.le x y = true ↔ x ≤ y := decide_eq_true_iff

theorem absoluteSum_ofFn (x : Fin n → ℚ) : absoluteSum (Array.ofFn x) = ∑ i, |x i| := by
  rw [absoluteSum, Array.map_ofFn, arraySum_ofFn]
  exact Finset.sum_congr rfl fun i _ => Scalar.abs_eq (x i)

/-- How far two vectors are apart: the sum of the distances of their numbers. -/
def change (x y : Fin n → ℚ) : ℚ := ∑ i, |x i - y i|

theorem rankChange_ofFn (x y : Fin n → ℚ) :
    rankChange (Array.ofFn x) (Array.ofFn y) = change x y := by
  have hzip : Array.zipWith (fun x y => Scalar.abs (x - y)) (Array.ofFn x) (Array.ofFn y) =
      Array.ofFn fun i => |x i - y i| := by
    refine Array.ext (by simp) fun i hi _ => ?_
    rw [Array.getElem_zipWith, Array.getElem_ofFn, Array.getElem_ofFn, Array.getElem_ofFn]
    exact Scalar.abs_eq _
  rw [change, ← arraySum_ofFn, ← hzip]
  rfl

theorem addTeleport_ofFn (x t : Fin n → ℚ) (mass : ℚ) :
    addTeleport (Array.ofFn x) mass (Array.ofFn t) = Array.ofFn fun i => x i + mass * t i := by
  refine Array.ext (by simp [addTeleport]) fun i hi _ => ?_
  have hi : i < n := by simpa [addTeleport] using hi
  simp only [addTeleport, Array.getElem_mapIdx, Array.getElem?_ofFn, hi, dif_pos,
    Array.getElem_ofFn]

theorem exists_eq_ofFn {v : Array ℚ} (h : v.size = n) : ∃ x : Fin n → ℚ, v = Array.ofFn x := by
  subst h
  exact ⟨fun i => v[i], by simp⟩

theorem ofFn_injective : Function.Injective (Array.ofFn : (Fin n → ℚ) → Array ℚ) := by
  intro x y h
  rw [← Array.toList_inj, Array.toList_ofFn, Array.toList_ofFn] at h
  exact List.ofFn_injective h

/-! ## Sums by keys -/

/-- A sum over a list is the sum over all keys of what stands under them. -/
theorem sum_filter_key {ε : Type} {key : ε → Nat} {l : List ε} (h : ∀ e ∈ l, key e < n)
    (f : ε → ℚ) : ∑ k : Fin n, ((l.filter fun e => key e = k).map f).sum = (l.map f).sum := by
  induction l with
  | nil => simp
  | cons e l ih =>
    rw [List.forall_mem_cons] at h
    have hcons : ∀ k : Fin n, (((e :: l).filter fun e => key e = k).map f).sum =
        (if (⟨key e, h.1⟩ : Fin n) = k then f e else 0) +
          ((l.filter fun e => key e = k).map f).sum := by
      intro k
      rw [List.filter_cons]
      simp only [Fin.ext_iff, decide_eq_true_eq]
      split_ifs
      · rw [List.map_cons, List.sum_cons]
      · rw [zero_add]
    rw [Finset.sum_congr rfl fun k _ => hcons k, Finset.sum_add_distrib, ih h.2,
      Finset.sum_ite_eq, if_pos (Finset.mem_univ _), List.map_cons, List.sum_cons]

namespace TransitionMatrix

variable {entries : List (MatrixEntry ℚ)} {x : Fin n → ℚ}

/-- The matrix with the given entries; those of one place are added up. -/
def ofList (n : Nat) (entries : List (MatrixEntry ℚ)) : Matrix (Fin n) (Fin n) ℚ :=
  Matrix.of fun r c =>
    ((entries.filter fun e => e.row = r.val ∧ e.column = c.val).map MatrixEntry.value).sum

/-- The number in a place of a vector, zero outside. -/
def coordinate (x : Fin n → ℚ) (i : Nat) : ℚ := if h : i < n then x ⟨i, h⟩ else 0

theorem coordinate_val (x : Fin n → ℚ) (i : Fin n) : coordinate x i = x i := dif_pos i.isLt

theorem numberAt_ofFn (x : Fin n → ℚ) (i : Nat) : numberAt (Array.ofFn x) i = coordinate x i := by
  rw [numberAt, Array.getElem?_ofFn, coordinate, Scalar.zero_eq]
  split <;> rfl

theorem sum_row_ofEntries (hcolumns : ∀ e ∈ entries, e.column < n) (x : Fin n → ℚ) (r : Fin n) :
    (((ofEntries n entries).row r).toList.map fun e => e.2 * coordinate x e.1).sum =
      (ofList n entries *ᵥ x) r := by
  have hperm := ((List.mergeSort_perm entries entryLE).filter fun e => e.row = r.val).map
    fun e => e.value * coordinate x e.column
  have hrow : ∀ e ∈ entries.filter fun e => e.row = r.val, e.column < n := by
    intro e he
    exact hcolumns e (List.mem_filter.1 he).1
  rw [toList_row_ofEntries r.isLt, List.map_map]
  refine hperm.sum_eq.trans ?_
  rw [← sum_filter_key hrow, mulVec, dotProduct]
  apply Finset.sum_congr rfl
  intro c _
  have hplace : (entries.filter fun e => e.row = r.val).filter (fun e => e.column = c.val) =
      entries.filter fun e => e.row = r.val ∧ e.column = c.val := by
    rw [List.filter_filter]
    apply List.filter_congr
    intro e _
    rw [Bool.decide_and, Bool.and_comm]
  rw [ofList, Matrix.of_apply, ← List.sum_map_mul_right, hplace]
  refine congrArg List.sum (List.map_congr_left fun e he => ?_)
  have hcolumn : e.column = c.val := (of_decide_eq_true (List.mem_filter.1 he).2).2
  rw [hcolumn, coordinate_val]

theorem rowSum_ofFn (hcolumns : ∀ e ∈ entries, e.column < n) (x : Fin n → ℚ) (r : Fin n) :
    (ofEntries n entries).rowSum (Array.ofFn x) r = (ofList n entries *ᵥ x) r := by
  rw [rowSum, Scalar.sum_eq, ← sum_row_ofEntries hcolumns]
  simp only [numberAt_ofFn]

theorem scaledProduct?_ofFn (hcolumns : ∀ e ∈ entries, e.column < n) (x : Fin n → ℚ)
    (factor : ℚ) :
    (ofEntries n entries).scaledProduct? (Array.ofFn x) factor =
      some (Array.ofFn fun r => factor * (ofList n entries *ᵥ x) r) := by
  have hrows : ∀ r < n, ∀ e ∈ ((ofEntries n entries).row r).toList,
      e.1 < (Array.ofFn x).size := by
    intro r hr e he
    rw [toList_row_ofEntries hr] at he
    obtain ⟨entry, hentry, rfl⟩ := List.mem_map.1 he
    rw [Array.size_ofFn]
    exact hcolumns entry (List.mem_mergeSort.1 (List.mem_filter.1 hentry).1)
  refine (scaledProduct?_eq hrows factor).trans (congrArg some ?_)
  refine Array.ext (by simp [ofEntries]) fun r _ hr => ?_
  have hr : r < n := by simpa using hr
  rw [Array.getElem_map, Array.getElem_range, Array.getElem_ofFn,
    rowSum_ofFn hcolumns x ⟨r, hr⟩]

end TransitionMatrix

end EffortRank
