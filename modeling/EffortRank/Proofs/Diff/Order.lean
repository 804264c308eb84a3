import EffortRank.Diff.Basic
import Mathlib.Data.List.Chain

/-!
# Records in order

The checks compare each record with the one before it. What they accept is an order of all records:
any two additions stand in the order of their positions (`checkPositions_eq_ok_iff`), and of any two
ranges the later one starts neither before the earlier one nor inside it
(`checkDisjoint_eq_ok_iff`).
-/

namespace EffortRank

namespace LineRange

/-- The range `s` starts neither before `r` nor inside it. -/
def Precedes (r s : LineRange) : Prop := r.first ≤ s.first ∧ r.last < s.first

instance (r s : LineRange) : Decidable (r.Precedes s) :=
  inferInstanceAs (Decidable (_ ∧ _))

theorem Precedes.trans {r s t : LineRange} (h₁ : r.Precedes s) (h₂ : s.Precedes t) :
    r.Precedes t :=
  ⟨Int.le_trans h₁.1 h₂.1, Int.lt_of_lt_of_le h₁.2 h₂.1⟩

instance : Trans Precedes Precedes Precedes where
  trans := Precedes.trans

end LineRange

def Addition.Precedes (a b : Addition) : Prop := a.position ≤ b.position

instance (a b : Addition) : Decidable (a.Precedes b) :=
  inferInstanceAs (Decidable (_ ≤ _))

instance : Trans Addition.Precedes Addition.Precedes Addition.Precedes where
  trans := Int.le_trans

/-- The check of ranges goes from neighbour to neighbour. -/
theorem checkAfter_eq_ok_iff {listing : Listing} {index : Nat} {previous : LineRange}
    {rs : List LineRange} :
    checkAfter listing index previous rs = .ok () ↔
      (previous :: rs).IsChain LineRange.Precedes := by
  induction rs generalizing index previous with
  | nil => simp [checkAfter]
  | cons r rs ih =>
    rw [checkAfter, List.isChain_cons_cons]
    split
    · rename_i hlt
      have hnot : ¬ previous.Precedes r := fun h => absurd h.1 (by omega)
      simp [hnot]
    · rename_i hge
      split
      · rename_i hle
        have hnot : ¬ previous.Precedes r := fun h => absurd h.2 (by omega)
        simp [hnot]
      · rename_i hgt
        have hprec : previous.Precedes r := ⟨by omega, by omega⟩
        simp [hprec, ih]

/-- **Neighbours in order, all in order**: ranges are accepted if of any two the later one starts
neither before the earlier one nor inside it. -/
theorem checkDisjoint_eq_ok_iff {listing : Listing} {rs : List LineRange} :
    checkDisjoint listing rs = .ok () ↔ rs.Pairwise LineRange.Precedes := by
  rw [← List.isChain_iff_pairwise]
  cases rs with
  | nil => simp [checkDisjoint]
  | cons r rs => exact checkAfter_eq_ok_iff

/-- **Of ranges in order, at most one contains a line.** -/
theorem disjoint_contains {rs : List LineRange} (h : rs.Pairwise LineRange.Precedes) :
    rs.Pairwise fun r s => ∀ line, r.contains line = true → ¬ s.contains line = true := by
  refine h.imp fun {r s} hprec line hr hs => ?_
  obtain ⟨-, hlast⟩ := hprec
  rw [LineRange.contains_iff] at hr hs
  omega

theorem checkPositionsAfter_eq_ok_iff {index : Nat} {a : Addition} {as : List Addition} :
    checkPositionsAfter index a.position as = .ok () ↔ (a :: as).IsChain Addition.Precedes := by
  induction as generalizing index a with
  | nil => simp [checkPositionsAfter]
  | cons b as ih =>
    rw [checkPositionsAfter, List.isChain_cons_cons]
    split
    · rename_i hlt
      have hnot : ¬ a.Precedes b := Int.not_le.2 hlt
      simp [hnot]
    · rename_i hge
      have hprec : a.Precedes b := Int.not_lt.1 hge
      simp [hprec, ih]

theorem checkPositions_eq_ok_iff {as : List Addition} :
    checkPositions as = .ok () ↔ as.Pairwise Addition.Precedes := by
  rw [← List.isChain_iff_pairwise]
  cases as with
  | nil => simp [checkPositions]
  | cons a as => exact checkPositionsAfter_eq_ok_iff

theorem FileDiff.check_eq_ok_iff {d : FileDiff} :
    d.check = .ok () ↔
      d.additions.Pairwise Addition.Precedes ∧ d.deletions.Pairwise LineRange.Precedes := by
  rw [← checkPositions_eq_ok_iff, ← @checkDisjoint_eq_ok_iff .deletion, check]
  cases checkPositions d.additions with
  | error e => simp
  | ok u => simp

theorem checkFunctions_eq_ok_iff {functions : List FunctionRange} :
    checkFunctions functions = .ok () ↔
      (functions.map FunctionRange.range).Pairwise LineRange.Precedes :=
  checkDisjoint_eq_ok_iff

/-- Some of functions in order are in order. -/
theorem checkFunctions_filter {functions : List FunctionRange}
    (h : checkFunctions functions = .ok ()) (p : FunctionRange → Bool) :
    checkFunctions (functions.filter p) = .ok () := by
  rw [checkFunctions_eq_ok_iff] at h ⊢
  exact h.sublist (List.filter_sublist.map FunctionRange.range)

end EffortRank
