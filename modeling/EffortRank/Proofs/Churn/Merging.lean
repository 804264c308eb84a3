import EffortRank.Churn.Stats

/-!
# Merging change counts

Counts of one function and commit may be merged in any order: merging is commutative and
associative, and so is merging where either count may be missing. Merged counts are never smaller
than those that are merged, so that they fit only if these do.
-/

namespace EffortRank

theorem addMeasured_comm (m n : Option Nat) : addMeasured m n = addMeasured n m := by
  cases m with
  | none => cases n <;> rfl
  | some m =>
    cases n with
    | none => rfl
    | some n => exact congrArg some (Nat.add_comm m n)

theorem addMeasured_assoc (k m n : Option Nat) :
    addMeasured (addMeasured k m) n = addMeasured k (addMeasured m n) := by
  cases k with
  | none => rfl
  | some k =>
    cases m with
    | none => rfl
    | some m =>
      cases n with
      | none => rfl
      | some n => exact congrArg some (Nat.add_assoc k m n)

namespace ChangeStats

instance : Std.Commutative merge where
  comm s t := by
    simp only [merge, Nat.add_comm, addMeasured_comm]

instance : Std.Associative merge where
  assoc s t u := by
    simp only [merge, Nat.add_assoc, addMeasured_assoc]

variable {s t : ChangeStats}

theorem fits_of_merge (h : (s.merge t).fits = true) : s.fits = true := by
  have hcount : ∀ m n, countFits (m + n) = true → countFits m = true := by
    intro m n hsum
    exact decide_eq_true (Nat.le_trans (Nat.le_add_right m n) (of_decide_eq_true hsum))
  have hunits : ∀ m n, (addMeasured m n).all countFits = true → m.all countFits = true := by
    intro m n hsum
    cases m with
    | none => rfl
    | some m =>
      cases n with
      | none => exact hsum
      | some n => exact hcount m n hsum
  simp only [fits, merge, Bool.and_eq_true] at h ⊢
  obtain ⟨⟨⟨hadds, hdels⟩, hadded⟩, hremoved⟩ := h
  exact ⟨⟨⟨hcount _ _ hadds, hcount _ _ hdels⟩, hunits _ _ hadded⟩, hunits _ _ hremoved⟩

theorem fits_of_foldl_merge {ts : List ChangeStats} (h : (ts.foldl merge s).fits = true) :
    s.fits = true := by
  induction ts generalizing s with
  | nil => exact h
  | cons t ts ih => exact fits_of_merge (ih h)

theorem foldl_merge_some (s : ChangeStats) (ts : List ChangeStats) :
    (ts.map some).foldl (Option.merge merge) (some s) = some (ts.foldl merge s) := by
  induction ts generalizing s with
  | nil => rfl
  | cons t ts ih => exact ih (s.merge t)

/-- What merging preserves holds of merged counts if it holds of each. -/
theorem forall_mem_foldl_merge {p : ChangeStats → Prop} (hp : ∀ {s t}, p s → p t → p (s.merge t))
    {start : Option ChangeStats} (hstart : ∀ s ∈ start, p s) {l : List ChangeStats}
    (hl : ∀ s ∈ l, p s) : ∀ s ∈ (l.map some).foldl (Option.merge merge) start, p s := by
  induction l generalizing start with
  | nil => exact hstart
  | cons t l ih =>
    rw [List.forall_mem_cons] at hl
    refine ih (fun s hs => ?_) hl.2
    cases start with
    | none =>
      cases hs
      exact hl.1
    | some old =>
      cases hs
      exact hp (hstart old rfl) hl.1

theorem foldl_merge_eq_none_iff {start : Option ChangeStats} {l : List ChangeStats} :
    (l.map some).foldl (Option.merge merge) start = none ↔ start = none ∧ l = [] := by
  induction l generalizing start with
  | nil => simp
  | cons s l ih =>
    rw [List.map_cons, List.foldl_cons, ih, Option.merge_eq_none_iff]
    simp

end ChangeStats

end EffortRank
