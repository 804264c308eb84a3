import EffortRank.Proofs.Diff.Order
import Mathlib.Order.Bounds.Basic

/-!
# Where records get out of order

A check that compares neighbours finds the first record with which a list is no longer in order
(`FirstDisorder`): those in front of it are in order, all of them, and with it they are not
(`checkDisjoint_eq_error_iff`). An addition takes the place of an empty range, so that the check of
positions is one of ranges (`checkPositions_eq_checkDisjoint`), and a change is refused for its
additions as long as they are out of order (`FileDiff.check_eq_error_iff`).
-/

namespace EffortRank

/-- Why a range is refused that does not follow the one before it. -/
def disorder (listing : Listing) (index : Nat) (previous current : LineRange) : OrderError :=
  if current.first < previous.first then
    .unsorted listing index current.first previous.first
  else .overlapping listing index previous current

/-- The error names the least number of a range with which a list of ranges is not in order, and
compares this range with the one before it. -/
def FirstDisorder (listing : Listing) (rs : List LineRange) (e : OrderError) : Prop :=
  ∃ k previous current, rs[k]? = some previous ∧ rs[k + 1]? = some current ∧
    IsLeast {i | ¬ (rs.take (i + 1)).Pairwise LineRange.Precedes} (k + 1) ∧
    e = disorder listing (k + 1) previous current

/-! ## From neighbours to all -/

/-- A relation that neighbours keep up to some place fails with the next element first. -/
theorem isLeast_not_pairwise_take {α : Type} {R : α → α → Prop} [Trans R R R] {l : List α} {k : Nat}
    {a b : α} (ha : l[k]? = some a) (hb : l[k + 1]? = some b) :
    IsLeast {i | ¬ (l.take (i + 1)).Pairwise R} (k + 1) ↔
      (l.take (k + 1)).IsChain R ∧ ¬ R a b := by
  have hlast : (l.take (k + 1)).getLast? = some a := by
    rw [List.take_add_one, ha]
    simp
  have hnext : (l.take (k + 1 + 1)).Pairwise R ↔ (l.take (k + 1)).IsChain R ∧ R a b := by
    rw [← List.isChain_iff_pairwise, List.take_add_one, hb, Option.toList_some,
      List.isChain_append, hlast]
    simp
  constructor
  · rintro ⟨hfails, hleast⟩
    have hbefore : (l.take (k + 1)).IsChain R := by
      rw [List.isChain_iff_pairwise]
      by_contra hearlier
      have hle : k + 1 ≤ k := hleast hearlier
      omega
    exact ⟨hbefore, fun hab => hfails (hnext.2 ⟨hbefore, hab⟩)⟩
  · rintro ⟨hbefore, hab⟩
    refine ⟨fun h => hab (hnext.1 h).2, fun i hi => ?_⟩
    by_contra hlt
    have hprefix : l.take (i + 1) <+: l.take (k + 1) := List.take_prefix_take_left (by omega)
    exact hi ((List.isChain_iff_pairwise.1 hbefore).sublist hprefix.sublist)

/-! ## Ranges -/

section Ranges

variable {listing : Listing} {rs : List LineRange} {e : OrderError}

theorem checkAfter_cons (index : Nat) (previous r : LineRange) :
    checkAfter listing index previous (r :: rs) =
      if previous.Precedes r then checkAfter listing (index + 1) r rs
      else .error (disorder listing index previous r) := by
  by_cases hprec : previous.Precedes r
  · have hfirst := hprec.1
    have hlast := hprec.2
    rw [if_pos hprec, checkAfter, if_neg (by omega), if_neg (by omega)]
  · rw [if_neg hprec]
    unfold checkAfter disorder
    split
    · rfl
    · rename_i hfirst
      rw [if_pos]
      by_contra hlast
      exact hprec ⟨by omega, by omega⟩

/-- The first range that does not follow its neighbour is the one that is refused. -/
theorem checkAfter_eq_error_iff {index : Nat} {previous : LineRange} :
    checkAfter listing index previous rs = .error e ↔
      ∃ k a b, (previous :: rs)[k]? = some a ∧ rs[k]? = some b ∧
        ((previous :: rs).take (k + 1)).IsChain LineRange.Precedes ∧ ¬ a.Precedes b ∧
        e = disorder listing (index + k) a b := by
  induction rs generalizing index previous with
  | nil => simp [checkAfter]
  | cons r rs ih =>
    rw [checkAfter_cons]
    by_cases hr : previous.Precedes r
    · rw [if_pos hr, ih]
      constructor
      · rintro ⟨k, a, b, ha, hb, hchain, hab, rfl⟩
        refine ⟨k + 1, a, b, ha, hb, ?_, hab, by rw [Nat.add_assoc, Nat.add_comm 1 k]⟩
        rw [List.take_succ_cons] at hchain
        rw [List.take_succ_cons, List.take_succ_cons, List.isChain_cons_cons]
        exact ⟨hr, hchain⟩
      · rintro ⟨k, a, b, ha, hb, hchain, hab, rfl⟩
        cases k with
        | zero =>
          simp only [List.getElem?_cons_zero, Option.some_inj] at ha hb
          subst ha hb
          exact absurd hr hab
        | succ k =>
          refine ⟨k, a, b, ha, hb, ?_, hab, by rw [Nat.add_assoc, Nat.add_comm 1 k]⟩
          rw [List.take_succ_cons, List.take_succ_cons, List.isChain_cons_cons] at hchain
          exact hchain.2
    · rw [if_neg hr, Except.error.injEq]
      constructor
      · rintro rfl
        exact ⟨0, previous, r, rfl, rfl, by simp, hr, rfl⟩
      · rintro ⟨k, a, b, ha, hb, hchain, hab, rfl⟩
        cases k with
        | zero =>
          simp only [List.getElem?_cons_zero, Option.some_inj] at ha hb
          subst ha hb
          rfl
        | succ k =>
          rw [List.take_succ_cons, List.take_succ_cons, List.isChain_cons_cons] at hchain
          exact absurd hchain.1 hr

/-- **The check of neighbours finds the first disorder of all.** -/
theorem checkDisjoint_eq_error_iff :
    checkDisjoint listing rs = .error e ↔ FirstDisorder listing rs e := by
  unfold FirstDisorder
  cases rs with
  | nil => simp [checkDisjoint]
  | cons r rs =>
    rw [checkDisjoint, checkAfter_eq_error_iff]
    refine exists_congr fun k => exists_congr fun a => exists_congr fun b =>
      and_congr_right fun ha => ?_
    rw [List.getElem?_cons_succ]
    refine and_congr_right fun hb => ?_
    rw [isLeast_not_pairwise_take ha hb, and_assoc, Nat.add_comm 1 k]

end Ranges

/-! ## Changes -/

/-- The empty range behind the line that an addition is put in after. -/
def Addition.gap (a : Addition) : LineRange := ⟨a.position, a.position - 1⟩

theorem Addition.precedes_gap_iff {a b : Addition} : a.gap.Precedes b.gap ↔ a.Precedes b := by
  unfold LineRange.Precedes Addition.Precedes gap
  dsimp only
  omega

theorem checkPositionsAfter_eq_checkAfter (index : Nat) (a : Addition) (as : List Addition) :
    checkPositionsAfter index a.position as =
      checkAfter .addition index a.gap (as.map Addition.gap) := by
  induction as generalizing index a with
  | nil => rfl
  | cons b as ih =>
    rw [checkPositionsAfter, List.map_cons, checkAfter_cons, ih]
    by_cases hlt : b.position < a.position
    · have hnot : ¬ a.gap.Precedes b.gap := fun h => by
        have hle : a.position ≤ b.position := h.1
        omega
      rw [if_pos hlt, if_neg hnot, disorder]
      exact congrArg Except.error (if_pos hlt).symm
    · rw [if_neg hlt, if_pos (Addition.precedes_gap_iff.2 (Int.not_lt.1 hlt))]

/-- **Positions are in order if the gaps are.** -/
theorem checkPositions_eq_checkDisjoint (as : List Addition) :
    checkPositions as = checkDisjoint .addition (as.map Addition.gap) := by
  cases as with
  | nil => rfl
  | cons a as => exact checkPositionsAfter_eq_checkAfter 1 a as

/-- The first addition that is put in before its neighbour is the one that is refused. -/
theorem checkPositions_eq_error_iff {as : List Addition} {e : OrderError} :
    checkPositions as = .error e ↔
      ∃ k a b, as[k]? = some a ∧ as[k + 1]? = some b ∧
        IsLeast {i | ¬ (as.take (i + 1)).Pairwise Addition.Precedes} (k + 1) ∧
        e = .unsorted .addition (k + 1) b.position a.position := by
  have hpairwise : ∀ i, ((as.map Addition.gap).take (i + 1)).Pairwise LineRange.Precedes ↔
      (as.take (i + 1)).Pairwise Addition.Precedes := by
    intro i
    rw [← List.map_take, List.pairwise_map]
    simp only [Addition.precedes_gap_iff]
  rw [checkPositions_eq_checkDisjoint, checkDisjoint_eq_error_iff, FirstDisorder]
  simp only [hpairwise, List.getElem?_map, Option.map_eq_some_iff]
  constructor
  · rintro ⟨k, _, _, ⟨a, ha, rfl⟩, ⟨b, hb, rfl⟩, hleast, rfl⟩
    have hlt := ((isLeast_not_pairwise_take ha hb).1 hleast).2
    refine ⟨k, a, b, ha, hb, hleast, ?_⟩
    exact if_pos (Int.not_le.1 hlt)
  · rintro ⟨k, a, b, ha, hb, hleast, rfl⟩
    have hlt := ((isLeast_not_pairwise_take ha hb).1 hleast).2
    refine ⟨k, a.gap, b.gap, ⟨a, ha, rfl⟩, ⟨b, hb, rfl⟩, hleast, ?_⟩
    exact (if_pos (Int.not_le.1 hlt)).symm

theorem FileDiff.check_eq_error_iff {d : FileDiff} {e : OrderError} :
    d.check = .error e ↔
      checkPositions d.additions = .error e ∨
        checkPositions d.additions = .ok () ∧ checkDisjoint .deletion d.deletions = .error e := by
  unfold check
  cases checkPositions d.additions with
  | error e' => simp
  | ok u => simp

/-- **A check finds the first record that is out of order**, comparing neighbours only. Ranges of
any kind are accepted if of any two the later one starts neither before the earlier one nor inside
it, so that no line is in two of them; otherwise the least number is told with which that fails. A
change is accepted if its additions ascend and its deletions are accepted, and its deletions are
looked at only if its additions ascend. -/
theorem check_finds_first_disorder :
    (∀ (listing : Listing) (rs : List LineRange),
      (checkDisjoint listing rs = .ok () ↔ rs.Pairwise LineRange.Precedes) ∧
        (checkDisjoint listing rs = .ok () → rs.Pairwise fun r s =>
          ∀ line, r.contains line = true → ¬ s.contains line = true) ∧
        ∀ e, checkDisjoint listing rs = .error e ↔ FirstDisorder listing rs e) ∧
      ∀ d : FileDiff,
        (d.check = .ok () ↔ d.additions.Pairwise Addition.Precedes ∧
          d.deletions.Pairwise LineRange.Precedes) ∧
        ∀ e, d.check = .error e ↔
          (∃ k a b, d.additions[k]? = some a ∧ d.additions[k + 1]? = some b ∧
            IsLeast {i | ¬ (d.additions.take (i + 1)).Pairwise Addition.Precedes} (k + 1) ∧
            e = .unsorted .addition (k + 1) b.position a.position) ∨
          d.additions.Pairwise Addition.Precedes ∧ FirstDisorder .deletion d.deletions e := by
  constructor
  · intro listing rs
    refine ⟨checkDisjoint_eq_ok_iff, ?_, fun e => checkDisjoint_eq_error_iff⟩
    intro hok
    exact disjoint_contains (checkDisjoint_eq_ok_iff.1 hok)
  · intro d
    refine ⟨FileDiff.check_eq_ok_iff, fun e => ?_⟩
    rw [FileDiff.check_eq_error_iff, checkPositions_eq_error_iff, checkPositions_eq_ok_iff,
      checkDisjoint_eq_error_iff]

/-- A change whose additions descend at the third one and whose deletions share a line: the
additions are told of. Ranges that touch are accepted, with an empty one between them. -/
theorem check_finds_first_disorder_of_both :
    let d : FileDiff := ⟨[⟨2, 1⟩, ⟨9, 1⟩, ⟨3, 1⟩], [⟨1, 5⟩, ⟨5, 8⟩]⟩
    let overlap : OrderError := .overlapping .deletion 1 ⟨1, 5⟩ ⟨5, 8⟩
    let touching : List LineRange := [⟨1, 3⟩, ⟨4, 3⟩, ⟨4, 9⟩]
    d.check = .error (.unsorted .addition 2 3 9) ∧ FirstDisorder .deletion d.deletions overlap ∧
      checkDisjoint .deletion touching = .ok () ∧
      touching.Pairwise fun r s => ∀ line, r.contains line = true → ¬ s.contains line = true := by
  intro d overlap touching
  obtain ⟨-, -, hoverlap⟩ := check_finds_first_disorder.1 .deletion d.deletions
  obtain ⟨-, hdisjoint, -⟩ := check_finds_first_disorder.1 .deletion touching
  exact ⟨rfl, (hoverlap overlap).1 rfl, rfl, hdisjoint rfl⟩

end EffortRank
