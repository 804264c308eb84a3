import EffortRank.Proofs.Churn.Agreement
import EffortRank.Proofs.Churn.Words

/-!
# What one pass counts for a function

For a change and functions in order, one pass counts for a function just what is in its ranges: the
lines of the additions that they take in (`adds_get?_changedStats`), the deleted lines in them
(`dels_get?_changedStats`), and the words of both. A function may have several ranges; they are in
order, so that an addition or a line is in at most one of them.
-/

namespace EffortRank

open Text

/-- The ranges of the functions of a name. -/
def rangesOf (functions : List FunctionRange) (name : String) : List LineRange :=
  (functions.filter fun f => f.name = name).map FunctionRange.range

namespace FileDiff

/-- The lines that a change puts in where one of some ranges takes them in. -/
def linesTakenIn (d : FileDiff) (ranges : List LineRange) : Nat :=
  ((d.additions.filter fun a => ∃ r ∈ ranges, r.TakesIn a).map Addition.lines).sum

/-- The line numbers in some ranges that a change takes out. -/
def deletedIn (d : FileDiff) (ranges : List LineRange) : List Int :=
  (d.deletions.flatMap LineRange.lines).filter fun line => ∃ r ∈ ranges, r.contains line = true

end FileDiff

theorem sum_filter {α : Type} (p : α → Prop) [DecidablePred p] (w : α → Nat) (as : List α) :
    ((as.filter fun a => p a).map w).sum = (as.map fun a => if p a then w a else 0).sum := by
  rw [List.sum_map_ite, List.map_const', List.sum_replicate, smul_zero, Nat.add_zero]

section

variable {functions : List FunctionRange} {d : FileDiff} {name : String} {s : ChangeStats}

theorem pairwise_rangesOf (hf : checkFunctions functions = .ok ()) (name : String) :
    (rangesOf functions name).Pairwise LineRange.Precedes :=
  checkFunctions_eq_ok_iff.1 (checkFunctions_filter hf fun f => f.name = name)

/-- What a pass counts for a function, it finds in the ranges of the function. A function that is
not listed counts for nothing. -/
theorem elim_get?_changedStats (φ : ChangeStats → Nat) (hzero : φ .zero = 0)
    (hmerge : ∀ s t : ChangeStats, φ (s.merge t) = φ s + φ t) (hd : d.check = .ok ())
    (hf : checkFunctions functions = .ok ()) (sources : Option SourceTexts) (name : String) :
    ((changedStats functions d sources).get? name).elim 0 φ =
      ((rangesOf functions name).map fun r => ((d.piecesIn r).map fun piece =>
        φ (piece.stats (sources.map fun s => UnitMeter.of s d))).sum).sum := by
  have hsum := sumOf_changedStats_eq hzero hmerge (fun n => n = name) hd hf sources
  rw [NameMap.sumOf, ← sum_filter (fun e : String × ChangeStats => e.1 = name),
    NameMap.filter_entries_name] at hsum
  rw [rangesOf, List.map_map]
  refine Eq.trans ?_ hsum
  cases (changedStats functions d sources).get? name with
  | none => rfl
  | some s => exact (Nat.add_zero _).symm

/-! ## Lines -/

/-- The added lines of a function are those of the additions that its ranges take in. -/
theorem adds_get?_changedStats (hd : d.check = .ok ()) (hf : checkFunctions functions = .ok ())
    (sources : Option SourceTexts) (name : String) :
    ((changedStats functions d sources).get? name).elim 0 ChangeStats.adds =
      d.linesTakenIn (rangesOf functions name) := by
  have hsum := elim_get?_changedStats ChangeStats.adds rfl (fun _ _ => rfl) hd hf sources name
  simp only [sum_adds_piecesIn] at hsum
  rw [hsum, FileDiff.linesTakenIn, sum_filter]
  exact sum_exists_of_disjoint (disjoint_takesIn (pairwise_rangesOf hf name)) _ _

/-- Lines are counted in each of some ranges in order, or in all of them. -/
theorem sum_filter_contains {ranges : List LineRange} (h : ranges.Pairwise LineRange.Precedes)
    (w : Int → Nat) (ls : List Int) :
    (ranges.map fun r => ((ls.filter r.contains).map w).sum).sum =
      ((ls.filter fun line => ∃ r ∈ ranges, r.contains line = true).map w).sum := by
  have hrange : ∀ r : LineRange, ((ls.filter r.contains).map w).sum =
      (ls.map fun line => if r.contains line = true then w line else 0).sum := by
    intro r
    rw [← sum_filter]
    simp only [Bool.decide_eq_true]
  simp only [hrange]
  rw [sum_filter]
  exact sum_exists_of_disjoint (disjoint_contains h) w ls

/-- If each deletion can be counted, the deleted lines of a function are those in its ranges. -/
theorem dels_get?_changedStats (hd : d.check = .ok ()) (hf : checkFunctions functions = .ok ())
    (hcounted : ∀ t ∈ d.deletions, t.lines.length ≤ maxCount) (sources : Option SourceTexts)
    (name : String) :
    ((changedStats functions d sources).get? name).elim 0 ChangeStats.dels =
      (d.deletedIn (rangesOf functions name)).length := by
  have hsum := elim_get?_changedStats ChangeStats.dels rfl (fun _ _ => rfl) hd hf sources name
  have hrange : ∀ r : LineRange, (d.deletions.map r.sharedLength).sum =
      (((d.deletions.flatMap LineRange.lines).filter r.contains).map fun _ => 1).sum := by
    intro r
    rw [List.map_const', List.sum_replicate_nat, Nat.mul_one, ← List.countP_eq_length_filter,
      List.countP_flatMap]
    refine congrArg List.sum (List.map_congr_left fun t ht => ?_)
    have hle : t.lines.countP r.contains ≤ maxCount := List.countP_le_length.trans (hcounted t ht)
    rw [LineRange.sharedLength_eq, LineRange.commonLines_comm]
    exact Nat.min_eq_left hle
  simp only [sum_dels_piecesIn, hrange] at hsum
  rw [hsum, sum_filter_contains (pairwise_rangesOf hf name), FileDiff.deletedIn, List.map_const',
    List.sum_replicate_nat, Nat.mul_one]

/-- Lines of a function that is listed are changed. -/
theorem lineChurn_pos_of_get?_changedStats (hd : d.check = .ok ())
    (hf : checkFunctions functions = .ok ()) {sources : Option SourceTexts}
    (hs : (changedStats functions d sources).get? name = some s) : 0 < s.lineChurn := by
  have hchurn := get?_changedLines hd hf name
  rw [← map_lineChurn_changedStats functions d sources, NameMap.get?_map, hs] at hchurn
  split at hchurn
  · cases hchurn
  · rename_i hne
    rw [Option.map_some, Option.some.injEq] at hchurn
    omega

/-! ## Words -/

variable {texts : SourceTexts}

/-- What is measured of a function that is listed is what is measured in its ranges. -/
theorem units_of_get?_changedStats (units : ChangeStats → Option Nat)
    (hzero : units .zero = none)
    (hmerge : ∀ s t : ChangeStats, units (s.merge t) = addMeasured (units s) (units t))
    (hd : d.check = .ok ()) (hf : checkFunctions functions = .ok ())
    (hs : (changedStats functions d (some texts)).get? name = some s)
    (hsome : (units s).isSome = true) :
    units s = some ((rangesOf functions name).map fun r => ((d.piecesIn r).map fun piece =>
      (units (piece.stats (some (.of texts d)))).getD 0).sum).sum := by
  obtain ⟨n, hn⟩ := Option.isSome_iff_exists.1 hsome
  have hsum := elim_get?_changedStats (fun s => (units s).getD 0) (by rw [hzero]; rfl)
    (fun s t => by rw [hmerge, addMeasured_getD]) hd hf (some texts) name
  rw [hs, Option.elim_some, hn, Option.getD_some] at hsum
  rw [hn, hsum]
  rfl

/-- The added words of a function are those of the blocks of the additions that its ranges take
in. -/
theorem addedUnits_of_get?_changedStats (hd : d.check = .ok ())
    (hf : checkFunctions functions = .ok ())
    (hs : (changedStats functions d (some texts)).get? name = some s) :
    s.addedUnits = some
      (((d.additions.zip (d.inverse.deletions.map (unitCount (lines texts.new.toList)))).filter
        fun e => ∃ r ∈ rangesOf functions name, r.TakesIn e.1).map Prod.snd).sum := by
  have hmeasured := isSome_units_changedStats functions d (some texts) (name, s)
    (NameMap.mem_entries_iff.2 hs)
  have hunits := units_of_get?_changedStats ChangeStats.addedUnits rfl (fun _ _ => rfl) hd hf hs
    hmeasured.1
  simp only [sum_addedUnits_piecesIn] at hunits
  rw [hunits, sum_filter]
  exact congrArg some (sum_exists_of_disjoint ((disjoint_takesIn (pairwise_rangesOf hf name)).imp
    fun h (e : Addition × Nat) => h e.1) _ _)

/-- The removed words of a function are those on the deleted lines in its ranges. -/
theorem removedUnits_of_get?_changedStats (hd : d.check = .ok ())
    (hf : checkFunctions functions = .ok ())
    (hs : (changedStats functions d (some texts)).get? name = some s) :
    s.removedUnits = some (wordsOf (linesAt (lines texts.old.toList)
      (d.deletedIn (rangesOf functions name)))) := by
  have hmeasured := isSome_units_changedStats functions d (some texts) (name, s)
    (NameMap.mem_entries_iff.2 hs)
  have hunits := units_of_get?_changedStats ChangeStats.removedUnits rfl (fun _ _ => rfl) hd hf hs
    hmeasured.2
  simp only [sum_removedUnits_piecesIn, sum_unitCount_intersections, wordsOf_linesAt] at hunits
  rw [hunits, sum_filter_contains (pairwise_rangesOf hf name), wordsOf_linesAt]
  rfl

end

end EffortRank
