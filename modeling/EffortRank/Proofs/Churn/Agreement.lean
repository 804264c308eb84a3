import EffortRank.Churn.Attribution
import EffortRank.NameMap.Lemmas
import EffortRank.Proofs.Diff.Records

/-!
# Two counts of one pass

A pass over the functions can count the changed lines of each in one number (`changedLines`), or
keep the two sides apart and measure words (`changedStats`). Both counts are taken of the same
pieces. So whatever the order of the records and of the functions, they list the same functions,
the lines of one are those of the other, and the text of the versions adds nothing but words.

That holds of unbounded numbers. In 64 bits, one count may have a result where the other has none:
`changedStats_agrees_changedLines` says which numbers have to fit for each.
-/

namespace EffortRank

namespace ChangeStats

variable {s : ChangeStats}

/-- The change in lines only. -/
def linesOnly (s : ChangeStats) : ChangeStats := ⟨s.adds, s.dels, none, none⟩

def unitsFit (s : ChangeStats) : Bool := s.addedUnits.all countFits && s.removedUnits.all countFits

theorem lineChurn_merge (s t : ChangeStats) :
    (s.merge t).lineChurn = s.lineChurn + t.lineChurn := by
  simp only [lineChurn, merge]
  omega

theorem fits_iff : s.fits = true ↔ s.linesOnly.fits = true ∧ s.unitsFit = true := by
  simp [fits, linesOnly, unitsFit, and_assoc]

/-- The lines of either side fit if those of both do. -/
theorem fits_linesOnly_of_lineChurn (h : countFits s.lineChurn = true) :
    s.linesOnly.fits = true := by
  have hsum : s.adds + s.dels ≤ maxCount := of_decide_eq_true h
  have hadds : countFits s.adds = true := decide_eq_true (by omega)
  have hdels : countFits s.dels = true := decide_eq_true (by omega)
  simp [fits, linesOnly, hadds, hdels]

end ChangeStats

namespace Contribution

theorem lineChurn_stats (meter : Option UnitMeter) (piece : Contribution) :
    (piece.stats meter).lineChurn = piece.lines := by
  cases piece with
  | added index length => exact Nat.add_zero length
  | deleted shared => exact Nat.zero_add shared.length

theorem linesOnly_stats (meter : Option UnitMeter) (piece : Contribution) :
    (piece.stats meter).linesOnly = piece.stats none := by
  cases piece <;> rfl

end Contribution

/-! ## Without bounds -/

section

variable (functions : List FunctionRange) (d : FileDiff) (sources : Option SourceTexts)

/-- **The lines of both sides** are the changed lines of each function. -/
theorem map_lineChurn_changedStats :
    (changedStats functions d sources).map ChangeStats.lineChurn = changedLines functions d := by
  refine NameMap.map_foldl_alter (fun e old => ?_) (namedPieces functions d) .empty
  rw [ChangeStats.lineChurn_merge, Contribution.lineChurn_stats]
  cases old <;> rfl

/-- **The text of the versions** adds nothing but words. -/
theorem map_linesOnly_changedStats :
    (changedStats functions d sources).map ChangeStats.linesOnly =
      changedStats functions d none := by
  refine NameMap.map_foldl_alter (fun e old => ?_) (namedPieces functions d) .empty
  have hmerge : ∀ s t : ChangeStats, (s.merge t).linesOnly = s.linesOnly.merge t.linesOnly :=
    fun _ _ => rfl
  rw [hmerge, Contribution.linesOnly_stats]
  cases old <;> rfl

/-- Words are counted of every function that is listed if there is text, and of none otherwise. -/
theorem isSome_units_changedStats :
    ∀ e ∈ (changedStats functions d sources).entries,
      e.2.addedUnits.isSome = sources.isSome ∧ e.2.removedUnits.isSome = sources.isSome := by
  let measured (s : ChangeStats) : Prop :=
    s.addedUnits.isSome = sources.isSome ∧ s.removedUnits.isSome = sources.isSome
  have hsum : ∀ m n : Option Nat, (addMeasured m n).isSome = (m.isSome || n.isSome) := by
    intro m n
    cases m <;> cases n <;> rfl
  have hstats : ∀ piece : Contribution,
      measured (piece.stats (sources.map (UnitMeter.of · d))) := by
    intro piece
    cases piece <;> cases sources <;> exact ⟨rfl, rfl⟩
  refine List.foldlRecOn (motive := fun m : NameMap ChangeStats =>
    ∀ e ∈ m.entries, measured e.2) _ _ (List.forall_mem_nil _) fun m hm e _ => ?_
  refine NameMap.forall_entries_alter (p := measured) hm ?_
  obtain ⟨hadded, hremoved⟩ := hstats e.2
  simp only [measured, ChangeStats.merge, hsum, hadded, hremoved]
  cases hold : m.get? e.1 with
  | none => exact ⟨Bool.false_or _, Bool.false_or _⟩
  | some s =>
    obtain ⟨hadded, hremoved⟩ := hm (e.1, s) (NameMap.mem_entries_iff.2 hold)
    rw [Option.getD_some, hadded, hremoved, Bool.or_self]
    exact ⟨rfl, rfl⟩

end

/-! ## In 64 bits -/

section

variable {functions : List FunctionRange} {d : FileDiff}

theorem changedStats?_eq_some_iff {sources : Option SourceTexts} {stats : NameMap ChangeStats} :
    changedStats? functions d sources = some stats ↔
      changedStats functions d sources = stats ∧ (sources.isSome = true → d.inverseFits = true) ∧
        ∀ s ∈ stats.values, s.fits = true := by
  rw [changedStats?, fitting_eq_some_iff, Bool.and_eq_true, List.all_eq_true]
  constructor
  · rintro ⟨⟨hinverse, hfits⟩, rfl⟩
    refine ⟨rfl, fun hsome => ?_, hfits⟩
    rwa [Option.isNone_eq_false_iff.2 hsome, Bool.false_or] at hinverse
  · rintro ⟨rfl, hinverse, hfits⟩
    refine ⟨⟨?_, hfits⟩, rfl⟩
    cases sources with
    | none => rfl
    | some texts => exact hinverse rfl

end

/-- **Both counts of a pass agree**, whatever the functions, the records and the text. They list the
same functions; the lines of both sides together are the changed lines, and do not depend on the
text; and words are counted of every function or, without text, of none.

In 64 bits, changed lines have a result if both sides have one without text and their sum fits. With
text, both sides have a result if they have one without it, and if the inverse and all numbers of
words fit. -/
theorem changedStats_agrees_changedLines (functions : List FunctionRange) (d : FileDiff) :
    (∀ sources,
      (changedStats functions d sources).keys = (changedLines functions d).keys ∧
      (changedStats functions d sources).map ChangeStats.lineChurn = changedLines functions d ∧
      (changedStats functions d sources).map ChangeStats.linesOnly =
        changedStats functions d none ∧
      ∀ s ∈ (changedStats functions d sources).values,
        s.addedUnits.isSome = sources.isSome ∧ s.removedUnits.isSome = sources.isSome) ∧
    (∀ churn, changedLines? functions d = some churn ↔
      ∃ stats, changedStats? functions d none = some stats ∧
        (∀ s ∈ stats.values, countFits s.lineChurn = true) ∧
        stats.map ChangeStats.lineChurn = churn) ∧
    ∀ texts stats, changedStats? functions d (some texts) = some stats ↔
      changedStats? functions d none = some (stats.map ChangeStats.linesOnly) ∧
        d.inverseFits = true ∧ (∀ s ∈ stats.values, s.unitsFit = true) ∧
        changedStats functions d (some texts) = stats := by
  have hnone : (none : Option SourceTexts).isSome = true → d.inverseFits = true :=
    fun h => absurd h Bool.false_ne_true
  refine ⟨fun sources => ⟨?_, ?_, ?_, ?_⟩, fun churn => ?_, fun texts stats => ?_⟩
  · rw [← map_lineChurn_changedStats functions d sources, NameMap.keys_map]
  · exact map_lineChurn_changedStats functions d sources
  · exact map_linesOnly_changedStats functions d sources
  · rw [NameMap.values, List.forall_mem_map]
    exact isSome_units_changedStats functions d sources
  · have hchurn := map_lineChurn_changedStats functions d none
    have hlines := map_linesOnly_changedStats functions d none
    rw [changedLines?, fitting_eq_some_iff, List.all_eq_true, ← hchurn, NameMap.values_map,
      List.forall_mem_map]
    constructor
    · rintro ⟨hfits, rfl⟩
      refine ⟨_, changedStats?_eq_some_iff.2 ⟨rfl, hnone, ?_⟩, hfits, rfl⟩
      rw [← hlines, NameMap.values_map, List.forall_mem_map]
      exact fun s hs => ChangeStats.fits_linesOnly_of_lineChurn (hfits s hs)
    · rintro ⟨stats, hstats, hfits, rfl⟩
      obtain ⟨rfl, -⟩ := changedStats?_eq_some_iff.1 hstats
      exact ⟨hfits, rfl⟩
  · have hlines := map_linesOnly_changedStats functions d (some texts)
    rw [changedStats?_eq_some_iff, changedStats?_eq_some_iff, NameMap.values_map,
      List.forall_mem_map]
    constructor
    · rintro ⟨rfl, hinverse, hfits⟩
      have hboth := fun s hs => ChangeStats.fits_iff.1 (hfits s hs)
      exact ⟨⟨hlines.symm, hnone, fun s hs => (hboth s hs).1⟩, hinverse rfl,
        fun s hs => (hboth s hs).2, rfl⟩
    · rintro ⟨⟨-, -, hfits⟩, hinverse, hunits, rfl⟩
      exact ⟨rfl, fun _ => hinverse, fun s hs => ChangeStats.fits_iff.2 ⟨hfits s hs, hunits s hs⟩⟩

/-- A new line behind the last line that has a number: it can be counted, but the change cannot be
inverted, and so its words cannot be counted. -/
theorem changedStats?_of_last_line_number :
    let functions : List FunctionRange := [⟨"f", ⟨1, 9⟩⟩]
    let d : FileDiff := ⟨[⟨5, 1⟩, ⟨maxLineNumber, 1⟩], []⟩
    changedLines? functions d = some (.ofList [("f", 1)]) ∧
      changedStats? functions d none = some (.ofList [("f", ⟨1, 0, none, none⟩)]) ∧
      changedStats? functions d (some ⟨"", ""⟩) = none := by
  intro functions d
  have hrecords : d.records = d.additions.map .added := FileDiff.records_of_additions _
  refine ⟨by decide +kernel, by decide +kernel, ?_⟩
  rw [changedStats?, FileDiff.inverseFits, hrecords]
  rfl

end EffortRank
