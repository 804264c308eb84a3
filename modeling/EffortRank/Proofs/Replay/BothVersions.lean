import EffortRank.Proofs.Patch.Inverting
import EffortRank.Proofs.Replay.History

/-!
# Functions of both versions of a file

What a change did to the functions of the old version is found in the change, and what it did to
those of the new version in its inverse. A function of the new version is filled in
(`FileChange.filledIn`) if no function of the old version with its name is changed. It may be the
same function under a new name, or stand where lines of a function of the old version were, so that
a line may be counted for two functions. Those lines are all that is counted too much
(`FileChange.sum_functionStats_le`), and there may be some
(`FileChange.addedLines_lt_sum_functionStats`).
-/

namespace EffortRank

namespace FileChange

variable {c : FileChange} {d : FileDiff}

/-- The functions of the new version whose names the functions of the old one do not have, or only
functions without a changed line. -/
def filledIn (c : FileChange) (d : FileDiff) : List FunctionRange :=
  c.newFunctions.filter fun g => churnOf c.functions d g.name = 0

/-- The number of added lines that lie in functions which are filled in, although a function of the
old version takes them in. -/
def addedTwice (c : FileChange) (d : FileDiff) : Nat :=
  countedTwice c.functions (c.filledIn d) d.additions d.inverse.deletions

/-- The number of deleted lines that lie in functions of the old version, although a function that
is filled in takes them in when the change is undone. -/
def deletedTwice (c : FileChange) (d : FileDiff) : Nat :=
  countedTwice (c.filledIn d) c.functions d.inverse.additions d.deletions

/-- A number of the change of functions is that of the functions of the old version and of those
that are filled in. -/
theorem sumOf_functionStats {φ : ChangeStats → Nat} (hd : d.check = .ok ())
    (hf : checkFunctions c.functions = .ok ()) :
    ((c.functionStats d).values.map φ).sum =
      ((changedStats c.functions d c.sources?).sumOf fun _ s => φ s) +
        (changedStats c.newFunctions d.inverse c.reversedSources?).sumOf fun name s =>
          if churnOf c.functions d name = 0 then φ s.swap else 0 := by
  have hvalues : ((c.functionStats d).values.map φ).sum =
      (c.functionStats d).sumOf fun _ s => φ s := by
    rw [NameMap.values, List.map_map]
    rfl
  have hfilled : ∀ (name : String) (s : ChangeStats),
      (if ((changedStats c.functions d c.sources?).get? name).isSome then 0 else φ s) =
        if churnOf c.functions d name = 0 then φ s else 0 := by
    intro name s
    have hnone := get?_changedStats_eq_none_iff hd hf c.sources? name
    by_cases hzero : churnOf c.functions d name = 0
    · rw [hnone.2 hzero, if_pos hzero]
      rfl
    · rw [if_neg hzero, if_pos (Option.isSome_iff_ne_none.2 fun h => hzero (hnone.1 h))]
  rw [hvalues, functionStats, NameMap.sumOf_mergeWith_left, newFunctionStats, NameMap.sumOf_map]
  simp only [hfilled]

/-- **The functions of both versions together** count no more lines than the change has and those
that lie in functions of both. So they count at most twice as many lines as there are. -/
theorem sum_functionStats_le (h : c.checkedDiff = .ok d) :
    ((c.functionStats d).values.map ChangeStats.adds).sum ≤ d.addedLines + c.addedTwice d ∧
      ((c.functionStats d).values.map ChangeStats.dels).sum ≤
        d.deletedLines + c.deletedTwice d ∧
      c.addedTwice d ≤ d.addedLines ∧ c.deletedTwice d ≤ d.deletedLines ∧
      ∀ stats, c.functionStats? d = some stats → stats = c.functionStats d := by
  obtain ⟨hread, hd, hold, hnew⟩ := inOrder_of_checkedDiff h
  obtain ⟨hblocks, hinserted⟩ := d.forall₂_inverse
  have holdSorted := checkFunctions_eq_ok_iff.1 hold
  have hfilledSorted : ((c.filledIn d).map FunctionRange.range).Pairwise LineRange.Precedes :=
    (checkFunctions_eq_ok_iff.1 hnew).sublist (List.filter_sublist.map _)
  have haddedLines : d.addedLines = (d.additions.map Addition.lines).sum := rfl
  have hdeletedLines : d.deletedLines = (d.inverse.additions.map Addition.lines).sum :=
    (readPatch?_onLines hread).deletedLines_eq.trans d.addedLines_inverse.symm
  refine ⟨?_, ?_, ?_, ?_, fun stats => functionStats?_eq_some⟩
  · have hforward := sum_adds_changedStats_le (fun _ => True) hold d c.sources?
    have hbackward := sum_dels_changedStats_le (fun name => churnOf c.functions d name = 0)
      c.newFunctions d.inverse c.reversedSources?
    simp only [if_true, decide_true, List.filter_true] at hforward
    rw [sumOf_functionStats hd hold, haddedLines]
    exact (Nat.add_le_add hforward hbackward).trans (sum_shares_le hfilledSorted hblocks)
  · have hforward := sum_dels_changedStats_le (fun _ => True) c.functions d c.sources?
    have hbackward := sum_adds_changedStats_le (fun name => churnOf c.functions d name = 0) hnew
      d.inverse c.reversedSources?
    simp only [if_true, decide_true, List.filter_true] at hforward
    rw [sumOf_functionStats hd hold, hdeletedLines, Nat.add_comm]
    exact (Nat.add_le_add hbackward hforward).trans (sum_shares_le holdSorted hinserted)
  · rw [haddedLines]
    exact countedTwice_le hfilledSorted hblocks
  · rw [hdeletedLines]
    exact countedTwice_le holdSorted hinserted

/-- A function is renamed, and a line of it replaced by two: it counts for both names. -/
theorem sum_functionStats_le_of_renamed :
    let c : FileChange := ⟨some "a", some "a", "@@ -1,3 +1,4 @@\n a\n-b\n+x\n+y\n c\n",
      [⟨"f", ⟨1, 3⟩⟩], [⟨"g", ⟨1, 4⟩⟩], none, none, []⟩
    let d : FileDiff := ⟨[⟨2, 2⟩], [⟨2, 2⟩]⟩
    c.checkedDiff = .ok d ∧ c.addedTwice d = 2 ∧ c.deletedTwice d = 1 ∧
      ((c.functionStats d).values.map ChangeStats.adds).sum ≤ d.addedLines + c.addedTwice d ∧
      ((c.functionStats d).values.map ChangeStats.dels).sum ≤
        d.deletedLines + c.deletedTwice d := by
  intro c d
  have h : c.checkedDiff = .ok d := by decide +kernel
  have hinverse : d.inverse = ⟨[⟨1, 1⟩], [⟨2, 3⟩]⟩ := FileDiff.inverse_replacement (by decide)
  obtain ⟨hadds, hdels, -⟩ := sum_functionStats_le h
  refine ⟨h, ?_, ?_, hadds, hdels⟩
  · rw [addedTwice, hinverse]
    decide
  · rw [deletedTwice, hinverse]
    decide

/-- **The functions together may count more than the change**: the replaced line and the two that
replace it are those of a function that is renamed, and all of them count twice. -/
theorem addedLines_lt_sum_functionStats :
    let c : FileChange := ⟨some "a", some "a", "@@ -1,3 +1,4 @@\n a\n-b\n+x\n+y\n c\n",
      [⟨"f", ⟨1, 3⟩⟩], [⟨"g", ⟨1, 4⟩⟩], none, none, []⟩
    ∃ d stats, c.checkedDiff = .ok d ∧ c.functionStats? d = some stats ∧
      d.addedLines = 2 ∧ (stats.values.map ChangeStats.adds).sum = 4 ∧
      d.deletedLines = 1 ∧ (stats.values.map ChangeStats.dels).sum = 2 := by
  intro c
  let d : FileDiff := ⟨[⟨2, 2⟩], [⟨2, 2⟩]⟩
  have hrecords : d.records = [.deleted ⟨2, 2⟩, .added ⟨2, 2⟩] :=
    FileDiff.records_replacement (by decide)
  have hinverse : d.inverse? = some ⟨[⟨1, 1⟩], [⟨2, 3⟩]⟩ := by
    rw [FileDiff.inverse?, FileDiff.inverseFits, FileDiff.inverse, hrecords]
    decide
  have hstats : c.functionStats? d =
      some (.ofList [("f", ⟨2, 1, none, none⟩), ("g", ⟨2, 1, none, none⟩)]) := by
    rw [functionStats?, newFunctionStats?, hinverse]
    decide +kernel
  refine ⟨d, _, ?_, hstats, rfl, ?_, rfl, ?_⟩
  · decide +kernel
  · decide +kernel
  · decide +kernel

end FileChange

end EffortRank
