import EffortRank.Proofs.Churn.Totals
import EffortRank.Proofs.Diff.NewVersion
import EffortRank.Proofs.Patch.Inverting
import EffortRank.Proofs.Replay.Counting

/-!
# What is counted for functions of the new version

Functions of the new version are looked for in the inverse of a change, with the texts of both
versions exchanged, and what is found is exchanged back. Main statement
(`FileChange.functionStats_newFunctions`): a function that is not found in the old version gets the
lines that the change put into its ranges, and the deletions that stand behind a line of it in the
new version, but not behind the last one of a range (`FileChange.changeInto`).
-/

namespace EffortRank

open Text

namespace FileDiff

/-- The lines of the new version in some ranges that a change puts in. -/
def insertedIn (d : FileDiff) (old : List Line) (texts : List (List Line))
    (ranges : List LineRange) : List Int :=
  (d.insertedLines old texts).filter fun line => ∃ r ∈ ranges, r.contains line = true

/-- The deletions whose place in the new version is behind a line of one of some ranges, but not
behind its last one. -/
def deletionsBehind (d : FileDiff) (old : List Line) (texts : List (List Line))
    (ranges : List LineRange) : List LineRange :=
  d.deletions.filter fun s => ∃ r ∈ ranges,
    r.first ≤ d.newPlace old texts s ∧ d.newPlace old texts s < r.last

end FileDiff

namespace FileChange

/-- The change in some ranges of the new version, with its words if both texts are at hand. -/
def changeInto (c : FileChange) (d : FileDiff) (old : List Line) (texts : List (List Line))
    (ranges : List LineRange) : ChangeStats :=
  let inserted := d.insertedIn old texts ranges
  let deleted := d.deletionsBehind old texts ranges
  { adds := inserted.length
    dels := (deleted.map LineRange.length).sum
    addedUnits := c.sources?.map fun s =>
      ((linesAt (lines s.new.toList) inserted).flatMap words).length
    removedUnits := c.sources?.map fun s =>
      ((deleted.flatMap (linesIn (lines s.old.toList))).flatMap words).length }

end FileChange

section

variable {d : FileDiff} {old : List Line} {texts : List (List Line)}

theorem deletedIn_inverse (hd : d.WellPlaced old.length) (htexts : d.Texts texts)
    (ranges : List LineRange) : d.inverse.deletedIn ranges = d.insertedIn old texts ranges := by
  rw [FileDiff.deletedIn, hd.deletions_inverse htexts]
  rfl

/-- The blocks that additions become can be counted if the additions can. -/
theorem length_lines_le_of_mem_inverse (h : ∀ a ∈ d.additions, a.lines ≤ maxCount) {s : LineRange}
    (hs : s ∈ d.inverse.deletions) : s.lines.length ≤ maxCount := by
  have hmem : s.lines.length ∈ d.additions.map Addition.lines := by
    rw [map_lines_of_forall₂ d.forall₂_inverse.1]
    exact List.mem_map_of_mem hs
  obtain ⟨a, ha, hlines⟩ := List.mem_map.1 hmem
  rw [← hlines]
  exact h a ha

theorem linesTakenIn_inverse (hd : d.WellPlaced old.length) (htexts : d.Texts texts)
    (hcounted : ∀ s ∈ d.deletions, s.lines.length ≤ maxCount) (ranges : List LineRange) :
    d.inverse.linesTakenIn ranges =
      ((d.deletionsBehind old texts ranges).map LineRange.length).sum := by
  rw [FileDiff.linesTakenIn, hd.additions_inverse htexts, List.filter_map, List.map_map]
  refine congrArg List.sum (List.map_congr_left fun s hs => ?_)
  rw [LineRange.length_of_le (hcounted s (List.mem_of_mem_filter hs)), s.length_lines,
    Function.comp_apply, Addition.lines]
  dsimp only
  omega

/-- The words that the inverse puts in are those on the deleted lines. -/
theorem sum_words_inverse (hd : d.WellPlaced old.length) (htexts : d.Texts texts)
    (text : List Line) (ranges : List LineRange) :
    (((d.inverse.additions.zip (d.inverse.inverse.deletions.map (unitCount text))).filter
        fun e => ∃ r ∈ ranges, r.TakesIn e.1).map Prod.snd).sum =
      (((d.deletionsBehind old texts ranges).flatMap (linesIn text)).flatMap words).length := by
  rw [FileDiff.Placed.inverse_inverse hd (Int.natCast_nonneg _), hd.additions_inverse htexts,
    List.zip_map', List.filter_map, List.map_map, ← wordsOf_eq_length, wordsOf_flatMap]
  rfl

end

namespace FileChange

variable {c : FileChange} {d : FileDiff} {old : List Line} {texts : List (List Line)}

theorem get?_functionStats (c : FileChange) (d : FileDiff) (name : String) :
    (c.functionStats d).get? name =
      Option.merge (fun old _ => old) ((changedStats c.functions d c.sources?).get? name)
        (((changedStats c.newFunctions d.inverse c.reversedSources?).get? name).map
          ChangeStats.swap) := by
  rw [functionStats, NameMap.get?_mergeWith, newFunctionStats, NameMap.get?_map]

/-- The words that the inverse takes out for a function of the new version are those that the change
puts in, and the other way round. -/
theorem units_changedStats_inverse (hd : d.WellPlaced old.length) (htexts : d.Texts texts)
    (hnew : checkFunctions c.newFunctions = .ok ()) {name : String} {s : ChangeStats}
    (hs : (changedStats c.newFunctions d.inverse c.reversedSources?).get? name = some s) :
    let change := c.changeInto d old texts (rangesOf c.newFunctions name)
    s.removedUnits = change.addedUnits ∧ s.addedUnits = change.removedUnits := by
  have hcheck : d.inverse.check = .ok () :=
    (FileDiff.Placed.inverse hd (Int.natCast_nonneg _)).check_eq_ok
  have hmeasured := isSome_units_changedStats c.newFunctions d.inverse c.reversedSources?
    (name, s) (NameMap.mem_entries_iff.2 hs)
  simp only [changeInto]
  cases hsources : c.sources? with
  | none =>
    rw [reversedSources?, hsources] at hmeasured
    simpa using hmeasured.symm
  | some t =>
    rw [reversedSources?, hsources, Option.map_some] at hs
    rw [removedUnits_of_get?_changedStats hcheck hnew hs,
      addedUnits_of_get?_changedStats hcheck hnew hs, deletedIn_inverse hd htexts,
      sum_words_inverse hd htexts, wordsOf_eq_length]
    exact ⟨rfl, rfl⟩

/-- **Exchanged back**, the inverse counts for a function of the new version what the change did in
its ranges. -/
theorem get?_changedStats_inverse (hd : d.WellPlaced old.length) (htexts : d.Texts texts)
    (hnew : checkFunctions c.newFunctions = .ok ())
    (hadditions : ∀ a ∈ d.additions, a.lines ≤ maxCount)
    (hdeletions : ∀ s ∈ d.deletions, s.lines.length ≤ maxCount) (name : String) :
    let change := c.changeInto d old texts (rangesOf c.newFunctions name)
    ((changedStats c.newFunctions d.inverse c.reversedSources?).get? name).map ChangeStats.swap =
      if change.lineChurn = 0 then none else some change := by
  intro change
  have hcheck : d.inverse.check = .ok () :=
    (FileDiff.Placed.inverse hd (Int.natCast_nonneg _)).check_eq_ok
  have hadds := dels_get?_changedStats hcheck hnew
    (fun _ => length_lines_le_of_mem_inverse hadditions) c.reversedSources? name
  have hdels := adds_get?_changedStats hcheck hnew c.reversedSources? name
  rw [deletedIn_inverse hd htexts] at hadds
  rw [linesTakenIn_inverse hd htexts hdeletions] at hdels
  cases hs : (changedStats c.newFunctions d.inverse c.reversedSources?).get? name with
  | none =>
    rw [hs, Option.elim_none] at hadds hdels
    have hnone : change.lineChurn = 0 := by
      show (d.insertedIn old texts _).length + ((d.deletionsBehind old texts _).map _).sum = 0
      rw [← hadds, ← hdels]
    rw [if_pos hnone]
    rfl
  | some s =>
    rw [hs, Option.elim_some] at hadds hdels
    obtain ⟨hadded, hremoved⟩ := units_changedStats_inverse hd htexts hnew hs
    have hswap : s.swap = change := by
      rw [ChangeStats.swap, hadds, hdels, hadded, hremoved]
      rfl
    have hpos := lineChurn_pos_of_get?_changedStats hcheck hnew hs
    have hchurn : change.lineChurn = s.lineChurn := by
      rw [← hswap]
      exact Nat.add_comm _ _
    rw [Option.map_some, hswap, if_neg (by omega)]

/-- Nothing changes in no range. -/
theorem lineChurn_changeInto_nil (c : FileChange) (d : FileDiff) (old : List Line)
    (texts : List (List Line)) : (c.changeInto d old texts []).lineChurn = 0 := by
  simp [changeInto, ChangeStats.lineChurn, FileDiff.insertedIn, FileDiff.deletionsBehind]

/-- The counts of a change fit if its inverse does and its sources are no longer than can be
counted. -/
theorem functionStats?_eq_some_of_inverseFits (hlines : d.OnLines) (hd : d.WellPlaced old.length)
    (hold : checkFunctions c.functions = .ok ()) (hnew : checkFunctions c.newFunctions = .ok ())
    (hinverse : d.inverseFits = true)
    (hsources : ∀ s ∈ c.sources?, s.old.toList.length ≤ maxCount ∧
      s.new.toList.length ≤ maxCount) :
    c.functionStats? d = some (c.functionStats d) := by
  have hmax : (maxCount : Int) = 2 * maxLineNumber + 1 := rfl
  have hpos : (1 : Int) ≤ maxLineNumber := by decide
  have hcheck : d.check = .ok () := FileDiff.Placed.check_eq_ok hd
  have hback := hlines.inverse?_inverse? hcheck hd.apart
    (FileDiff.inverse?_eq_some_iff.2 ⟨hinverse, rfl⟩)
  have hplaced := hlines.placed hcheck hd.apart
  have hremoved := hplaced.removedLines_le (by omega)
  have hshift : lineFits (shiftAfter 0 d.records) = true := lineFits_shiftAfter (by decide) hinverse
  have hadded := le_maxLineNumber_of_lineFits hshift
  rw [hplaced.shiftAfter_records] at hadded
  obtain ⟨stats, hstats, -⟩ := exists_functionStats? hplaced (by omega) hinverse
    (FileDiff.inverse?_eq_some_iff.1 hback).1 (Nat.le_refl maxCount) hold hnew (by omega) (by omega)
    hsources
  rw [hstats, functionStats?_eq_some hstats]

/-- **Functions of the new version** count what the change put into their ranges. Let a change that
is read from a patch be well placed in a file. A function that the pass over the old version lists
has the counts of that pass. Any other name is listed if there are changed lines in the ranges of
its functions in the new version, with the lines that the change put there, the deletions behind
their lines, and the words of both. Without functions of the new version, the counts are those of
the pass over the old one; otherwise they fit if the inverse of the change does. -/
theorem functionStats_newFunctions (hread : readPatch? c.patch.toList = some d)
    (hd : d.WellPlaced old.length) (htexts : d.Texts texts)
    (hold : checkFunctions c.functions = .ok ()) (hnew : checkFunctions c.newFunctions = .ok ())
    (hinverse : c.newFunctions ≠ [] → d.inverseFits = true) :
    let before := changedStats c.functions d c.sources?
    (∀ name ∈ before.keys, (c.functionStats d).get? name = before.get? name) ∧
      (∀ name, name ∉ before.keys →
        let change := c.changeInto d old texts (rangesOf c.newFunctions name)
        ((c.functionStats d).get? name = if change.lineChurn = 0 then none else some change) ∧
          (change.lineChurn ≠ 0 → ∃ g ∈ c.newFunctions, g.name = name)) ∧
      (∀ stats, c.functionStats? d = some stats → stats = c.functionStats d) ∧
      (c.newFunctions = [] → c.functionStats? d = changedStats? c.functions d c.sources?) ∧
      (d.inverseFits = true →
        (∀ s ∈ c.sources?, s.old.toList.length ≤ maxCount ∧ s.new.toList.length ≤ maxCount) →
        c.functionStats? d = some (c.functionStats d)) := by
  intro before
  have hlines := readPatch?_onLines hread
  have hdeletions : ∀ s ∈ d.deletions, s.lines.length ≤ maxCount := by
    intro s hs
    obtain ⟨hfirst, -, hlast⟩ := hlines.deletions s hs
    rw [maxLineNumber] at hlast
    rw [s.length_lines, maxCount]
    omega
  refine ⟨fun name hname => ?_, fun name hname => ⟨?_, fun hchurn => ?_⟩,
    fun stats => functionStats?_eq_some, fun hempty => ?_,
    functionStats?_eq_some_of_inverseFits hlines hd hold hnew⟩
  · obtain ⟨s, hs⟩ := Option.isSome_iff_exists.1 (NameMap.mem_keys_iff.1 hname)
    rw [get?_functionStats, hs]
    cases (changedStats c.newFunctions d.inverse c.reversedSources?).get? name <;> rfl
  · have hnone : before.get? name = none := by
      rwa [NameMap.mem_keys_iff, Option.not_isSome_iff_eq_none] at hname
    rw [get?_functionStats, hnone, Option.merge_none_left]
    by_cases hempty : c.newFunctions = []
    · have hzero := lineChurn_changeInto_nil c d old texts
      rw [hempty]
      exact (if_pos hzero).symm
    · have hadditions := (lines_le_of_shiftsFit (by decide) (hinverse hempty)).1
      rw [d.ofRecords_records] at hadditions
      exact get?_changedStats_inverse hd htexts hnew hadditions hdeletions name
  · by_contra hnone
    have hranges : rangesOf c.newFunctions name = [] := by
      rw [rangesOf, List.map_eq_nil_iff, List.filter_eq_nil_iff]
      exact fun g hg hname => hnone ⟨g, hg, of_decide_eq_true hname⟩
    rw [hranges] at hchurn
    exact hchurn (lineChurn_changeInto_nil c d old texts)
  · rw [functionStats?, newFunctionStats?, hempty]
    cases changedStats? c.functions d c.sources? <;> rfl

/-- A line of the function `f` is replaced by two, the first of which belongs to a new function. The
name `f` keeps its counts although a new function has it too. -/
theorem functionStats_newFunctions_split :
    let c : FileChange := ⟨some "a", some "a", "@@ -1,3 +1,4 @@\n a\n-b b\n+x\n+y y y\n c\n",
      [⟨"f", ⟨1, 3⟩⟩], [⟨"g", ⟨1, 2⟩⟩, ⟨"f", ⟨3, 3⟩⟩, ⟨"h", ⟨4, 4⟩⟩], some "a\nb b\nc\n",
      some "a\nx\ny y y\nc\n", []⟩
    let d : FileDiff := ⟨[⟨2, 2⟩], [⟨2, 2⟩]⟩
    let old : List Line := ["a".toList, "b b".toList, "c".toList]
    let texts : List (List Line) := [["x".toList, "y y y".toList]]
    readPatch? c.patch.toList = some d ∧ d.WellPlaced old.length ∧ d.Texts texts ∧
      checkFunctions c.functions = .ok () ∧ checkFunctions c.newFunctions = .ok () ∧
      d.inverseFits = true ∧
      ∃ stats, c.functionStats? d = some stats ∧
        stats.get? "f" = (changedStats c.functions d c.sources?).get? "f" ∧
        stats.get? "g" = some ⟨1, 1, some 1, some 2⟩ ∧ stats.get? "h" = none := by
  intro c d old texts
  have hread : readPatch? c.patch.toList = some d := by decide +kernel
  have hd : d.WellPlaced old.length := by constructor <;> decide
  have htexts : d.Texts texts := .cons rfl .nil
  have hrecords : d.records = [.deleted ⟨2, 2⟩, .added ⟨2, 2⟩] :=
    FileDiff.records_replacement (Int.le_refl 2)
  have hinverse : d.inverseFits = true := by
    rw [FileDiff.inverseFits, hrecords]
    rfl
  obtain ⟨hbefore, hafter, -, -, hresult⟩ :=
    functionStats_newFunctions hread hd htexts rfl rfl fun _ => hinverse
  have hkeys : (changedStats c.functions d none).keys = ["f"] := by decide +kernel
  rw [← map_linesOnly_changedStats c.functions d c.sources?, NameMap.keys_map] at hkeys
  have hg := (hafter "g" (by rw [hkeys]; decide)).1
  have hh := (hafter "h" (by rw [hkeys]; decide)).1
  refine ⟨hread, hd, htexts, rfl, rfl, hinverse, _, hresult hinverse ?_, hbefore "f" ?_,
    hg.trans ?_, hh.trans ?_⟩
  · rintro s ⟨⟩
    decide +kernel
  · rw [hkeys]
    decide
  · decide +kernel
  · decide +kernel

/-- The last line of the new version with a number lies in a function, but the next new line has
none, so that the change cannot be inverted. -/
theorem functionStats?_of_last_line_number :
    let c : FileChange := ⟨none, some "a", "@@ -9223372036854775806,0 +1,2 @@\n+x\n+y\n", [],
      [⟨"g", ⟨maxLineNumber, maxLineNumber⟩⟩], none, none, []⟩
    let d : FileDiff := ⟨[⟨maxLineNumber - 1, 2⟩], []⟩
    readPatch? c.patch.toList = some d ∧ d.WellPlaced (maxLineNumber - 1).toNat ∧
      checkFunctions c.functions = .ok () ∧ checkFunctions c.newFunctions = .ok () ∧
      (∀ old : List Line, old.length = (maxLineNumber - 1).toNat → ∀ texts, d.Texts texts →
        d.insertedIn old texts (rangesOf c.newFunctions "g") = [maxLineNumber]) ∧
      c.functionStats? d = none := by
  intro c d
  have hd : d.WellPlaced (maxLineNumber - 1).toNat := by constructor <;> decide
  have hrecords : d.records = [.added ⟨maxLineNumber - 1, 2⟩] := FileDiff.records_of_additions _
  refine ⟨by decide +kernel, hd, rfl, rfl, fun old hlength texts htexts => ?_, ?_⟩
  · rw [← hlength] at hd
    rw [← deletedIn_inverse hd htexts, FileDiff.deletedIn, FileDiff.inverse, hrecords]
    decide +kernel
  · have hfits : d.inverseFits = false := by
      rw [FileDiff.inverseFits, hrecords]
      rfl
    rw [functionStats?, newFunctionStats?, FileDiff.inverse?, hfits]
    rfl

end FileChange

end EffortRank
