import EffortRank.Proofs.Churn.Bounded
import EffortRank.Proofs.Churn.Totals
import EffortRank.Proofs.Diff.NewVersion

/-!
# Words on the lines that changed

A well placed change turns the lines of one text into those of another. Its inverse names the lines
of the new text that its blocks take up, so that a pass measures each addition on just the lines
that it put in, however its records stand to each other. Main statement (`changedStats_words`): a
function that is listed has the words on the new lines that it takes in, and those on its old lines
that were deleted.
-/

namespace EffortRank

open Text

namespace FileDiff

/-- The new lines of the blocks that one of some ranges takes in. -/
def textTakenIn (d : FileDiff) (texts : List (List Line)) (ranges : List LineRange) : List Line :=
  ((d.additions.zip texts).filter fun e => ∃ r ∈ ranges, r.TakesIn e.1).flatMap Prod.snd

/-- The old lines in some ranges that a change takes out. -/
def textDeletedIn (d : FileDiff) (old : List Line) (ranges : List LineRange) : List Line :=
  linesAt old (d.deletedIn ranges)

variable {d : FileDiff} {old new : List Line} {texts : List (List Line)}

/-- **The block of an addition has the words that it puts in.** -/
theorem WellPlaced.map_unitCount (hd : d.WellPlaced old.length) (htexts : d.Texts texts) :
    d.inverse.deletions.map (unitCount (d.applyTo old texts)) = texts.map wordsOf := by
  conv_rhs => rw [← hd.linesIn_deletions_inverse htexts, List.map_map]
  rfl

theorem sum_words_takenIn (d : FileDiff) (texts : List (List Line)) (ranges : List LineRange) :
    (((d.additions.zip (texts.map wordsOf)).filter fun e =>
        ∃ r ∈ ranges, r.TakesIn e.1).map Prod.snd).sum = wordsOf (d.textTakenIn texts ranges) := by
  rw [List.zip_map_right, List.filter_map, List.map_map, textTakenIn, wordsOf_flatMap]
  rfl

/-- The inverse and all counts fit if the numbers of characters are line numbers. -/
theorem WellPlaced.changedStats?_eq_some {functions : List FunctionRange} {old new : String}
    (hd : d.WellPlaced (lines old.toList).length) (htexts : d.Texts texts)
    (hnew : d.applyTo (lines old.toList) texts = lines new.toList)
    (hf : checkFunctions functions = .ok ()) (holdSize : old.toList.length < maxLineNumber)
    (hnewSize : new.toList.length < maxLineNumber) :
    changedStats? functions d (some ⟨old, new⟩) =
      some (changedStats functions d (some ⟨old, new⟩)) := by
  have hmax : (maxCount : Int) = 2 * maxLineNumber + 1 := rfl
  have holdLines := length_lines_le old.toList
  have hnewLines := length_lines_le new.toList
  have hlength := hd.length_applyTo htexts
  have hremoved := Placed.removedLines_le hd (Int.natCast_nonneg _)
  rw [hnew, Placed.shiftAfter_records hd] at hlength
  have hfits : d.inverseFits = true := by
    refine hd.inverseFits htexts (lineFits_of_nonneg (by omega) (by omega)) ?_
    rw [hnew]
    exact lineFits_of_nonneg (by omega) (by omega)
  have hblocks := (Placed.inverse hd (Int.natCast_nonneg _)).deletions_sorted
  refine changedStats?_of_within (fun _ => hfits) (Nat.le_refl maxCount) ?_
  refine within_changedStats hf hd.deletions_sorted (by omega) (by omega) ?_
  rintro s ⟨⟩
  exact words_le_of_size hblocks (by dsimp only; omega) (by dsimp only; omega)

end FileDiff

/-- **Words are counted on the lines that changed.** Let a well placed change turn the lines of one
text into those of another. A pass lists a function if lines of it are changed, and it counts both
kinds of words for it: as added, those on the new lines of the blocks that stand behind a line of
the function, but not behind the last one of its range; as removed, those on the old lines in its
ranges that are taken out. The counts fit if the texts fit in memory. -/
theorem changedStats_words {functions : List FunctionRange} {d : FileDiff} {old new : String}
    {texts : List (List Line)} (hd : d.WellPlaced (lines old.toList).length)
    (htexts : d.Texts texts) (hnew : d.applyTo (lines old.toList) texts = lines new.toList)
    (hf : checkFunctions functions = .ok ()) :
    let stats := changedStats functions d (some ⟨old, new⟩)
    (∀ name, stats.get? name = none ↔ churnOf functions d name = 0) ∧
      (∀ name s, stats.get? name = some s →
        let ranges := rangesOf functions name
        s.addedUnits = some ((d.textTakenIn texts ranges).flatMap words).length ∧
          s.removedUnits =
            some ((d.textDeletedIn (lines old.toList) ranges).flatMap words).length) ∧
      (old.toList.length < maxLineNumber → new.toList.length < maxLineNumber →
        changedStats? functions d (some ⟨old, new⟩) = some stats) := by
  intro stats
  have hcheck : d.check = .ok () := FileDiff.Placed.check_eq_ok hd
  refine ⟨get?_changedStats_eq_none_iff hcheck hf _, fun name s hs => ⟨?_, ?_⟩,
    hd.changedStats?_eq_some htexts hnew hf⟩
  · rw [addedUnits_of_get?_changedStats hcheck hf hs, ← hnew, hd.map_unitCount htexts,
      FileDiff.sum_words_takenIn, wordsOf_eq_length]
  · rw [removedUnits_of_get?_changedStats hcheck hf hs, ← FileDiff.textDeletedIn,
      wordsOf_eq_length]

/-- Two blocks in one function, of which one replaces a line, and a last line that is taken out. -/
theorem changedStats_words_replacing :
    let functions : List FunctionRange := [⟨"f", ⟨1, 3⟩⟩, ⟨"g", ⟨4, 5⟩⟩]
    let d : FileDiff := ⟨[⟨1, 1⟩, ⟨2, 2⟩], [⟨2, 2⟩, ⟨4, 4⟩]⟩
    let old := "f one\nf two\nf three\ng(four, 5)\n"
    let new := "f one\na new line\nx = y\nz\nf three\n"
    let texts : List (List Line) := [["a new line".toList], ["x = y".toList, "z".toList]]
    d.WellPlaced (lines old.toList).length ∧ d.Texts texts ∧
      d.applyTo (lines old.toList) texts = lines new.toList ∧ checkFunctions functions = .ok () ∧
      ∃ stats f g, changedStats? functions d (some ⟨old, new⟩) = some stats ∧
        stats.get? "f" = some f ∧ f.addedUnits = some 6 ∧ f.removedUnits = some 2 ∧
        stats.get? "g" = some g ∧ g.addedUnits = some 0 ∧ g.removedUnits = some 3 := by
  intro functions d old new texts
  have hd : d.WellPlaced (lines old.toList).length := by constructor <;> decide
  have htexts : d.Texts texts := .cons rfl (.cons rfl .nil)
  have hnew : d.applyTo (lines old.toList) texts = lines new.toList := by decide
  have hf : checkFunctions functions = .ok () := rfl
  obtain ⟨hlisted, hwords, hresult⟩ := changedStats_words hd htexts hnew hf
  have hchurn : churnOf functions d "f" ≠ 0 ∧ churnOf functions d "g" ≠ 0 := by decide
  obtain ⟨f, hget⟩ := Option.ne_none_iff_exists'.1 ((hlisted "f").not.2 hchurn.1)
  obtain ⟨g, hget'⟩ := Option.ne_none_iff_exists'.1 ((hlisted "g").not.2 hchurn.2)
  obtain ⟨hadded, hremoved⟩ := hwords "f" f hget
  obtain ⟨hadded', hremoved'⟩ := hwords "g" g hget'
  exact ⟨hd, htexts, hnew, hf, _, f, g, hresult (by decide) (by decide), hget,
    hadded.trans (by decide +kernel), hremoved.trans (by decide +kernel), hget',
    hadded'.trans (by decide +kernel), hremoved'.trans (by decide +kernel)⟩

end EffortRank
