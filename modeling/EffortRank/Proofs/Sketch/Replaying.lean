import EffortRank.Proofs.Patch.Versions
import EffortRank.Proofs.Replay.Counting
import EffortRank.Proofs.Sketch.Script

/-!
# Scripted histories are replayed

Of the differ, it is only asked that it writes well formed diffs of the texts that the script has it
compare (`Sketch.Diffs`). Then all that a replay checks is in order: a diff describes a change in
order, and the functions of a sketch are in order whatever it is. And as long as the texts are such
as fit in memory (`Sketch.InMemory`), no number gets too large. So the replay comes to its end, and
its numbers count the script (`Sketch.replay_stepsBy`).
-/

namespace EffortRank

open Text

/-! ## Counting commits -/

/-- A replay counts each commit by its mode. -/
theorem CallGraph.modes_replayFrom {g g' : CallGraph} {filter : FileFilter}
    {history : List CommitStep} {done stats : ReplayStats}
    (h : g.replayFrom filter done history = (g', .ok stats)) :
    stats.forward = done.forward + (history.map CommitStep.mode).count .forward ∧
      stats.merges = done.merges + (history.map CommitStep.mode).count .merge ∧
      stats.rewinds = done.rewinds + (history.map CommitStep.mode).count .rewind := by
  induction history generalizing g done with
  | nil =>
    cases h
    exact ⟨rfl, rfl, rfl⟩
  | cons commit history ih =>
    rw [replayFrom] at h
    split at h
    · cases h
    · obtain ⟨hforward, hmerges, hrewinds⟩ := ih h
      rw [hforward, hmerges, hrewinds, List.map_cons, List.count_cons, List.count_cons,
        List.count_cons]
      dsimp only [ReplayStats.count]
      cases commit.mode with
      | forward => simp; omega
      | merge => simp; omega
      | rewind => simp; omega

namespace Sketch

/-- The differ writes well formed diffs of the texts that the script has it compare. -/
def Diffs (differ : Differ) (script : List ScriptStep) : Prop :=
  ∀ r ∈ revisions [] (edits script), IsDiff (differ r.path r.oldText r.newText) r.oldText r.newText

/-- The texts are such as fit in a memory of 64 bits: the lines of each can be numbered, and the
characters in all texts of the history can be counted. -/
structure InMemory (script : List ScriptStep) (history : List CommitStep) : Prop where
  lines : ∀ e ∈ edits script, ∀ text ∈ e.text,
    lineFits ((lines text.toList).length + 1) = true
  size : sizeOfChanges (history.flatMap CommitStep.changes) ≤ maxCount

/-! ## Changes of a script -/

/-- The text before an edit is that of another one. -/
theorem exists_of_textAfter {es : List Edit} {path text : String}
    (h : textAfter es path = some text) : ∃ e ∈ es, e.text = some text := by
  rw [textAfter, Option.bind_eq_some_iff] at h
  obtain ⟨e, he, htext⟩ := h
  exact ⟨e, List.mem_reverse.1 (List.mem_of_find?_eq_some he), htext⟩

/-- What holds of the empty text and of all texts of some edits, holds of the texts of their
revisions. -/
theorem forall_texts_revisions {p : String → Prop} (hempty : p "") {es : List Edit}
    (h : ∀ e ∈ es, ∀ text ∈ e.text, p text) :
    ∀ r ∈ revisions [] es, p r.oldText ∧ p r.newText := by
  have htext : ∀ text : Option String, (∀ t ∈ text, ∃ e ∈ es, e.text = some t) →
      p (text.getD "") := by
    intro text hfound
    cases text with
    | none => exact hempty
    | some t =>
      obtain ⟨e, he, het⟩ := hfound t rfl
      exact h e he t het
  intro r hr
  obtain ⟨i, hi, rfl⟩ := List.mem_mapIdx.1 hr
  refine ⟨htext _ fun t ht => ?_, htext _ fun t ht => ⟨es[i], List.getElem_mem hi, ht⟩⟩
  obtain ⟨e, he, het⟩ := exists_of_textAfter ht
  exact ⟨e, List.mem_of_mem_take he, het⟩

theorem Revision.sources?_change (r : Revision) (differ : Differ) (withSources : Bool) :
    (r.change differ withSources).sources? =
      if withSources then some ⟨r.oldText, r.newText⟩ else none := by
  cases withSources <;> rfl

theorem Revision.size_change (r : Revision) (differ : Differ) (withSources : Bool) :
    (r.change differ withSources).size = (differ r.path r.oldText r.newText).toList.length +
      if withSources then r.oldText.toList.length + r.newText.toList.length else 0 := by
  cases withSources with
  | false => rfl
  | true => exact Nat.add_assoc _ _ _

/-- **A change of a script is in order and counted**, if its patch is a diff of its texts. -/
theorem Revision.counted_change {r : Revision} {differ : Differ} {withSources : Bool}
    (hdiff : IsDiff (differ r.path r.oldText r.newText) r.oldText r.newText)
    (hold : lineFits ((lines r.oldText.toList).length + 1) = true)
    (hnew : lineFits ((lines r.newText.toList).length + 1) = true)
    (hsize : (r.change differ withSources).size ≤ maxCount) :
    (r.change differ withSources).Counted := by
  obtain ⟨d, hread, hplaced, hinverse, hback, hadded, hremoved⟩ := hdiff.exists_change hold hnew
  have hd : d = readPatch (r.change differ withSources).patch.toList :=
    (fitting_eq_some_iff.1 hread).2.symm
  have holdFunctions := checkFunctions_functions r.oldText
  have hnewFunctions := checkFunctions_functions r.newText
  have hpatch : (differ r.path r.oldText r.newText).toList.length ≤
      (r.change differ withSources).size := by
    rw [r.size_change]
    exact Nat.le_add_right _ _
  have hsources : ∀ s ∈ (r.change differ withSources).sources?,
      s.old.toList.length ≤ (r.change differ withSources).size ∧
        s.new.toList.length ≤ (r.change differ withSources).size := by
    rw [r.sources?_change, r.size_change]
    cases withSources with
    | false =>
      rintro s ⟨⟩
    | true =>
      rintro s ⟨⟩
      simp only [if_true]
      exact ⟨by omega, by omega⟩
  refine ⟨Option.isSome_of_eq_some hread, ?_, ?_⟩
  · rw [FileChange.order, ← hd, bind_eq_ok_iff]
    exact ⟨(), hplaced.check_eq_ok, bind_eq_ok_iff.2 ⟨(), holdFunctions, hnewFunctions⟩⟩
  · rw [← hd]
    exact FileChange.exists_functionStats? hplaced (Int.natCast_nonneg _) hinverse hback hsize
      holdFunctions hnewFunctions (hadded.trans hpatch) (hremoved.trans hpatch) hsources

/-! ## The replay -/

/-- The files of the default filter can be told from others. -/
theorem exists_defaultFilter : ∃ filter, FileFilter.ofConfig .default = .ok filter := by
  have hok : (FileFilter.ofConfig .default).toOption.isSome = true := by decide +kernel
  cases hfilter : FileFilter.ofConfig .default with
  | error e =>
    rw [hfilter] at hok
    cases hok
  | ok filter => exact ⟨filter, rfl⟩

/-- **Scripted histories are replayed.** The functions of any text are in order. The history of a
script has its commits, and for each edit a change with the text that the last edit of the file
before it left, none if there was no such edit or if it deleted the file. If the differ writes well
formed diffs of these texts, the replay of the history comes to its end, and its numbers count each
commit of the script and each edit. -/
theorem replay_stepsBy :
    (∀ source, checkFunctions (functions source) = .ok ()) ∧
      ∀ (differ : Differ) (withSources : Bool) (script : List ScriptStep),
        let history := stepsBy differ withSources .empty script
        (history.map fun k => (k.info.hash, k.mode)) = script.map (fun s => (s.hash, s.mode)) ∧
          history.flatMap CommitStep.changes =
            (revisions [] (edits script)).map (fun r => r.change differ withSources) ∧
          (Diffs differ script → InMemory script history →
            ∃ g stats, replay history = (g, .ok stats) ∧ stats.commits = script.length ∧
              stats.forward = (script.map ScriptStep.mode).count .forward ∧
              stats.merges = (script.map ScriptStep.mode).count .merge ∧
              stats.rewinds = (script.map ScriptStep.mode).count .rewind ∧
              stats.filesApplied + stats.filesSkipped = (edits script).length) := by
  refine ⟨checkFunctions_functions, fun differ withSources script => ?_⟩
  intro history
  have hcommits : (history.map fun k => (k.info.hash, k.mode)) =
      script.map fun s => (s.hash, s.mode) := map_stepsBy differ withSources .empty script
  have hchanges : history.flatMap CommitStep.changes =
      (revisions [] (edits script)).map fun r => r.change differ withSources :=
    changes_stepsBy differ withSources Files.holds_empty script
  refine ⟨hcommits, hchanges, fun hdiffs hmemory => ?_⟩
  have hempty : lineFits ((lines "".toList).length + 1) = true := by decide
  have htexts := forall_texts_revisions
    (p := fun text => lineFits ((lines text.toList).length + 1) = true) hempty hmemory.lines
  have hcounted : ∀ c ∈ history.flatMap CommitStep.changes, c.Counted := by
    intro c hc
    have hsize : c.size ≤ maxCount :=
      (List.le_sum_of_mem (List.mem_map_of_mem hc)).trans hmemory.size
    rw [hchanges] at hc
    obtain ⟨r, hr, rfl⟩ := List.mem_map.1 hc
    exact Revision.counted_change (hdiffs r hr) (htexts r hr).1 (htexts r hr).2 hsize
  obtain ⟨filter, hfilter⟩ := exists_defaultFilter
  obtain ⟨g, stats, hdone⟩ := CallGraph.exists_replay_of_counted filter hcounted hmemory.size
  have hreplay : replay history = (g, .ok stats) := by rw [replay, hfilter, ← hdone]
  have hmodes : history.map CommitStep.mode = script.map ScriptStep.mode := by
    have hmodes := congrArg (List.map Prod.snd) hcommits
    rwa [List.map_map, List.map_map] at hmodes
  obtain ⟨-, -, hfiles, hlength, -⟩ := CallGraph.grows_replayFrom hdone
  obtain ⟨hforward, hmerges, hrewinds⟩ := CallGraph.modes_replayFrom hdone
  rw [hmodes] at hforward hmerges hrewinds
  rw [sum_changes_stepsBy] at hfiles
  refine ⟨g, stats, hreplay, ?_, ?_, ?_, ?_, ?_⟩
  · have hsame := congrArg List.length hmodes
    rw [List.length_map, List.length_map] at hsame
    rw [hlength, hsame]
    exact Nat.zero_add _
  · exact hforward.trans (Nat.zero_add _)
  · exact hmerges.trans (Nat.zero_add _)
  · exact hrewinds.trans (Nat.zero_add _)
  · exact hfiles.trans (Nat.zero_add _)

/-- A file that is written twice in one commit and deleted in a merge, which is undone. -/
def rewrittenAndDeleted : List ScriptStep :=
  [ ⟨"c1", "Ada", .forward, [⟨"a.c", some "fn f\nend\n"⟩, ⟨"a.c", some "fn g\nend\n"⟩]⟩,
    ⟨"c2", "Bob", .merge, [⟨"a.c", none⟩]⟩,
    ⟨"c1", "", .rewind, []⟩ ]

def writingHunk : HunkText where
  header := ⟨⟨['0'], some ['0'], ['1'], some ['2']⟩, [' '], [' '], [' '], []⟩
  hunk := ⟨0, 0, 1, 2⟩
  body := [⟨.add, "+fn f".toList, []⟩, ⟨.add, "+end".toList, []⟩]
  trailer := []

def rewritingHunk : HunkText where
  header := ⟨⟨['1'], some ['2'], ['1'], some ['2']⟩, [' '], [' '], [' '], []⟩
  hunk := ⟨1, 2, 1, 2⟩
  body := [⟨.delete, "-fn f".toList, []⟩, ⟨.add, "+fn g".toList, []⟩, ⟨.keep, " end".toList, []⟩]
  trailer := []

def deletingHunk : HunkText where
  header := ⟨⟨['1'], some ['2'], ['0'], some ['0']⟩, [' '], [' '], [' '], []⟩
  hunk := ⟨1, 2, 0, 0⟩
  body := [⟨.delete, "-fn g".toList, []⟩, ⟨.delete, "-end".toList, []⟩]
  trailer := []

/-- What `UnifiedDiff.render` writes of the file is a diff each time. -/
theorem diffs_rewrittenAndDeleted : Diffs UnifiedDiff.render rewrittenAndDeleted := by
  have hrevisions : revisions [] (edits rewrittenAndDeleted) =
      [ ⟨"a.c", none, some "fn f\nend\n"⟩, ⟨"a.c", some "fn f\nend\n", some "fn g\nend\n"⟩,
        ⟨"a.c", some "fn g\nend\n", none⟩ ] := by decide +kernel
  have hisDiff : ∀ (h : HunkText) (old new : String), h.WellFormed →
      (UnifiedDiff.render "a.c" old new).toList =
        (["--- a/a.c".toList, "+++ b/a.c".toList] ++ h.lines).flatMap (· ++ ['\n']) →
      (∀ line ∈ h.lines, '\n' ∉ line ∧ line.getLast? ≠ some '\r') → h.linesBefore = 0 →
      lines old.toList = h.oldLines → lines new.toList = h.newLines →
      IsDiff (UnifiedDiff.render "a.c" old new) old new := by
    intro h old new hwellFormed htext hlines hbefore hold hnew
    have hspells : Spells (["--- a/a.c".toList, "+++ b/a.c".toList] ++ h.lines)
        (UnifiedDiff.render "a.c" old new).toList := by
      rw [htext]
      exact spells_feeds (List.forall_mem_append.2 ⟨by decide, hlines⟩)
    exact isDiff_of_hunk (by decide) hwellFormed hspells hbefore hold hnew
  rw [Diffs, hrevisions]
  simp only [List.forall_mem_cons]
  refine ⟨?_, ?_, ?_, List.forall_mem_nil _⟩
  · refine hisDiff writingHunk _ _ (by constructor <;> decide) ?_ ?_ ?_ ?_ ?_
    all_goals decide +kernel
  · refine hisDiff rewritingHunk _ _ (by constructor <;> decide) ?_ ?_ ?_ ?_ ?_
    all_goals decide +kernel
  · refine hisDiff deletingHunk _ _ (by constructor <;> decide) ?_ ?_ ?_ ?_ ?_
    all_goals decide +kernel

theorem replay_stepsBy_of_rewrittenAndDeleted :
    Diffs UnifiedDiff.render rewrittenAndDeleted ∧
      InMemory rewrittenAndDeleted
        (stepsBy UnifiedDiff.render true .empty rewrittenAndDeleted) ∧
      ∃ g stats,
        replay (stepsBy UnifiedDiff.render true .empty rewrittenAndDeleted) = (g, .ok stats) ∧
          stats.commits = 3 ∧ stats.forward = 1 ∧ stats.merges = 1 ∧ stats.rewinds = 1 ∧
          stats.filesApplied + stats.filesSkipped = 3 := by
  have hmemory : InMemory rewrittenAndDeleted
      (stepsBy UnifiedDiff.render true .empty rewrittenAndDeleted) := by
    constructor
    · decide +kernel
    · decide +kernel
  have hreplayed := (replay_stepsBy.2 UnifiedDiff.render true rewrittenAndDeleted).2.2
    diffs_rewrittenAndDeleted hmemory
  exact ⟨diffs_rewrittenAndDeleted, hmemory, hreplayed⟩

end Sketch

end EffortRank
