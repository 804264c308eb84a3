import EffortRank.Proofs.Graph.Fitting
import EffortRank.Proofs.Replay.History

/-!
# Replays keep to 64 bits

The counts of a change fit, or the change is given up. So a replay of commits whose instants are
such as the program can hold leads from a graph whose numbers fit to another
(`CallGraph.Fits.replay`), also where it stops in the middle.
-/

namespace EffortRank

namespace FileChange

variable {c : FileChange} {d : FileDiff} {stats : NameMap ChangeStats}

/-- The counts of a change fit if there are any. -/
theorem fits_of_functionStats? (h : c.functionStats? d = some stats) :
    ∀ e ∈ stats.entries, e.2.fits = true := by
  obtain ⟨rfl, -, hold, hnew⟩ := functionStats?_eq_some_iff.1 h
  rw [NameMap.values, List.forall_mem_map] at hold hnew
  exact NameMap.forall_entries_mergeWith (p := fun stats : ChangeStats => stats.fits = true) hold
    hnew fun name s _ hs _ => hold (name, s) (NameMap.mem_entries_iff.2 hs)

end FileChange

namespace CallGraph

namespace Fits

variable {g g' : CallGraph} {filter : FileFilter}

theorem addFunctions (h : g.Fits) (path : String) (c : FileChange) :
    (g.addFunctions path c).Fits :=
  List.foldlRecOn _ _ h fun _ hg f _ => hg.addNode f.name [path]

theorem recordAll (h : g.Fits) {stats : NameMap ChangeStats}
    (hstats : ∀ e ∈ stats.entries, e.2.fits = true) (hrecord : g.recordAll stats = .ok g') :
    g'.Fits := by
  have hstep {g g' : CallGraph} {e : String × ChangeStats} (he : e.2.fits = true) (hg : g.Fits)
      (h : g.recordHistory e.1 e.2 = .ok g') : g'.Fits := hg.recordHistory he h
  exact foldlM_preserves_of_forall hstep hstats h hrecord

theorem addCall (h : g.Fits) {path : String} {call : CallSite}
    (hcall : g.addCall path call = .ok g') : g'.Fits := by
  have hend {g : CallGraph} (hg : g.Fits) (name : String) (files : List String) :
      (if g.contains name then g else g.addNode name files).Fits := by
    split
    · exact hg
    · exact hg.addNode name files
  exact (hend (hend h call.caller [path]) call.callee []).addEdge hcall

theorem applyDiff (h : g.Fits) {mode : SeekingMode} {c : FileChange} {d : FileDiff}
    {update : CommitUpdate} (happly : g.applyDiff mode c d = .ok (g', update)) : g'.Fits := by
  obtain ⟨stats, g₁, hstats, hrecord, hcalls, -⟩ := applyDiff_eq_ok happly
  have hfits : ∀ e ∈ stats.entries, e.2.fits = true := by
    split at hstats
    · exact FileChange.fits_of_functionStats? hstats
    · cases hstats
      intro e he
      cases he
  have hrecorded : g₁.Fits := (h.addFunctions _ c).recordAll hfits hrecord
  exact foldlM_preserves (p := CallGraph.Fits) (fun hg hcall => hg.addCall hcall) hrecorded hcalls

theorem applyChanges (h : g.Fits) (mode : SeekingMode) (done : CommitUpdate)
    (cs : List FileChange) : (g.applyChanges filter mode done cs).1.Fits := by
  induction cs generalizing g done with
  | nil => exact h
  | cons c cs ih =>
    rw [CallGraph.applyChanges]
    split
    · split
      · exact h
      · rename_i g₁ update hchange
        exact ih (h.applyDiff (applyChange_eq_ok hchange)) _
    · exact ih h _

/-- **One commit** keeps the numbers small, as far as it is taken. -/
theorem replayCommit (h : g.Fits) {commit : CommitStep} (hinfo : commit.info.Fits) :
    (g.replayCommit filter commit).1.Fits := by
  rw [CallGraph.replayCommit]
  split
  · exact h
  · exact (h.addCommit hinfo).applyChanges _ _ _

theorem replayFrom (h : g.Fits) (done : ReplayStats) {history : List CommitStep}
    (hhistory : ∀ commit ∈ history, commit.info.Fits) :
    (g.replayFrom filter done history).1.Fits := by
  induction history generalizing g done with
  | nil => exact h
  | cons commit history ih =>
    rw [List.forall_mem_cons] at hhistory
    have hfirst : (g.replayCommit filter commit).1.Fits := h.replayCommit hhistory.1
    rw [CallGraph.replayFrom]
    split
    · rename_i g₁ e heq
      rw [heq] at hfirst
      exact hfirst
    · rename_i g₁ update heq
      rw [heq] at hfirst
      exact ih hfirst _ hhistory.2

/-- **A replay keeps the numbers small**, whether it comes to its end or not. -/
theorem replay (h : g.Fits) {history : List CommitStep}
    (hhistory : ∀ commit ∈ history, commit.info.Fits) : (g.replay filter history).1.Fits :=
  h.replayFrom .zero hhistory

end Fits

end CallGraph

end EffortRank
