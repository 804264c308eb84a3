import EffortRank.Proofs.Graph.Reloading
import EffortRank.Proofs.Replay.History

/-!
# A replay may stop and go on from a saved graph

All that a replay does to a graph, it does by requests (`CallGraph.leads_replay`), so that the graph
it stops at can be saved and loaded. Loading forgets the current commit, but each commit of a replay
first makes itself current, except for a rewind, which does nothing
(`CallGraph.replayCommit_congr`). So a replay that goes on from a saved graph ends where one without
a stop does, and the numbers of the parts add up (`CallGraph.replay_append_of_saved`).
-/

namespace EffortRank

namespace ReplayStats

/-- The numbers of two replays, one behind the other. -/
def add (s t : ReplayStats) : ReplayStats where
  commits := s.commits + t.commits
  forward := s.forward + t.forward
  merges := s.merges + t.merges
  rewinds := s.rewinds + t.rewinds
  filesApplied := s.filesApplied + t.filesApplied
  filesSkipped := s.filesSkipped + t.filesSkipped
  functionsTouched := s.functionsTouched + t.functionsTouched
  edgesAdded := s.edgesAdded + t.edgesAdded

@[simp] theorem add_zero (s : ReplayStats) : s.add zero = s := rfl

theorem add_count (s t : ReplayStats) (mode : SeekingMode) (u : CommitUpdate) :
    (s.add t).count mode u = s.add (t.count mode u) := by
  unfold add count
  congr 1 <;> exact Nat.add_assoc _ _ _

end ReplayStats

namespace CallGraph

variable {g g' g'' : CallGraph} {filter : FileFilter}

/-! ## A replay makes requests -/

/-- Requests lead from the first graph to the second. -/
def Leads (g g' : CallGraph) : Prop := ∃ requests, g.run requests = g'

theorem Leads.refl (g : CallGraph) : Leads g g := ⟨[], rfl⟩

theorem Leads.trans (h : Leads g g') (h' : Leads g' g'') : Leads g g'' := by
  obtain ⟨first, rfl⟩ := h
  obtain ⟨rest, rfl⟩ := h'
  exact ⟨first ++ rest, List.foldl_append⟩

theorem Leads.of_answer (request : GraphRequest) (h : g.answer request = .ok g') :
    Leads g g' := by
  refine ⟨[request], ?_⟩
  rw [run, List.foldl_cons, List.foldl_nil, perform, h]

theorem reachable_empty : empty.Reachable := ⟨[], rfl⟩

theorem Reachable.leads (h : g.Reachable) (h' : Leads g g') : g'.Reachable :=
  Leads.trans (g := empty) h h'

theorem leads_addNode (g : CallGraph) (name : String) (files : List String) :
    Leads g (g.addNode name files) :=
  .of_answer (.addNode name files) rfl

theorem leads_addFunctions (g : CallGraph) (path : String) (c : FileChange) :
    Leads g (g.addFunctions path c) :=
  List.foldlRecOn (motive := Leads g) _ _ (.refl g) fun g' h f _ =>
    h.trans (leads_addNode g' f.name [path])

theorem leads_recordAll {stats : NameMap ChangeStats} (h : g.recordAll stats = .ok g') :
    Leads g g' := by
  refine foldlM_preserves (p := Leads g) ?_ (.refl g) h
  intro g₁ g₂ e h₁ h₂
  exact h₁.trans (.of_answer (.recordHistory e.1 e.2) h₂)

theorem leads_addCall {path : String} {call : CallSite} (h : g.addCall path call = .ok g') :
    Leads g g' := by
  have hend : ∀ (g : CallGraph) (name : String) (files : List String),
      Leads g (if g.contains name then g else g.addNode name files) := by
    intro g name files
    split
    · exact .refl g
    · exact leads_addNode g name files
  have hedge : Leads _ g' :=
    .of_answer (.addEdge call.caller call.callee) (Halt.ofChecked_eq_ok_iff.2 h)
  exact ((hend g call.caller [path]).trans (hend _ call.callee [])).trans hedge

theorem leads_applyDiff {mode : SeekingMode} {c : FileChange} {d : FileDiff}
    {update : CommitUpdate} (h : g.applyDiff mode c d = .ok (g', update)) : Leads g g' := by
  obtain ⟨stats, g₁, -, hrecord, hcalls, -⟩ := applyDiff_eq_ok h
  have hrecorded := (leads_addFunctions g (c.path?.getD "") c).trans (leads_recordAll hrecord)
  refine foldlM_preserves (p := Leads g) ?_ hrecorded hcalls
  intro g₁ g₂ call h₁ h₂
  exact h₁.trans (leads_addCall h₂)

theorem leads_applyChange {mode : SeekingMode} {c : FileChange} {update : CommitUpdate}
    (h : g.applyChange mode c = .ok (g', update)) : Leads g g' := by
  unfold applyChange at h
  split at h
  · cases h
  · rw [mapError_eq_ok_iff] at h
    exact leads_applyDiff h

theorem leads_applyChanges (g : CallGraph) (filter : FileFilter) (mode : SeekingMode)
    (done : CommitUpdate) (cs : List FileChange) :
    Leads g (g.applyChanges filter mode done cs).1 := by
  induction cs generalizing g done with
  | nil => exact .refl g
  | cons c cs ih =>
    rw [applyChanges]
    split
    · split
      · exact .refl g
      · rename_i g₁ update hchange
        exact (leads_applyChange hchange).trans (ih g₁ _)
    · exact ih g _

theorem leads_replayCommit (g : CallGraph) (filter : FileFilter) (commit : CommitStep) :
    Leads g (g.replayCommit filter commit).1 := by
  have hcurrent : Leads g (g.addCommit commit.info) :=
    .of_answer (.addCommit commit.info) rfl
  rw [replayCommit]
  split
  · exact .refl g
  · exact hcurrent.trans (leads_applyChanges _ filter _ _ _)

theorem leads_replayFrom (g : CallGraph) (filter : FileFilter) (done : ReplayStats)
    (history : List CommitStep) : Leads g (g.replayFrom filter done history).1 := by
  induction history generalizing g done with
  | nil => exact .refl g
  | cons commit history ih =>
    have hcommit := leads_replayCommit g filter commit
    rw [replayFrom]
    split
    · rename_i g₁ e hstep
      rw [hstep] at hcommit
      exact hcommit
    · rename_i g₁ update hstep
      rw [hstep] at hcommit
      exact hcommit.trans (ih g₁ _)

/-- **A replay makes requests and nothing else**, whether it takes all commits or not. -/
theorem leads_replay (g : CallGraph) (filter : FileFilter) (history : List CommitStep) :
    Leads g (g.replay filter history).1 :=
  leads_replayFrom g filter .zero history

/-! ## Stopping and going on -/

/-- What was counted before is added to what is counted. -/
theorem replayFrom_add (g : CallGraph) (filter : FileFilter) (done more : ReplayStats)
    (history : List CommitStep) :
    g.replayFrom filter (done.add more) history =
      ((g.replayFrom filter more history).1,
        (g.replayFrom filter more history).2.map done.add) := by
  induction history generalizing g more with
  | nil => rfl
  | cons commit history ih =>
    rw [replayFrom, replayFrom]
    cases g.replayCommit filter commit with
    | mk g₁ outcome =>
      cases outcome with
      | error e => rfl
      | ok update =>
        dsimp only
        rw [ReplayStats.add_count]
        exact ih g₁ _

theorem replayFrom_append_eq_ok_iff {done stats : ReplayStats} {xs ys : List CommitStep} :
    g.replayFrom filter done (xs ++ ys) = (g', .ok stats) ↔
      ∃ g₁ s₁, g.replayFrom filter done xs = (g₁, .ok s₁) ∧
        g₁.replayFrom filter s₁ ys = (g', .ok stats) := by
  induction xs generalizing g done with
  | nil =>
    constructor
    · intro h
      exact ⟨g, done, rfl, h⟩
    · rintro ⟨_, _, hfirst, hrest⟩
      cases hfirst
      exact hrest
  | cons commit xs ih =>
    rw [List.cons_append, replayFrom, replayFrom]
    cases g.replayCommit filter commit with
    | mk g₁ outcome =>
      cases outcome with
      | error e => simp
      | ok update => exact ih

/-- **No commit depends on what is current**: from graphs with the same saved form, a commit leads
to graphs with the same saved form, and with the same outcome. -/
theorem replayCommit_congr (h : g'.toData = g.toData) (filter : FileFilter) (commit : CommitStep) :
    (g'.replayCommit filter commit).1.toData = (g.replayCommit filter commit).1.toData ∧
      (g'.replayCommit filter commit).2 = (g.replayCommit filter commit).2 := by
  have hadd : g'.addCommit commit.info = g.addCommit commit.info := by
    obtain ⟨commits, nodes, edges, current⟩ := g
    obtain ⟨commits', nodes', edges', current'⟩ := g'
    cases h
    rfl
  rw [replayCommit, replayCommit, hadd]
  split
  · exact ⟨h, rfl⟩
  · exact ⟨rfl, rfl⟩

theorem replayFrom_congr (h : g'.toData = g.toData) (filter : FileFilter) (done : ReplayStats)
    (history : List CommitStep) :
    (g'.replayFrom filter done history).1.toData = (g.replayFrom filter done history).1.toData ∧
      (g'.replayFrom filter done history).2 = (g.replayFrom filter done history).2 := by
  induction history generalizing g g' done with
  | nil => exact ⟨h, rfl⟩
  | cons commit history ih =>
    obtain ⟨hdata, houtcome⟩ := replayCommit_congr h filter commit
    rw [replayFrom, replayFrom]
    cases hfirst : g.replayCommit filter commit with
    | mk g₁ outcome =>
      cases hfirst' : g'.replayCommit filter commit with
      | mk g₁' outcome' =>
        rw [hfirst, hfirst'] at hdata houtcome
        dsimp only at hdata houtcome
        subst houtcome
        cases outcome' with
        | error e => exact ⟨hdata, rfl⟩
        | ok update => exact ih hdata _

/-- **A replay may stop anywhere, save its graph and go on from the saved form**: the graph at the
end is saved in the same form as without the stop, and the numbers of both parts add up. -/
theorem replay_append_of_saved (hg : g.Reachable) {xs ys : List CommitStep} {stats : ReplayStats}
    (h : g.replay filter (xs ++ ys) = (g', .ok stats)) :
    ∃ g₁ s₁ saved g₂ s₂, g.replay filter xs = (g₁, .ok s₁) ∧
      ofData g₁.toData = .ok saved ∧ saved.current = none ∧
      saved.replay filter ys = (g₂, .ok s₂) ∧
      g₂.toData = g'.toData ∧ stats = s₁.add s₂ := by
  rw [replay, replayFrom_append_eq_ok_iff] at h
  obtain ⟨g₁, s₁, hfirst, hrest⟩ := h
  have hreachable : g₁.Reachable := by
    have hleads := leads_replayFrom g filter .zero xs
    rw [hfirst] at hleads
    exact hg.leads hleads
  have hloaded := ofData_toData hreachable.wellFormed
  have hsaved : toData { g₁ with current := none } = g₁.toData := rfl
  obtain ⟨hdata, houtcome⟩ := replayFrom_congr hsaved filter .zero ys
  -- The second part counts from zero, and the replay without a stop goes on from the first part.
  rw [← ReplayStats.add_zero s₁, replayFrom_add, Prod.mk.injEq] at hrest
  obtain ⟨rfl, hstats⟩ := hrest
  cases hsecond : (g₁.replayFrom filter .zero ys).2 with
  | error e =>
    rw [hsecond] at hstats
    cases hstats
  | ok s₂ =>
    rw [hsecond] at hstats houtcome
    cases hstats
    exact ⟨g₁, s₁, _, _, s₂, hfirst, hloaded, rfl, Prod.ext rfl houtcome, hdata, rfl⟩

/-- The first part ends with a current commit. The second begins with a rewind, sees the call of the
first again, and records more for its commit. -/
theorem replay_append_of_saved_before_rewind :
    let change : FileChange := ⟨some "a", some "a", "@@ -1,2 +1,2 @@\n-x\n+y\n z\n",
      [⟨"f", ⟨1, 2⟩⟩], [], none, none, [⟨"f", "g"⟩]⟩
    let info : CommitInfo := ⟨"c", "", "", "", none⟩
    let xs : List CommitStep := [⟨info, .forward, [change]⟩]
    let ys : List CommitStep := [⟨info, .rewind, [change]⟩,
      ⟨{ info with hash := "d" }, .merge, [change]⟩, ⟨info, .forward, [change]⟩]
    ∃ g₁ s₁ saved g₂ s₂, empty.replay .all xs = (g₁, .ok s₁) ∧ g₁.current = some "c" ∧
      ofData g₁.toData = .ok saved ∧ saved.current = none ∧
      saved.replay .all ys = (g₂, .ok s₂) ∧
      g₂.toData = (empty.replay .all (xs ++ ys)).1.toData ∧
      s₁.add s₂ = ⟨4, 2, 1, 1, 3, 0, 2, 3⟩ := by
  intro change info xs ys
  have hrun : (empty.replay .all (xs ++ ys)).2 = .ok ⟨4, 2, 1, 1, 3, 0, 2, 3⟩ := by decide +kernel
  have h : empty.replay .all (xs ++ ys) =
      ((empty.replay .all (xs ++ ys)).1, .ok ⟨4, 2, 1, 1, 3, 0, 2, 3⟩) := Prod.ext rfl hrun
  obtain ⟨g₁, s₁, saved, g₂, s₂, hfirst, hloaded, hcurrent, hsecond, hdata, hstats⟩ :=
    replay_append_of_saved reachable_empty h
  have hstop : (empty.replay .all xs).1.current = some "c" := by decide +kernel
  rw [hfirst] at hstop
  exact ⟨g₁, s₁, saved, g₂, s₂, hfirst, hstop, hloaded, hcurrent, hsecond, hdata, hstats.symm⟩

end CallGraph

end EffortRank
