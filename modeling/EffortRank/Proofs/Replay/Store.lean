import EffortRank.Proofs.Graph.Requests
import EffortRank.Proofs.Replay.Refusal
import EffortRank.Replay.Store

/-!
# A replay into a store stops between two changes

A change is put into a store bit by bit, and each bit may fail. On a sound store whose current
commit is that of the change, only the checks fail, before anything is put in, or a number does not
fit (`GraphStore.applyChange_cases`). So a replay into a store goes as the one into the graph that
the store shows (`GraphStore.Follows`). A sound store is told by its graph, so that a replay that is
refused leaves exactly the store that the changes in front of the refused one leave.
-/

namespace EffortRank

namespace GraphStore

variable {s : GraphStore} {ε φ α β : Type}

/-! ## One change -/

/-- The step has the result, and the store shows the graph. -/
def Returns (x : α) (s : GraphStore) (p : CallGraph × α) : Prop := p = (s.graph, x)

theorem Agree.mapError {R : α → GraphStore → β → Prop} {x : Step ε α} {q : Except (Halt ε) β}
    (f : ε → φ) (h : Agree R (x.run s) q) :
    Agree R ((EStateM.adaptExcept (Halt.map f) x : Step φ α).run s) (q.mapError (Halt.map f)) := by
  rw [EStateM.run_adaptExcept]
  generalize x.run s = r at h
  cases h with
  | ok hsound hrelated => exact .ok hsound hrelated
  | error hsound => exact .error hsound

theorem Sound.ensure (h : s.Sound) (name : String) (files : List String) :
    (s.ensure name files).Sound ∧ (s.ensure name files).graph =
      if s.graph.contains name then s.graph else s.graph.addNode name files := by
  rw [GraphStore.ensure, h.contains_graph]
  split
  · exact ⟨h, rfl⟩
  · obtain ⟨hsound, hgraph, -⟩ := h.addNode name files
    exact ⟨hsound, hgraph⟩

theorem agree_addCall (h : s.Sound) (path : String) (call : CallSite) :
    Agree Shows ((addCall path call).run s) (Halt.ofChecked (s.graph.addCall path call)) := by
  obtain ⟨hcaller, hgraph⟩ := h.ensure call.caller [path]
  obtain ⟨hcallee, hgraph'⟩ := hcaller.ensure call.callee []
  have hedge := agree_addEdge hcallee call.caller call.callee
  rw [hgraph', hgraph] at hedge
  exact hedge

theorem agree_recordAll (h : s.Sound) (stats : NameMap ChangeStats) :
    Agree Shows ((stats.entries.forM fun e => recordHistory e.1 e.2).run s)
      (s.graph.recordAll stats) :=
  Agree.forM (fun e _ hs => agree_recordHistory hs e.1 e.2) h stats.entries

theorem agree_addCalls (h : s.Sound) (path : String) (calls : List CallSite) :
    Agree Shows ((calls.forM fun call => addCall path call).run s)
      (Halt.ofChecked (calls.foldlM (fun g call => g.addCall path call) s.graph)) := by
  rw [ofChecked_foldlM]
  exact Agree.forM (fun call _ hs => agree_addCall hs path call) h calls

theorem agree_applyDiff (h : s.Sound) (mode : SeekingMode) (c : FileChange) (d : FileDiff) :
    Agree Returns ((applyDiff mode c d).run s) (s.graph.applyDiff mode c d) := by
  obtain ⟨hsound, hgraph⟩ : (s.addFunctions (c.path?.getD "") c).Sound ∧
      (s.addFunctions (c.path?.getD "") c).graph = s.graph.addFunctions (c.path?.getD "") c :=
    h.addNodes FunctionRange.name _ _
  cases hstats : (if mode.updatesHistory then c.functionStats? d else some .empty) with
  | none =>
    rw [CallGraph.applyDiff, applyDiff, hstats]
    exact .error hsound
  | some stats =>
    rw [CallGraph.applyDiff_of_stats hstats, applyDiff, hstats, ← hgraph]
    refine (agree_recordAll hsound stats).bind fun _ s₁ g₁ hs₁ hrecorded => ?_
    obtain rfl := hrecorded
    refine (agree_addCalls hs₁ _ _).bind fun _ s₂ g₂ hs₂ hadded => ?_
    obtain rfl := hadded
    exact .ok hs₂ rfl

theorem agree_applyChange (h : s.Sound) (mode : SeekingMode) (c : FileChange) :
    Agree Returns ((applyChange mode c).run s) (s.graph.applyChange mode c) := by
  rw [CallGraph.applyChange, applyChange]
  cases hchecked : c.checkedDiff with
  | error halt => exact .error h
  | ok d => exact (agree_applyDiff h mode c d).mapError ReplayError.graph

/-- A change that fails its checks is not begun. -/
theorem applyChange_of_checkedDiff {c : FileChange} {halt : Halt OrderError}
    (hchecked : c.checkedDiff = .error halt) (mode : SeekingMode) (s : GraphStore) :
    (applyChange mode c).run s = .error (halt.map .order) s := by
  rw [applyChange, hchecked]
  rfl

/-- A change without counts is given up when its functions are in. -/
theorem applyChange_of_functionStats? {c : FileChange} {d : FileDiff}
    (hchecked : c.checkedDiff = .ok d) (hstats : c.functionStats? d = none) (s : GraphStore) :
    (applyChange .forward c).run s = .error .overflow (s.addFunctions (c.path?.getD "") c) := by
  have hforward : (if SeekingMode.forward.updatesHistory then c.functionStats? d else some .empty) =
      none := hstats
  rw [applyChange, hchecked]
  change (EStateM.adaptExcept (Halt.map ReplayError.graph) (applyDiff .forward c d)).run s = _
  rw [applyDiff, hforward]
  rfl

/-- **A change is taken, or refused before it is begun**, unless its numbers do not fit: then some
of it may be in the store. -/
theorem applyChange_cases {commit : CommitStep} (h : s.Sound)
    (hcurrent : s.graph.current = some commit.info.hash) (c : FileChange) :
    (∃ s' update, (applyChange commit.mode c).run s = .ok update s' ∧ s'.Sound ∧
        s'.graph.current = some commit.info.hash ∧
        s.graph.applyChange commit.mode c = .ok (s'.graph, update)) ∨
      (∃ e, (applyChange commit.mode c).run s = .error (.refused (.order e)) s ∧
        s.graph.applyChange commit.mode c = .error (.refused (.order e))) ∨
      ∃ s', (applyChange commit.mode c).run s = .error .overflow s' ∧ s'.Sound ∧
        s.graph.applyChange commit.mode c = .error .overflow := by
  have hagree := agree_applyChange h commit.mode c
  rcases CallGraph.applyChange_cases hcurrent c with
    ⟨g', update, hchange, -, hcurrent'⟩ | ⟨e, -, hchange⟩ | ⟨-, hchange⟩
  · rw [hchange] at hagree ⊢
    generalize (applyChange commit.mode c).run s = r at hagree ⊢
    cases hagree with
    | ok hsound hreturns =>
      cases hreturns
      exact .inl ⟨_, _, rfl, hsound, hcurrent', rfl⟩
  · refine .inr (.inl ⟨e, ?_, hchange⟩)
    rw [CallGraph.applyChange] at hchange
    cases hchecked : c.checkedDiff with
    | error halt =>
      rw [hchecked] at hchange
      rw [applyChange_of_checkedDiff hchecked, Except.error.inj hchange]
    | ok d =>
      -- The graph gives reasons of its own only.
      rw [hchecked] at hchange
      dsimp only at hchange
      cases hdiff : s.graph.applyDiff commit.mode c d with
      | ok p => rw [hdiff] at hchange; cases hchange
      | error halt => cases halt <;> rw [hdiff] at hchange <;> cases hchange
  · rw [hchange] at hagree ⊢
    generalize (applyChange commit.mode c).run s = r at hagree ⊢
    cases hagree with
    | error hsound => exact .inr (.inr ⟨_, rfl, hsound, rfl⟩)

/-! ## Replays -/

/-- What comes of a replay into a store is what comes of it for a graph, and unless a number does
not fit, the store shows the graph. -/
inductive Follows : EStateM.Result (Halt ε) GraphStore α → CallGraph × Except (Halt ε) α → Prop
  | done {x : α} {s : GraphStore} (sound : s.Sound) : Follows (.ok x s) (s.graph, .ok x)
  | refused {e : ε} {s : GraphStore} (sound : s.Sound) :
    Follows (.error (.refused e) s) (s.graph, .error (.refused e))
  | overflow {s : GraphStore} {g : CallGraph} (sound : s.Sound) :
    Follows (.error .overflow s) (g, .error .overflow)

namespace Follows

variable {r : EStateM.Result (Halt ε) GraphStore α} {g : CallGraph}

theorem eq_ok {x : α} (h : Follows r (g, .ok x)) : ∃ s, r = .ok x s ∧ s.Sound ∧ s.graph = g := by
  cases h with
  | done hsound => exact ⟨_, rfl, hsound, rfl⟩

theorem eq_refused {e : ε} (h : Follows r (g, .error (.refused e))) :
    ∃ s, r = .error (.refused e) s ∧ s.Sound ∧ s.graph = g := by
  cases h with
  | refused hsound => exact ⟨_, rfl, hsound, rfl⟩

theorem eq_overflow (h : Follows r (g, .error .overflow)) : ∃ s, r = .error .overflow s := by
  cases h with
  | overflow => exact ⟨_, rfl⟩

end Follows

theorem follows_applyChanges {commit : CommitStep} (h : s.Sound)
    (hcurrent : s.graph.current = some commit.info.hash) (filter : FileFilter)
    (done : CommitUpdate) (cs : List FileChange) :
    Follows ((applyChanges filter commit.mode done cs).run s)
      (s.graph.applyChanges filter commit.mode done cs) := by
  induction cs generalizing s done with
  | nil => exact .done h
  | cons c cs ih =>
    rw [applyChanges, CallGraph.applyChanges]
    by_cases hwants : filter.wants c = true
    · rw [if_pos hwants, if_pos hwants, EStateM.run_bind]
      rcases applyChange_cases h hcurrent c with
        ⟨s', update, hrun, hs', hcurrent', hchange⟩ | ⟨e, hrun, hchange⟩ | ⟨s', hrun, hs', hchange⟩
      · rw [hrun, hchange]
        exact ih hs' hcurrent' _
      · rw [hrun, hchange]
        exact .refused h
      · rw [hrun, hchange]
        exact .overflow hs'
    · rw [if_neg hwants, if_neg hwants]
      exact ih h hcurrent _

theorem follows_replayCommit (h : s.Sound) (filter : FileFilter) (commit : CommitStep) :
    Follows ((replayCommit filter commit).run s) (s.graph.replayCommit filter commit) := by
  have hcommit : ∀ mode, Follows
      ((applyChanges filter mode .zero commit.changes).run (s.addCommit commit.info))
      ((s.graph.addCommit commit.info).applyChanges filter mode .zero commit.changes) := fun mode =>
    @follows_applyChanges _ ⟨commit.info, mode, commit.changes⟩ (h.addCommit commit.info) rfl filter
      .zero commit.changes
  rw [replayCommit, CallGraph.replayCommit]
  cases commit.mode with
  | forward => exact hcommit .forward
  | merge => exact hcommit .merge
  | rewind => exact .done h

theorem follows_replayFrom (h : s.Sound) (filter : FileFilter) (done : ReplayStats)
    (history : List CommitStep) :
    Follows ((replayFrom filter done history).run s)
      (s.graph.replayFrom filter done history) := by
  induction history generalizing s done with
  | nil => exact .done h
  | cons commit history ih =>
    have hcommit := follows_replayCommit h filter commit
    rw [replayFrom, CallGraph.replayFrom, EStateM.run_bind]
    generalize (replayCommit filter commit).run s = r, s.graph.replayCommit filter commit = q
      at hcommit
    cases hcommit with
    | done hsound => exact ih hsound _
    | refused hsound => exact .refused hsound
    | overflow hsound => exact .overflow hsound

/-- **A replay into a store is a replay into the graph that it shows.** -/
theorem follows_replay (h : s.Sound) (filter : FileFilter) (history : List CommitStep) :
    Follows ((replay filter history).run s) (s.graph.replay filter history) :=
  follows_replayFrom h filter .zero history

/-! ## Where a replay stops -/

/-- The commit, cut off in front of its change `c`, leads from `s` to `s'`. The filter wants `c`,
and what it wants before is in order. -/
def StopsBefore (s : GraphStore) (filter : FileFilter) (commit : CommitStep) (c : FileChange)
    (s' : GraphStore) : Prop :=
  ∃ before after update, commit.changes = before ++ c :: after ∧ filter.wants c = true ∧
    (∀ b ∈ before, filter.wants b = true → b.order = .ok ()) ∧
    (replayCommit filter { commit with changes := before }).run s = .ok update s'

theorem exists_stopsBefore (h : s.Sound) {filter : FileFilter} {commit : CommitStep}
    {c : FileChange} {g' : CallGraph} (hstops : s.graph.StopsBefore filter commit c g') :
    ∃ s', s.StopsBefore filter commit c s' ∧ s'.Sound ∧ s'.graph = g' := by
  obtain ⟨before, after, update, hchanges, hwants, hall, htaken⟩ := hstops
  have hfollows := follows_replayCommit h filter { commit with changes := before }
  rw [htaken] at hfollows
  obtain ⟨s', hrun, hs', hgraph⟩ := hfollows.eq_ok
  exact ⟨s', ⟨before, after, update, hchanges, hwants, hall, hrun⟩, hs', hgraph⟩

/-- A sound store is told by its graph, so that nothing of the change that is refused is in it. -/
theorem exists_stopsBefore_of_refused (h : s.Sound) {filter : FileFilter} {commit : CommitStep}
    {c : FileChange} {g' : CallGraph} (hstops : s.graph.StopsBefore filter commit c g')
    {r : EStateM.Result (Halt ε) GraphStore α} {e : ε}
    (hfollows : Follows r (g', .error (.refused e))) :
    ∃ s', s.StopsBefore filter commit c s' ∧ r = .error (.refused e) s' := by
  obtain ⟨s', hstops', hs', hgraph⟩ := exists_stopsBefore h hstops
  obtain ⟨s₂, hrun, hs₂, hgraph₂⟩ := hfollows.eq_refused
  obtain rfl := hs'.eq_of_graph_eq hs₂ (hgraph.trans hgraph₂.symm)
  exact ⟨s', hstops', hrun⟩

/-- **A commit is taken, or it stops before the first change that is out of order**, unless the
numbers of a change do not fit. -/
theorem replayCommit_cases (h : s.Sound) (filter : FileFilter) (commit : CommitStep) :
    (∃ s' update, (replayCommit filter commit).run s = .ok update s' ∧ (commit.mode = .rewind ∨
        ∀ c ∈ commit.changes, filter.wants c = true → c.order = .ok ())) ∨
      (∃ s' c e, s.StopsBefore filter commit c s' ∧ c.order = .error e ∧
        (replayCommit filter commit).run s = .error (.refused (.order e)) s') ∨
      ∃ s' c s₂, s.StopsBefore filter commit c s' ∧ ¬ s'.graph.NumbersFit commit c ∧
        (replayCommit filter commit).run s = .error .overflow s₂ := by
  have hfollows := follows_replayCommit h filter commit
  rcases CallGraph.replayCommit_cases s.graph filter commit with
    ⟨g', update, htaken, hall⟩ | ⟨g', c, e, hstops, horder, hstop⟩ | ⟨g', c, hstops, hfit, hstop⟩
  · rw [htaken] at hfollows
    obtain ⟨s', hrun, -, -⟩ := hfollows.eq_ok
    exact .inl ⟨s', update, hrun, hall⟩
  · rw [hstop] at hfollows
    obtain ⟨s', hstops', hrun⟩ := exists_stopsBefore_of_refused h hstops hfollows
    exact .inr (.inl ⟨s', c, e, hstops', horder, hrun⟩)
  · rw [hstop] at hfollows
    obtain ⟨s', hstops', -, rfl⟩ := exists_stopsBefore h hstops
    obtain ⟨s₂, hrun⟩ := hfollows.eq_overflow
    exact .inr (.inr ⟨s', c, s₂, hstops', hfit, hrun⟩)

/-- **A replay stops between two changes**: a commit is taken as a whole, or it is refused for a
change that is out of order, and never by the graph. Then the store is exactly as the commit, cut
off in front of the first such change, leaves it; and a history that is refused leaves the store as
its commits before that one do, and then that one cut off. The only other outcome is a number that
does not fit, at a change in front of which all is taken. -/
theorem replay_stops_between_changes (hs : s.Reachable) (filter : FileFilter) :
    (∀ commit : CommitStep,
      (∃ s' update, (replayCommit filter commit).run s = .ok update s' ∧ (commit.mode = .rewind ∨
          ∀ c ∈ commit.changes, filter.wants c = true → c.order = .ok ())) ∨
        (∃ s' c e, s.StopsBefore filter commit c s' ∧ c.order = .error e ∧
          (replayCommit filter commit).run s = .error (.refused (.order e)) s') ∨
        ∃ s' c s₂, s.StopsBefore filter commit c s' ∧ ¬ s'.graph.NumbersFit commit c ∧
          (replayCommit filter commit).run s = .error .overflow s₂) ∧
      ∀ history : List CommitStep,
        (∃ s' stats, (replay filter history).run s = .ok stats s') ∨
          ∃ past commit future s₁ stats, history = past ++ commit :: future ∧
            (replay filter past).run s = .ok stats s₁ ∧
            ((∃ s' c e, s₁.StopsBefore filter commit c s' ∧ c.order = .error e ∧
                (replay filter history).run s = .error (.refused (.order e)) s') ∨
              ∃ s' c s₂, s₁.StopsBefore filter commit c s' ∧ ¬ s'.graph.NumbersFit commit c ∧
                (replay filter history).run s = .error .overflow s₂) := by
  have h := hs.sound
  refine ⟨replayCommit_cases h filter, fun history => ?_⟩
  have hfollows := follows_replay h filter history
  rcases CallGraph.replayFrom_cases s.graph filter .zero history with
    ⟨g', stats, htaken⟩ | ⟨past, commit, future, g₁, stats, hhistory, hpast, hstop⟩
  · rw [CallGraph.replay, htaken] at hfollows
    obtain ⟨s', hrun, -, -⟩ := hfollows.eq_ok
    exact .inl ⟨s', stats, hrun⟩
  · have hbefore := follows_replay h filter past
    rw [CallGraph.replay, hpast] at hbefore
    obtain ⟨s₁, hrun₁, hs₁, rfl⟩ := hbefore.eq_ok
    refine .inr ⟨past, commit, future, s₁, stats, hhistory, hrun₁, ?_⟩
    rcases hstop with ⟨g', c, e, hstops, horder, hstop⟩ | ⟨g', c, hstops, hfit, hstop⟩
    · rw [CallGraph.replay, hstop] at hfollows
      obtain ⟨s', hstops', hrun⟩ := exists_stopsBefore_of_refused hs₁ hstops hfollows
      exact .inl ⟨s', c, e, hstops', horder, hrun⟩
    · rw [CallGraph.replay, hstop] at hfollows
      obtain ⟨s', hstops', -, rfl⟩ := exists_stopsBefore hs₁ hstops
      obtain ⟨s₂, hrun⟩ := hfollows.eq_overflow
      exact .inr ⟨s', c, s₂, hstops', hfit, hrun⟩

/-- The second change of the commit lists its functions out of order. -/
theorem replay_stops_between_changes_of_disorder :
    let good : FileChange := ⟨some "a", some "a", "@@ -1,2 +1,2 @@\n-x\n+y\n z\n",
      [⟨"f", ⟨1, 2⟩⟩], [], none, none, [⟨"f", "g"⟩]⟩
    let bad : FileChange := { good with functions := [⟨"f", ⟨3, 4⟩⟩, ⟨"h", ⟨1, 2⟩⟩] }
    let commit : CommitStep := ⟨⟨"c", "", "", "", none⟩, .forward, [good, bad]⟩
    let s := empty.run [.addNode "f" ["b"]]
    s.Reachable ∧ ∃ s' c e, s.StopsBefore .all commit c s' ∧ c.order = .error e ∧
      (replayCommit .all commit).run s = .error (.refused (.order e)) s' := by
  intro good bad commit s
  have hs : s.Reachable := ⟨_, rfl⟩
  have houtcome : (replayCommit .all commit).outcome s =
      .error (.refused (.order (.unsorted .functionRange 1 1 3))) := by decide +kernel
  rw [Step.outcome] at houtcome
  refine ⟨hs, ?_⟩
  rcases (replay_stops_between_changes hs .all).1 commit with
    ⟨s', update, hrun, -⟩ | hstops | ⟨s', c, s₂, -, -, hrun⟩
  · rw [hrun] at houtcome
    cases houtcome
  · exact hstops
  · rw [hrun] at houtcome
    cases houtcome

/-- Three changes in order with a number that does not fit: a line behind the last line number; a
line more in a count that is as large as counts can be; a function of the new version, for whose
sake two lines at the last line number are inverted. -/
theorem replayCommit_of_large_numbers :
    let info : CommitInfo := ⟨"c", "", "", "", none⟩
    let s := empty.run [.addCommit info, .addNode "f" ["a"],
      .recordHistory "f" ⟨maxCount, 0, none, none⟩]
    let unread : FileChange := ⟨some "a", some "a", "@@ -9223372036854775806,0 +1,2 @@\n a\n",
      [⟨"f", ⟨1, 2⟩⟩], [], none, none, []⟩
    let uncounted := { unread with patch := "@@ -1,2 +1,3 @@\n a\n+x\n b\n" }
    let uninverted : FileChange := ⟨some "a", some "a",
      "@@ -9223372036854775806,0 +1,2 @@\n+x\n+y\n", [],
      [⟨"g", ⟨maxLineNumber, maxLineNumber⟩⟩], none, none, []⟩
    s.Reachable ∧ ∀ change ∈ [unread, uncounted, uninverted],
      let outcome := (replayCommit .all ⟨info, .forward, [change]⟩).outcome s
      change.order = .ok () ∧ (∀ p, outcome ≠ .ok p) ∧ ∀ e, outcome ≠ .error (.refused e) := by
  intro info s unread uncounted uninverted
  have houtcome : ∀ change ∈ [unread, uncounted, uninverted], change.order = .ok () ∧
      (replayCommit .all ⟨info, .forward, [change]⟩).outcome s = .error .overflow := by
    rw [List.forall_mem_cons, List.forall_mem_cons, List.forall_mem_singleton]
    refine ⟨by decide +kernel, by decide +kernel, by decide +kernel, ?_⟩
    have hrecords : FileDiff.records ⟨[⟨maxLineNumber - 1, 2⟩], []⟩ =
        [.added ⟨maxLineNumber - 1, 2⟩] := FileDiff.records_of_additions _
    have hfits : FileDiff.inverseFits ⟨[⟨maxLineNumber - 1, 2⟩], []⟩ = false := by
      rw [FileDiff.inverseFits, hrecords]
      rfl
    have hstats : uninverted.functionStats? ⟨[⟨maxLineNumber - 1, 2⟩], []⟩ = none := by
      rw [FileChange.functionStats?, FileChange.newFunctionStats?, FileDiff.inverse?, hfits]
      rfl
    have hchange := applyChange_of_functionStats? (by decide +kernel) hstats (s.addCommit info)
    have hwants : FileFilter.all.wants uninverted = true := by decide +kernel
    have hcommit : (replayCommit .all ⟨info, .forward, [uninverted]⟩).run s =
        .error .overflow ((s.addCommit info).addFunctions "a" uninverted) := by
      change (applyChanges .all .forward .zero [uninverted]).run (s.addCommit info) = _
      rw [applyChanges, if_pos hwants, EStateM.run_bind, hchange]
      rfl
    rw [Step.outcome, hcommit]
  refine ⟨⟨_, rfl⟩, fun change hchange => ?_⟩
  obtain ⟨horder, hoverflow⟩ := houtcome change hchange
  dsimp only
  rw [hoverflow]
  exact ⟨horder, by simp, by simp⟩

end GraphStore

end EffortRank
