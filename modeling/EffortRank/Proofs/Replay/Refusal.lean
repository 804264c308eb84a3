import EffortRank.Proofs.Replay.Resumption

/-!
# Why a replay is refused

A change is refused by its own checks (`FileChange.order`), before anything is done with it. From
there on nothing can be refused: the functions of a change are added before its history is recorded,
the ends of a call before the call, and the commit of a replay is current
(`CallGraph.recordAll_of_known`, `CallGraph.exists_addCalls`). So a commit that is refused has taken
all changes before the one that is refused (`CallGraph.replayCommit_cases`), and a history all
commits before that one (`CallGraph.replayFrom_cases`). The only other thing that can happen is that
a number does not fit (`CallGraph.NumbersFit`).
-/

namespace EffortRank

/-! ## The checks of a change -/

namespace FileChange

/-- The checks of a change, in the order in which they are made: the records of its patch, the
functions of the old version, those of the new one. -/
def order (c : FileChange) : Except OrderError Unit := do
  (readPatch c.patch.toList).check
  checkFunctions c.functions
  checkFunctions c.newFunctions

/-- Once its patch is read, a change is refused by its checks only. -/
theorem checkedDiff_of_read {c : FileChange} (h : (readPatch? c.patch.toList).isSome = true) :
    c.checkedDiff = Halt.ofChecked (c.order.map fun _ => readPatch c.patch.toList) := by
  have hread : readPatch? c.patch.toList = some (readPatch c.patch.toList) := by
    obtain ⟨d, hd⟩ := Option.isSome_iff_exists.1 h
    rw [hd]
    rw [readPatch?, fitting_eq_some_iff] at hd
    rw [hd.2]
  rw [checkedDiff, hread, order]
  change (do
    Halt.ofChecked (readPatch c.patch.toList).check
    Halt.ofChecked (checkFunctions c.functions)
    Halt.ofChecked (checkFunctions c.newFunctions)
    return readPatch c.patch.toList) = _
  cases (readPatch c.patch.toList).check with
  | error e => rfl
  | ok _ =>
    cases checkFunctions c.functions with
    | error e => rfl
    | ok _ => cases checkFunctions c.newFunctions <;> rfl

theorem checkedDiff_of_not_read {c : FileChange}
    (h : (readPatch? c.patch.toList).isSome = false) : c.checkedDiff = .error .overflow := by
  have hnone : readPatch? c.patch.toList = none := by simpa using h
  rw [checkedDiff, hnone]
  rfl

end FileChange

/-! ## Counts are for functions that the change names -/

theorem SeekingMode.updatesHistory_iff {mode : SeekingMode} :
    mode.updatesHistory = true ↔ mode = .forward := by
  cases mode <;> simp [updatesHistory]

theorem mem_keys_changedStats {functions : List FunctionRange} {d : FileDiff}
    {sources : Option SourceTexts} {name : String}
    (h : name ∈ (changedStats functions d sources).keys) :
    name ∈ functions.map FunctionRange.name := by
  rw [changedStats, NameMap.mem_keys_foldl_alter] at h
  rcases h with h | h
  · obtain ⟨⟨name, piece⟩, hpiece, rfl⟩ := List.mem_map.1 h
    obtain ⟨⟨_, pieces⟩, hpieces, hmem⟩ := List.mem_flatMap.1 hpiece
    obtain ⟨_, -, hname⟩ := List.mem_map.1 hmem
    cases hname
    exact (List.of_mem_zip hpieces).1
  · cases h

theorem FileChange.mem_keys_functionStats {c : FileChange} {d : FileDiff} {name : String}
    (h : name ∈ (c.functionStats d).keys) :
    name ∈ (c.newFunctions ++ c.functions).map FunctionRange.name := by
  rw [List.map_append, List.mem_append]
  rw [functionStats, NameMap.mem_keys_mergeWith] at h
  rcases h with h | h
  · exact .inr (mem_keys_changedStats h)
  · rw [newFunctionStats, NameMap.mem_keys_iff, NameMap.get?_map, Option.isSome_map,
      ← NameMap.mem_keys_iff] at h
    exact .inl (mem_keys_changedStats h)

namespace CallGraph

variable {g : CallGraph} {filter : FileFilter}

/-! ## What cannot be refused -/

theorem contains_addNode {name other : String} {files : List String} :
    (g.addNode name files).contains other = true ↔ other = name ∨ g.contains other = true :=
  contains_withNode fun _ => rfl

theorem contains_addFunctions {path : String} {c : FileChange} {name : String} :
    (g.addFunctions path c).contains name = true ↔
      name ∈ (c.newFunctions ++ c.functions).map FunctionRange.name ∨ g.contains name = true := by
  rw [addFunctions]
  generalize c.newFunctions ++ c.functions = functions
  induction functions generalizing g with
  | nil => simp
  | cons f fs ih =>
    rw [List.foldl_cons, ih, contains_addNode, List.map_cons, List.mem_cons, or_left_comm, or_assoc]

/-- The history of a known function is recorded for the current commit, unless it outgrows its
counts. -/
theorem recordHistory_of_known {name hash : String} (hcurrent : g.current = some hash)
    (hname : g.contains name = true) (stats : ChangeStats) :
    (∃ g', g.recordHistory name stats = .ok g') ∨
      g.recordHistory name stats = .error .overflow ∧
        ∃ old, g.statsAt? name hash = some old ∧ (old.merge stats).fits = false := by
  obtain ⟨node, hnode⟩ := Option.isSome_iff_exists.1 hname
  have hstats : g.statsAt? name hash = node.history.get? hash := by rw [statsAt?, hnode]; rfl
  rw [recordHistory, hcurrent, hnode, hstats]
  dsimp only
  by_cases hfits : node.recordFits hash stats = true
  · rw [if_pos hfits]
    exact .inl ⟨_, rfl⟩
  · rw [if_neg hfits]
    rw [FunctionNode.recordFits] at hfits
    cases hold : node.history.get? hash with
    | none =>
      rw [hold] at hfits
      exact absurd rfl hfits
    | some old =>
      rw [hold] at hfits
      exact .inr ⟨rfl, old, rfl, by simpa using hfits⟩

/-- **Recording cannot be refused** when the functions are known and a commit is current. -/
theorem recordAll_of_known {hash : String} {stats : NameMap ChangeStats}
    (hcurrent : g.current = some hash) (hknown : ∀ name ∈ stats.keys, g.contains name = true) :
    (∃ g', g.recordAll stats = .ok g') ∨
      g.recordAll stats = .error .overflow ∧ ∃ name s old, stats.get? name = some s ∧
        g.statsAt? name hash = some old ∧ (old.merge s).fits = false := by
  obtain ⟨es, hes⟩ := stats
  rw [NameMap.keys] at hknown
  rw [recordAll]
  simp only [NameMap.get?] at hknown ⊢
  induction es generalizing g with
  | nil => exact .inl ⟨g, rfl⟩
  | cons e es ih =>
    rw [List.pairwise_cons] at hes
    rw [List.map_cons, List.forall_mem_cons] at hknown
    rw [List.foldlM_cons]
    rcases recordHistory_of_known hcurrent hknown.1 e.2 with ⟨g₁, hfirst⟩ | ⟨hfirst, hold⟩
    · obtain ⟨hcurrent₁, hentries₁⟩ := statsAt?_recordHistory hcurrent hfirst
      have hknown₁ : ∀ name ∈ es.map (·.1), g₁.contains name = true := by
        obtain ⟨_, _, -, -, -, rfl⟩ := recordHistory_eq_ok hfirst
        exact fun name hname => (contains_withNode (FunctionNode.name_record _ _)).2
          (.inr (hknown.2 name hname))
      rw [hfirst]
      rcases ih hcurrent₁ hes.2 hknown₁ with hrest | ⟨hrest, name, s, old, hs, hold, hmerge⟩
      · exact .inl hrest
      · -- A later name is another one, so that its entry is still the one of `g`.
        have hne : e.1 ≠ name := NameMap.ne_of_lt (hes.1 _ (NameMap.mem_of_lookup hs))
        refine .inr ⟨hrest, name, s, old, ?_, ?_, hmerge⟩
        · rw [NameMap.lookup, if_neg hne, hs]
        · rw [← hold, hentries₁, if_neg fun h => hne h.1.symm]
    · obtain ⟨old, hold, hmerge⟩ := hold
      rw [hfirst]
      exact .inr ⟨rfl, e.1, e.2, old, by rw [NameMap.lookup, if_pos rfl], hold, hmerge⟩

/-- A call cannot be refused, for its ends are added first. -/
theorem exists_addCall (g : CallGraph) (path : String) (call : CallSite) :
    ∃ g', g.addCall path call = .ok g' := by
  have hend : ∀ (g : CallGraph) (name other : String) (files : List String),
      (if g.contains name then g else g.addNode name files).contains other = true ↔
        other = name ∨ g.contains other = true := by
    intro g name other files
    split
    · rename_i hname
      constructor
      · exact .inr
      · rintro (rfl | h)
        · exact hname
        · exact h
    · exact contains_addNode
  rw [addCall, addEdge, (hend _ _ _ _).2 (.inr ((hend _ _ _ _).2 (.inl rfl))),
    (hend _ _ _ _).2 (.inl rfl)]
  exact ⟨_, rfl⟩

theorem exists_addCalls (g : CallGraph) (path : String) (calls : List CallSite) :
    ∃ g', calls.foldlM (fun g call => g.addCall path call) g = .ok g' := by
  induction calls generalizing g with
  | nil => exact ⟨g, rfl⟩
  | cons call calls ih =>
    obtain ⟨g₁, hfirst⟩ := exists_addCall g path call
    obtain ⟨g', hrest⟩ := ih g₁
    exact ⟨g', by rw [List.foldlM_cons, hfirst]; exact hrest⟩

/-! ## One change -/

/-- The numbers that a change of a commit leads to fit: the line numbers of its patch, and, where
history is recorded for a change that is in order, the sums of the inversions that this takes, and
the counts of its functions, by themselves and together with those of the commit so far. -/
structure NumbersFit (g : CallGraph) (commit : CommitStep) (c : FileChange) : Prop where
  lines : (readPatch? c.patch.toList).isSome = true
  inverses : c.order = .ok () → commit.mode = .forward → c.InversesFit (readPatch c.patch.toList)
  counts : c.order = .ok () → commit.mode = .forward → c.CountsFit (readPatch c.patch.toList)
  sums : c.order = .ok () → commit.mode = .forward → ∀ name s old, c.stats.get? name = some s →
    g.statsAt? name commit.info.hash = some old → (old.merge s).fits = true

theorem NumbersFit.functionStats? {commit : CommitStep} {c : FileChange}
    (h : g.NumbersFit commit c) (horder : c.order = .ok ()) (hmode : commit.mode = .forward) :
    c.functionStats? (readPatch c.patch.toList) = some c.stats :=
  FileChange.functionStats?_eq_some_iff.2 ⟨rfl, h.inverses horder hmode, h.counts horder hmode⟩

theorem applyDiff_of_stats {mode : SeekingMode} {c : FileChange} {d : FileDiff}
    {stats : NameMap ChangeStats}
    (h : (if mode.updatesHistory then c.functionStats? d else some .empty) = some stats) :
    g.applyDiff mode c d =
      ((g.addFunctions (c.path?.getD "") c).recordAll stats).bind fun g₁ =>
        (Halt.ofChecked ((if mode.updatesEdges then c.calls else []).foldlM
          (fun g call => g.addCall (c.path?.getD "") call) g₁)).bind fun g₂ =>
            .ok (g₂, ⟨1, 0, stats.size, (if mode.updatesEdges then c.calls else []).length⟩) := by
  rw [applyDiff, h]
  rfl

/-- A change that passed its checks cannot be refused. -/
theorem applyDiff_of_order {commit : CommitStep} {c : FileChange}
    (hcurrent : g.current = some commit.info.hash) (horder : c.order = .ok ()) :
    (∃ p, g.applyDiff commit.mode c (readPatch c.patch.toList) = .ok p) ∨
      g.applyDiff commit.mode c (readPatch c.patch.toList) = .error .overflow ∧
        ¬ g.NumbersFit commit c := by
  have hsame := sameHistory_addFunctions g (c.path?.getD "") c
  have hcurrent' := hsame.current.trans hcurrent
  cases hstats : (if commit.mode.updatesHistory = true then
      c.functionStats? (readPatch c.patch.toList) else some .empty) with
  | none =>
    refine .inr ⟨by rw [applyDiff, hstats]; rfl, fun hfit => ?_⟩
    split at hstats
    · rename_i hmode
      rw [hfit.functionStats? horder (SeekingMode.updatesHistory_iff.1 hmode)] at hstats
      cases hstats
    · cases hstats
  | some stats =>
    have hknown : ∀ name ∈ stats.keys,
        (g.addFunctions (c.path?.getD "") c).contains name = true := by
      intro name hname
      refine contains_addFunctions.2 (.inl ?_)
      split at hstats
      · rw [FileChange.functionStats?_eq_some hstats] at hname
        exact FileChange.mem_keys_functionStats hname
      · cases hstats
        cases hname
    rw [applyDiff_of_stats hstats]
    rcases recordAll_of_known hcurrent' hknown with ⟨g₁, hrecord⟩ | ⟨hrecord, hover⟩
    · obtain ⟨g₂, hcalls⟩ := exists_addCalls g₁ (c.path?.getD "")
        (if commit.mode.updatesEdges = true then c.calls else [])
      rw [hrecord]
      exact .inl ⟨_, by rw [Except.bind, hcalls]; rfl⟩
    · rw [hrecord]
      refine .inr ⟨rfl, fun hfit => ?_⟩
      obtain ⟨name, s, old, hs, hold, hmerge⟩ := hover
      rw [hsame.entries] at hold
      split at hstats
      · rename_i hmode
        obtain rfl := FileChange.functionStats?_eq_some hstats
        rw [hfit.sums horder (SeekingMode.updatesHistory_iff.1 hmode) name s old hs hold] at hmerge
        cases hmerge
      · cases hstats
        cases hs

/-- **A change is taken, or refused by its checks**, unless its numbers do not fit. -/
theorem applyChange_cases {commit : CommitStep} (hcurrent : g.current = some commit.info.hash)
    (c : FileChange) :
    (∃ g' update, g.applyChange commit.mode c = .ok (g', update) ∧ c.order = .ok () ∧
        g'.current = some commit.info.hash) ∨
      (∃ e, c.order = .error e ∧
        g.applyChange commit.mode c = .error (.refused (.order e))) ∨
      ¬ g.NumbersFit commit c ∧ g.applyChange commit.mode c = .error .overflow := by
  rw [applyChange]
  cases hread : (readPatch? c.patch.toList).isSome with
  | false =>
    rw [FileChange.checkedDiff_of_not_read hread]
    refine .inr (.inr ⟨fun hfit => ?_, rfl⟩)
    rw [hfit.lines] at hread
    cases hread
  | true =>
    rw [FileChange.checkedDiff_of_read hread]
    cases horder : c.order with
    | error e => exact .inr (.inl ⟨e, rfl, rfl⟩)
    | ok _ =>
      rcases applyDiff_of_order hcurrent horder with ⟨⟨g', update⟩, hdiff⟩ | ⟨hdiff, hfit⟩
      · obtain ⟨hcurrent', -⟩ := grows_applyDiff hcurrent hdiff
        exact .inl ⟨g', update, mapError_eq_ok_iff.2 hdiff, rfl, hcurrent'⟩
      · refine .inr (.inr ⟨hfit, ?_⟩)
        change (g.applyDiff commit.mode c _).mapError _ = _
        rw [hdiff]
        rfl

/-! ## One commit -/

theorem applyChanges_cases {commit : CommitStep} (hcurrent : g.current = some commit.info.hash)
    (filter : FileFilter) (done : CommitUpdate) (cs : List FileChange) :
    (∃ g' update, g.applyChanges filter commit.mode done cs = (g', .ok update) ∧
        ∀ c ∈ cs, filter.wants c = true → c.order = .ok ()) ∨
      ∃ before c after g' update, cs = before ++ c :: after ∧ filter.wants c = true ∧
        (∀ b ∈ before, filter.wants b = true → b.order = .ok ()) ∧
        g.applyChanges filter commit.mode done before = (g', .ok update) ∧
        ((∃ e, c.order = .error e ∧ g.applyChanges filter commit.mode done cs =
            (g', .error (.refused (.order e)))) ∨
          ¬ g'.NumbersFit commit c ∧
            g.applyChanges filter commit.mode done cs = (g', .error .overflow)) := by
  induction cs generalizing g done with
  | nil => exact .inl ⟨g, done, rfl, by simp⟩
  | cons c cs ih =>
    by_cases hwants : filter.wants c = true
    · rcases applyChange_cases hcurrent c with
        ⟨g₁, first, hchange, horder, hcurrent₁⟩ | ⟨e, horder, hchange⟩ | ⟨hfit, hchange⟩
      · have hnext : ∀ cs, g.applyChanges filter commit.mode done (c :: cs) =
            g₁.applyChanges filter commit.mode (done.add first) cs := by
          intro cs
          rw [applyChanges, if_pos hwants, hchange]
        rw [hnext]
        rcases ih hcurrent₁ (done.add first) with
          ⟨g', update, htaken, hall⟩ | ⟨before, b, after, g', update, rfl, hb, hall, htaken, hstop⟩
        · exact .inl ⟨g', update, htaken, List.forall_mem_cons.2 ⟨fun _ => horder, hall⟩⟩
        · exact .inr ⟨c :: before, b, after, g', update, rfl, hb,
            List.forall_mem_cons.2 ⟨fun _ => horder, hall⟩, by rw [hnext, htaken], hstop⟩
      · refine .inr ⟨[], c, cs, g, done, rfl, hwants, by simp, rfl, .inl ⟨e, horder, ?_⟩⟩
        rw [applyChanges, if_pos hwants, hchange]
      · refine .inr ⟨[], c, cs, g, done, rfl, hwants, by simp, rfl, .inr ⟨hfit, ?_⟩⟩
        rw [applyChanges, if_pos hwants, hchange]
    · have hnext : ∀ cs, g.applyChanges filter commit.mode done (c :: cs) =
          g.applyChanges filter commit.mode (done.add ⟨0, 1, 0, 0⟩) cs := by
        intro cs
        rw [applyChanges, if_neg hwants]
      have hskip : filter.wants c = true → c.order = .ok () := fun h => absurd h hwants
      rw [hnext]
      rcases ih hcurrent (done.add ⟨0, 1, 0, 0⟩) with
        ⟨g', update, htaken, hall⟩ | ⟨before, b, after, g', update, rfl, hb, hall, htaken, hstop⟩
      · exact .inl ⟨g', update, htaken, List.forall_mem_cons.2 ⟨hskip, hall⟩⟩
      · exact .inr ⟨c :: before, b, after, g', update, rfl, hb,
          List.forall_mem_cons.2 ⟨hskip, hall⟩, by rw [hnext, htaken], hstop⟩

theorem replayCommit_of_ne_rewind (g : CallGraph) (filter : FileFilter) {commit : CommitStep}
    (h : commit.mode ≠ .rewind) :
    g.replayCommit filter commit =
      (g.addCommit commit.info).applyChanges filter commit.mode .zero commit.changes := by
  obtain ⟨info, mode, changes⟩ := commit
  cases mode with
  | forward => rfl
  | merge => rfl
  | rewind => exact absurd rfl h

/-- The commit, cut off in front of its change `c`, leads from `g` to `g'`. The filter wants `c`,
and what it wants before is in order. -/
def StopsBefore (g : CallGraph) (filter : FileFilter) (commit : CommitStep) (c : FileChange)
    (g' : CallGraph) : Prop :=
  ∃ before after update, commit.changes = before ++ c :: after ∧ filter.wants c = true ∧
    (∀ b ∈ before, filter.wants b = true → b.order = .ok ()) ∧
    g.replayCommit filter { commit with changes := before } = (g', .ok update)

/-- **A commit is taken, or it stops before the first change that is out of order**, unless the
numbers of a change do not fit. -/
theorem replayCommit_cases (g : CallGraph) (filter : FileFilter) (commit : CommitStep) :
    (∃ g' update, g.replayCommit filter commit = (g', .ok update) ∧ (commit.mode = .rewind ∨
        ∀ c ∈ commit.changes, filter.wants c = true → c.order = .ok ())) ∨
      (∃ g' c e, g.StopsBefore filter commit c g' ∧ c.order = .error e ∧
        g.replayCommit filter commit = (g', .error (.refused (.order e)))) ∨
      ∃ g' c, g.StopsBefore filter commit c g' ∧ ¬ g'.NumbersFit commit c ∧
        g.replayCommit filter commit = (g', .error .overflow) := by
  by_cases hmode : commit.mode = .rewind
  · refine .inl ⟨g, .zero, ?_, .inl hmode⟩
    rw [replayCommit, hmode]
  · have hcut : ∀ changes, g.replayCommit filter { commit with changes := changes } =
        (g.addCommit commit.info).applyChanges filter commit.mode .zero changes :=
      fun changes => @replayCommit_of_ne_rewind g filter { commit with changes := changes } hmode
    have hcurrent : (g.addCommit commit.info).current = some commit.info.hash := rfl
    rw [hcut commit.changes]
    rcases applyChanges_cases hcurrent filter .zero commit.changes with
      ⟨g', update, htaken, hall⟩ | ⟨before, c, after, g', update, hchanges, hwants, hall, htaken,
        ⟨e, horder, hstop⟩ | ⟨hfit, hstop⟩⟩
    · exact .inl ⟨g', update, htaken, .inr hall⟩
    · exact .inr (.inl ⟨g', c, e, ⟨before, after, update, hchanges, hwants, hall,
        (hcut before).trans htaken⟩, horder, hstop⟩)
    · exact .inr (.inr ⟨g', c, ⟨before, after, update, hchanges, hwants, hall,
        (hcut before).trans htaken⟩, hfit, hstop⟩)

/-! ## A whole replay -/

theorem replayFrom_cases (g : CallGraph) (filter : FileFilter) (done : ReplayStats)
    (history : List CommitStep) :
    (∃ g' stats, g.replayFrom filter done history = (g', .ok stats)) ∨
      ∃ past commit future g₁ stats, history = past ++ commit :: future ∧
        g.replayFrom filter done past = (g₁, .ok stats) ∧
        ((∃ g' c e, g₁.StopsBefore filter commit c g' ∧ c.order = .error e ∧
            g.replayFrom filter done history = (g', .error (.refused (.order e)))) ∨
          ∃ g' c, g₁.StopsBefore filter commit c g' ∧ ¬ g'.NumbersFit commit c ∧
            g.replayFrom filter done history = (g', .error .overflow)) := by
  induction history generalizing g done with
  | nil => exact .inl ⟨g, done, rfl⟩
  | cons commit history ih =>
    rcases replayCommit_cases g filter commit with
      ⟨g₁, update, htaken, -⟩ | ⟨g', c, e, hstops, horder, hstop⟩ | ⟨g', c, hstops, hfit, hstop⟩
    · have hnext : ∀ history, g.replayFrom filter done (commit :: history) =
          g₁.replayFrom filter (done.count commit.mode update) history := by
        intro history
        rw [replayFrom, htaken]
      rw [hnext]
      rcases ih g₁ (done.count commit.mode update) with
        hall | ⟨past, k, future, g₂, stats, rfl, hpast, hstop⟩
      · exact .inl hall
      · exact .inr ⟨commit :: past, k, future, g₂, stats, rfl, by rw [hnext, hpast], hstop⟩
    · refine .inr ⟨[], commit, history, g, done, rfl, rfl, .inl ⟨g', c, e, hstops, horder, ?_⟩⟩
      rw [replayFrom, hstop]
    · refine .inr ⟨[], commit, history, g, done, rfl, rfl, .inr ⟨g', c, hstops, hfit, ?_⟩⟩
      rw [replayFrom, hstop]

end CallGraph

end EffortRank
