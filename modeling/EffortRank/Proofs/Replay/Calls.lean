import EffortRank.Proofs.Replay.Refusal

/-!
# A replay records the calls that it is shown

A replay takes the changes that its filter wants (`takenChanges`), and each of them shows calls.
`CallGraph.Observes` says how a graph has grown by what it was shown: which functions it knows now,
what is known of functions that were called only, and which stamp a call has, that of the last
commit that showed it. Parts of a replay compose (`CallGraph.Observes.append`), so that it holds of
one change, of one commit and of a whole replay (`CallGraph.replay_records_shown_calls`).
-/

namespace EffortRank

/-! ## What is shown -/

/-- The functions that are seen in the file of a change: those of both versions, and those that
call. -/
def FileChange.seen (c : FileChange) : List String :=
  (c.newFunctions ++ c.functions).map FunctionRange.name ++ c.calls.map CallSite.caller

def CallSite.stamped (hash : String) (call : CallSite) : CallEdge :=
  ⟨call.caller, call.callee, some hash⟩

namespace CommitStep

/-- The changes of a commit that a replay takes. -/
def taken (filter : FileFilter) (commit : CommitStep) : List FileChange :=
  if commit.mode = .rewind then [] else commit.changes.filter filter.wants

/-- The calls in these changes, with the stamp of the commit. -/
def calls (filter : FileFilter) (commit : CommitStep) : List CallEdge :=
  (commit.taken filter).flatMap fun c => c.calls.map (CallSite.stamped commit.info.hash)

/-- The replay sees a call in the commit. -/
def Shows (filter : FileFilter) (call : CallSite) (commit : CommitStep) : Prop :=
  ∃ c ∈ commit.taken filter, call ∈ c.calls

instance (filter : FileFilter) (call : CallSite) : DecidablePred (Shows filter call) :=
  fun commit => inferInstanceAs (Decidable (∃ c ∈ commit.taken filter, call ∈ c.calls))

end CommitStep

/-- The changes that a replay takes. -/
def takenChanges (filter : FileFilter) (history : List CommitStep) : List FileChange :=
  history.flatMap (CommitStep.taken filter)

theorem exists_shows_iff {filter : FileFilter} {history : List CommitStep} {call : CallSite} :
    (∃ commit ∈ history, commit.Shows filter call) ↔
      ∃ c ∈ takenChanges filter history, call ∈ c.calls := by
  simp only [CommitStep.Shows, takenChanges, List.mem_flatMap]
  constructor
  · rintro ⟨commit, hcommit, c, hc, hcall⟩
    exact ⟨c, ⟨commit, hcommit, hc⟩, hcall⟩
  · rintro ⟨c, ⟨commit, hcommit, hc⟩, hcall⟩
    exact ⟨commit, hcommit, c, hc, hcall⟩

theorem isSome_getLast?_shows_iff {filter : FileFilter} {history : List CommitStep}
    {call : CallSite} : (history.filter (CommitStep.Shows filter call)).getLast?.isSome = true ↔
      ∃ c ∈ takenChanges filter history, call ∈ c.calls := by
  rw [List.getLast?_isSome, ne_eq, List.filter_eq_nil_iff, ← exists_shows_iff]
  simp

theorem mem_map_callee_iff {filter : FileFilter} {history : List CommitStep} {name : String} :
    name ∈ (history.flatMap (CommitStep.calls filter)).map CallEdge.callee ↔
      ∃ c ∈ takenChanges filter history, name ∈ c.calls.map CallSite.callee := by
  simp only [takenChanges, CommitStep.calls, List.mem_map, List.mem_flatMap]
  constructor
  · rintro ⟨_, ⟨commit, hcommit, c, hc, call, hcall, rfl⟩, rfl⟩
    exact ⟨c, ⟨commit, hcommit, hc⟩, call, hcall, rfl⟩
  · rintro ⟨c, ⟨commit, hcommit, hc⟩, call, hcall, rfl⟩
    exact ⟨_, ⟨commit, hcommit, c, hc, call, hcall, rfl⟩, rfl⟩

theorem lastWith?_calls (filter : FileFilter) (call : CallSite) (commit : CommitStep) :
    lastWith? CallEdge.ends (commit.calls filter) (call.caller, call.callee) =
      if commit.Shows filter call then some (call.stamped commit.info.hash) else none := by
  cases hlast : lastWith? CallEdge.ends (commit.calls filter) (call.caller, call.callee) with
  | none =>
    rw [lastWith?, List.find?_eq_none] at hlast
    have hnot : ¬ commit.Shows filter call := by
      rintro ⟨c, hc, hcall⟩
      have hin : call.stamped commit.info.hash ∈ commit.calls filter :=
        List.mem_flatMap.2 ⟨c, hc, List.mem_map_of_mem hcall⟩
      exact hlast _ (List.mem_reverse.2 hin) (beq_self_eq_true _)
    rw [if_neg hnot]
  | some e =>
    have hends : e.ends = (call.caller, call.callee) := by simpa using List.find?_some hlast
    have hin := List.mem_reverse.1 (List.mem_of_find?_eq_some hlast)
    obtain ⟨c, hc, hin⟩ := List.mem_flatMap.1 hin
    obtain ⟨⟨caller, callee⟩, hsite, rfl⟩ := List.mem_map.1 hin
    cases hends
    rw [if_pos ⟨c, hc, hsite⟩]

/-- **The last stamp**: of all that a replay sees of a call, the last is in the last commit that
shows the call. -/
theorem lastWith?_flatMap_calls (filter : FileFilter) (call : CallSite)
    (history : List CommitStep) :
    lastWith? CallEdge.ends (history.flatMap (CommitStep.calls filter)) (call.caller, call.callee) =
      (history.filter (CommitStep.Shows filter call)).getLast?.map
        fun commit => call.stamped commit.info.hash := by
  induction history with
  | nil => rfl
  | cons commit history ih =>
    rw [List.flatMap_cons, lastWith?_append, ih, lastWith?_calls, List.filter_cons]
    by_cases hshows : commit.Shows filter call
    · rw [if_pos hshows, if_pos (by simpa using hshows), List.getLast?_cons]
      cases (history.filter (CommitStep.Shows filter call)).getLast? <;> rfl
    · rw [if_neg hshows, if_neg (by simpa using hshows), Option.or_none]

namespace CallGraph

variable {g g' g'' : CallGraph} {filter : FileFilter}

/-! ## How a graph grows -/

/-- The graph has seen some functions in their files, and some calls. A function that it was not
shown otherwise than as one that is called is as it was, or is new with nothing known of it. A call
has the last stamp it was shown with. What was there keeps its place. -/
structure Observes (g : CallGraph) (seen : List String) (calls : List CallEdge)
    (g' : CallGraph) : Prop where
  contains : ∀ name, g'.contains name = true ↔
    g.contains name = true ∨ name ∈ seen ∨ name ∈ calls.map CallEdge.callee
  called : ∀ name, name ∉ seen → g'.node? name = g.node? name ∨
    g.node? name = none ∧ g'.node? name = some (.new name)
  call : ∀ ends, g'.call? ends = (lastWith? CallEdge.ends calls ends).or (g.call? ends)
  names : g.nodes.map FunctionNode.name <+: g'.nodes.map FunctionNode.name
  ends : g.edges.map CallEdge.ends <+: g'.edges.map CallEdge.ends

namespace Observes

theorem refl (g : CallGraph) : Observes g [] [] g where
  contains name := by simp
  called name _ := .inl rfl
  call ends := rfl
  names := List.prefix_rfl
  ends := List.prefix_rfl

theorem append {seen seen' : List String} {calls calls' : List CallEdge}
    (h : Observes g seen calls g') (h' : Observes g' seen' calls' g'') :
    Observes g (seen ++ seen') (calls ++ calls') g'' where
  contains name := by
    rw [h'.contains, h.contains, List.map_append, List.mem_append, List.mem_append]
    tauto
  called name hname := by
    rw [List.mem_append, not_or] at hname
    rcases h.called name hname.1 with hsame | ⟨hnone, hnew⟩
    · rw [← hsame]
      exact h'.called name hname.2
    · -- Once it is there, the function does not become new again.
      rcases h'.called name hname.2 with hsame | ⟨hnone', -⟩
      · exact .inr ⟨hnone, hsame.trans hnew⟩
      · rw [hnew] at hnone'
        cases hnone'
  call ends := by
    rw [h'.call, h.call, lastWith?_append, Option.or_assoc]
  names := h.names.trans h'.names
  ends := h.ends.trans h'.ends

theorem congr {seen seen' : List String} {calls : List CallEdge} (h : Observes g seen calls g')
    (hseen : ∀ name, name ∈ seen ↔ name ∈ seen') : Observes g seen' calls g' :=
  { h with
    contains := fun name => by rw [h.contains, hseen]
    called := fun name hname => h.called name fun hin => hname ((hseen name).1 hin) }

/-- Nothing is known of a new function that is called only. -/
theorem eq_new {seen : List String} {calls : List CallEdge} (h : Observes g seen calls g')
    {name : String} {node : FunctionNode} (hnew : name ∉ g.nodes.map FunctionNode.name)
    (hseen : name ∉ seen) (hnode : g'.node? name = some node) : node = .new name := by
  have hnone : g.node? name = none := by
    rw [← contains_iff] at hnew
    simpa [CallGraph.contains] using hnew
  rcases h.called name hseen with hsame | ⟨-, hfresh⟩
  · rw [hsame, hnone] at hnode
    cases hnode
  · exact Option.some.inj (hnode.symm.trans hfresh)

theorem withNode (g : CallGraph) {name : String} {change : FunctionNode → FunctionNode}
    (hchange : ∀ node, (change node).name = node.name) :
    Observes g [name] [] (g.withNode name change) where
  contains other := by
    rw [contains_withNode hchange, List.mem_singleton, or_comm]
    simp
  called other hother := by
    rw [List.mem_singleton] at hother
    rw [node?_withNode name other hchange, if_neg hother]
    exact .inl rfl
  call ends := rfl
  names := by
    have hfresh : (change (.new name)).name = name := hchange (.new name)
    rw [CallGraph.withNode,
      map_updateOrAppend (fun node hnode => (hchange node).trans hnode) hfresh]
    split
    · exact List.prefix_rfl
    · exact List.prefix_append _ _
  ends := List.prefix_rfl

theorem addCommit (g : CallGraph) (info : CommitInfo) : Observes g [] [] (g.addCommit info) :=
  { refl g with }

theorem recordHistory {name : String} {stats : ChangeStats}
    (h : g.recordHistory name stats = .ok g') : Observes g [name] [] g' := by
  obtain ⟨hash, -, -, -, -, rfl⟩ := recordHistory_eq_ok h
  exact withNode g (FunctionNode.name_record hash stats)

end Observes

/-! ## One change -/

theorem observes_addNode (g : CallGraph) (name : String) (files : List String) :
    Observes g [name] [] (g.addNode name files) :=
  .withNode g fun _ => rfl

theorem observes_addFunctions (g : CallGraph) (path : String) (c : FileChange) :
    Observes g ((c.newFunctions ++ c.functions).map FunctionRange.name) []
      (g.addFunctions path c) := by
  rw [addFunctions]
  generalize c.newFunctions ++ c.functions = functions
  induction functions generalizing g with
  | nil => exact .refl g
  | cons f fs ih => exact (observes_addNode g f.name [path]).append (ih (g.addNode f.name [path]))

theorem observes_recordAll {stats : NameMap ChangeStats} (h : g.recordAll stats = .ok g') :
    Observes g stats.keys [] g' := by
  obtain ⟨es, hes⟩ := stats
  rw [recordAll] at h
  dsimp only at h
  rw [NameMap.keys]
  induction es generalizing g with
  | nil =>
    cases h
    exact .refl _
  | cons e es ih =>
    rw [List.foldlM_cons, bind_eq_ok_iff] at h
    obtain ⟨g₁, hfirst, hrest⟩ := h
    exact (Observes.recordHistory hfirst).append (ih (List.pairwise_cons.1 hes).2 hrest)

/-- The caller of a call is seen in the file of the change. If it is known, it stays as it is. -/
theorem observes_caller (g : CallGraph) (name path : String) :
    Observes g [name] [] (if g.contains name then g else g.addNode name [path]) := by
  split
  · rename_i hname
    refine { Observes.refl g with
      contains := fun other => ?_
      called := fun _ _ => .inl rfl }
    rw [List.mem_singleton]
    constructor
    · exact .inl
    · rintro (hother | rfl | hother)
      · exact hother
      · exact hname
      · cases hother
  · exact observes_addNode g name [path]

theorem observes_link {e : CallEdge} (hcallee : g.contains e.callee = true) :
    Observes g [] [e] (g.link e) where
  contains name := by
    constructor
    · exact .inl
    · rintro (hname | hname | hname)
      · exact hname
      · cases hname
      · rw [List.mem_singleton.1 hname]
        exact hcallee
  called _ _ := .inl rfl
  call ends := by
    rw [call?_link, lastWith?_singleton]
    split
    · rfl
    · rfl
  names := List.prefix_rfl
  ends := by
    rw [edges_link, map_updateOrAppend (fun _ _ => rfl) rfl]
    split
    · exact List.prefix_rfl
    · exact List.prefix_append _ _

/-- A function that is only called is added with nothing known of it. -/
theorem observes_callee (g : CallGraph) (e : CallEdge) :
    Observes g [] [e] ((if g.contains e.callee then g else g.addNode e.callee []).link e) := by
  split
  · rename_i hcallee
    exact observes_link hcallee
  · rename_i hcallee
    have hlink : Observes (g.addNode e.callee []) [] [e] ((g.addNode e.callee []).link e) :=
      observes_link (contains_addNode.2 (.inl rfl))
    refine { hlink with contains := fun name => ?_, called := fun name _ => ?_, names := ?_ }
    · rw [hlink.contains, contains_addNode]
      simp only [List.map_cons, List.map_nil, List.mem_singleton]
      tauto
    · have hnode : ((g.addNode e.callee []).link e).node? name =
          if name = e.callee then some (((g.node? e.callee).getD (.new e.callee)).addFiles [])
          else g.node? name := node?_withNode e.callee name fun _ => rfl
      rw [hnode]
      split
      · rename_i hname
        have hnone : g.node? e.callee = none := by simpa [CallGraph.contains] using hcallee
        rw [hname, hnone]
        exact .inr ⟨rfl, rfl⟩
      · exact .inl rfl
    · exact (observes_addNode g e.callee []).names

theorem observes_addCall {path hash : String} {call : CallSite} (hcurrent : g.current = some hash)
    (h : g.addCall path call = .ok g') :
    Observes g [call.caller] [call.stamped hash] g' := by
  have hends : ∀ (g : CallGraph) (name : String) (files : List String),
      (if g.contains name then g else g.addNode name files).current = g.current := by
    intro g name files
    split
    · rfl
    · rfl
  obtain ⟨-, -, rfl⟩ := addEdge_eq_ok h
  rw [hends, hends, hcurrent]
  exact (observes_caller g call.caller path).append (observes_callee _ (call.stamped hash))

theorem observes_addCalls {path hash : String} {calls : List CallSite}
    (hcurrent : g.current = some hash)
    (h : calls.foldlM (fun g call => g.addCall path call) g = .ok g') :
    Observes g (calls.map CallSite.caller) (calls.map (CallSite.stamped hash)) g' := by
  induction calls generalizing g with
  | nil =>
    cases h
    exact .refl _
  | cons call calls ih =>
    rw [List.foldlM_cons, bind_eq_ok_iff] at h
    obtain ⟨g₁, hfirst, hrest⟩ := h
    have hcurrent₁ : g₁.current = some hash := (sameHistory_addCall hfirst).current.trans hcurrent
    exact (observes_addCall hcurrent hfirst).append (ih hcurrent₁ hrest)

/-- **One change**: its functions and its calls are seen, and all of its calls are counted. -/
theorem observes_applyDiff {hash : String} {mode : SeekingMode} {c : FileChange} {d : FileDiff}
    {update : CommitUpdate} (hcurrent : g.current = some hash) (hmode : mode ≠ .rewind)
    (h : g.applyDiff mode c d = .ok (g', update)) :
    Observes g c.seen (c.calls.map (CallSite.stamped hash)) g' ∧
      update.edgesAdded = c.calls.length := by
  have hcalls : (if mode.updatesEdges then c.calls else []) = c.calls := by
    cases mode with
    | forward => rfl
    | merge => rfl
    | rewind => exact absurd rfl hmode
  obtain ⟨stats, g₁, hstats, hrecord, hadd, rfl⟩ := applyDiff_eq_ok h
  rw [hcalls] at hadd ⊢
  have hfunctions := observes_addFunctions g (c.path?.getD "") c
  have hcurrent₁ := (sameHistory_addFunctions g (c.path?.getD "") c).current.trans hcurrent
  have hcurrent₂ := (statsAt?_recordAll hcurrent₁ hrecord).1
  have hall := (hfunctions.append (observes_recordAll hrecord)).append
    (observes_addCalls hcurrent₂ hadd)
  refine ⟨hall.congr fun name => ?_, rfl⟩
  -- What is counted is counted for functions of the change, so that it shows no more of them.
  have hkeys : name ∈ stats.keys →
      name ∈ (c.newFunctions ++ c.functions).map FunctionRange.name := by
    intro hname
    split at hstats
    · rw [FileChange.functionStats?_eq_some hstats] at hname
      exact FileChange.mem_keys_functionStats hname
    · cases hstats
      cases hname
  rw [FileChange.seen, List.mem_append, List.mem_append, List.mem_append, or_iff_left_of_imp hkeys]

theorem observes_applyChanges {info : CommitInfo} {mode : SeekingMode} {cs : List FileChange}
    {done update : CommitUpdate} (hcurrent : g.current = some info.hash) (hmode : mode ≠ .rewind)
    (h : g.applyChanges filter mode done cs = (g', .ok update)) :
    Observes g ((cs.filter filter.wants).flatMap FileChange.seen)
        ((cs.filter filter.wants).flatMap fun c => c.calls.map (CallSite.stamped info.hash)) g' ∧
      update.edgesAdded =
        done.edgesAdded + ((cs.filter filter.wants).map fun c => c.calls.length).sum := by
  induction cs generalizing g done with
  | nil =>
    cases h
    exact ⟨.refl _, rfl⟩
  | cons c cs ih =>
    rw [applyChanges] at h
    rw [List.filter_cons]
    split at h
    · rename_i hwants
      split at h
      · cases h
      · rename_i g₁ first hchange
        have hdiff := applyChange_eq_ok hchange
        obtain ⟨hcurrent₁, -⟩ := grows_applyDiff hcurrent hdiff
        obtain ⟨hfirst, hedges₁⟩ := observes_applyDiff hcurrent hmode hdiff
        obtain ⟨hrest, hedges⟩ := ih hcurrent₁ h
        rw [if_pos hwants]
        refine ⟨hfirst.append hrest, ?_⟩
        rw [hedges, List.map_cons, List.sum_cons]
        dsimp only [CommitUpdate.add]
        omega
    · rename_i hwants
      obtain ⟨hrest, hedges⟩ := ih hcurrent h
      rw [if_neg hwants]
      exact ⟨hrest, hedges⟩

/-! ## A whole replay -/

/-- **One commit**: the changes that the filter wants are seen, but nothing of a rewind. -/
theorem observes_replayCommit {commit : CommitStep} {update : CommitUpdate}
    (h : g.replayCommit filter commit = (g', .ok update)) :
    Observes g ((commit.taken filter).flatMap FileChange.seen) (commit.calls filter) g' ∧
      update.edgesAdded = ((commit.taken filter).map fun c => c.calls.length).sum := by
  rw [CommitStep.calls, CommitStep.taken]
  by_cases hmode : commit.mode = .rewind
  · rw [replayCommit, hmode] at h
    cases h
    rw [if_pos hmode]
    exact ⟨.refl _, rfl⟩
  · rw [replayCommit_of_ne_rewind g filter hmode] at h
    obtain ⟨hchanges, hedges⟩ := observes_applyChanges (rfl : _ = some commit.info.hash) hmode h
    rw [if_neg hmode]
    exact ⟨(Observes.addCommit g commit.info).append hchanges, hedges.trans (Nat.zero_add _)⟩

theorem observes_replayFrom {history : List CommitStep} {done stats : ReplayStats}
    (h : g.replayFrom filter done history = (g', .ok stats)) :
    Observes g ((takenChanges filter history).flatMap FileChange.seen)
        (history.flatMap (CommitStep.calls filter)) g' ∧
      stats.edgesAdded =
        done.edgesAdded + ((takenChanges filter history).map fun c => c.calls.length).sum := by
  induction history generalizing g done with
  | nil =>
    cases h
    exact ⟨.refl _, rfl⟩
  | cons commit history ih =>
    rw [replayFrom] at h
    split at h
    · cases h
    · rename_i g₁ update hcommit
      obtain ⟨hfirst, hedges₁⟩ := observes_replayCommit hcommit
      obtain ⟨hrest, hedges⟩ := ih h
      rw [takenChanges, List.flatMap_cons, List.flatMap_append, List.flatMap_cons]
      refine ⟨hfirst.append hrest, ?_⟩
      rw [hedges, List.map_append, List.sum_append, ← hedges₁]
      dsimp only [ReplayStats.count]
      rw [takenChanges, Nat.add_assoc]

/-- **A replay records the calls that it is shown, and no others**: each call once, with the stamp
of the last commit that shows it or else the one that it had. The functions are those of the graph
and those that the changes name, and nothing is known of a new one that is called only. What the
graph had stays in front, in its order, and all calls of the changes are counted. -/
theorem replay_records_shown_calls {history : List CommitStep} {stats : ReplayStats}
    (hg : g.Reachable) (h : g.replay filter history = (g', .ok stats)) :
    (∀ u v, (u, v) ∈ g'.edges.map CallEdge.ends ↔
        (u, v) ∈ g.edges.map CallEdge.ends ∨ ∃ c ∈ takenChanges filter history, ⟨u, v⟩ ∈ c.calls) ∧
      (g'.edges.map CallEdge.ends).Nodup ∧
      (∀ e ∈ g'.edges,
        match (history.filter (CommitStep.Shows filter ⟨e.caller, e.callee⟩)).getLast? with
        | some commit => e.addedBy = some commit.info.hash
        | none => e ∈ g.edges) ∧
      (∀ name, name ∈ g'.nodes.map FunctionNode.name ↔
        name ∈ g.nodes.map FunctionNode.name ∨
          ∃ c ∈ takenChanges filter history, name ∈ c.seen ∨ name ∈ c.calls.map CallSite.callee) ∧
      (∀ node ∈ g'.nodes, node.name ∉ g.nodes.map FunctionNode.name →
        (∀ c ∈ takenChanges filter history, node.name ∉ c.seen) →
          node.files = .empty ∧ node.history = .empty) ∧
      g.nodes.map FunctionNode.name <+: g'.nodes.map FunctionNode.name ∧
      g.edges.map CallEdge.ends <+: g'.edges.map CallEdge.ends ∧
      stats.edgesAdded = ((takenChanges filter history).map fun c => c.calls.length).sum := by
  obtain ⟨hsees, hcount⟩ := observes_replayFrom h
  have hleads := leads_replay g filter history
  rw [h] at hleads
  have hwell := (hg.leads hleads).wellFormed
  have hcall : ∀ u v, g'.call? (u, v) =
      ((history.filter (CommitStep.Shows filter ⟨u, v⟩)).getLast?.map
        fun commit => CallSite.stamped commit.info.hash ⟨u, v⟩).or (g.call? (u, v)) := by
    intro u v
    rw [hsees.call, lastWith?_flatMap_calls filter ⟨u, v⟩ history]
  refine ⟨fun u v => ?_, hwell.calls, fun e he => ?_, fun name => ?_,
    fun node hnode hnew hseen => ?_, hsees.names, hsees.ends, hcount.trans (Nat.zero_add _)⟩
  · rw [mem_map_ends_iff, mem_map_ends_iff, hcall, Option.isSome_or, Option.isSome_map,
      Bool.or_eq_true, isSome_getLast?_shows_iff, or_comm]
  · have hfound : g'.call? e.ends = some e := (find?_eq_some_iff_of_nodup hwell.calls).2 ⟨he, rfl⟩
    rw [CallEdge.ends, hcall] at hfound
    split
    · rename_i commit hlast
      rw [hlast] at hfound
      exact (congrArg CallEdge.addedBy (Option.some.inj hfound)).symm
    · rename_i hlast
      rw [hlast] at hfound
      exact List.mem_of_find?_eq_some hfound
  · rw [← contains_iff, ← contains_iff, hsees.contains, List.mem_flatMap, mem_map_callee_iff,
      ← exists_or]
    simp only [← and_or_left]
  · have hunseen : node.name ∉ (takenChanges filter history).flatMap FileChange.seen := by
      rw [List.mem_flatMap]
      rintro ⟨c, hc, hname⟩
      exact hseen c hc hname
    have hfound : g'.node? node.name = some node := hwell.node?_eq_some_iff.2 ⟨hnode, rfl⟩
    rw [hsees.eq_new hnew hunseen hfound]
    exact ⟨rfl, rfl⟩

/-- The graph knows three functions and two calls. One call is shown again by a commit, and by a
merge after it; one that is new is shown by a change that the filter does not want, and one by a
rewind. -/
theorem replay_records_shown_calls_of_repeated_call :
    let change : FileChange := ⟨some "a", some "a", "@@ -1,2 +1,2 @@\n-x\n+y\n z\n",
      [⟨"f", ⟨1, 2⟩⟩], [], none, none, [⟨"f", "g"⟩, ⟨"f", "h"⟩]⟩
    let unwanted : FileChange :=
      { change with oldPath := none, newPath := none, calls := [⟨"x", "y"⟩] }
    let info : CommitInfo := ⟨"c", "", "", "", none⟩
    let requests : List GraphRequest := [.addCommit { info with hash := "a" }, .addNode "f" ["a"],
      .addNode "g" ["a"], .addNode "k" ["b"], .addEdge "f" "g", .addEdge "f" "k"]
    let history : List CommitStep := [⟨info, .forward, [change, unwanted]⟩,
      ⟨{ info with hash := "m" }, .merge, [change]⟩,
      ⟨{ info with hash := "r" }, .rewind, [{ change with calls := [⟨"h", "k"⟩] }]⟩]
    ∃ g stats, (empty.run requests).replay .all history = (g, .ok stats) ∧
      ("f", "h") ∈ g.edges.map CallEdge.ends ∧ ("x", "y") ∉ g.edges.map CallEdge.ends ∧
      ("h", "k") ∉ g.edges.map CallEdge.ends ∧
      (∀ e ∈ g.edges, e.ends = ("f", "g") → e.addedBy = some "m") ∧
      (∀ e ∈ g.edges, e.ends = ("f", "k") → e.addedBy = some "a") ∧
      (∀ node ∈ g.nodes, node.name = "h" → node.files = .empty ∧ node.history = .empty) ∧
      stats.edgesAdded = 4 := by
  intro change unwanted info requests history
  have hrun : ((empty.run requests).replay .all history).2 = .ok ⟨3, 1, 1, 1, 2, 1, 1, 4⟩ := by
    decide +kernel
  have h : (empty.run requests).replay .all history =
      (((empty.run requests).replay .all history).1, .ok ⟨3, 1, 1, 1, 2, 1, 1, 4⟩) :=
    Prod.ext rfl hrun
  obtain ⟨hcalls, -, hstamps, -, hcalled, -⟩ := replay_records_shown_calls ⟨requests, rfl⟩ h
  refine ⟨_, _, h, (hcalls "f" "h").2 (.inr (by decide)), fun hin => ?_, fun hin => ?_,
    fun e he hends => ?_, fun e he hends => ?_, fun node hnode hname => ?_, rfl⟩
  · exact absurd ((hcalls "x" "y").1 hin) (by decide)
  · exact absurd ((hcalls "h" "k").1 hin) (by decide)
  · obtain ⟨_, _, stamp⟩ := e
    cases hends
    have hlast : (history.filter (CommitStep.Shows .all ⟨"f", "g"⟩)).getLast? =
        some ⟨{ info with hash := "m" }, .merge, [change]⟩ := by decide
    have hstamp := hstamps _ he
    rw [hlast] at hstamp
    exact hstamp
  · obtain ⟨_, _, stamp⟩ := e
    cases hends
    have hlast : (history.filter (CommitStep.Shows .all ⟨"f", "k"⟩)).getLast? = none := by decide
    have hstamp := hstamps _ he
    rw [hlast] at hstamp
    have hstart : ∀ e ∈ (empty.run requests).edges, e.ends = ("f", "k") → e.addedBy = some "a" := by
      decide
    exact hstart _ hstamp rfl
  · refine hcalled node hnode ?_ ?_
    · rw [hname]
      decide
    · rw [hname]
      decide

end CallGraph

end EffortRank
