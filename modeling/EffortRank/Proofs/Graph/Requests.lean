import EffortRank.Proofs.Graph.Store

/-!
# Requests to a store

A step on a sound store agrees (`GraphStore.Agree`) with what a graph answers: both fail for the
same reason, or the step has its result and leaves a store that shows the graph of the answer.
Whatever comes of the step, the store is sound. So the stores that requests lead to are sound, and
show the graphs that the same requests lead to (`GraphStore.graph_run`).

A step that fails may have worked on the store before. The steps of a request do not: all that may
fail in them only reads the store (`GraphStore.Step.Reads`) and comes before the first change, and a
saved form is built up apart. So a request that fails leaves the store exactly as it was
(`GraphStore.keepsOnError_perform`).
-/

namespace EffortRank

namespace GraphStore

/-! ## Steps that agree with answers -/

section

variable {ε α β γ δ ι : Type} {s : GraphStore} {R : α → GraphStore → β → Prop}
  {R' : γ → GraphStore → δ → Prop}

/-- A step and an answer fail for the same reason, or have related results. The step leaves a sound
store, also where it fails. -/
inductive Agree (R : α → GraphStore → β → Prop) :
    EStateM.Result (Halt ε) GraphStore α → Except (Halt ε) β → Prop
  | ok {x : α} {s : GraphStore} {y : β} (sound : s.Sound) (related : R x s y) :
    Agree R (.ok x s) (.ok y)
  | error {halt : Halt ε} {s : GraphStore} (sound : s.Sound) :
    Agree R (.error halt s) (.error halt)

/-- The store shows the graph. -/
def Shows (_ : Unit) (s : GraphStore) (g : CallGraph) : Prop := s.graph = g

theorem Agree.bind {x : Step ε α} {f : α → Step ε γ} {q : Except (Halt ε) β}
    {q' : β → Except (Halt ε) δ} (h : Agree R (x.run s) q)
    (hnext : ∀ a s' b, s'.Sound → R a s' b → Agree R' ((f a).run s') (q' b)) :
    Agree R' ((x >>= f).run s) (q >>= q') := by
  rw [EStateM.run_bind]
  generalize x.run s = r at h
  cases h with
  | ok hsound hrelated => exact hnext _ _ _ hsound hrelated
  | error hsound => exact .error hsound

/-- Steps for a list agree with answers for it if each step agrees with its answer. -/
theorem Agree.forM {f : ι → Step ε Unit} {q : CallGraph → ι → Except (Halt ε) CallGraph}
    (hstep : ∀ i s, s.Sound → Agree Shows ((f i).run s) (q s.graph i)) (h : s.Sound) (l : List ι) :
    Agree Shows ((l.forM f).run s) (l.foldlM q s.graph) := by
  induction l generalizing s with
  | nil => exact .ok h rfl
  | cons i l ih =>
    rw [List.forM, List.foldlM_cons]
    refine (hstep i s h).bind fun _ s' g hs' hshows => ?_
    rw [← hshows]
    exact ih hs'

end

variable {s : GraphStore}

/-- A name is looked up without a change of the store. -/
theorem lookup_cases (name : String) (s : GraphStore) :
    (s.index.get? name = none ∧ (lookup name).run s = .error (.refused (.unknownNode name)) s) ∨
      ∃ i, s.index.get? name = some i ∧ (lookup name).run s = .ok i s := by
  rw [lookup, EStateM.run_bind]
  dsimp only [EStateM.run_get]
  cases s.index.get? name with
  | none => exact .inl ⟨rfl, rfl⟩
  | some i => exact .inr ⟨i, rfl, rfl⟩

/-- A call is put between known functions, with the stamp of a registered commit. -/
theorem agree_connect (h : s.Sound) (caller callee : String) {stamp : Option String}
    (hstamp : ∀ hash, stamp = some hash → s.graph.hasCommit hash = true) :
    Agree Shows ((connect caller callee stamp).run s)
      (Halt.ofChecked
        (if !s.graph.contains caller then .error (.unknownNode caller)
        else if !s.graph.contains callee then .error (.unknownNode callee)
        else .ok (s.graph.link ⟨caller, callee, stamp⟩))) := by
  rw [h.contains_graph, h.contains_graph, contains, contains, connect, EStateM.run_bind]
  rcases lookup_cases caller s with ⟨hcaller, hrun⟩ | ⟨i, hcaller, hrun⟩
  · rw [hrun, hcaller]
    exact .error h
  · rw [hrun, hcaller]
    dsimp only
    rw [EStateM.run_bind]
    rcases lookup_cases callee s with ⟨hcallee, hrun'⟩ | ⟨j, hcallee, hrun'⟩
    · rw [hrun', hcallee]
      exact .error h
    · rw [hrun', hcallee]
      exact .ok (h.link hcaller hcallee hstamp) (h.graph_link hcaller hcallee stamp)

theorem agree_addEdge (h : s.Sound) (caller callee : String) :
    Agree Shows ((addEdge caller callee).run s)
      (Halt.ofChecked (s.graph.addEdge caller callee)) :=
  agree_connect h caller callee h.wellFormed.current_known

theorem agree_setFiles (h : s.Sound) (name : String) (files : List String) :
    Agree Shows ((setFiles name files).run s) (Halt.ofChecked (s.graph.setFiles name files)) := by
  rw [CallGraph.setFiles, h.contains_graph, contains, setFiles, EStateM.run_bind]
  rcases lookup_cases name s with ⟨hname, hrun⟩ | ⟨i, hname, hrun⟩
  · rw [hrun, hname]
    exact .error h
  · rw [hrun, hname]
    exact .ok (h.changeAt hname (fun _ => rfl) fun _ hnode => hnode)
      (h.graph_changeAt hname fun _ => rfl)

theorem run_recordAt {i : Nat} {node : FunctionNode} (hnode : s.nodes[i]? = some node)
    (hash : String) (stats : ChangeStats) :
    (recordAt i hash stats).run s =
      if node.recordFits hash stats then .ok () (s.changeAt i fun node => node.record hash stats)
      else .error .overflow s := by
  rw [recordAt, EStateM.run_bind]
  dsimp only [EStateM.run_get]
  rw [hnode, Option.all_some]
  split
  · rfl
  · rfl

theorem agree_recordAt (h : s.Sound) {name hash : String} {i : Nat} {node : FunctionNode}
    (hi : s.index.get? name = some i) (hnode : s.nodes[i]? = some node)
    (hhash : s.graph.hasCommit hash = true) (stats : ChangeStats) :
    Agree Shows ((recordAt i hash stats).run s)
      (if node.recordFits hash stats then
        .ok (s.graph.withNode name fun node => node.record hash stats)
      else .error .overflow) := by
  rw [run_recordAt hnode]
  split
  · have hname := FunctionNode.name_record hash stats
    exact .ok (h.changeAt hi hname fun _ hknown => hknown.alter hhash _) (h.graph_changeAt hi hname)
  · exact .error h

theorem agree_recordHistory (h : s.Sound) (name : String) (stats : ChangeStats) :
    Agree Shows ((recordHistory name stats).run s) (s.graph.recordHistory name stats) := by
  have hknown := h.wellFormed.current_known
  rw [CallGraph.recordHistory, h.node?_graph, recordHistory, EStateM.run_bind]
  dsimp only [EStateM.run_get]
  have hcurrent : s.graph.current = s.current := rfl
  rw [hcurrent] at hknown ⊢
  cases hash? : s.current with
  | none => exact .error h
  | some hash =>
    dsimp only
    rw [EStateM.run_bind]
    rcases lookup_cases name s with ⟨hname, hrun⟩ | ⟨i, hname, hrun⟩
    · rw [hrun, node?, hname]
      exact .error h
    · obtain ⟨node, hnode, -, hfound⟩ := h.exists_node hname
      rw [hrun, hfound]
      exact agree_recordAt h hname hnode (hknown hash hash?) stats

/-! ## Loading -/

/-- Entries of different commits are recorded one by one, if the counts of each fit. -/
theorem agree_records (h : s.Sound) {name : String} {i : Nat} {node : FunctionNode}
    (hi : s.index.get? name = some i) (hnode : s.nodes[i]? = some node)
    {es : List (String × ChangeStats)} (hes : es.Pairwise fun a b => a.1 < b.1)
    (hknown : ∀ e ∈ es, s.graph.hasCommit e.1 = true) :
    Agree Shows ((es.forM fun e => recordAt i e.1 e.2).run s)
      (if es.all fun e => node.recordFits e.1 e.2 then
        .ok (s.graph.withNode name fun node => es.foldl (fun node e => node.record e.1 e.2) node)
      else .error .overflow) := by
  induction es generalizing s node with
  | nil => exact .ok h (h.withNode_id hi).symm
  | cons e es ih =>
    rw [List.pairwise_cons] at hes
    rw [List.forall_mem_cons] at hknown
    have hname := FunctionNode.name_record e.1 e.2
    rw [List.forM, EStateM.run_bind, run_recordAt hnode, List.all_cons]
    cases hfits : node.recordFits e.1 e.2 with
    | false => exact .error h
    | true =>
      have hsound := h.changeAt hi hname fun _ hhistory => hhistory.alter hknown.1 _
      have hnode' : (s.changeAt i fun node => node.record e.1 e.2).nodes[i]? =
          some (node.record e.1 e.2) := by
        rw [changeAt, Array.getElem?_modify, if_pos rfl, hnode]
        rfl
      have hgraph := h.graph_changeAt hi hname
      have hrest := ih hsound hi hnode' hes.2 (by rw [hgraph]; exact hknown.2)
      -- The other entries are of later commits, whose counts are what they were.
      have hothers : (es.all fun x => (node.record e.1 e.2).recordFits x.1 x.2) =
          es.all fun x => node.recordFits x.1 x.2 := by
        rw [Bool.eq_iff_iff, List.all_eq_true, List.all_eq_true]
        refine forall₂_congr fun x hx => ?_
        have hne : x.1 ≠ e.1 := Ne.symm (NameMap.ne_of_lt (hes.1 x hx))
        rw [FunctionNode.recordFits, FunctionNode.recordFits, FunctionNode.record,
          NameMap.get?_alter, if_neg hne]
      rw [hgraph, CallGraph.withNode_withNode s.graph name hname, hothers] at hrest
      exact hrest

theorem agree_loadNode (h : s.Sound) (node : FunctionNode) :
    Agree Shows ((loadNode node).run s) (s.graph.loadNode node) := by
  rw [CallGraph.loadNode, unknownCommit?_graph, loadNode, EStateM.run_bind]
  dsimp only [EStateM.run_get]
  cases hunknown : s.unknownCommit? node.history.keys with
  | some hash => exact .error h
  | none =>
    rw [← unknownCommit?_graph, CallGraph.unknownCommit?_eq_none_iff] at hunknown
    obtain ⟨hsound, hgraph, hi⟩ := h.addNode node.name node.files.keys
    obtain ⟨known, hknown, -, hfound⟩ := hsound.exists_node hi
    have hname : ∀ old : FunctionNode, (old.addFiles node.files.keys).name = old.name :=
      fun _ => rfl
    rw [← hsound.node?_graph, hgraph, CallGraph.addNode,
      CallGraph.node?_withNode node.name node.name hname, if_pos rfl, Option.some.injEq] at hfound
    have hrecords := agree_records hsound hi hknown node.history.ascending fun e he => by
      rw [hgraph]
      exact hunknown e.1 (List.mem_map_of_mem he)
    rw [hgraph, CallGraph.addNode, CallGraph.withNode_withNode s.graph node.name hname,
      ← hfound] at hrecords
    exact hrecords

theorem agree_loadEdge (h : s.Sound) (e : CallEdge) :
    Agree Shows ((loadEdge e).run s) (Halt.ofChecked (s.graph.loadEdge e)) := by
  rw [CallGraph.loadEdge, unknownCommit?_graph, loadEdge, EStateM.run_bind]
  dsimp only [EStateM.run_get]
  cases hunknown : s.unknownCommit? e.addedBy.toList with
  | some hash => exact .error h
  | none =>
    rw [← unknownCommit?_graph, CallGraph.unknownCommit?_eq_none_iff] at hunknown
    exact agree_connect h e.caller e.callee fun hash hhash => hunknown hash (by simp [hhash])

/-- Commits are loaded like commits that are registered, and none of them is current. -/
theorem graph_loadCommits (commits : List CommitInfo) (s : GraphStore) :
    graph { commits.foldl addCommit s with current := none } =
      commits.foldl CallGraph.registerCommit (graph { s with current := none }) := by
  induction commits generalizing s with
  | nil => rfl
  | cons info commits ih => exact ih (s.addCommit info)

theorem ofChecked_foldlM {ι : Type} (f : CallGraph → ι → Except GraphError CallGraph) (l : List ι)
    (g : CallGraph) :
    Halt.ofChecked (l.foldlM f g) = l.foldlM (fun g i => Halt.ofChecked (f g i)) g := by
  induction l generalizing g with
  | nil => rfl
  | cons i l ih =>
    rw [List.foldlM_cons, List.foldlM_cons]
    cases f g i with
    | error e => rfl
    | ok g' => exact ih g'

theorem agree_loadAll (data : GraphData) :
    Agree Shows ((loadAll data).run empty) (CallGraph.ofData data) := by
  have hcommits : Sound { data.commits.foldl addCommit empty with current := none } :=
    (List.foldlRecOn data.commits _ Sound.empty fun _ hs info _ => hs.addCommit info).withoutCurrent
  have hgraph : graph { data.commits.foldl addCommit empty with current := none } =
      data.commits.foldl CallGraph.registerCommit CallGraph.empty :=
    graph_loadCommits data.commits empty
  rw [CallGraph.ofData, loadAll, EStateM.run_bind]
  dsimp only [EStateM.run_modify]
  rw [← hgraph]
  refine (Agree.forM (fun node s hs => agree_loadNode hs node) hcommits data.nodes).bind
    fun _ s g hs hshows => ?_
  rw [← hshows, ofChecked_foldlM]
  exact Agree.forM (fun e s hs => agree_loadEdge hs e) hs data.edges

/-- **A saved form is loaded into a store as into a graph**, or refused for the same reason. -/
theorem ofData_cases (data : GraphData) :
    (∃ s, ofData data = .ok s ∧ s.Sound ∧ CallGraph.ofData data = .ok s.graph) ∨
      ∃ halt, ofData data = .error halt ∧ CallGraph.ofData data = .error halt := by
  have h := agree_loadAll data
  rw [ofData, Step.outcome]
  generalize (loadAll data).run empty = r, CallGraph.ofData data = q at h
  cases h with
  | ok hsound hshows => exact .inl ⟨_, rfl, hsound, congrArg _ hshows.symm⟩
  | error => exact .inr ⟨_, rfl, rfl⟩

/-! ## Requests -/

theorem agree_perform (h : s.Sound) (request : GraphRequest) :
    Agree Shows ((perform request).run s) (s.graph.answer request) := by
  cases request with
  | addCommit info => exact .ok (h.addCommit info) rfl
  | addNode name files =>
    obtain ⟨hsound, hgraph, -⟩ := h.addNode name files
    exact .ok hsound hgraph
  | addEdge caller callee => exact agree_addEdge h caller callee
  | setFiles name files => exact agree_setFiles h name files
  | recordHistory name stats => exact agree_recordHistory h name stats
  | load data =>
    rw [perform, CallGraph.answer]
    rcases ofData_cases data with ⟨s', hstore, hsound, hdata⟩ | ⟨halt, hstore, hdata⟩
    · rw [hstore, hdata]
      exact .ok hsound rfl
    · rw [hstore, hdata]
      exact .error h

/-! ## Steps that fail -/

section

variable {ε α β : Type}

/-- The step only reads. -/
def Step.Reads (step : Step ε α) : Prop :=
  ∀ s, (∃ x, step.run s = .ok x s) ∨ ∃ halt, step.run s = .error halt s

/-- Where the step fails, the store is as it was before the step. -/
def Step.KeepsOnError (step : Step ε α) : Prop :=
  ∀ s halt s', step.run s = .error halt s' → s' = s

/-- A step that fails in its second part is as if it had not begun, if its first part only reads. -/
theorem Step.KeepsOnError.bind {x : Step ε α} {f : α → Step ε β} (hx : Step.Reads x)
    (hf : ∀ a, Step.KeepsOnError (f a)) : Step.KeepsOnError (x >>= f) := by
  intro s halt s' h
  rw [EStateM.run_bind] at h
  rcases hx s with ⟨a, hrun⟩ | ⟨halt', hrun⟩
  · rw [hrun] at h
    exact hf a s halt s' h
  · rw [hrun] at h
    cases h
    rfl

theorem reads_get : Step.Reads (get : Step ε GraphStore) := fun s => .inl ⟨s, rfl⟩

theorem reads_ofExcept (x : Except (Halt ε) α) :
    Step.Reads (MonadExcept.ofExcept x : Step ε α) := by
  intro s
  cases x with
  | ok a => exact .inl ⟨a, rfl⟩
  | error halt => exact .inr ⟨halt, rfl⟩

theorem reads_lookup (name : String) : Step.Reads (lookup name) := by
  intro s
  rcases lookup_cases name s with ⟨-, hrun⟩ | ⟨i, -, hrun⟩
  · exact .inr ⟨_, hrun⟩
  · exact .inl ⟨i, hrun⟩

theorem keepsOnError_throw (halt : Halt ε) : Step.KeepsOnError (throw halt : Step ε α) := by
  rintro s _ s' ⟨⟩
  rfl

theorem keepsOnError_modify (f : GraphStore → GraphStore) :
    Step.KeepsOnError (modify f : Step ε Unit) := by
  rintro s halt s' ⟨⟩

theorem keepsOnError_set (s : GraphStore) : Step.KeepsOnError (set s : Step ε PUnit) := by
  rintro _ halt s' ⟨⟩

end

theorem keepsOnError_connect (caller callee : String) (stamp : Option String) :
    Step.KeepsOnError (connect caller callee stamp) :=
  .bind (reads_lookup caller) fun _ => .bind (reads_lookup callee) fun _ => keepsOnError_modify _

theorem keepsOnError_recordAt (i : Nat) (hash : String) (stats : ChangeStats) :
    Step.KeepsOnError (recordAt i hash stats) := by
  refine .bind reads_get fun s => ?_
  split
  · exact keepsOnError_modify _
  · exact keepsOnError_throw _

theorem keepsOnError_recordHistory (name : String) (stats : ChangeStats) :
    Step.KeepsOnError (recordHistory name stats) := by
  refine .bind reads_get fun s => ?_
  cases s.current with
  | none => exact keepsOnError_throw _
  | some hash => exact .bind (reads_lookup name) fun i => keepsOnError_recordAt i hash stats

/-- **No request is answered in part**: all that may fail comes before the first change. -/
theorem keepsOnError_perform (request : GraphRequest) : Step.KeepsOnError (perform request) := by
  cases request with
  | addCommit info => exact keepsOnError_modify _
  | addNode name files => exact keepsOnError_modify _
  | addEdge caller callee => exact .bind reads_get fun _ => keepsOnError_connect _ _ _
  | setFiles name files => exact .bind (reads_lookup name) fun _ => keepsOnError_modify _
  | recordHistory name stats => exact keepsOnError_recordHistory name stats
  | load data => exact .bind (reads_ofExcept _) keepsOnError_set

/-! ## Runs -/

/-- A request does to a store what it does to the graph that the store shows. -/
theorem Sound.perform (h : s.Sound) (request : GraphRequest) :
    ((perform request).after s).Sound ∧
      ((perform request).after s).graph = (s.graph.perform request).1 := by
  have hagree := agree_perform h request
  have hkeeps := keepsOnError_perform request s
  rw [Step.after, CallGraph.perform]
  generalize (GraphStore.perform request).run s = r, s.graph.answer request = q at hagree hkeeps
  cases hagree with
  | ok hsound hshows => exact ⟨hsound, hshows⟩
  | error =>
    obtain rfl := hkeeps _ _ rfl
    exact ⟨h, rfl⟩

theorem Sound.run (h : s.Sound) (requests : List GraphRequest) :
    (s.run requests).Sound ∧ (s.run requests).graph = s.graph.run requests := by
  induction requests generalizing s with
  | nil => exact ⟨h, rfl⟩
  | cons request requests ih =>
    obtain ⟨hsound, hgraph⟩ := h.perform request
    have hrest := ih hsound
    rw [hgraph] at hrest
    exact hrest

theorem Reachable.sound (h : s.Reachable) : s.Sound := by
  obtain ⟨requests, rfl⟩ := h
  exact (Sound.empty.run requests).1

/-- The stores that requests lead to show the graphs that the requests lead to. -/
theorem graph_run (requests : List GraphRequest) :
    (empty.run requests).graph = CallGraph.empty.run requests :=
  (Sound.empty.run requests).2

/-- **Runs of requests lead to sound stores**, whichever requests are made in whichever order,
granted or not: the index leads to every function by its name and to nothing else, there is at most
one call for each pair of functions, and the graph that is shown is well formed; it is the one that
the requests lead to. A request that is refused leaves the store exactly as it was. -/
theorem sound_of_requests (requests : List GraphRequest) :
    let s := empty.run requests
    s.Sound ∧ s.graph = CallGraph.empty.run requests ∧ (s.calls.map PlacedCall.ends).Nodup ∧
      (∀ name node, s.node? name = some node ↔ node ∈ s.nodes.toList ∧ node.name = name) ∧
      ∀ request e s', (perform request).run s = .error (.refused e) s' → s' = s := by
  intro s
  have h : s.Sound := (Sound.empty.run requests).1
  exact ⟨h, graph_run requests, h.nodup_ends, fun _ _ => h.node?_eq_some_iff,
    fun request _ _ hrun => keepsOnError_perform request s _ _ hrun⟩

/-- History without a current commit, a call of an unknown function, a commit that is registered
again, and a saved form that names an unknown commit. -/
theorem sound_of_refused_requests :
    let stats : ChangeStats := ⟨1, 0, none, none⟩
    let info : CommitInfo := ⟨"c", "", "", "", none⟩
    let unlinked : GraphData := ⟨[], [], [⟨"f", "g", some "c"⟩]⟩
    let s := empty.run [.addNode "f" ["a"], .recordHistory "f" stats, .addEdge "f" "g",
      .addCommit info, .addNode "g" [], .addEdge "f" "g", .recordHistory "f" stats,
      .addCommit { info with message := "again" }, .load unlinked, .addNode "f" ["b"]]
    s.Sound ∧ s.index.keys = ["f", "g"] ∧ s.nodes.size = 2 ∧ s.calls = [⟨0, 1, some "c"⟩] ∧
      s.commits.length = 1 ∧
      ∃ e s', (perform (.load unlinked)).run s = .error (.refused e) s' ∧ s' = s := by
  intro stats info unlinked s
  obtain ⟨hsound, -, -, -, hrefused⟩ := sound_of_requests [.addNode "f" ["a"],
    .recordHistory "f" stats, .addEdge "f" "g", .addCommit info, .addNode "g" [], .addEdge "f" "g",
    .recordHistory "f" stats, .addCommit { info with message := "again" }, .load unlinked,
    .addNode "f" ["b"]]
  have hload : (perform (.load unlinked)).run s = .error (.refused (.unknownCommit "c")) s := rfl
  exact ⟨hsound, by decide, by decide, by decide, by decide, _, s, hload, hrefused _ _ _ hload⟩

end GraphStore

end EffortRank
