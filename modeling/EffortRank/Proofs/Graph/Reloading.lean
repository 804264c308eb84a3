import EffortRank.Proofs.Rank.Digraph
import EffortRank.Report

/-!
# Saving a graph and loading it again

Loading puts the listed commits, functions and calls into a graph one by one. As long as each of
them is new, it comes behind all others (`CallGraph.foldl_registerCommit`,
`CallGraph.foldlM_loadNode`, `CallGraph.foldlM_loadEdge`). In a well formed graph no two are alike,
so that its saved form is loaded as it stands (`CallGraph.ofData_toData`), and all that is
measured on the graph stays the same (`CallGraph.ofData_toData_of_reachable`).
-/

namespace EffortRank

namespace CallGraph

variable {g g' : CallGraph}

/-! ## New entries -/

theorem not_mem_of_nodup_append_cons {α κ : Type} {key : α → κ} {x : α} {xs ys : List α}
    (h : ((xs ++ x :: ys).map key).Nodup) : key x ∉ xs.map key := by
  rw [List.map_append, List.map_cons, List.nodup_middle, List.nodup_cons] at h
  intro hmem
  exact h.1 (List.mem_append_left _ hmem)

theorem foldl_registerCommit {infos : List CommitInfo}
    (h : ((g.commits ++ infos).map CommitInfo.hash).Nodup) :
    infos.foldl registerCommit g = { g with commits := g.commits ++ infos } := by
  induction infos generalizing g with
  | nil => rw [List.append_nil, List.foldl_nil]
  | cons info infos ih =>
    have hnew : info.hash ∉ g.commits.map CommitInfo.hash := not_mem_of_nodup_append_cons h
    have hfirst : g.registerCommit info = { g with commits := g.commits ++ [info] } := by
      rw [registerCommit, updateOrAppend_of_not_mem hnew]
    rw [List.append_cons] at h ⊢
    rw [List.foldl_cons, hfirst]
    exact ih h

/-- A new function is taken with its files and its history. -/
theorem loadNode_of_not_mem {node : FunctionNode} (hknown : g.Knows node.history)
    (hnew : node.name ∉ g.nodes.map FunctionNode.name) :
    g.loadNode node = .ok { g with nodes := g.nodes ++ [node] } := by
  have habsent : g.node? node.name = none := by
    rw [← Option.not_isSome_iff_eq_none]
    exact fun hsome => hnew (contains_iff.1 hsome)
  have hfits : (node.history.entries.all fun e =>
      (FunctionNode.new node.name).recordFits e.1 e.2) = true :=
    List.all_eq_true.2 fun _ _ => rfl
  have hloaded : node.history.entries.foldl (fun old e => old.record e.1 e.2)
      ((FunctionNode.new node.name).addFiles node.files.keys) = node := by
    rw [FunctionNode.foldl_record]
    dsimp only [FunctionNode.addFiles, FunctionNode.new]
    rw [NameSet.addNames_keys, NameMap.empty_mergeWith, NameMap.empty_mergeWith]
  rw [loadNode, unknownCommit?_eq_none_iff.2 hknown, habsent]
  dsimp only [Option.getD_none]
  rw [if_pos hfits, withNode, updateOrAppend_of_not_mem hnew, hloaded]

theorem foldlM_loadNode {nodes : List FunctionNode} (hknown : ∀ node ∈ nodes, g.Knows node.history)
    (h : ((g.nodes ++ nodes).map FunctionNode.name).Nodup) :
    nodes.foldlM loadNode g = .ok { g with nodes := g.nodes ++ nodes } := by
  induction nodes generalizing g with
  | nil =>
    rw [List.append_nil]
    rfl
  | cons node nodes ih =>
    rw [List.forall_mem_cons] at hknown
    have hnew : node.name ∉ g.nodes.map FunctionNode.name := not_mem_of_nodup_append_cons h
    rw [List.append_cons] at h ⊢
    rw [List.foldlM_cons, loadNode_of_not_mem hknown.1 hnew]
    exact ih (g := { g with nodes := g.nodes ++ [node] }) hknown.2 h

theorem loadEdge_of_not_mem {e : CallEdge} (hcaller : g.contains e.caller = true)
    (hcallee : g.contains e.callee = true)
    (hstamp : ∀ hash, e.addedBy = some hash → g.hasCommit hash = true)
    (hnew : e.ends ∉ g.edges.map CallEdge.ends) :
    g.loadEdge e = .ok { g with edges := g.edges ++ [e] } := by
  have hknown : g.unknownCommit? e.addedBy.toList = none := by
    rw [unknownCommit?_eq_none_iff]
    intro hash hhash
    exact hstamp hash (by simpa using hhash)
  have hlink : g.link e = { g with edges := (g.link e).edges } := rfl
  rw [loadEdge, hknown, hcaller, hcallee, hlink, edges_link, updateOrAppend_of_not_mem hnew]
  rfl

theorem foldlM_loadEdge {edges : List CallEdge}
    (hends : ∀ e ∈ edges, g.contains e.caller = true ∧ g.contains e.callee = true)
    (hstamp : ∀ e ∈ edges, ∀ hash, e.addedBy = some hash → g.hasCommit hash = true)
    (h : ((g.edges ++ edges).map CallEdge.ends).Nodup) :
    edges.foldlM loadEdge g = .ok { g with edges := g.edges ++ edges } := by
  induction edges generalizing g with
  | nil =>
    rw [List.append_nil]
    rfl
  | cons e edges ih =>
    rw [List.forall_mem_cons] at hends hstamp
    have hnew : e.ends ∉ g.edges.map CallEdge.ends := not_mem_of_nodup_append_cons h
    rw [List.append_cons] at h ⊢
    rw [List.foldlM_cons, loadEdge_of_not_mem hends.1.1 hends.1.2 hstamp.1 hnew]
    exact ih (g := { g with edges := g.edges ++ [e] }) hends.2 hstamp.2 h

/-- **A well formed graph is loaded as it was saved**, but for the current commit. -/
theorem ofData_toData (h : g.WellFormed) :
    ofData g.toData = .ok { g with current := none } := by
  have hcommits : g.commits.foldl registerCommit empty = ⟨g.commits, [], [], none⟩ :=
    foldl_registerCommit (g := empty) h.hashes
  have hnodes : g.nodes.foldlM loadNode ⟨g.commits, [], [], none⟩ =
      .ok ⟨g.commits, g.nodes, [], none⟩ :=
    foldlM_loadNode (g := ⟨g.commits, [], [], none⟩) h.history_known h.names
  have hedges : g.edges.foldlM loadEdge ⟨g.commits, g.nodes, [], none⟩ =
      .ok ⟨g.commits, g.nodes, g.edges, none⟩ :=
    foldlM_loadEdge (g := ⟨g.commits, g.nodes, [], none⟩) h.ends_known h.stamp_known h.calls
  unfold ofData toData
  dsimp only
  rw [hcommits, hnodes]
  exact congrArg Halt.ofChecked hedges

/-! ## Measures -/

/-- All measures of the graphs are the same, whatever scalars they are computed with. -/
structure SameMeasures (g g' : CallGraph) : Prop where
  mode : HistoryMode.resolve g' = HistoryMode.resolve g
  nodeEfforts (name : String) (blacklist : Blacklist) :
    g'.nodeEfforts name blacklist = g.nodeEfforts name blacklist
  nodeEffort (name : String) (blacklist : Blacklist) :
    g'.nodeEffort name blacklist = g.nodeEffort name blacklist
  commitEfforts (blacklist : Blacklist) : g'.commitEfforts? blacklist = g.commitEfforts? blacklist
  complexity {α : Type} [Scalar α] (perNode perEdge : α) (blacklist : Blacklist)
    (mode : HistoryMode) :
    g'.complexity? perNode perEdge blacklist mode = g.complexity? perNode perEdge blacklist mode
  centrality {α : Type} [Scalar α] (config : RankConfig α) :
    g'.centrality config = g.centrality config
  effortRanks {α : Type} [Scalar α] (config : RankConfig α) (blacklist : Blacklist) :
    g'.effortRanks? config blacklist = g.effortRanks? config blacklist
  report (config : Config) : g'.report? config = g.report? config

/-- No measure depends on the current commit. -/
theorem sameMeasures_of_toData (h : g'.toData = g.toData) : SameMeasures g g' := by
  obtain ⟨commits, nodes, edges, current⟩ := g
  obtain ⟨commits', nodes', edges', current'⟩ := g'
  cases h
  constructor <;> intros <;> rfl

/-- **A graph survives its saved form**: it is loaded with the same commits, functions and calls and
without a current commit. Each function calls the same functions in the same order, the latest new
call first, and every measure is what it was. -/
theorem ofData_toData_of_reachable (h : g.Reachable) :
    ∃ g', ofData g.toData = .ok g' ∧ g'.toData = g.toData ∧ g'.current = none ∧
      g'.digraph.targets = g.digraph.targets ∧
      (∀ (i : Nat) (node : FunctionNode), g.nodes[i]? = some node →
        g'.digraph.targets[i]? =
          some ((g.callees node.name).map (indexOf (g.nodes.map FunctionNode.name)))) ∧
      (∀ caller callee g₁, g.addEdge caller callee = .ok g₁ → ∀ name, g₁.callees name =
        if name = caller ∧ callee ∉ g.callees caller then callee :: g.callees name
        else g.callees name) ∧
      SameMeasures g g' :=
  ⟨{ g with current := none }, ofData_toData h.wellFormed, rfl, rfl, rfl,
    fun _ _ hnode => h.wellFormed.getElem?_targets hnode, fun _ _ _ => callees_addEdge,
    sameMeasures_of_toData rfl⟩

/-- A function calls two others and the first of them again, under another commit. -/
theorem ofData_toData_of_reachable_restamped :
    let info : CommitInfo := ⟨"c", "", "", "", none⟩
    let g := empty.run [.addCommit info, .addNode "f" ["a"], .addNode "g" [], .addNode "h" [],
      .addEdge "f" "g", .addEdge "f" "h", .recordHistory "f" ⟨1, 0, none, none⟩,
      .addCommit { info with hash := "d" }, .addEdge "f" "g"]
    g.current = some "d" ∧ g.edges = [⟨"f", "g", some "d"⟩, ⟨"f", "h", some "c"⟩] ∧
      ∃ g', ofData g.toData = .ok g' ∧ g'.toData = g.toData ∧ g'.current = none ∧
        g'.digraph.targets[0]? = some [2, 1] ∧ SameMeasures g g' := by
  intro info g
  have hg : g.Reachable := ⟨_, rfl⟩
  obtain ⟨g', hloaded, hdata, hcurrent, -, htargets, -, hmeasures⟩ := ofData_toData_of_reachable hg
  have hcallees := htargets 0 _ rfl
  refine ⟨by decide, by decide, g', hloaded, hdata, hcurrent, ?_, hmeasures⟩
  rw [hcallees]
  decide

end CallGraph

end EffortRank
