import EffortRank.Proofs.Graph.Reloading

/-!
# Commits that count for nothing

`CallGraph.without` takes the entries of the blacklisted commits out of a graph; the commits stay
registered. Every measure that is given a blacklist filters the histories in its own place. All of
them measure a graph as they measure, with an empty blacklist, the graph without those entries
(`CallGraph.measures_without`).

The measure of a whole graph is different. It is chosen by the first entry of the graph, and no
blacklist is asked (`HistoryMode.firstEntry?`). So two graphs that differ in blacklisted entries
only (`CallGraph.SameOutside`) have the same complexity in either measure, and in the one that is
chosen as long as the same is chosen for both (`CallGraph.complexity_of_sameOutside`).
-/

namespace EffortRank

/-- Nothing is filtered out by a test that all entries pass. -/
theorem NameMap.filter_eq_self {α : Type} {p : String → α → Bool} {m : NameMap α}
    (h : ∀ name v, p name v = true) : m.filter p = m := by
  refine NameMap.ext_get? fun name => ?_
  rw [NameMap.get?_filter]
  cases m.get? name with
  | none => rfl
  | some v => simp [Option.filter, h]

namespace FunctionNode

/-- The function without what blacklisted commits did to it. -/
def without (node : FunctionNode) (blacklist : Blacklist) : FunctionNode :=
  { node with history := node.history.filter fun hash _ => !blacklist.contains hash }

variable (node : FunctionNode) (blacklist : Blacklist)

@[simp] theorem name_without : (node.without blacklist).name = node.name := rfl

theorem get?_without (hash : String) :
    (node.without blacklist).history.get? hash =
      if blacklist.contains hash then none else node.history.get? hash := by
  rw [without, NameMap.get?_filter]
  cases blacklist.contains hash <;> cases node.history.get? hash <;> simp [Option.filter]

/-- Without a blacklist, all entries count. -/
theorem history_filter_nil :
    (node.history.filter fun hash _ => !([] : Blacklist).contains hash) = node.history :=
  NameMap.filter_eq_self fun _ _ => by simp

@[simp] theorem efforts_without : (node.without blacklist).efforts [] = node.efforts blacklist := by
  rw [efforts, history_filter_nil]
  rfl

@[simp] theorem effort_without : (node.without blacklist).effort [] = node.effort blacklist := by
  rw [effort, efforts_without, effort]

@[simp] theorem efforts?_without :
    (node.without blacklist).efforts? [] = node.efforts? blacklist := by
  rw [efforts?, efforts_without, efforts?]

@[simp] theorem effort?_without :
    (node.without blacklist).effort? [] = node.effort? blacklist := by
  rw [effort?, effort_without, effort?]

end FunctionNode

namespace CallGraph

/-- The graph without what blacklisted commits did. The commits stay registered. -/
def without (g : CallGraph) (blacklist : Blacklist) : CallGraph :=
  { g with nodes := g.nodes.map fun node => node.without blacklist }

variable {α : Type} [Scalar α] {g g' : CallGraph} {blacklist : Blacklist}

/-! ## The graph without some entries -/

theorem names_without (g : CallGraph) (blacklist : Blacklist) :
    (g.without blacklist).nodes.map FunctionNode.name = g.nodes.map FunctionNode.name := by
  rw [without, List.map_map]
  rfl

theorem node?_without (g : CallGraph) (blacklist : Blacklist) (name : String) :
    (g.without blacklist).node? name = (g.node? name).map fun node => node.without blacklist := by
  rw [node?, node?, without, List.find?_map]
  rfl

theorem statsAt?_without (g : CallGraph) (blacklist : Blacklist) (name hash : String) :
    (g.without blacklist).statsAt? name hash =
      if blacklist.contains hash then none else g.statsAt? name hash := by
  rw [statsAt?, statsAt?, node?_without]
  cases g.node? name with
  | none => simp
  | some node => exact node.get?_without blacklist hash

/-- It is as well formed as the graph was, for no entry is new. -/
theorem WellFormed.without (h : g.WellFormed) (blacklist : Blacklist) :
    (g.without blacklist).WellFormed where
  names := by
    rw [names_without]
    exact h.names
  calls := h.calls
  hashes := h.hashes
  ends_known e he := by
    rw [contains_iff, contains_iff, names_without, ← contains_iff, ← contains_iff]
    exact h.ends_known e he
  current_known := h.current_known
  history_known node hnode hash hhash := by
    obtain ⟨old, hold, rfl⟩ := List.mem_map.1 hnode
    rw [NameMap.mem_keys_iff, FunctionNode.get?_without] at hhash
    refine h.history_known old hold hash (NameMap.mem_keys_iff.2 ?_)
    split at hhash
    · cases hhash
    · exact hhash
  stamp_known := h.stamp_known

/-! ## Measures -/

theorem nodeEfforts_without (g : CallGraph) (blacklist : Blacklist) (name : String) :
    (g.without blacklist).nodeEfforts name [] = g.nodeEfforts name blacklist := by
  rw [nodeEfforts, nodeEfforts, node?_without]
  cases g.node? name with
  | none => rfl
  | some node => simp

theorem nodeEffort_without (g : CallGraph) (blacklist : Blacklist) (name : String) :
    (g.without blacklist).nodeEffort name [] = g.nodeEffort name blacklist := by
  rw [nodeEffort, nodeEffort, node?_without]
  cases g.node? name with
  | none => rfl
  | some node => simp

theorem commitEfforts_without (g : CallGraph) (blacklist : Blacklist) :
    (g.without blacklist).commitEfforts [] = g.commitEfforts blacklist := by
  simp [commitEfforts, without, List.flatMap_map]

theorem churn_without (g : CallGraph) (blacklist : Blacklist) (mode : HistoryMode) :
    (g.without blacklist).churn mode [] = g.churn mode blacklist := by
  rw [churn, without, List.flatMap_map]
  simp only [FunctionNode.history_filter_nil]
  rfl

theorem complexity?_without (g : CallGraph) (blacklist : Blacklist) (perNode perEdge : α)
    (mode : HistoryMode) :
    (g.without blacklist).complexity? perNode perEdge [] mode =
      g.complexity? perNode perEdge blacklist mode := by
  have hnodes : (g.without blacklist).nodes.length = g.nodes.length := List.length_map _
  rw [complexity?, complexity?, complexity, complexity, churnFits, churnFits, churn_without, hnodes]
  rfl

theorem digraph_without (g : CallGraph) (blacklist : Blacklist) :
    (g.without blacklist).digraph = g.digraph := by
  have hnodes : (g.without blacklist).nodes.length = g.nodes.length := List.length_map _
  rw [digraph, digraph, names_without, hnodes]
  rfl

theorem functionRanks_without (g : CallGraph) (blacklist : Blacklist) (config : RankConfig α) :
    (g.without blacklist).functionRanks config [] = g.functionRanks config blacklist := by
  have hweights : ((g.without blacklist).weights [] : Array α) = g.weights blacklist := by
    simp [weights, without]
  rw [functionRanks, functionRanks, named, named, names_without, digraph_without, hweights]

theorem shares_without (node : FunctionNode) (rank : α) (blacklist : Blacklist) :
    shares (node.without blacklist) rank [] = shares node rank blacklist := by
  rw [shares, shares, FunctionNode.efforts_without, FunctionNode.effort_without]

theorem commitShares_without (g : CallGraph) (blacklist : Blacklist) (functions : NameMap α) :
    (g.without blacklist).commitShares functions [] = g.commitShares functions blacklist := by
  rw [commitShares, commitShares, without, List.flatMap_map]
  simp only [shares_without, FunctionNode.name_without]

theorem effortsFit_without (g : CallGraph) (blacklist : Blacklist) :
    (g.without blacklist).effortsFit [] = g.effortsFit blacklist := by
  simp [effortsFit, without, Function.comp_def]

theorem effortRanks?_without (g : CallGraph) (blacklist : Blacklist) (config : RankConfig α) :
    (g.without blacklist).effortRanks? config [] = g.effortRanks? config blacklist := by
  rw [effortRanks?, effortRanks?, effortRanks, effortRanks, effortsFit_without,
    functionRanks_without, commitShares_without]
  rfl

/-- **A blacklist takes entries away, and does nothing else**: every measure is, with a blacklist,
what it is without one on the graph that lacks the entries of the blacklisted commits, whatever
scalars it is computed with. -/
theorem measures_without (g : CallGraph) (blacklist : Blacklist) :
    ((g.without blacklist).commits = g.commits ∧ (g.without blacklist).edges = g.edges ∧
        (g.without blacklist).nodes.map (fun node => (node.name, node.files)) =
          g.nodes.map (fun node => (node.name, node.files)) ∧
        ∀ name hash, (g.without blacklist).statsAt? name hash =
          if blacklist.contains hash then none else g.statsAt? name hash) ∧
      (∀ name, g.nodeEfforts name blacklist = (g.without blacklist).nodeEfforts name []) ∧
      (∀ name, g.nodeEffort name blacklist = (g.without blacklist).nodeEffort name []) ∧
      g.commitEfforts? blacklist = (g.without blacklist).commitEfforts? [] ∧
      (∀ (α : Type) [Scalar α] (perNode perEdge : α) (mode : HistoryMode),
        g.complexity? perNode perEdge blacklist mode =
          (g.without blacklist).complexity? perNode perEdge [] mode) ∧
      ∀ (α : Type) [Scalar α] (config : RankConfig α),
        g.effortRanks? config blacklist = (g.without blacklist).effortRanks? config [] := by
  have hnodes : (g.without blacklist).nodes.map (fun node => (node.name, node.files)) =
      g.nodes.map (fun node => (node.name, node.files)) := by
    simp [without, FunctionNode.without]
  refine ⟨⟨rfl, rfl, hnodes, statsAt?_without g blacklist⟩, ?_, ?_, ?_, ?_, ?_⟩
  · intro name
    rw [nodeEfforts_without]
  · intro name
    rw [nodeEffort_without]
  · rw [commitEfforts?, commitEfforts?, commitEfforts_without]
  · intro α _ perNode perEdge mode
    rw [complexity?_without]
  · intro α _ config
    rw [effortRanks?_without]

/-- The graph without those entries is a graph like any other: it can be saved and loaded. -/
theorem Reachable.ofData_without (h : g.Reachable) (blacklist : Blacklist) :
    ofData (g.without blacklist).toData = .ok { g.without blacklist with current := none } :=
  ofData_toData (h.wellFormed.without blacklist)

end CallGraph

/-! ## The measure of a whole graph -/

/-- The first entry of the first function with a history. -/
def HistoryMode.firstEntry? (g : CallGraph) : Option (String × ChangeStats) :=
  (g.nodes.flatMap fun node => node.history.entries).head?

/-- The first entry chooses the measure, whether or not its commit counts. -/
theorem HistoryMode.resolve_eq (g : CallGraph) :
    resolve g = match firstEntry? g with
      | some e => if e.2.hasUnits then .logicalUnits else .lines
      | none => .logicalUnits := by
  have hvalues : (g.nodes.flatMap fun node => node.history.values) =
      (g.nodes.flatMap fun node => node.history.entries).map (·.2) := by
    rw [List.map_flatMap]
    rfl
  rw [resolve, hvalues, List.head?_map, firstEntry?]
  cases (g.nodes.flatMap fun node => node.history.entries).head? <;> rfl

namespace CallGraph

variable {g g' : CallGraph} {blacklist : Blacklist}

/-- A first entry that counts is still the first without those that do not. -/
theorem firstEntry?_without
    (h : ∀ e ∈ HistoryMode.firstEntry? g, blacklist.contains e.1 = false) :
    HistoryMode.firstEntry? (g.without blacklist) = HistoryMode.firstEntry? g := by
  have hentries : ((g.without blacklist).nodes.flatMap fun node => node.history.entries) =
      (g.nodes.flatMap fun node => node.history.entries).filter
        fun e => !blacklist.contains e.1 := by
    rw [without, List.flatMap_map, List.filter_flatMap]
    rfl
  rw [HistoryMode.firstEntry?] at h
  rw [HistoryMode.firstEntry?, HistoryMode.firstEntry?, hentries]
  cases hall : g.nodes.flatMap fun node => node.history.entries with
  | nil => rfl
  | cons e es =>
    rw [hall] at h
    have he : blacklist.contains e.1 = false := h e rfl
    rw [List.filter_cons, he]
    rfl

end CallGraph

/-! ## Graphs that differ in what does not count -/

/-- The functions have the same name and files, and the same entries of all commits that count. -/
structure FunctionNode.SameOutside (blacklist : Blacklist) (node node' : FunctionNode) : Prop where
  name : node'.name = node.name
  files : node'.files = node.files
  entries : ∀ hash, blacklist.contains hash = false →
    node'.history.get? hash = node.history.get? hash

theorem FunctionNode.sameOutside_iff {blacklist : Blacklist} {node node' : FunctionNode} :
    node.SameOutside blacklist node' ↔ node'.without blacklist = node.without blacklist := by
  constructor
  · intro h
    have hhistory : (node'.without blacklist).history = (node.without blacklist).history := by
      refine NameMap.ext_get? fun hash => ?_
      rw [get?_without, get?_without]
      cases hhash : blacklist.contains hash with
      | true => rfl
      | false => exact h.entries hash hhash
    have hfields : ∀ n : FunctionNode, n.without blacklist =
        ⟨n.name, n.files, (n.without blacklist).history⟩ := fun _ => rfl
    rw [hfields node', hfields node, hhistory, h.name, h.files]
  · intro h
    have hname : (node'.without blacklist).name = (node.without blacklist).name := by rw [h]
    have hfiles : (node'.without blacklist).files = (node.without blacklist).files := by rw [h]
    refine ⟨hname, hfiles, fun hash hhash => ?_⟩
    have hget : (node'.without blacklist).history.get? hash =
        (node.without blacklist).history.get? hash := by rw [h]
    rw [get?_without, get?_without, hhash] at hget
    exact hget

namespace CallGraph

/-- The graphs have the same commits, functions, files and calls, and the same entries of all
commits that count. -/
structure SameOutside (blacklist : Blacklist) (g g' : CallGraph) : Prop where
  commits : g'.commits = g.commits
  edges : g'.edges = g.edges
  nodes : List.Forall₂ (FunctionNode.SameOutside blacklist) g.nodes g'.nodes

variable {g g' : CallGraph} {blacklist : Blacklist}

/-- Without the entries that do not count, such graphs are saved in the same form. -/
theorem sameOutside_iff :
    SameOutside blacklist g g' ↔
      (g'.without blacklist).toData = (g.without blacklist).toData := by
  have hnodes : List.Forall₂ (FunctionNode.SameOutside blacklist) g.nodes g'.nodes ↔
      (g'.without blacklist).nodes = (g.without blacklist).nodes := by
    rw [without, without, eq_comm, ← List.forall₂_eq_eq_eq, List.forall₂_map_left_iff,
      List.forall₂_map_right_iff]
    exact ⟨fun h => h.imp fun _ _ hnode => (FunctionNode.sameOutside_iff.1 hnode).symm,
      fun h => h.imp fun _ _ hnode => FunctionNode.sameOutside_iff.2 hnode.symm⟩
  have hdata (g : CallGraph) :
      (g.without blacklist).toData = ⟨g.commits, (g.without blacklist).nodes, g.edges⟩ := rfl
  constructor
  · intro h
    rw [hdata g', hdata g, h.commits, hnodes.1 h.nodes, h.edges]
  · intro h
    exact ⟨congrArg GraphData.commits h, congrArg GraphData.edges h,
      hnodes.2 (congrArg GraphData.nodes h)⟩

theorem SameOutside.churn_eq (h : SameOutside blacklist g g') (mode : HistoryMode) :
    g'.churn mode blacklist = g.churn mode blacklist := by
  have hnodes : (g'.without blacklist).nodes = (g.without blacklist).nodes :=
    congrArg GraphData.nodes (sameOutside_iff.1 h)
  rw [← churn_without, churn, hnodes, ← churn, churn_without]

theorem SameOutside.effortsFit_eq (h : SameOutside blacklist g g') :
    g'.effortsFit blacklist = g.effortsFit blacklist := by
  have hnodes : (g'.without blacklist).nodes = (g.without blacklist).nodes :=
    congrArg GraphData.nodes (sameOutside_iff.1 h)
  rw [← effortsFit_without, effortsFit, hnodes, ← effortsFit, effortsFit_without]

theorem SameOutside.complexity_eq {α : Type} [Scalar α] (h : SameOutside blacklist g g')
    (perNode perEdge : α) (mode : HistoryMode) :
    g'.complexity perNode perEdge blacklist mode = g.complexity perNode perEdge blacklist mode := by
  rw [complexity, complexity, h.churn_eq, h.edges, h.nodes.length_eq]

/-- A report tells the measure that was chosen, and the complexity in that measure. -/
theorem map_report? (g : CallGraph) (config : Config) :
    (g.report? config).map (fun r => (r.historyMode, r.complexity)) =
      fitting (g.churnFits (HistoryMode.resolve g) config.blacklist &&
          g.effortsFit config.blacklist)
        (HistoryMode.resolve g, g.complexity config.complexity.perNode config.complexity.perEdge
          config.blacklist (HistoryMode.resolve g)) := by
  rw [report?]
  cases g.churnFits (HistoryMode.resolve g) config.blacklist && g.effortsFit config.blacklist with
  | true => rfl
  | false => rfl

/-- **Blacklisted commits can change the complexity only through the measure**: it is the same on
two graphs that differ in what does not count, in either measure, and in the one that is chosen for
a graph if the same is chosen for both. That is so if no first entry is blacklisted. -/
theorem complexity_of_sameOutside (h : SameOutside blacklist g g') :
    (∀ (α : Type) [Scalar α] (perNode perEdge : α) (mode : HistoryMode),
        g'.complexity? perNode perEdge blacklist mode =
          g.complexity? perNode perEdge blacklist mode) ∧
      (HistoryMode.resolve g' = HistoryMode.resolve g →
        (∀ (α : Type) [Scalar α] (perNode perEdge : α),
          g'.complexity? perNode perEdge blacklist (HistoryMode.resolve g') =
            g.complexity? perNode perEdge blacklist (HistoryMode.resolve g)) ∧
        ∀ config : Config, config.blacklist = blacklist →
          (g'.report? config).map (fun r => (r.historyMode, r.complexity)) =
            (g.report? config).map fun r => (r.historyMode, r.complexity)) ∧
      ((∀ e ∈ HistoryMode.firstEntry? g, blacklist.contains e.1 = false) →
        (∀ e ∈ HistoryMode.firstEntry? g', blacklist.contains e.1 = false) →
        HistoryMode.resolve g' = HistoryMode.resolve g) := by
  have hcomplexity : ∀ (α : Type) [Scalar α] (perNode perEdge : α) (mode : HistoryMode),
      g'.complexity? perNode perEdge blacklist mode =
        g.complexity? perNode perEdge blacklist mode := by
    intro α _ perNode perEdge mode
    rw [complexity?, complexity?, churnFits, churnFits, h.churn_eq, h.complexity_eq]
  refine ⟨hcomplexity, fun hmode => ⟨fun α _ perNode perEdge => ?_, fun config hconfig => ?_⟩, ?_⟩
  · rw [hmode, hcomplexity]
  · subst hconfig
    rw [map_report?, map_report?, hmode, churnFits, churnFits, h.churn_eq, h.effortsFit_eq,
      h.complexity_eq]
  · intro hfirst hfirst'
    have hresolve : ∀ g₁ : CallGraph,
        (∀ e ∈ HistoryMode.firstEntry? g₁, blacklist.contains e.1 = false) →
        HistoryMode.resolve g₁ = HistoryMode.resolve (g₁.without blacklist) := by
      intro g₁ h₁
      rw [HistoryMode.resolve_eq, HistoryMode.resolve_eq, firstEntry?_without h₁]
    have hmode : HistoryMode.resolve (g'.without blacklist) =
        HistoryMode.resolve (g.without blacklist) :=
      (sameMeasures_of_toData (sameOutside_iff.1 h)).mode
    rw [hresolve g' hfirst', hresolve g hfirst, hmode]

/-- The entry that is missing from the second graph comes behind one that counts. -/
theorem complexity_of_sameOutside_of_later_entry :
    let info : CommitInfo := ⟨"a", "", "", "", none⟩
    let excluded : CommitInfo := { info with hash := "b" }
    let g := empty.run [.addCommit info, .addNode "f" ["x"],
      .recordHistory "f" ⟨1, 2, some 10, some 5⟩, .addCommit excluded,
      .recordHistory "f" ⟨1, 1, none, none⟩]
    let g' := empty.run [.addCommit info, .addNode "f" ["x"],
      .recordHistory "f" ⟨1, 2, some 10, some 5⟩, .addCommit excluded]
    SameOutside ["b"] g g' ∧ g'.nodes ≠ g.nodes ∧
      HistoryMode.resolve g' = HistoryMode.resolve g ∧
      g.complexity? (0 : Rat) 0 ["b"] (HistoryMode.resolve g) = some 15 ∧
      g'.complexity? (0 : Rat) 0 ["b"] (HistoryMode.resolve g') = some 15 := by
  intro info excluded g g'
  have h : SameOutside ["b"] g g' := sameOutside_iff.2 (by decide)
  obtain ⟨-, hchosen, hfirst⟩ := complexity_of_sameOutside h
  have hmode : HistoryMode.resolve g' = HistoryMode.resolve g :=
    hfirst (by decide) (by decide)
  have hcomplexity : g.complexity? (0 : Rat) 0 ["b"] (HistoryMode.resolve g) = some 15 := by
    decide +kernel
  exact ⟨h, by decide, hmode, hcomplexity, ((hchosen hmode).1 Rat 0 0).trans hcomplexity⟩

/-- A blacklisted commit that comes first, and has no logical units, makes lines the measure. -/
theorem complexity_of_blacklisted_first_entry :
    let info : CommitInfo := ⟨"c", "", "", "", none⟩
    let excluded : CommitInfo := { info with hash := "b" }
    let g := empty.run [.addCommit excluded, .addNode "f" ["x"],
      .recordHistory "f" ⟨1, 1, none, none⟩, .addCommit info,
      .recordHistory "f" ⟨1, 2, some 10, some 5⟩]
    let g' := empty.run [.addCommit excluded, .addNode "f" ["x"], .addCommit info,
      .recordHistory "f" ⟨1, 2, some 10, some 5⟩]
    let config : Config := { Config.default with blacklist := ["b"] }
    g.Reachable ∧ g'.Reachable ∧ SameOutside ["b"] g g' ∧
      g.complexity? (0 : Rat) 0 ["b"] (HistoryMode.resolve g) = some 3 ∧
      g'.complexity? (0 : Rat) 0 ["b"] (HistoryMode.resolve g') = some 15 ∧
      (g.report? config).map (fun r => r.historyMode) = some .lines ∧
      (g'.report? config).map (fun r => r.historyMode) = some .logicalUnits := by
  intro info excluded g g' config
  have h : SameOutside ["b"] g g' := sameOutside_iff.2 (by decide)
  exact ⟨⟨_, rfl⟩, ⟨_, rfl⟩, h, by decide +kernel, by decide +kernel,
    by decide +kernel, by decide +kernel⟩

end CallGraph

end EffortRank
