import EffortRank.Proofs.Rank.Renumbering
import EffortRank.Proofs.Rank.Shares

/-!
# The order of functions and calls

The numbers of the functions and the order of the calls come from the order in which a graph saw
them. A graph with the same functions, calls and histories in any other order
(`CallGraph.Rearranged`) has its calls as a digraph under other numbers
(`CallGraph.Rearranged.exists_renumbered`), so that each function has the same rank in both. What a
commit earns of a function depends on its rank and its history only
(`CallGraph.Rearranged.share?_eq`). The commits that are listed are the registered ones, though, and
a graph may have registered one that changed nothing. It earns nothing, and that is all the
difference there can be (`CallGraph.effortRanks_rearranged`).
-/

namespace EffortRank

namespace CallGraph

/-- The graphs have functions of the same names, the same calls, and the same history under each
name. They may have seen them in any order. -/
structure Rearranged (g h : CallGraph) : Prop where
  names : g.functionNames = h.functionNames
  calls : (g.edges.map CallEdge.ends).toFinset = (h.edges.map CallEdge.ends).toFinset
  histories : ∀ node ∈ g.nodes, ∀ node' ∈ h.nodes, node.name = node'.name →
    node.history = node'.history

/-! ## What depends on the history only -/

section History

variable {node node' : FunctionNode} {blacklist : Blacklist}

theorem efforts_congr (h : node.history = node'.history) :
    node.efforts blacklist = node'.efforts blacklist := by
  unfold FunctionNode.efforts
  rw [h]

theorem effort_congr (h : node.history = node'.history) :
    node.effort blacklist = node'.effort blacklist := by
  unfold FunctionNode.effort
  rw [efforts_congr h]

theorem shares_congr (h : node.history = node'.history) (rank : ℚ) :
    shares node rank blacklist = shares node' rank blacklist := by
  unfold shares
  rw [efforts_congr h, effort_congr h]

end History

/-! ## Functions by their numbers -/

variable {g h : CallGraph}

/-- The function with a number. -/
def nodeAt (g : CallGraph) (i : Fin g.digraph.size) : FunctionNode := g.nodes.get i

theorem nodeAt_mem (g : CallGraph) (i : Fin g.digraph.size) : g.nodeAt i ∈ g.nodes :=
  List.get_mem g.nodes i

theorem ofFn_nodeAt (g : CallGraph) : List.ofFn g.nodeAt = g.nodes := List.ofFn_get g.nodes

theorem weights_eq_ofFn (g : CallGraph) (blacklist : Blacklist) :
    g.weights blacklist = Array.ofFn fun i => ((g.nodeAt i).effort blacklist : ℚ) := by
  rw [weights, ← ofFn_nodeAt, List.map_ofFn, ← Array.toList_inj, Array.toList_ofFn]
  rfl

/-- There is one edge between two functions for each call. -/
theorem WellFormed.count_digraph (hg : g.WellFormed) (c r : Fin g.digraph.size) :
    g.digraph.edges.count (c.val, r.val) =
      (g.edges.map CallEdge.ends).count ((g.nodeAt c).name, (g.nodeAt r).name) := by
  have hplace : ∀ {name : String} (i : Fin g.digraph.size), g.contains name = true →
      (indexOf (g.nodes.map FunctionNode.name) name = i ↔ name = (g.nodeAt i).name) := by
    intro name i hname
    have hi : g.nodes[i.val]? = some (g.nodeAt i) := List.getElem?_eq_getElem i.isLt
    constructor
    · intro hindex
      obtain ⟨node, hnode, rfl⟩ := hg.indexOf_eq_iff.1 ⟨hname, hindex⟩
      rw [hi] at hnode
      cases hnode
      rfl
    · intro heq
      exact (hg.indexOf_eq_iff.2 ⟨_, hi, heq.symm⟩).2
  have hedges : g.digraph.edges = g.edges.map fun call =>
      (indexOf (g.nodes.map FunctionNode.name) call.caller,
        indexOf (g.nodes.map FunctionNode.name) call.callee) := rfl
  rw [hedges, List.count_eq_countP, List.count_eq_countP, List.countP_map, List.countP_map]
  apply List.countP_congr
  intro call hcall
  obtain ⟨hcaller, hcallee⟩ := hg.ends_known call hcall
  simp only [Function.comp_apply, beq_iff_eq, CallEdge.ends, Prod.mk.injEq, hplace c hcaller,
    hplace r hcallee]

theorem names_eq_ofFn (g : CallGraph) :
    g.nodes.map FunctionNode.name = List.ofFn fun i => (g.nodeAt i).name := by
  rw [← ofFn_nodeAt, List.map_ofFn]
  rfl

theorem mem_functionNames_iff {name : String} :
    name ∈ g.functionNames ↔ ∃ i, (g.nodeAt i).name = name := by
  rw [functionNames, List.mem_toFinset, names_eq_ofFn, List.mem_ofFn]

theorem WellFormed.nodeName_injective (hg : g.WellFormed) :
    Function.Injective fun i => (g.nodeAt i).name := by
  rw [← List.nodup_ofFn, ← names_eq_ofFn]
  exact hg.names

/-- Under the name of a function is the number of its node. -/
theorem WellFormed.get?_named (hg : g.WellFormed) (x : Fin g.digraph.size → ℚ) {name : String}
    {v : ℚ} :
    (g.named (Array.ofFn x)).get? name = some v ↔ ∃ i, (g.nodeAt i).name = name ∧ x i = v := by
  have hentries : (g.nodes.map FunctionNode.name).zip (Array.ofFn x).toList =
      List.ofFn fun i => ((g.nodeAt i).name, x i) := by
    rw [names_eq_ofFn, Array.toList_ofFn]
    apply List.ext_getElem
    · simp
    · simp
  have hnodup : ((List.ofFn fun i => ((g.nodeAt i).name, x i)).map (·.1)).Nodup := by
    rw [List.map_ofFn, List.nodup_ofFn]
    exact hg.nodeName_injective
  rw [named, hentries, NameMap.get?_ofList_eq_some_iff hnodup, List.mem_ofFn]
  simp only [Prod.mk.injEq]

namespace Rearranged

theorem symm (hgh : g.Rearranged h) : h.Rearranged g where
  names := hgh.names.symm
  calls := hgh.calls.symm
  histories node hnode node' hnode' hname := (hgh.histories node' hnode' node hnode hname.symm).symm

/-- A function of one graph is one of the other. -/
theorem exists_node (hgh : g.Rearranged h) {node : FunctionNode} (hnode : node ∈ g.nodes) :
    ∃ node' ∈ h.nodes, node'.name = node.name ∧ node'.history = node.history := by
  have hname : node.name ∈ h.functionNames := by
    rw [← hgh.names]
    exact List.mem_toFinset.2 (List.mem_map_of_mem hnode)
  obtain ⟨node', hnode', heq⟩ := List.mem_map.1 (List.mem_toFinset.1 hname)
  exact ⟨node', hnode', heq, (hgh.histories node hnode node' hnode' heq.symm).symm⟩

section Ranks

variable (hgh : g.Rearranged h) (hg : g.WellFormed) (hh : h.WellFormed)

include hgh hg hh

/-- Names lead from the numbers of one graph to those of the other. -/
theorem exists_equiv :
    ∃ e : Fin g.digraph.size ≃ Fin h.digraph.size,
      ∀ i, (h.nodeAt (e i)).name = (g.nodeAt i).name := by
  have hrange : (Set.range fun i => (g.nodeAt i).name) = Set.range fun i => (h.nodeAt i).name := by
    ext name
    rw [Set.mem_range, Set.mem_range, ← mem_functionNames_iff, ← mem_functionNames_iff, hgh.names]
  refine ⟨(Equiv.ofInjective _ hg.nodeName_injective).trans
    ((Equiv.setCongr hrange).trans (Equiv.ofInjective _ hh.nodeName_injective).symm), fun i => ?_⟩
  exact Equiv.apply_ofInjective_symm hh.nodeName_injective _

/-- **Calls are a digraph under other numbers**, and the functions have their histories along. -/
theorem exists_renumbered :
    ∃ e : Fin g.digraph.size ≃ Fin h.digraph.size, g.digraph.Renumbered h.digraph e ∧
      ∀ i, (h.nodeAt (e i)).name = (g.nodeAt i).name ∧
        (h.nodeAt (e i)).history = (g.nodeAt i).history := by
  obtain ⟨e, he⟩ := hgh.exists_equiv hg hh
  have hcalls : (h.edges.map CallEdge.ends).Perm (g.edges.map CallEdge.ends) :=
    List.perm_of_nodup_nodup_toFinset_eq hh.calls hg.calls hgh.calls.symm
  refine ⟨e, fun c r => ?_, fun i => ⟨he i, ?_⟩⟩
  · rw [hh.count_digraph, hg.count_digraph, he, he, hcalls.count_eq]
  · exact hgh.symm.histories _ (h.nodeAt_mem _) _ (g.nodeAt_mem i) (he i)

omit hgh in
theorem named_comp {e : Fin g.digraph.size ≃ Fin h.digraph.size}
    (he : ∀ i, (h.nodeAt (e i)).name = (g.nodeAt i).name) (x : Fin h.digraph.size → ℚ) :
    g.named (Array.ofFn (x ∘ e)) = h.named (Array.ofFn x) := by
  apply NameMap.ext_get?
  intro name
  apply Option.ext
  intro v
  rw [hg.get?_named, hh.get?_named]
  apply Equiv.exists_congr e
  intro i
  rw [he, Function.comp_apply]

/-- **Functions have the same rank** by calls alone, whatever the order of functions and calls. -/
theorem centrality_eq (config : RankConfig ℚ) : g.centrality config = h.centrality config := by
  obtain ⟨e, he, hnode⟩ := hgh.exists_renumbered hg hh
  obtain ⟨x, hx, hx'⟩ := he.exists_pagerank? hg.digraph hh.digraph config
  rw [centrality, centrality, hx, hx']
  exact named_comp hg hh (fun i => (hnode i).1) x

/-- **Functions have the same rank** by calls and effort. -/
theorem functionRanks_eq (config : RankConfig ℚ) (blacklist : Blacklist) :
    g.functionRanks config blacklist = h.functionRanks config blacklist := by
  obtain ⟨e, he, hnode⟩ := hgh.exists_renumbered hg hh
  have hweights : (fun i => ((g.nodeAt i).effort blacklist : ℚ)) =
      (fun i => ((h.nodeAt i).effort blacklist : ℚ)) ∘ e := by
    funext i
    rw [Function.comp_apply, effort_congr (hnode i).2]
  obtain ⟨x, hx, hx'⟩ := he.exists_weightedRank? hg.digraph hh.digraph
    (fun i => ((h.nodeAt i).effort blacklist : ℚ)) config
  rw [functionRanks, functionRanks, weights_eq_ofFn, weights_eq_ofFn, hweights, hx, hx']
  exact named_comp hg hh (fun i => (hnode i).1) x

end Ranks

/-! ## Commits -/

theorem effortsFit_eq (hgh : g.Rearranged h) (blacklist : Blacklist) :
    g.effortsFit blacklist = h.effortsFit blacklist := by
  have hfits : ∀ {g h : CallGraph}, g.Rearranged h → g.effortsFit blacklist = true →
      h.effortsFit blacklist = true := by
    intro g h hgh hfit
    rw [effortsFit_iff] at hfit ⊢
    intro node hnode
    obtain ⟨node', hnode', -, hhistory⟩ := hgh.symm.exists_node hnode
    rw [← efforts_congr hhistory]
    exact hfit node' hnode'
  exact Bool.eq_iff_iff.2 ⟨hfits hgh, hfits hgh.symm⟩

theorem mem_given (hgh : g.Rearranged h) {functions : NameMap ℚ} {blacklist : Blacklist}
    {share : String × String × ℚ} (hshare : share ∈ g.given functions blacklist) :
    share ∈ h.given functions blacklist := by
  obtain ⟨node, hnode, hname, hget⟩ := mem_given_iff.1 hshare
  obtain ⟨node', hnode', hname', hhistory⟩ := hgh.exists_node hnode
  refine mem_given_iff.2 ⟨node', hnode', hname'.trans hname, ?_⟩
  rw [shares_congr hhistory]
  exact hget

/-- **A commit earns the same** of each function. -/
theorem share?_eq (hgh : g.Rearranged h) (hg : g.WellFormed) (hh : h.WellFormed)
    (functions : NameMap ℚ) (blacklist : Blacklist) (hash name : String) :
    share? (g.commitShares functions blacklist) hash name =
      share? (h.commitShares functions blacklist) hash name := by
  apply Option.ext
  intro v
  rw [hg.share?_eq_some_iff, hh.share?_eq_some_iff]
  exact ⟨hgh.mem_given, hgh.symm.mem_given⟩

theorem getD_commitShares (hgh : g.Rearranged h) (hg : g.WellFormed) (hh : h.WellFormed)
    (functions : NameMap ℚ) (blacklist : Blacklist) (hash : String) :
    ((g.commitShares functions blacklist).get? hash).getD .empty =
      ((h.commitShares functions blacklist).get? hash).getD .empty := by
  apply NameMap.ext_get?
  intro name
  rw [get?_getD_get?, get?_getD_get?]
  exact hgh.share?_eq hg hh functions blacklist hash name

end Rearranged

/-! ## Developers -/

/-- A commit that both graphs have registered has the same author in both. -/
def SameAuthors (g h : CallGraph) : Prop :=
  ∀ info ∈ g.commits, ∀ info' ∈ h.commits, info.hash = info'.hash →
    info.authorEmail = info'.authorEmail

theorem hasCommit_congr (hhashes : g.commitHashes = h.commitHashes) (hash : String) :
    g.hasCommit hash = true ↔ h.hasCommit hash = true := by
  rw [← mem_commitHashes_iff, ← mem_commitHashes_iff, hhashes]

theorem SameAuthors.symm (hauthors : g.SameAuthors h) : h.SameAuthors g := by
  intro info hinfo info' hinfo' hhash
  exact (hauthors info' hinfo' info hinfo hhash.symm).symm

theorem SameAuthors.mem_emails (hauthors : g.SameAuthors h)
    (hhashes : g.commitHashes = h.commitHashes) {email : String}
    (hemail : email ∈ g.commits.map CommitInfo.authorEmail) :
    email ∈ h.commits.map CommitInfo.authorEmail := by
  obtain ⟨info, hinfo, rfl⟩ := List.mem_map.1 hemail
  have hhash : g.hasCommit info.hash = true := hasCommit_iff.2 (List.mem_map_of_mem hinfo)
  rw [hasCommit_congr hhashes, hasCommit_iff] at hhash
  obtain ⟨info', hinfo', heq⟩ := List.mem_map.1 hhash
  rw [hauthors info hinfo info' hinfo' heq.symm]
  exact List.mem_map_of_mem hinfo'

section Developers

variable {commits commits' : NameMap ℚ}
  (hcommits : ∀ hash, hash ∈ commits.keys ↔ g.hasCommit hash = true)
  (hcommits' : ∀ hash, hash ∈ commits'.keys ↔ h.hasCommit hash = true)

/-- Commits that are not registered have no developer. -/
theorem sum_commitHashes_eq {hashes : Finset String} (hsub : g.commitHashes ⊆ hashes)
    (email : String) :
    (∑ hash ∈ g.commitHashes,
      if g.developer? hash = some email then (commits.get? hash).getD 0 else 0) =
      ∑ hash ∈ hashes,
        if g.developer? hash = some email then (commits.get? hash).getD 0 else 0 := by
  apply Finset.sum_subset hsub
  intro hash _ hnot
  have hnone : g.commit? hash = none := by
    rw [mem_commitHashes_iff, hasCommit, Option.not_isSome_iff_eq_none] at hnot
    exact hnot
  rw [developer?, hnone, Option.map_none, if_neg (Option.some_ne_none email).symm]

include hcommits in
theorem exists_info_of_rank_ne_zero {hash : String} (hrank : (commits.get? hash).getD 0 ≠ 0) :
    ∃ info ∈ g.commits, info.hash = hash := by
  have hkey : hash ∈ commits.keys := by
    rw [NameMap.mem_keys_iff]
    cases hget : commits.get? hash with
    | none => exact absurd (by rw [hget]; rfl) hrank
    | some rank => rfl
  exact List.mem_map.1 (hasCommit_iff.1 ((hcommits hash).1 hkey))

include hcommits hcommits' in
/-- **A developer earns the same**, if commits do and have the same authors. -/
theorem SameAuthors.getD_developerRanks (hauthors : SameAuthors g h) (hg : g.WellFormed)
    (hh : h.WellFormed)
    (hranks : ∀ hash, (commits.get? hash).getD 0 = (commits'.get? hash).getD 0) (email : String) :
    ((g.developerRanks commits).get? email).getD 0 =
      ((h.developerRanks commits').get? email).getD 0 := by
  rw [hg.getD_developerRanks hcommits, hh.getD_developerRanks hcommits',
    sum_commitHashes_eq Finset.subset_union_left, sum_commitHashes_eq Finset.subset_union_right]
  apply Finset.sum_congr rfl
  intro hash _
  rw [← hranks]
  by_cases hrank : (commits.get? hash).getD 0 = 0
  · rw [hrank, ite_self, ite_self]
  · -- A commit that earns something is registered in both graphs.
    obtain ⟨info, hinfo, rfl⟩ := exists_info_of_rank_ne_zero hcommits hrank
    obtain ⟨info', hinfo', hhash⟩ :=
      exists_info_of_rank_ne_zero hcommits' (by rwa [← hranks])
    have hdeveloper : g.developer? info.hash = h.developer? info.hash := by
      rw [hg.developer?_of_mem hinfo, ← hhash, hh.developer?_of_mem hinfo',
        hauthors info hinfo info' hinfo' hhash.symm]
    rw [hdeveloper]

end Developers

/-! ## All ranks -/

theorem WellFormed.mem_keys_commits (hg : g.WellFormed) (config : RankConfig ℚ)
    (blacklist : Blacklist) (hash : String) :
    hash ∈ (g.effortRanks config blacklist).commits.keys ↔ g.hasCommit hash = true :=
  mem_keys_commitRanks.trans hg.mem_keys_commitShares

/-- **Ranks do not depend on the order in which a graph was built.** Take any two graphs that
requests lead to, with the same functions, calls and histories. The ranks of the functions are the
same, by calls alone and weighted, and they are told for both graphs or for neither. Each commit
earns the same of each function and in all, and so do developers if the commits have the same
authors. Commits that only one of the graphs has registered earn nothing there; without such commits
the tables are the same. -/
theorem effortRanks_rearranged (requests requests' : List GraphRequest) (config : RankConfig ℚ)
    (blacklist : Blacklist) :
    let g := empty.run requests
    let h := empty.run requests'
    let ranks := g.effortRanks config blacklist
    let ranks' := h.effortRanks config blacklist
    g.Rearranged h →
    g.centrality config = h.centrality config ∧
      (g.effortRanks? config blacklist).isSome = (h.effortRanks? config blacklist).isSome ∧
      ranks.functions = ranks'.functions ∧
      (∀ hash, (ranks.commitFunctions.get? hash).getD .empty =
        (ranks'.commitFunctions.get? hash).getD .empty) ∧
      (∀ hash, (ranks.commits.get? hash).getD 0 = (ranks'.commits.get? hash).getD 0) ∧
      (g.commitHashes = h.commitHashes →
        ranks.commitFunctions = ranks'.commitFunctions ∧ ranks.commits = ranks'.commits) ∧
      (g.SameAuthors h →
        (∀ email, (ranks.developers.get? email).getD 0 =
          (ranks'.developers.get? email).getD 0) ∧
        (g.commitHashes = h.commitHashes → ranks.developers = ranks'.developers)) := by
  intro g h ranks ranks' hgh
  have hg : g.WellFormed := WellFormed.empty.run requests
  have hh : h.WellFormed := WellFormed.empty.run requests'
  have hfunctions : ranks.functions = ranks'.functions :=
    hgh.functionRanks_eq hg hh config blacklist
  have hearned : ∀ hash, (ranks.commitFunctions.get? hash).getD .empty =
      (ranks'.commitFunctions.get? hash).getD .empty := by
    intro hash
    show ((g.commitShares ranks.functions blacklist).get? hash).getD .empty = _
    rw [hfunctions]
    exact hgh.getD_commitShares hg hh _ blacklist hash
  have hcommits : ∀ hash, (ranks.commits.get? hash).getD 0 = (ranks'.commits.get? hash).getD 0 := by
    intro hash
    calc (ranks.commits.get? hash).getD 0
        = ((ranks.commitFunctions.get? hash).getD .empty).values.sum := getD_get?_commitRanks _ hash
      _ = ((ranks'.commitFunctions.get? hash).getD .empty).values.sum := by rw [hearned]
      _ = (ranks'.commits.get? hash).getD 0 := (getD_get?_commitRanks _ hash).symm
  have hkeys : ∀ hash, hash ∈ ranks.commits.keys ↔ g.hasCommit hash = true :=
    hg.mem_keys_commits config blacklist
  have hkeys' : ∀ hash, hash ∈ ranks'.commits.keys ↔ h.hasCommit hash = true :=
    hh.mem_keys_commits config blacklist
  refine ⟨hgh.centrality_eq hg hh config, ?_, hfunctions, hearned, hcommits, fun hhashes => ?_,
    fun hauthors => ⟨hauthors.getD_developerRanks hkeys hkeys' hg hh hcommits, fun hhashes => ?_⟩⟩
  · rw [effortRanks?, effortRanks?, hgh.effortsFit_eq]
    cases h.effortsFit blacklist <;> rfl
  · have hsplit : ranks.commitFunctions = ranks'.commitFunctions := by
      refine NameMap.ext_getD (fun hash => ?_) hearned
      exact hg.mem_keys_commitShares.trans
        ((hasCommit_congr hhashes hash).trans hh.mem_keys_commitShares.symm)
    exact ⟨hsplit, congrArg commitRanks hsplit⟩
  · refine NameMap.ext_getD (fun email => ?_)
      (hauthors.getD_developerRanks hkeys hkeys' hg hh hcommits)
    exact (mem_keys_developerRanks hkeys).trans
      ((Iff.intro (hauthors.mem_emails hhashes) (hauthors.symm.mem_emails hhashes.symm)).trans
        (mem_keys_developerRanks hkeys').symm)

/-- Two functions that call each other and a third one, seen in the opposite order and with the
calls in another one; a commit that changed nothing is registered in both graphs. -/
theorem effortRanks_rearranged_reversed :
    let config : RankConfig ℚ := ⟨17 / 20, 1 / 1000, 100⟩
    let a : CommitInfo := ⟨"a", "", "x", "", none⟩
    let b : CommitInfo := ⟨"b", "", "y", "", none⟩
    let g := empty.run [.addCommit a, .addCommit b, .addNode "f" [], .addNode "g" [],
      .addNode "h" [], .addEdge "f" "g", .addEdge "g" "f", .addEdge "f" "h",
      .recordHistory "f" ⟨2, 1, none, none⟩, .recordHistory "h" ⟨1, 0, none, none⟩]
    let h := empty.run [.addCommit b, .addNode "h" ["new"], .addNode "g" [], .addNode "f" [],
      .addEdge "f" "h", .addEdge "f" "g", .addEdge "g" "f", .recordHistory "h" ⟨1, 0, none, none⟩,
      .recordHistory "f" ⟨2, 1, none, none⟩, .addCommit a]
    g.Rearranged h ∧ g.commitHashes = h.commitHashes ∧ g.SameAuthors h ∧ g ≠ h ∧
      g.centrality config = h.centrality config ∧
      (g.effortRanks config []).commits = (h.effortRanks config []).commits ∧
      (g.effortRanks config []).developers = (h.effortRanks config []).developers := by
  intro config a b g h
  have hgh : g.Rearranged h := ⟨by decide, by decide, by decide⟩
  have hhashes : g.commitHashes = h.commitHashes := by decide
  have hauthors : g.SameAuthors h := by
    unfold SameAuthors
    decide
  obtain ⟨hcentrality, -, -, -, -, htables, hdevelopers⟩ := effortRanks_rearranged _ _ config [] hgh
  exact ⟨hgh, hhashes, hauthors, by decide, hcentrality, (htables hhashes).2,
    (hdevelopers hauthors).2 hhashes⟩

/-- The graphs have the same functions, calls and histories, but one of them has registered a commit
that changed nothing, with its author. -/
theorem effortRanks_ne_of_unused_commit :
    let config : RankConfig ℚ := ⟨17 / 20, 1 / 1000, 100⟩
    let g := empty.run [.addCommit ⟨"c", "", "x", "", none⟩, .addNode "f" []]
    let h := empty.run [.addNode "f" []]
    g.Rearranged h ∧ g.SameAuthors h ∧
      (g.effortRanks config []).commitFunctions ≠ (h.effortRanks config []).commitFunctions ∧
      (g.effortRanks config []).commits ≠ (h.effortRanks config []).commits ∧
      (g.effortRanks config []).developers ≠ (h.effortRanks config []).developers := by
  intro config g h
  have hgh : g.Rearranged h := ⟨by decide, by decide, by decide⟩
  have hauthors : g.SameAuthors h := by
    unfold SameAuthors
    decide
  have hg : g.WellFormed := WellFormed.empty.run _
  have hh : h.WellFormed := WellFormed.empty.run _
  have hlisted := hg.mem_keys_commits config []
  have hothers := hh.mem_keys_commits config []
  have hcommits : (g.effortRanks config []).commits ≠ (h.effortRanks config []).commits := by
    intro heq
    have hcommit : "c" ∈ (g.effortRanks config []).commits.keys := (hlisted "c").2 (by decide)
    rw [heq] at hcommit
    exact absurd ((hothers "c").1 hcommit) (by decide)
  refine ⟨hgh, hauthors, fun heq => hcommits (congrArg commitRanks heq), hcommits, fun heq => ?_⟩
  have hdeveloper : "x" ∈ (g.effortRanks config []).developers.keys :=
    (mem_keys_developerRanks hlisted).2 (by decide)
  rw [heq] at hdeveloper
  exact absurd ((mem_keys_developerRanks hothers).1 hdeveloper) (by decide)

end CallGraph

end EffortRank
