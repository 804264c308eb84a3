import EffortRank.Proofs.Graph.Efforts
import EffortRank.Proofs.Rank.Walks

/-!
# Who is in a report

Reports list functions, commits and developers by name. All functions are ranked, since a walk ends
with a number for each of them. Every registered commit has an entry from the start, and no entry is
put in for another one, since the commits of histories are registered. So a report lists each
function and each registered commit once, and nothing else (`CallGraph.reports_complete`). That
depends on no arithmetic but that the numbers fit.
-/

namespace EffortRank

open TransitionMatrix

namespace CallGraph

variable {α : Type} [Scalar α] {g : CallGraph} {blacklist : Blacklist}

/-! ## Functions -/

theorem WellFormed.digraph (h : g.WellFormed) : g.digraph.WellFormed := by
  intro e he
  obtain ⟨call, hcall, rfl⟩ := List.mem_map.1 he
  obtain ⟨hcaller, hcallee⟩ := h.ends_known call hcall
  have hplace : ∀ {name}, g.contains name = true →
      indexOf (g.nodes.map FunctionNode.name) name < g.nodes.length := by
    intro name hname
    rw [indexOf, ← List.length_map FunctionNode.name]
    exact List.idxOf_lt_length_of_mem (contains_iff.1 hname)
  exact ⟨hplace hcaller, hplace hcallee⟩

theorem size_weights (g : CallGraph) (blacklist : Blacklist) :
    (g.weights blacklist : Array α).size = g.digraph.size := by
  simp [weights, CallGraph.digraph]

omit [Scalar α] in
/-- Numbers for all functions are listed under the names of all functions. -/
theorem WellFormed.keys_named (h : g.WellFormed) {ranks : Array α}
    (hsize : ranks.size = g.digraph.size) :
    (g.named ranks).keys.Perm (g.nodes.map FunctionNode.name) := by
  have hlength : (g.nodes.map FunctionNode.name).length = ranks.toList.length := by
    rw [List.length_map, Array.length_toList, hsize]
    rfl
  refine (List.perm_ext_iff_of_nodup (NameMap.nodup_keys _) h.names).2 fun name => ?_
  rw [named, NameMap.mem_keys_ofList, List.map_fst_zip hlength.le]

theorem WellFormed.keys_centrality (h : g.WellFormed) (config : RankConfig α) :
    (g.centrality config).keys.Perm (g.nodes.map FunctionNode.name) := by
  obtain ⟨ranks, hranks, hsize⟩ := h.digraph.exists_pagerank? config
  rw [centrality, hranks]
  exact h.keys_named hsize

theorem WellFormed.keys_functionRanks (h : g.WellFormed) (config : RankConfig α)
    (blacklist : Blacklist) :
    (g.functionRanks config blacklist).keys.Perm (g.nodes.map FunctionNode.name) := by
  obtain ⟨ranks, hranks, hsize⟩ := h.digraph.exists_weightedRank? (g.size_weights blacklist) config
  rw [functionRanks, hranks]
  exact h.keys_named hsize

/-! ## Commits -/

theorem WellFormed.keys_perm_hashes {β : Type} (h : g.WellFormed) {m : NameMap β}
    (hkeys : ∀ hash, hash ∈ m.keys ↔ g.hasCommit hash = true) :
    m.keys.Perm (g.commits.map CommitInfo.hash) :=
  (List.perm_ext_iff_of_nodup m.nodup_keys h.hashes).2 fun hash =>
    (hkeys hash).trans hasCommit_iff

theorem keys_shares (node : FunctionNode) (rank : α) (blacklist : Blacklist) :
    (shares node rank blacklist).keys = (node.efforts blacklist).keys := NameMap.keys_map _ _

variable {functions : NameMap α}

/-- The table has a row for every registered commit, and no other. -/
theorem WellFormed.mem_keys_commitShares (h : g.WellFormed) {hash : String} :
    hash ∈ (g.commitShares functions blacklist).keys ↔ g.hasCommit hash = true := by
  rw [commitShares, NameMap.mem_keys_foldl_alter, NameMap.mem_keys_ofList, List.map_map,
    hasCommit_iff]
  refine or_iff_right_of_imp fun hearned => ?_
  rw [List.map_flatMap, List.mem_flatMap] at hearned
  obtain ⟨node, hnode, hearned⟩ := hearned
  rw [List.map_map] at hearned
  have hkey : hash ∈ (shares node _ blacklist).keys := hearned
  rw [keys_shares, FunctionNode.mem_keys_efforts] at hkey
  exact hasCommit_iff.1 (h.history_known node hnode hash hkey.2)

/-- **A commit earns of the functions that it changed**, if it counts. -/
theorem WellFormed.mem_keys_earned (h : g.WellFormed) {hash : String} {earned : NameMap α}
    (hearned : (g.commitShares functions blacklist).get? hash = some earned) {name : String} :
    name ∈ earned.keys ↔
      blacklist.contains hash = false ∧ (g.statsAt? name hash).isSome = true := by
  have hnothing : (((NameMap.ofList (g.commits.map fun info =>
      (info.hash, (.empty : NameMap α)))).get? hash).getD .empty).keys = [] := by
    rw [NameMap.get?_ofList_const CommitInfo.hash]
    split <;> rfl
  rw [commitShares] at hearned
  rw [NameMap.mem_keys_get?_foldl_alter hearned, hnothing, or_iff_left (List.not_mem_nil)]
  constructor
  · rintro ⟨e, he, rfl, rfl⟩
    obtain ⟨node, hnode, he⟩ := List.mem_flatMap.1 he
    obtain ⟨share, hshare, rfl⟩ := List.mem_map.1 he
    have hkey : share.1 ∈ (shares node _ blacklist).keys := List.mem_map_of_mem hshare
    rw [keys_shares, FunctionNode.mem_keys_efforts, NameMap.mem_keys_iff] at hkey
    rw [statsAt?, h.node?_eq_some_iff.2 ⟨hnode, rfl⟩]
    exact hkey
  · rintro ⟨hcounts, hstats⟩
    obtain ⟨stats, hstats⟩ := Option.isSome_iff_exists.1 hstats
    rw [statsAt?, Option.bind_eq_some_iff] at hstats
    obtain ⟨node, hnode, hentry⟩ := hstats
    obtain ⟨hmem, rfl⟩ := h.node?_eq_some_iff.1 hnode
    have hkey : hash ∈
        (shares node ((functions.get? node.name).getD Scalar.zero) blacklist).keys := by
      rw [keys_shares, FunctionNode.mem_keys_efforts, NameMap.mem_keys_iff, hentry]
      exact ⟨hcounts, rfl⟩
    obtain ⟨share, hshare, rfl⟩ := List.mem_map.1 hkey
    exact ⟨_, List.mem_flatMap.2 ⟨node, hmem, List.mem_map_of_mem hshare⟩, rfl, rfl⟩

theorem mem_keys_commitRanks {split : NameMap (NameMap α)} {hash : String} :
    hash ∈ (commitRanks split).keys ↔ hash ∈ split.keys := by
  rw [commitRanks, NameMap.keys_map]

/-! ## Developers -/

section Developers

variable {commits : NameMap α} (hcommits : ∀ hash, hash ∈ commits.keys ↔ g.hasCommit hash = true)

include hcommits

theorem developerRanks_eq :
    g.developerRanks commits =
      g.commits.foldl (fun developers info => developers.alter info.authorEmail fun old =>
        old.getD Scalar.zero + (commits.get? info.hash).getD Scalar.zero) .empty := by
  refine List.foldl_ext _ _ _ fun developers info hinfo => ?_
  have hkey : info.hash ∈ commits.keys :=
    (hcommits _).2 (hasCommit_iff.2 (List.mem_map_of_mem hinfo))
  obtain ⟨rank, hrank⟩ := Option.isSome_iff_exists.1 (NameMap.mem_keys_iff.1 hkey)
  rw [hrank]
  rfl

/-- The developers are those who made the registered commits. -/
theorem mem_keys_developerRanks {email : String} :
    email ∈ (g.developerRanks commits).keys ↔ email ∈ g.commits.map CommitInfo.authorEmail := by
  rw [developerRanks_eq hcommits, NameMap.mem_keys_foldl_alter]
  exact or_iff_left fun hempty => by cases hempty

end Developers

/-! ## Reports -/

/-- **A report is complete, and lists nothing else.** On every graph that requests lead to, the
matrix of its calls is well formed for any weights of which each function has one, and can be
multiplied with any vector that has a number for each; both walks end with a number for each. All
functions are ranked, the efforts and the ranks of all registered commits are told, and a commit
that counts earns of the functions that it changed. The developers are those who made the
registered commits. The efforts of the commits are told if each fits, and the weighted ranks if the
efforts of the functions do. -/
theorem reports_complete (requests : List GraphRequest) (config : RankConfig α)
    (blacklist : Blacklist) :
    let g := empty.run requests
    let ranks := g.effortRanks config blacklist
    (∀ weights : Array α, g.nodes.length ≤ weights.size →
      ∃ m, ofDigraph? g.digraph weights = some m ∧ m.size = g.nodes.length ∧ m.WellFormed ∧
        ∀ (v : Array α) (factor : α), v.size = g.nodes.length →
          ∃ product, m.scaledProduct? v factor = some product ∧
            product.size = g.nodes.length) ∧
      (∃ scores, pagerank? g.digraph config = some scores ∧ scores.size = g.nodes.length) ∧
      (∃ scores, weightedRank? g.digraph (g.weights blacklist) config = some scores ∧
        scores.size = g.nodes.length) ∧
      (g.centrality config).keys.Perm (g.nodes.map FunctionNode.name) ∧
      ranks.functions.keys.Perm (g.nodes.map FunctionNode.name) ∧
      (g.commitEfforts blacklist).keys.Perm (g.commits.map CommitInfo.hash) ∧
      ranks.commitFunctions.keys.Perm (g.commits.map CommitInfo.hash) ∧
      ranks.commits.keys.Perm (g.commits.map CommitInfo.hash) ∧
      (∀ hash earned, ranks.commitFunctions.get? hash = some earned →
        ∀ name, name ∈ earned.keys ↔
          blacklist.contains hash = false ∧ (g.statsAt? name hash).isSome = true) ∧
      (∀ email, email ∈ ranks.developers.keys ↔
        email ∈ g.commits.map CommitInfo.authorEmail) ∧
      (∀ efforts, g.commitEfforts? blacklist = some efforts ↔
        (∀ info ∈ g.commits, g.commitEffort blacklist info.hash ≤ maxCount) ∧
          g.commitEfforts blacklist = efforts) ∧
      ∀ told, g.effortRanks? config blacklist = some told ↔
        (∀ node ∈ g.nodes, total (node.efforts blacklist).values ≤ maxCount) ∧ ranks = told := by
  intro g ranks
  have h : g.WellFormed := WellFormed.empty.run requests
  have hcommits : ∀ hash, hash ∈ ranks.commits.keys ↔ g.hasCommit hash = true :=
    fun hash => mem_keys_commitRanks.trans h.mem_keys_commitShares
  refine ⟨fun weights hweights => ?_, h.digraph.exists_pagerank? config,
    h.digraph.exists_weightedRank? (g.size_weights blacklist) config, h.keys_centrality config,
    h.keys_functionRanks config blacklist,
    h.keys_perm_hashes fun _ => h.mem_keys_commitEfforts,
    h.keys_perm_hashes fun _ => h.mem_keys_commitShares, h.keys_perm_hashes hcommits,
    fun _ _ hearned _ => h.mem_keys_earned hearned, fun _ => mem_keys_developerRanks hcommits,
    fun _ => h.commitEfforts?_eq_some_iff, fun told => ?_⟩
  · obtain ⟨m, hm, hsize, hwell⟩ := h.digraph.exists_ofDigraph? hweights
    refine ⟨m, hm, hsize, hwell, fun v factor hv => ?_⟩
    obtain ⟨product, hproduct, hcount⟩ := hwell.exists_scaledProduct? (hv.trans hsize.symm) factor
    exact ⟨product, hproduct, hcount.trans hsize⟩
  · rw [effortRanks?, fitting_eq_some_iff, effortsFit_iff]

/-- A commit with more changed lines than can be counted is registered, but not reported. -/
theorem reports_of_full_count :
    let g := empty.run [.addCommit ⟨"c", "", "", "", none⟩, .addNode "f" [],
      .recordHistory "f" ⟨maxCount, 1, none, none⟩]
    g.hasCommit "c" = true ∧ g.statsAt? "f" "c" = some ⟨maxCount, 1, none, none⟩ ∧
      g.commitEfforts? [] = none ∧
      g.effortRanks? (⟨17 / 20, 1 / 1000, 100⟩ : RankConfig Rat) [] = none := by
  intro g
  have hfits : g.effortsFit [] = false := by decide
  exact ⟨by decide, by decide, by decide, by rw [effortRanks?, hfits]; rfl⟩

end CallGraph

end EffortRank
