import EffortRank.NameMap.Sums
import EffortRank.Proofs.Graph.WellFormed

/-!
# What effort adds up to

The effort of a commit is a sum over functions (`CallGraph.commitEffort`), and that of a function a
sum over commits. `commitEfforts` computes the first for all commits, by going through the histories
of all functions: it has them all and no others (`CallGraph.WellFormed.get?_commitEfforts`). Both
ways round the same entries are added up (`CallGraph.total_commitEfforts`).
-/

namespace EffortRank

theorem total_eq_sum (counts : List Nat) : total counts = counts.sum := rfl

theorem all_countFits_of_total_le {counts : List Nat} (h : total counts ≤ maxCount) :
    counts.all countFits = true :=
  List.all_eq_true.2 fun _ hn => decide_eq_true ((List.le_sum_of_mem hn).trans h)

namespace FunctionNode

/-- The effort of a commit that counts is that of its entry. -/
theorem get?_efforts (node : FunctionNode) (blacklist : Blacklist) (hash : String) :
    (node.efforts blacklist).get? hash =
      if blacklist.contains hash then none
      else (node.history.get? hash).map ChangeStats.effort := by
  rw [efforts, NameMap.get?_map, NameMap.get?_filter]
  cases blacklist.contains hash <;> cases node.history.get? hash <;> simp [Option.filter]

theorem mem_keys_efforts {node : FunctionNode} {blacklist : Blacklist} {hash : String} :
    hash ∈ (node.efforts blacklist).keys ↔
      blacklist.contains hash = false ∧ hash ∈ node.history.keys := by
  rw [NameMap.mem_keys_iff, get?_efforts, NameMap.mem_keys_iff]
  cases blacklist.contains hash <;> simp

end FunctionNode

namespace CallGraph

variable {g : CallGraph} {blacklist : Blacklist}

/-! ## Effort by commits -/

/-- The effort of a commit over all functions, none if it does not count. -/
def commitEffort (g : CallGraph) (blacklist : Blacklist) (hash : String) : Nat :=
  (g.nodes.map fun node => ((node.efforts blacklist).get? hash).getD 0).sum

theorem mem_keys_commitEfforts (g : CallGraph) (blacklist : Blacklist) (hash : String) :
    hash ∈ (g.commitEfforts blacklist).keys ↔
      (∃ node ∈ g.nodes, hash ∈ (node.efforts blacklist).keys) ∨ g.hasCommit hash = true := by
  rw [commitEfforts, NameMap.mem_keys_foldl_alter, List.map_flatMap, List.mem_flatMap]
  refine or_congr Iff.rfl ?_
  rw [NameMap.mem_keys_iff, NameMap.get?_ofList_const CommitInfo.hash, hasCommit_iff]
  split <;> simp [*]

/-- Every commit of a history is registered, so that only registered commits are there. -/
theorem WellFormed.mem_keys_commitEfforts (h : g.WellFormed) {hash : String} :
    hash ∈ (g.commitEfforts blacklist).keys ↔ g.hasCommit hash = true := by
  rw [CallGraph.mem_keys_commitEfforts, or_iff_right_of_imp]
  rintro ⟨node, hnode, hhash⟩
  exact h.history_known node hnode hash (FunctionNode.mem_keys_efforts.1 hhash).2

theorem getD_get?_commitEfforts (g : CallGraph) (blacklist : Blacklist) (hash : String) :
    ((g.commitEfforts blacklist).get? hash).getD 0 = g.commitEffort blacklist hash := by
  have hentries : ∀ node ∈ g.nodes,
      ((node.efforts blacklist).entries.map fun e => if e.1 = hash then e.2 else 0).sum =
        ((node.efforts blacklist).get? hash).getD 0 := by
    intro node _
    refine (NameMap.sumOf_ite id (node.efforts blacklist) hash).trans ?_
    cases (node.efforts blacklist).get? hash <;> rfl
  have hzero : ((NameMap.ofList (g.commits.map fun info => (info.hash, 0))).get? hash).getD 0 =
      0 := by
    rw [NameMap.get?_ofList_const CommitInfo.hash]
    split <;> rfl
  rw [commitEfforts, NameMap.getD_get?_foldl_alter_add, hzero, zero_add, commitEffort,
    List.map_flatMap, List.flatMap_def, List.sum_flatten, List.map_map]
  exact congrArg List.sum (List.map_congr_left hentries)

/-- **The efforts of commits** are those of the registered ones. -/
theorem WellFormed.get?_commitEfforts (h : g.WellFormed) (hash : String) :
    (g.commitEfforts blacklist).get? hash =
      if g.hasCommit hash then some (g.commitEffort blacklist hash) else none := by
  have hkey : hash ∈ (g.commitEfforts blacklist).keys ↔ g.hasCommit hash = true :=
    h.mem_keys_commitEfforts
  rw [NameMap.mem_keys_iff] at hkey
  rw [← getD_get?_commitEfforts]
  cases hget : (g.commitEfforts blacklist).get? hash with
  | none =>
    rw [hget] at hkey
    rw [if_neg fun hcommit => by simpa using hkey.2 hcommit]
  | some effort =>
    rw [hget] at hkey
    rw [if_pos (hkey.1 rfl), Option.getD_some]

/-- The effort of all commits is that of all functions: both add up the same entries. -/
theorem total_commitEfforts (g : CallGraph) (blacklist : Blacklist) :
    total (g.commitEfforts blacklist).values =
      (g.nodes.map fun node => total (node.efforts blacklist).values).sum := by
  have hzero : (NameMap.ofList (g.commits.map fun info => (info.hash, 0))).sumOf (fun _ n => n) =
      0 := by
    apply List.sum_eq_zero
    intro n hn
    obtain ⟨e, he, rfl⟩ := List.mem_map.1 hn
    have hget := NameMap.mem_entries_iff.1 he
    rw [NameMap.get?_ofList_const CommitInfo.hash] at hget
    split at hget
    · exact (Option.some.inj hget).symm
    · cases hget
  have hfold := NameMap.sumOf_foldl_alter (fun _ n => n) (fun e : String × Nat => e.1)
    (fun e old => old.getD 0 + e.2) (fun e => e.2) (fun e old => by cases old <;> rfl)
    (g.nodes.flatMap fun node => (node.efforts blacklist).entries)
    (.ofList (g.commits.map fun info => (info.hash, 0)))
  rw [hzero, zero_add, List.map_flatMap] at hfold
  refine hfold.trans ?_
  rw [List.flatMap_def, List.sum_flatten, List.map_map]
  rfl

/-! ## Effort that fits -/

/-- The efforts of commits are told if that of each commit fits. -/
theorem WellFormed.commitEfforts?_eq_some_iff (h : g.WellFormed) {efforts : NameMap Nat} :
    g.commitEfforts? blacklist = some efforts ↔
      (∀ info ∈ g.commits, g.commitEffort blacklist info.hash ≤ maxCount) ∧
        g.commitEfforts blacklist = efforts := by
  rw [commitEfforts?, fitting_eq_some_iff, List.all_eq_true]
  refine and_congr_left fun _ => ?_
  constructor
  · intro hfits info hinfo
    have hget : (g.commitEfforts blacklist).get? info.hash = _ := h.get?_commitEfforts info.hash
    rw [if_pos (hasCommit_iff.2 (List.mem_map_of_mem hinfo))] at hget
    exact of_decide_eq_true (hfits _ (NameMap.mem_values_iff.2 ⟨_, hget⟩))
  · intro hfits n hn
    obtain ⟨hash, hget⟩ := NameMap.mem_values_iff.1 hn
    rw [h.get?_commitEfforts] at hget
    split at hget
    · rename_i hhash
      cases hget
      obtain ⟨info, hinfo, rfl⟩ := List.mem_map.1 (hasCommit_iff.1 hhash)
      exact decide_eq_true (hfits info hinfo)
    · cases hget

theorem nodeEffort_of_node? {name : String} {node : FunctionNode}
    (h : g.node? name = some node) (blacklist : Blacklist) :
    g.nodeEffort name blacklist =
      Halt.ofFitting (fitting (countFits (node.effort blacklist)) (node.effort blacklist)) := by
  rw [nodeEffort, h]
  rfl

theorem nodeEfforts_of_node? {name : String} {node : FunctionNode}
    (h : g.node? name = some node) (blacklist : Blacklist) :
    g.nodeEfforts name blacklist =
      Halt.ofFitting (fitting ((node.efforts blacklist).values.all countFits)
        (node.efforts blacklist)) := by
  rw [nodeEfforts, h]
  rfl

theorem effortsFit_iff :
    g.effortsFit blacklist = true ↔
      ∀ node ∈ g.nodes, total (node.efforts blacklist).values ≤ maxCount := by
  rw [effortsFit, List.all_eq_true]
  refine forall₂_congr fun node _ => ?_
  have hone : 1 ≤ maxCount := by decide
  rw [countFits, decide_eq_true_eq, FunctionNode.effort, max_le_iff, and_iff_left hone]

end CallGraph

/-! ## Effort and churn -/

theorem ChangeStats.churn_eq_effort (s : ChangeStats) :
    (if s.hasUnits then HistoryMode.logicalUnits else .lines).churn s = s.effort := by
  obtain ⟨adds, dels, added, removed⟩ := s
  cases added <;> cases removed <;> rfl

namespace CallGraph

variable {g : CallGraph} {measured : Bool}

/-- All entries have logical units, or none has. -/
def Uniform (g : CallGraph) (measured : Bool) : Prop :=
  ∀ node ∈ g.nodes, ∀ s ∈ node.history.values, s.hasUnits = measured

instance (g : CallGraph) (measured : Bool) : Decidable (g.Uniform measured) :=
  inferInstanceAs (Decidable (∀ node ∈ g.nodes, ∀ s ∈ node.history.values, _ = _))

/-- The first entry chooses the measure that the others have. -/
theorem Uniform.churn_eq_effort (h : g.Uniform measured) {node : FunctionNode}
    (hnode : node ∈ g.nodes) {s : ChangeStats} (hs : s ∈ node.history.values) :
    (HistoryMode.resolve g).churn s = s.effort := by
  have hall : ∀ t ∈ g.nodes.flatMap fun node => node.history.values, t.hasUnits = measured := by
    intro t ht
    obtain ⟨node', hnode', ht⟩ := List.mem_flatMap.1 ht
    exact h node' hnode' t ht
  have hmem : s ∈ g.nodes.flatMap fun node => node.history.values :=
    List.mem_flatMap.2 ⟨node, hnode, hs⟩
  rw [← s.churn_eq_effort, h node hnode s hs, HistoryMode.resolve]
  cases hfirst : (g.nodes.flatMap fun node => node.history.values).head? with
  | none =>
    rw [List.head?_eq_none_iff] at hfirst
    rw [hfirst] at hmem
    cases hmem
  | some first =>
    dsimp only
    rw [hall first (List.mem_of_head? hfirst)]

/-- **The churn of a graph is the effort of its functions**, if all entries are measured alike. -/
theorem Uniform.churn_eq (h : g.Uniform measured) (blacklist : Blacklist) :
    g.churn (HistoryMode.resolve g) blacklist =
      (g.nodes.map fun node => total (node.efforts blacklist).values).sum := by
  rw [churn, total_eq_sum, List.flatMap_def, List.sum_flatten, List.map_map]
  refine congrArg List.sum (List.map_congr_left fun node hnode => ?_)
  rw [FunctionNode.efforts, NameMap.values_map, total_eq_sum]
  refine congrArg List.sum (List.map_congr_left fun s hs => h.churn_eq_effort hnode ?_)
  exact (List.filter_sublist.map _).subset hs

end CallGraph

end EffortRank
