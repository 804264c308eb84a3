import EffortRank.Proofs.Graph.Registration
import EffortRank.Proofs.Rank.Distribution
import EffortRank.Proofs.Rank.Keys

/-!
# Shares of the ranks

What a commit earns of a function stands in a table of tables. `CallGraph.share?` looks into it, and
finds for every function the share that its node gives the commit
(`CallGraph.WellFormed.share?_commitShares`). The shares of one function add up to its rank
(`CallGraph.WellFormed.sum_share?`), and since every commit of a history is registered, once, all
that the functions give is earned by commits and by developers
(`CallGraph.effortRanks_distributed`).
-/

namespace EffortRank

namespace CallGraph

variable {g : CallGraph}

/-! ## Ranks of functions -/

theorem WellFormed.exists_functionRank (h : g.WellFormed) (config : RankConfig ℚ)
    (blacklist : Blacklist) {node : FunctionNode} (hnode : node ∈ g.nodes) :
    ∃ rank, (g.functionRanks config blacklist).get? node.name = some rank := by
  have hmem := (h.keys_functionRanks config blacklist).mem_iff.2 (List.mem_map_of_mem hnode)
  exact Option.isSome_iff_exists.1 (NameMap.mem_keys_iff.1 hmem)

/-! ## Shares of one function -/

/-- The shares of a function divide up its rank, if any effort went into it. -/
theorem sum_shares (node : FunctionNode) (rank : ℚ) (blacklist : Blacklist) :
    (shares node rank blacklist).values.sum =
      if 0 < total (node.efforts blacklist).values then rank else 0 := by
  have hvalues : (shares node rank blacklist).values =
      (node.efforts blacklist).values.map fun effort : Nat =>
        rank / (node.effort blacklist : ℚ) * (effort : ℚ) := by
    rw [shares, NameMap.values, NameMap.map, NameMap.values, List.map_map, List.map_map]
    exact List.map_congr_left fun e _ => mul_div_right_comm _ _ _
  rw [hvalues, List.sum_map_mul_left, ← Nat.cast_list_sum, ← total_eq_sum]
  split_ifs with hpos
  · have heffort : node.effort blacklist = total (node.efforts blacklist).values :=
      max_eq_left hpos
    rw [heffort]
    exact div_mul_cancel₀ rank (Nat.cast_ne_zero.2 hpos.ne')
  · rw [Nat.eq_zero_of_not_pos hpos, Nat.cast_zero, mul_zero]

/-! ## The table of shares -/

/-- What a commit earns of a function. -/
def share? (split : NameMap (NameMap ℚ)) (hash name : String) : Option ℚ :=
  (split.get? hash).bind fun functions => functions.get? name

theorem get?_getD_get? (split : NameMap (NameMap ℚ)) (hash name : String) :
    ((split.get? hash).getD .empty).get? name = share? split hash name := by
  rw [share?]
  cases split.get? hash <;> rfl

theorem share?_alter (split : NameMap (NameMap ℚ)) (hash name : String) (v : ℚ)
    (hash' name' : String) :
    share? (split.alter hash fun old => (old.getD .empty).insert name v) hash' name' =
      if hash' = hash ∧ name' = name then some v else share? split hash' name' := by
  rw [share?, NameMap.get?_alter, share?]
  by_cases hhash : hash' = hash
  · subst hhash
    rw [if_pos rfl, Option.bind_some, NameMap.get?_insert]
    simp only [true_and]
    cases split.get? hash' <;> rfl
  · rw [if_neg hhash, if_neg fun h => hhash h.1]

/-- Each entry is found where it was put, if no two are put in one place. -/
theorem share?_foldl {es : List (String × String × ℚ)} {split : NameMap (NameMap ℚ)}
    (h : (es.map fun e => (e.1, e.2.1)).Nodup) {hash name : String} {v : ℚ} :
    share? (es.foldl (fun split e => split.alter e.1 fun old =>
        (old.getD .empty).insert e.2.1 e.2.2) split) hash name = some v ↔
      (hash, name, v) ∈ es ∨
        (hash, name) ∉ es.map (fun e => (e.1, e.2.1)) ∧ share? split hash name = some v := by
  induction es generalizing split with
  | nil => simp
  | cons e es ih =>
    rw [List.map_cons, List.nodup_cons] at h
    rw [List.foldl_cons, ih h.2, share?_alter, List.mem_cons, List.map_cons, List.mem_cons]
    by_cases hplace : hash = e.1 ∧ name = e.2.1
    · -- The first entry stands in this place, and no later one is put there.
      obtain ⟨rfl, rfl⟩ := hplace
      have hnew : (e.1, e.2.1, v) ∉ es := by
        intro hmem
        exact h.1 (List.mem_map.2 ⟨_, hmem, rfl⟩)
      simp [h.1, hnew, Prod.ext_iff, eq_comm]
    · have hplace' : (hash, name) ≠ (e.1, e.2.1) := by
        intro heq
        exact hplace (Prod.ext_iff.1 heq)
      have hother : (hash, name, v) ≠ e := by
        rintro rfl
        exact hplace ⟨rfl, rfl⟩
      simp [hplace, hother, hplace']

/-- What the functions give the commits of their histories. -/
def given (g : CallGraph) (functions : NameMap ℚ) (blacklist : Blacklist) :
    List (String × String × ℚ) :=
  g.nodes.flatMap fun node =>
    (shares node ((functions.get? node.name).getD 0) blacklist).entries.map fun e =>
      (e.1, node.name, e.2)

variable {functions : NameMap ℚ} {blacklist : Blacklist}

theorem mem_given_iff {hash name : String} {v : ℚ} :
    (hash, name, v) ∈ g.given functions blacklist ↔
      ∃ node ∈ g.nodes, node.name = name ∧
        (shares node ((functions.get? name).getD 0) blacklist).get? hash = some v := by
  rw [given, List.mem_flatMap]
  refine exists_congr fun node => and_congr_right fun _ => ?_
  rw [List.mem_map]
  constructor
  · rintro ⟨⟨_, _⟩, he, heq⟩
    cases heq
    exact ⟨rfl, NameMap.mem_entries_iff.1 he⟩
  · rintro ⟨rfl, hget⟩
    exact ⟨_, NameMap.mem_entries_iff.2 hget, rfl⟩

/-- No function gives a commit two shares, and no two functions have one name. -/
theorem WellFormed.nodup_given (h : g.WellFormed) (functions : NameMap ℚ) (blacklist : Blacklist) :
    ((g.given functions blacklist).map fun e => (e.1, e.2.1)).Nodup := by
  have hplaces : (g.given functions blacklist).map (fun e => (e.1, e.2.1)) =
      g.nodes.flatMap fun node =>
        (shares node ((functions.get? node.name).getD 0) blacklist).keys.map fun hash =>
          (hash, node.name) := by
    rw [given, List.map_flatMap]
    refine List.flatMap_congr fun node _ => ?_
    rw [NameMap.keys, List.map_map, List.map_map]
    rfl
  rw [hplaces, List.nodup_flatMap]
  constructor
  · intro node _
    exact (NameMap.nodup_keys _).map fun hash hash' heq => (Prod.ext_iff.1 heq).1
  · refine (List.pairwise_map.1 h.names).imp fun {node node'} hne => ?_
    rw [Function.onFun, List.disjoint_left]
    intro place hplace hplace'
    obtain ⟨_, -, rfl⟩ := List.mem_map.1 hplace
    obtain ⟨_, -, heq⟩ := List.mem_map.1 hplace'
    exact hne (Prod.ext_iff.1 heq).2.symm

theorem commitShares_eq (g : CallGraph) (functions : NameMap ℚ) (blacklist : Blacklist) :
    g.commitShares functions blacklist =
      (g.given functions blacklist).foldl (fun split e => split.alter e.1 fun old =>
        (old.getD .empty).insert e.2.1 e.2.2)
          (.ofList (g.commits.map fun info => (info.hash, .empty))) := by
  rw [commitShares, given]
  simp only [Scalar.zero_eq]

theorem WellFormed.share?_eq_some_iff (h : g.WellFormed) {hash name : String} {v : ℚ} :
    share? (g.commitShares functions blacklist) hash name = some v ↔
      (hash, name, v) ∈ g.given functions blacklist := by
  have hkeys : ((g.commits.map fun info => (info.hash, (.empty : NameMap ℚ))).map (·.1)).Nodup := by
    rw [List.map_map]
    exact h.hashes
  have hnothing : share? (.ofList (g.commits.map fun info => (info.hash, .empty))) hash name =
      none := by
    rw [share?, Option.bind_eq_none_iff]
    intro earned hearned
    obtain ⟨info, -, heq⟩ := List.mem_map.1 ((NameMap.get?_ofList_eq_some_iff hkeys).1 hearned)
    cases heq
    rfl
  rw [commitShares_eq, share?_foldl (h.nodup_given functions blacklist), hnothing]
  simp

theorem WellFormed.exists_of_share? (h : g.WellFormed) {hash name : String} {v : ℚ}
    (hshare : share? (g.commitShares functions blacklist) hash name = some v) :
    ∃ node ∈ g.nodes, node.name = name := by
  obtain ⟨node, hnode, hname, -⟩ := mem_given_iff.1 (h.share?_eq_some_iff.1 hshare)
  exact ⟨node, hnode, hname⟩

/-- **The table holds the shares of every function.** -/
theorem WellFormed.share?_commitShares (h : g.WellFormed) {node : FunctionNode}
    (hnode : node ∈ g.nodes) (hash : String) :
    share? (g.commitShares functions blacklist) hash node.name =
      (shares node ((functions.get? node.name).getD 0) blacklist).get? hash := by
  apply Option.ext
  intro v
  rw [h.share?_eq_some_iff, mem_given_iff]
  constructor
  · rintro ⟨node', hnode', hname, hget⟩
    rw [List.inj_on_of_nodup_map h.names hnode' hnode hname] at hget
    exact hget
  · intro hget
    exact ⟨node, hnode, rfl, hget⟩

/-! ## What is earned -/

/-- The names of the functions. -/
def functionNames (g : CallGraph) : Finset String := (g.nodes.map FunctionNode.name).toFinset

/-- The hashes of the registered commits. -/
def commitHashes (g : CallGraph) : Finset String := (g.commits.map CommitInfo.hash).toFinset

theorem mem_commitHashes_iff {hash : String} : hash ∈ g.commitHashes ↔ g.hasCommit hash = true := by
  rw [commitHashes, List.mem_toFinset, hasCommit_iff]

/-- A sum over the names of the functions is one over the functions. -/
theorem WellFormed.sum_functionNames (h : g.WellFormed) (F : String → ℚ) :
    ∑ name ∈ g.functionNames, F name = (g.nodes.map fun node => F node.name).sum := by
  rw [functionNames, List.sum_toFinset _ h.names, List.map_map]
  rfl

theorem WellFormed.keys_commitShares_subset (h : g.WellFormed) :
    ∀ hash ∈ (g.commitShares functions blacklist).keys, hash ∈ g.commitHashes := by
  intro hash hhash
  exact mem_commitHashes_iff.2 (h.mem_keys_commitShares.1 hhash)

/-- **The shares of a function add up to its rank**, if any effort went into it. -/
theorem WellFormed.sum_share? (h : g.WellFormed) {node : FunctionNode} (hnode : node ∈ g.nodes) :
    ∑ hash ∈ g.commitHashes, (share? (g.commitShares functions blacklist) hash node.name).getD 0 =
      if 0 < total (node.efforts blacklist).values then (functions.get? node.name).getD 0
      else 0 := by
  have hkeys : ∀ hash ∈ (shares node ((functions.get? node.name).getD 0) blacklist).keys,
      hash ∈ g.commitHashes := by
    intro hash hhash
    rw [keys_shares, FunctionNode.mem_keys_efforts] at hhash
    exact mem_commitHashes_iff.2 (h.history_known node hnode hash hhash.2)
  rw [← sum_shares, NameMap.sum_values hkeys]
  exact Finset.sum_congr rfl fun hash _ => by rw [h.share?_commitShares hnode]

/-- Of a function that is not there nothing is earned. -/
theorem WellFormed.sum_share?_of_not_contains (h : g.WellFormed) {name : String}
    (hname : g.contains name = false) :
    ∑ hash ∈ g.commitHashes, (share? (g.commitShares functions blacklist) hash name).getD 0 =
      0 := by
  apply Finset.sum_eq_zero
  intro hash _
  cases hshare : share? (g.commitShares functions blacklist) hash name with
  | none => rfl
  | some v =>
    obtain ⟨node, hnode, rfl⟩ := h.exists_of_share? hshare
    rw [contains_iff.2 (List.mem_map_of_mem hnode)] at hname
    cases hname

/-- What all commits earn of a function. -/
theorem WellFormed.sum_earned (h : g.WellFormed) (name : String) :
    ((g.commitShares functions blacklist).values.map fun earned => (earned.get? name).getD 0).sum =
      ∑ hash ∈ g.commitHashes, (share? (g.commitShares functions blacklist) hash name).getD 0 := by
  rw [NameMap.sum_values_eq _ h.keys_commitShares_subset]
  apply Finset.sum_congr rfl
  intro hash _
  rw [share?]
  cases (g.commitShares functions blacklist).get? hash <;> rfl

theorem get?_commitRanks (split : NameMap (NameMap ℚ)) (hash : String) :
    (commitRanks split).get? hash = (split.get? hash).map fun earned => earned.values.sum := by
  rw [commitRanks, NameMap.get?_map]
  simp only [Scalar.sum_eq]

theorem getD_get?_commitRanks (split : NameMap (NameMap ℚ)) (hash : String) :
    ((commitRanks split).get? hash).getD 0 = ((split.get? hash).getD .empty).values.sum := by
  rw [get?_commitRanks]
  cases split.get? hash <;> rfl

/-- What a commit earns of all functions. -/
theorem WellFormed.getD_commitRanks (h : g.WellFormed) (hash : String) :
    ((commitRanks (g.commitShares functions blacklist)).get? hash).getD 0 =
      ∑ name ∈ g.functionNames, (share? (g.commitShares functions blacklist) hash name).getD 0 := by
  have hkeys : ∀ name ∈ (((g.commitShares functions blacklist).get? hash).getD .empty).keys,
      name ∈ g.functionNames := by
    intro name hname
    rw [NameMap.mem_keys_iff, get?_getD_get?, Option.isSome_iff_exists] at hname
    obtain ⟨v, hshare⟩ := hname
    obtain ⟨node, hnode, rfl⟩ := h.exists_of_share? hshare
    exact List.mem_toFinset.2 (List.mem_map_of_mem hnode)
  rw [getD_get?_commitRanks, NameMap.sum_values hkeys]
  simp only [get?_getD_get?]

/-- **Commits earn the ranks of the functions** that any effort went into. -/
theorem WellFormed.sum_commitRanks (h : g.WellFormed) :
    (commitRanks (g.commitShares functions blacklist)).values.sum =
      ((g.nodes.filter fun node => 0 < total (node.efforts blacklist).values).map fun node =>
        (functions.get? node.name).getD 0).sum := by
  have hkeys : ∀ hash ∈ (commitRanks (g.commitShares functions blacklist)).keys,
      hash ∈ g.commitHashes := by
    intro hash hhash
    exact h.keys_commitShares_subset hash (mem_keys_commitRanks.1 hhash)
  calc (commitRanks (g.commitShares functions blacklist)).values.sum
      = ∑ hash ∈ g.commitHashes, ∑ name ∈ g.functionNames,
          (share? (g.commitShares functions blacklist) hash name).getD 0 := by
        rw [NameMap.sum_values hkeys]
        exact Finset.sum_congr rfl fun hash _ => h.getD_commitRanks hash
    _ = ∑ name ∈ g.functionNames, ∑ hash ∈ g.commitHashes,
          (share? (g.commitShares functions blacklist) hash name).getD 0 := Finset.sum_comm
    _ = (g.nodes.map fun node =>
          if 0 < total (node.efforts blacklist).values then (functions.get? node.name).getD 0
          else 0).sum := by
        rw [h.sum_functionNames]
        exact congrArg List.sum (List.map_congr_left fun node hnode => h.sum_share? hnode)
    _ = _ := by
        rw [List.sum_map_ite, List.map_const', List.sum_replicate, smul_zero, add_zero]

/-! ## Developers -/

/-- The developer of a commit, by the e-mail address it was registered with last. -/
def developer? (g : CallGraph) (hash : String) : Option String :=
  (g.commit? hash).map CommitInfo.authorEmail

theorem WellFormed.developer?_of_mem (h : g.WellFormed) {info : CommitInfo}
    (hinfo : info ∈ g.commits) : g.developer? info.hash = some info.authorEmail := by
  have hfound : g.commit? info.hash = some info :=
    (find?_eq_some_iff_of_nodup h.hashes).2 ⟨hinfo, rfl⟩
  rw [developer?, hfound, Option.map_some]

/-- The e-mail addresses of the registered commits. -/
def emails (g : CallGraph) : Finset String := (g.commits.map CommitInfo.authorEmail).toFinset

section Developers

variable {commits : NameMap ℚ} (hcommits : ∀ hash, hash ∈ commits.keys ↔ g.hasCommit hash = true)

include hcommits

/-- A developer earns what their commits earn. -/
theorem WellFormed.getD_developerRanks (h : g.WellFormed) (email : String) :
    ((g.developerRanks commits).get? email).getD 0 =
      ∑ hash ∈ g.commitHashes,
        if g.developer? hash = some email then (commits.get? hash).getD 0 else 0 := by
  rw [developerRanks_eq hcommits]
  simp only [Scalar.zero_eq]
  rw [NameMap.getD_get?_foldl_alter_add, NameMap.get?_empty,
    Option.getD_none, zero_add, commitHashes, List.sum_toFinset _ h.hashes, List.map_map]
  refine congrArg List.sum (List.map_congr_left fun info hinfo => ?_)
  rw [Function.comp_apply, h.developer?_of_mem hinfo]
  simp only [Option.some_inj]

theorem mem_emails_of_mem_keys {email : String} (h : email ∈ (g.developerRanks commits).keys) :
    email ∈ g.emails :=
  List.mem_toFinset.2 ((mem_keys_developerRanks hcommits).1 h)

/-- **Developers earn what the commits earn**, since every commit has one developer. -/
theorem WellFormed.sum_developerRanks (h : g.WellFormed) :
    (g.developerRanks commits).values.sum = commits.values.sum := by
  have hhashes : ∀ hash ∈ commits.keys, hash ∈ g.commitHashes := by
    intro hash hhash
    exact mem_commitHashes_iff.2 ((hcommits hash).1 hhash)
  have hone : ∀ hash ∈ g.commitHashes,
      (∑ email ∈ g.emails, if g.developer? hash = some email then (commits.get? hash).getD 0
        else 0) = (commits.get? hash).getD 0 := by
    intro hash hhash
    obtain ⟨info, hinfo, rfl⟩ := List.mem_map.1 (List.mem_toFinset.1 hhash)
    have hemail : info.authorEmail ∈ g.emails := List.mem_toFinset.2 (List.mem_map_of_mem hinfo)
    rw [h.developer?_of_mem hinfo]
    simp only [Option.some_inj]
    rw [Finset.sum_ite_eq, if_pos hemail]
  calc (g.developerRanks commits).values.sum
      = ∑ email ∈ g.emails, ∑ hash ∈ g.commitHashes,
          if g.developer? hash = some email then (commits.get? hash).getD 0 else 0 := by
        rw [NameMap.sum_values fun email => mem_emails_of_mem_keys hcommits]
        exact Finset.sum_congr rfl fun email _ => h.getD_developerRanks hcommits email
    _ = ∑ hash ∈ g.commitHashes, ∑ email ∈ g.emails,
          if g.developer? hash = some email then (commits.get? hash).getD 0 else 0 :=
        Finset.sum_comm
    _ = ∑ hash ∈ g.commitHashes, (commits.get? hash).getD 0 := Finset.sum_congr rfl hone
    _ = commits.values.sum := (NameMap.sum_values hhashes).symm

/-- What the commits of a developer earn. -/
theorem sum_filter_developer (email : String) :
    (commits.filter fun hash _ => g.developer? hash = some email).values.sum =
      ∑ hash ∈ g.commitHashes,
        if g.developer? hash = some email then (commits.get? hash).getD 0 else 0 := by
  have hkeys : ∀ hash ∈ (commits.filter fun hash _ => g.developer? hash = some email).keys,
      hash ∈ g.commitHashes := by
    intro hash hhash
    rw [NameMap.mem_keys_iff, NameMap.get?_filter] at hhash
    exact mem_commitHashes_iff.2 ((hcommits hash).1
      (NameMap.mem_keys_iff.2 (Option.isSome_of_isSome_filter _ _ hhash)))
  rw [NameMap.sum_values hkeys]
  apply Finset.sum_congr rfl
  intro hash _
  rw [NameMap.get?_filter]
  cases commits.get? hash with
  | none => simp
  | some rank =>
    by_cases hemail : g.developer? hash = some email
    · simp [Option.filter_some, hemail]
    · simp [hemail]

end Developers

/-! ## All ranks -/

/-- **The ranks of the functions are distributed to the last**, over commits and over developers. On
every graph that requests lead to, the shares of a function with effort that counts add up to its
rank, and all other shares to zero. A commit earns its shares. A developer earns the commits that
were registered last with their e-mail address, so that all developers together earn what all
commits do: the ranks of the functions with effort that counts. These are the ranks that
`effortRanks?` has wherever the efforts fit. -/
theorem effortRanks_distributed (requests : List GraphRequest) (config : RankConfig ℚ)
    (blacklist : Blacklist) :
    let g := empty.run requests
    let ranks := g.effortRanks config blacklist
    (∀ node ∈ g.nodes, ∃ rank, ranks.functions.get? node.name = some rank ∧
      (ranks.commitFunctions.values.map fun earned => (earned.get? node.name).getD 0).sum =
        if 0 < total (node.efforts blacklist).values then rank else 0) ∧
      (∀ name, g.contains name = false →
        (ranks.commitFunctions.values.map fun earned => (earned.get? name).getD 0).sum = 0) ∧
      (∀ hash, ranks.commits.get? hash =
        (ranks.commitFunctions.get? hash).map fun earned => earned.values.sum) ∧
      (∀ hash, hash ∈ ranks.commits.keys ↔
        (latest? (registrations requests) hash).isSome = true) ∧
      (∀ email, (ranks.developers.get? email).getD 0 =
        (ranks.commits.filter fun hash _ =>
          (latest? (registrations requests) hash).map CommitInfo.authorEmail =
            some email).values.sum) ∧
      ranks.developers.values.sum = ranks.commits.values.sum ∧
      ranks.developers.values.sum =
        ((g.nodes.filter fun node => 0 < total (node.efforts blacklist).values).map fun node =>
          (ranks.functions.get? node.name).getD 0).sum := by
  intro g ranks
  have h : g.WellFormed := WellFormed.empty.run requests
  have hcommits : ∀ hash, hash ∈ ranks.commits.keys ↔ g.hasCommit hash = true := by
    intro hash
    exact mem_keys_commitRanks.trans h.mem_keys_commitShares
  have hlatest : ∀ hash, g.commit? hash = latest? (registrations requests) hash :=
    commit?_run requests
  have hdeveloper : ∀ hash, g.developer? hash =
      (latest? (registrations requests) hash).map CommitInfo.authorEmail := by
    intro hash
    rw [developer?, hlatest]
  have hdevelopers : ranks.developers.values.sum = ranks.commits.values.sum :=
    h.sum_developerRanks hcommits
  refine ⟨?_, ?_, get?_commitRanks _, ?_, ?_, hdevelopers, hdevelopers.trans h.sum_commitRanks⟩
  · intro node hnode
    obtain ⟨rank, hrank⟩ := h.exists_functionRank config blacklist hnode
    refine ⟨rank, hrank, (h.sum_earned node.name).trans ((h.sum_share? hnode).trans ?_)⟩
    rw [hrank, Option.getD_some]
  · intro name hname
    exact (h.sum_earned name).trans (h.sum_share?_of_not_contains hname)
  · intro hash
    rw [hcommits, hasCommit, hlatest]
  · intro email
    simp only [← hdeveloper]
    exact (h.getD_developerRanks hcommits email).trans (sum_filter_developer hcommits email).symm

end CallGraph

end EffortRank
