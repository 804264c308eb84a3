import EffortRank.Proofs.Churn.Merging
import EffortRank.Proofs.Graph.Reloading
import Mathlib.Data.List.TakeWhile
import Mathlib.Data.String.Basic

/-!
# Loading normalizes a saved form

A saved form may list a commit, a function or a call more than once, and may name some that it does
not list. Loading refuses it for the first thing that is wrong with it (`GraphData.offence?`), and
otherwise keeps each commit, function and call where it comes first (`NormalForm`): the last
description of a commit, the last stamp of a call, and all files and records of a function. Records
of one function and commit are added up, so that a form whose counts are too large is neither loaded
nor refused (`JoinsFit`).

The lists are folded into the graph with `put`, of which `find?_foldl_put` and `map_foldl_put` say
what is found under a key and where it stands; `CallGraph.Holds` says this of functions, whose
entries are joined. `CallGraph.ofData_normalizes` puts the three lists together.
-/

namespace EffortRank

/-! ## Keys in the order in which they come -/

section

variable {α κ : Type} [BEq κ] [LawfulBEq κ] {key : α → κ}

/-- Each key stands where it came first. -/
theorem map_updateOrAppend_of_eraseDups {change : α → α} {fresh : α} {k : κ} {xs : List α}
    {ks : List κ} (hchange : ∀ x, key x = k → key (change x) = k) (hfresh : key fresh = k)
    (h : xs.map key = ks.eraseDups) :
    (updateOrAppend (fun x => key x == k) change fresh xs).map key = (ks ++ [k]).eraseDups := by
  rw [map_updateOrAppend hchange hfresh, h, List.eraseDups_append]
  simp only [List.mem_eraseDups]
  by_cases hk : k ∈ ks
  · simp [List.removeAll, hk]
  · simp [List.removeAll, hk, List.eraseDups_cons]

theorem map_foldl_put {xs ys : List α} {ks : List κ} (h : ys.map key = ks.eraseDups) :
    (xs.foldl (put key) ys).map key = (ks ++ xs.map key).eraseDups := by
  induction xs generalizing ys ks with
  | nil => rw [List.map_nil, List.append_nil, List.foldl_nil, h]
  | cons x xs ih =>
    rw [List.foldl_cons, List.map_cons, List.append_cons]
    exact ih (map_updateOrAppend_of_eraseDups (fun _ _ => rfl) rfl h)

theorem map_foldl_put_nil (xs : List α) :
    (xs.foldl (put key) []).map key = (xs.map key).eraseDups := by
  have hempty : ([] : List α).map key = ([] : List κ).eraseDups := rfl
  exact map_foldl_put hempty

theorem nodup_map_foldl_put (xs : List α) : ((xs.foldl (put key) []).map key).Nodup :=
  List.foldlRecOn (motive := fun ys => (ys.map key).Nodup) xs (put key) List.nodup_nil
    fun _ hys _ _ => nodup_map_updateOrAppend (fun _ _ => rfl) rfl hys

theorem nodup_eraseDups (ks : List κ) : ks.eraseDups.Nodup := by
  have hkeys : (ks.foldl (put id) []).map id = (ks.map id).eraseDups := map_foldl_put_nil ks
  rw [List.map_id, List.map_id] at hkeys
  rw [← hkeys, ← List.map_id (ks.foldl (put id) [])]
  exact nodup_map_foldl_put ks

/-- Every element is the last with its key. -/
theorem lastWith?_of_mem [DecidableEq κ] {xs : List α} {y : α}
    (h : y ∈ xs.foldl (put key) []) : lastWith? key xs (key y) = some y := by
  have hfound := (find?_eq_some_iff_of_nodup (nodup_map_foldl_put xs)).2 ⟨h, rfl⟩
  rw [find?_foldl_put, List.find?_nil, Option.or_none] at hfound
  exact hfound

end

/-! ## Saved forms -/

namespace GraphData

/-- The commits that are listed. -/
def hashes (data : GraphData) : List String := data.commits.map CommitInfo.hash

/-- The functions that are listed. -/
def names (data : GraphData) : List String := data.nodes.map FunctionNode.name

/-- All that is named is listed: the commits of histories and stamps, and the ends of calls. -/
structure Consistent (data : GraphData) : Prop where
  histories : ∀ node ∈ data.nodes, ∀ hash ∈ node.history.keys, hash ∈ data.hashes
  stamps : ∀ e ∈ data.edges, ∀ hash, e.addedBy = some hash → hash ∈ data.hashes
  ends : ∀ e ∈ data.edges, e.caller ∈ data.names ∧ e.callee ∈ data.names

/-- What is wrong with a function: the smallest commit of its history that is not listed. -/
def nodeOffence? (data : GraphData) (node : FunctionNode) : Option GraphError :=
  (node.history.keys.filter fun hash => hash ∉ data.hashes).min?.map .unknownCommit

/-- What is wrong with a call: its stamp that is not listed, or else its caller, or else its
callee. -/
def edgeOffence? (data : GraphData) (e : CallEdge) : Option GraphError :=
  ((e.addedBy.filter fun hash => hash ∉ data.hashes).map .unknownCommit).or
    (([e.caller, e.callee].find? fun name => name ∉ data.names).map .unknownNode)

/-- The first thing that is wrong, with the functions and then with the calls. -/
def offence? (data : GraphData) : Option GraphError :=
  (data.nodes.findSome? data.nodeOffence?).or (data.edges.findSome? data.edgeOffence?)

/-- The functions in front of the first one with which something is wrong. -/
def soundNodes (data : GraphData) : List FunctionNode :=
  data.nodes.takeWhile fun node => (data.nodeOffence? node).isNone

end GraphData

/-- What is recorded of a function and a commit, in all places where the function is listed. -/
def recordsOf (nodes : List FunctionNode) (name hash : String) : List ChangeStats :=
  (nodes.filter fun node => node.name = name).filterMap fun node => node.history.get? hash

/-- All these records together. -/
def joined? (nodes : List FunctionNode) (name hash : String) : Option ChangeStats :=
  ((recordsOf nodes name hash).map some).foldl (Option.merge ChangeStats.merge) none

/-- Wherever records are added up, the sums fit. -/
def JoinsFit (nodes : List FunctionNode) : Prop :=
  ∀ name hash stats, 1 < (recordsOf nodes name hash).length →
    joined? nodes name hash = some stats → stats.fits = true

/-- The lists of `form` are those of `data`, with each commit, function and call once, where it
comes first. A commit has its last description and a call its last stamp. A function has all files
and all records that are listed for it. -/
structure NormalForm (data form : GraphData) : Prop where
  hashes : form.hashes = data.hashes.eraseDups
  commits : ∀ info ∈ form.commits, lastWith? CommitInfo.hash data.commits info.hash = some info
  names : form.names = data.names.eraseDups
  files : ∀ node ∈ form.nodes, ∀ file, file ∈ node.files.keys ↔
    ∃ listed ∈ data.nodes, listed.name = node.name ∧ file ∈ listed.files.keys
  histories : ∀ node ∈ form.nodes, ∀ hash,
    node.history.get? hash = joined? data.nodes node.name hash
  ends : form.edges.map CallEdge.ends = (data.edges.map CallEdge.ends).eraseDups
  stamps : ∀ e ∈ form.edges, lastWith? CallEdge.ends data.edges e.ends = some e

namespace GraphData

variable {data : GraphData}

theorem nodeOffence?_eq_none_iff {node : FunctionNode} :
    data.nodeOffence? node = none ↔ ∀ hash ∈ node.history.keys, hash ∈ data.hashes := by
  rw [nodeOffence?, Option.map_eq_none_iff, List.min?_eq_none_iff, List.filter_eq_nil_iff]
  simp

theorem edgeOffence?_eq_none_iff {e : CallEdge} :
    data.edgeOffence? e = none ↔ (∀ hash, e.addedBy = some hash → hash ∈ data.hashes) ∧
      e.caller ∈ data.names ∧ e.callee ∈ data.names := by
  rw [edgeOffence?, Option.or_eq_none_iff, Option.map_eq_none_iff, Option.map_eq_none_iff,
    Option.filter_eq_none_iff, List.find?_eq_none]
  simp

theorem offence?_eq_none_iff : data.offence? = none ↔ data.Consistent := by
  rw [offence?, Option.or_eq_none_iff, List.findSome?_eq_none_iff, List.findSome?_eq_none_iff]
  simp only [nodeOffence?_eq_none_iff, edgeOffence?_eq_none_iff]
  constructor
  · rintro ⟨hnodes, hedges⟩
    exact ⟨hnodes, fun e he => (hedges e he).1, fun e he => (hedges e he).2⟩
  · rintro ⟨hhistories, hstamps, hends⟩
    exact ⟨hhistories, fun e he => ⟨hstamps e he, hends e he⟩⟩

end GraphData

/-! ## Records that are added up -/

theorem recordsOf_append (xs ys : List FunctionNode) (name hash : String) :
    recordsOf (xs ++ ys) name hash = recordsOf xs name hash ++ recordsOf ys name hash := by
  rw [recordsOf, List.filter_append, List.filterMap_append]
  rfl

theorem recordsOf_append_singleton (nodes : List FunctionNode) (node : FunctionNode)
    (name hash : String) : recordsOf (nodes ++ [node]) name hash =
      recordsOf nodes name hash ++
        if name = node.name then (node.history.get? hash).toList else [] := by
  rw [recordsOf_append]
  congr 1
  rw [recordsOf]
  by_cases hname : name = node.name
  · cases hget : node.history.get? hash with
    | none => simp [hname, hget]
    | some s => simp [hname, hget]
  · simp [hname, Ne.symm hname]

theorem joined?_append (xs ys : List FunctionNode) (name hash : String) :
    joined? (xs ++ ys) name hash = ((recordsOf ys name hash).map some).foldl
      (Option.merge ChangeStats.merge) (joined? xs name hash) := by
  rw [joined?, recordsOf_append, List.map_append, List.foldl_append]
  rfl

theorem joined?_append_singleton (nodes : List FunctionNode) (node : FunctionNode)
    (name hash : String) : joined? (nodes ++ [node]) name hash =
      if name = node.name then
        Option.merge ChangeStats.merge (joined? nodes name hash) (node.history.get? hash)
      else joined? nodes name hash := by
  rw [joined?, recordsOf_append_singleton, List.map_append, List.foldl_append, ← joined?]
  by_cases hname : name = node.name
  · rw [if_pos hname, if_pos hname]
    cases node.history.get? hash with
    | none => simp
    | some s => rfl
  · rw [if_neg hname, if_neg hname]
    rfl

theorem joinsFit_nil : JoinsFit [] := by
  intro name hash stats hmany
  cases hmany

/-- If all sums fit, so do those of the first functions: counts do not get smaller. -/
theorem JoinsFit.of_append {xs ys : List FunctionNode} (h : JoinsFit (xs ++ ys)) : JoinsFit xs := by
  intro name hash stats hmany hjoined
  have hall := h name hash
  rw [joined?_append, hjoined, ChangeStats.foldl_merge_some, recordsOf_append,
    List.length_append] at hall
  exact ChangeStats.fits_of_foldl_merge (hall _ (by omega) rfl)

/-- One more function: the sums fit if those of its records with what was there before do. -/
theorem joinsFit_append_singleton {nodes : List FunctionNode} {node : FunctionNode}
    (h : JoinsFit nodes) : JoinsFit (nodes ++ [node]) ↔
      ∀ hash old new, joined? nodes node.name hash = some old →
        node.history.get? hash = some new → (old.merge new).fits = true := by
  have hempty : ∀ name hash, joined? nodes name hash = none ↔ recordsOf nodes name hash = [] := by
    intro name hash
    rw [joined?, ChangeStats.foldl_merge_eq_none_iff]
    simp
  constructor
  · intro hall hash old new hold hnew
    refine hall node.name hash (old.merge new) ?_ ?_
    · rw [recordsOf_append_singleton, if_pos rfl, hnew, List.length_append]
      have hsome : recordsOf nodes node.name hash ≠ [] := by
        rw [ne_eq, ← hempty, hold]
        exact Option.some_ne_none old
      have hpos := List.length_pos_of_ne_nil hsome
      simp only [Option.toList_some, List.length_singleton]
      omega
    · rw [joined?_append_singleton, if_pos rfl, hold, hnew]
      rfl
  · intro hnode name hash stats hmany hjoined
    rw [joined?_append_singleton] at hjoined
    rw [recordsOf_append_singleton, List.length_append] at hmany
    split at hjoined
    · rename_i hname
      subst hname
      rw [if_pos rfl] at hmany
      cases hnew : node.history.get? hash with
      | none =>
        rw [hnew] at hjoined hmany
        rw [Option.merge_none_right] at hjoined
        exact h _ _ _ hmany hjoined
      | some new =>
        rw [hnew] at hjoined hmany
        cases hold : joined? nodes node.name hash with
        | none =>
          rw [(hempty _ _).1 hold] at hmany
          simp at hmany
        | some old =>
          rw [hold] at hjoined
          cases hjoined
          exact hnode hash old new hold hnew
    · rename_i hname
      rw [if_neg hname] at hmany
      exact h _ _ _ hmany hjoined

/-- Joins what is listed for a function to what is known of it. -/
def FunctionNode.join (node listed : FunctionNode) : FunctionNode :=
  { node with
    files := NameSet.addNames node.files listed.files.keys
    history := node.history.mergeWith ChangeStats.merge listed.history }

theorem FunctionNode.name_join (listed node : FunctionNode) : (node.join listed).name = node.name :=
  rfl

namespace CallGraph

variable {g g' base : CallGraph} {data : GraphData}

/-! ## Functions -/

/-- The files that a function was seen in. -/
def filesOf (g : CallGraph) (name : String) : List String :=
  (g.node? name).elim [] fun node => node.files.keys

/-- The listed functions have been loaded into the graph. -/
structure Holds (base : CallGraph) (nodes : List FunctionNode) (g : CallGraph) : Prop where
  frame : g = { base with nodes := g.nodes }
  names : g.nodes.map FunctionNode.name = (nodes.map FunctionNode.name).eraseDups
  files : ∀ name file, file ∈ g.filesOf name ↔
    ∃ node ∈ nodes, node.name = name ∧ file ∈ node.files.keys
  entries : ∀ name hash, g.statsAt? name hash = joined? nodes name hash

theorem Holds.empty (h : base.nodes = []) : Holds base [] base where
  frame := rfl
  names := by rw [h]; rfl
  files name file := by simp [filesOf, node?, h]
  entries name hash := by
    rw [statsAt?, node?, h]
    rfl

theorem Holds.join {nodes : List FunctionNode} (h : Holds base nodes g) (node : FunctionNode) :
    Holds base (nodes ++ [node]) (g.withNode node.name fun old => old.join node) where
  frame := by
    rw [withNode, h.frame]
  names := by
    rw [List.map_append]
    exact map_updateOrAppend_of_eraseDups (fun _ hname => hname) rfl h.names
  files name file := by
    have hfiles : ∀ old : FunctionNode, file ∈ (old.join node).files.keys ↔
        file ∈ old.files.keys ∨ file ∈ node.files.keys := by
      intro old
      rw [FunctionNode.join, NameSet.addNames_keys, NameMap.mem_keys_mergeWith]
    have hbefore := h.files name file
    rw [filesOf] at hbefore ⊢
    rw [node?_withNode node.name name (FunctionNode.name_join node)]
    simp only [List.mem_append, List.mem_singleton, or_and_right, exists_or, exists_eq_left]
    rw [← hbefore]
    by_cases hname : name = node.name
    · rw [if_pos hname, hname, Option.elim_some, hfiles]
      cases g.node? node.name with
      | none => simp [FunctionNode.new, NameMap.keys, NameMap.empty]
      | some old => simp
    · rw [if_neg hname]
      simp [Ne.symm hname]
  entries name hash := by
    rw [joined?_append_singleton, ← h.entries, statsAt?,
      node?_withNode node.name name (FunctionNode.name_join node)]
    by_cases hname : name = node.name
    · rw [if_pos hname, if_pos hname, Option.bind_some, FunctionNode.join, NameMap.get?_mergeWith,
        statsAt?, hname]
      cases g.node? node.name with
      | none => rfl
      | some old => rfl
    · rw [if_neg hname, if_neg hname, statsAt?]

/-- The first commit that is not registered is the smallest, for histories are in order. -/
theorem unknownCommit?_keys (hbase : ∀ hash, g.hasCommit hash = true ↔ hash ∈ data.hashes)
    (history : NameMap ChangeStats) : g.unknownCommit? history.keys =
      (history.keys.filter fun hash => hash ∉ data.hashes).min? := by
  have hsorted : history.keys.Pairwise (· < ·) := List.pairwise_map.2 history.ascending
  have htest : (fun hash => !g.hasCommit hash) = fun hash => decide (hash ∉ data.hashes) := by
    funext hash
    rw [Bool.eq_iff_iff]
    simp [← hbase]
  rw [unknownCommit?, htest, ← List.head?_filter]
  have hfiltered := hsorted.filter fun hash => decide (hash ∉ data.hashes)
  cases hkeys : history.keys.filter fun hash => decide (hash ∉ data.hashes) with
  | nil => rfl
  | cons hash hashes =>
    rw [hkeys, List.pairwise_cons] at hfiltered
    rw [List.head?_cons, eq_comm, List.min?_eq_some_iff]
    refine ⟨List.mem_cons_self, List.forall_mem_cons.2 ⟨le_rfl, fun other hother => ?_⟩⟩
    exact (hfiltered.1 other hother).le

/-- The records that are listed for a function can be added to those that are known. -/
def Absorbs (g : CallGraph) (node : FunctionNode) : Prop :=
  ∀ hash old new, g.statsAt? node.name hash = some old → node.history.get? hash = some new →
    (old.merge new).fits = true

theorem absorbs_iff {node : FunctionNode} : g.Absorbs node ↔
    (node.history.entries.all fun e =>
      ((g.node? node.name).getD (.new node.name)).recordFits e.1 e.2) = true := by
  have hstats : ∀ hash, g.statsAt? node.name hash =
      ((g.node? node.name).getD (.new node.name)).history.get? hash := by
    intro hash
    rw [statsAt?]
    cases g.node? node.name with
    | none => rfl
    | some old => rfl
  rw [List.all_eq_true]
  constructor
  · rintro h ⟨hash, new⟩ hnew
    rw [FunctionNode.recordFits, ← hstats]
    cases hold : g.statsAt? node.name hash with
    | none => rfl
    | some old => exact h hash old new hold (NameMap.mem_entries_iff.1 hnew)
  · intro h hash old new hold hnew
    have hfits := h (hash, new) (NameMap.mem_entries_iff.2 hnew)
    rw [FunctionNode.recordFits, ← hstats, hold] at hfits
    exact hfits

/-- **One function** is refused for what is wrong with it; or else it is joined to what is known of
it, unless a sum does not fit. -/
theorem loadNode_cases (hbase : ∀ hash, g.hasCommit hash = true ↔ hash ∈ data.hashes)
    (node : FunctionNode) :
    (∃ e, data.nodeOffence? node = some e ∧ g.loadNode node = .error (.refused e)) ∨
      data.nodeOffence? node = none ∧ g.Absorbs node ∧
        g.loadNode node = .ok (g.withNode node.name fun old => old.join node) ∨
      data.nodeOffence? node = none ∧ ¬ g.Absorbs node ∧ g.loadNode node = .error .overflow := by
  have hjoin : (fun old : FunctionNode => node.history.entries.foldl
      (fun old e => old.record e.1 e.2) (old.addFiles node.files.keys)) =
        fun old => old.join node := by
    funext old
    rw [FunctionNode.foldl_record]
    rfl
  rw [GraphData.nodeOffence?, ← unknownCommit?_keys hbase, loadNode, hjoin, absorbs_iff]
  cases g.unknownCommit? node.history.keys with
  | some hash => exact .inl ⟨_, rfl, rfl⟩
  | none =>
    dsimp only
    split
    · rename_i hfits
      exact .inr (.inl ⟨rfl, hfits, rfl⟩)
    · rename_i hfits
      exact .inr (.inr ⟨rfl, hfits, rfl⟩)

/-- **All functions** in front of the first with which something is wrong are loaded, unless their
sums do not fit. -/
theorem foldlM_loadNode_cases (hbase : ∀ hash, base.hasCommit hash = true ↔ hash ∈ data.hashes)
    {done : List FunctionNode} (nodes : List FunctionNode) (hg : Holds base done g)
    (hfit : JoinsFit done) :
    JoinsFit (done ++ nodes.takeWhile fun node => (data.nodeOffence? node).isNone) ∧
        ((∃ e, nodes.findSome? data.nodeOffence? = some e ∧
            nodes.foldlM loadNode g = .error (.refused e)) ∨
          nodes.findSome? data.nodeOffence? = none ∧
            ∃ g', nodes.foldlM loadNode g = .ok g' ∧ Holds base (done ++ nodes) g') ∨
      ¬ JoinsFit (done ++ nodes.takeWhile fun node => (data.nodeOffence? node).isNone) ∧
        nodes.foldlM loadNode g = .error .overflow := by
  -- The functions in the graph, `done`, and those that are left always make up the whole list.
  induction nodes generalizing g done with
  | nil =>
    rw [List.takeWhile_nil, List.append_nil]
    exact .inl ⟨hfit, .inr ⟨rfl, g, rfl, hg⟩⟩
  | cons node nodes ih =>
    have hknown : ∀ hash, g.hasCommit hash = true ↔ hash ∈ data.hashes := by
      intro hash
      rw [hg.frame]
      exact hbase hash
    have habsorbs : JoinsFit (done ++ [node]) ↔ g.Absorbs node := by
      rw [joinsFit_append_singleton hfit, Absorbs]
      simp only [hg.entries]
    rw [List.takeWhile_cons, List.findSome?_cons, List.foldlM_cons]
    rcases loadNode_cases hknown node with ⟨e, hwrong, hload⟩ | ⟨hsound, hjoin, hload⟩ |
      ⟨hsound, hjoin, hload⟩
    · rw [hwrong, hload]
      refine .inl ⟨?_, .inl ⟨e, rfl, rfl⟩⟩
      simpa using hfit
    · rw [hsound, hload, Option.isNone_none, if_pos rfl, List.append_cons,
        List.append_cons done node nodes]
      exact ih (hg.join node) (habsorbs.2 hjoin)
    · rw [hsound, hload, Option.isNone_none, if_pos rfl, List.append_cons]
      exact .inr ⟨fun hall => hjoin (habsorbs.1 hall.of_append), rfl⟩

/-! ## Calls -/

/-- **One call** is refused for what is wrong with it, or is put into the graph. -/
theorem loadEdge_eq (hcommits : ∀ hash, g.hasCommit hash = true ↔ hash ∈ data.hashes)
    (hnames : ∀ name, g.contains name = true ↔ name ∈ data.names) (e : CallEdge) :
    g.loadEdge e =
      match data.edgeOffence? e with
      | some err => .error err
      | none => .ok (g.link e) := by
  have hstamp : g.unknownCommit? e.addedBy.toList =
      e.addedBy.filter fun hash => hash ∉ data.hashes := by
    cases e.addedBy with
    | none => rfl
    | some hash =>
      rw [unknownCommit?, Option.toList_some, List.find?_singleton, Option.filter_some]
      simp [← hcommits]
  rw [loadEdge, hstamp, GraphData.edgeOffence?]
  cases e.addedBy.filter fun hash => hash ∉ data.hashes with
  | some hash => rfl
  | none =>
    by_cases hcaller : e.caller ∈ data.names
    · by_cases hcallee : e.callee ∈ data.names
      · simp [hcaller, hcallee, (hnames _).2]
      · simp [hcaller, hcallee, (hnames _).2, (hnames _).not.2]
    · simp [hcaller, (hnames _).not.2]

theorem foldlM_loadEdge_eq (hcommits : ∀ hash, g.hasCommit hash = true ↔ hash ∈ data.hashes)
    (hnames : ∀ name, g.contains name = true ↔ name ∈ data.names) (edges : List CallEdge) :
    edges.foldlM loadEdge g =
      match edges.findSome? data.edgeOffence? with
      | some err => .error err
      | none => .ok { g with edges := edges.foldl (put CallEdge.ends) g.edges } := by
  induction edges generalizing g with
  | nil => rfl
  | cons e edges ih =>
    have hrest := ih (g := g.link e) hcommits hnames
    rw [List.foldlM_cons, loadEdge_eq hcommits hnames, List.findSome?_cons]
    cases data.edgeOffence? e with
    | some err => rfl
    | none => exact hrest

/-! ## Whole forms -/

theorem foldl_registerCommit_eq (infos : List CommitInfo) :
    infos.foldl registerCommit g =
      { g with commits := infos.foldl (put CommitInfo.hash) g.commits } := by
  induction infos generalizing g with
  | nil => rfl
  | cons info infos ih => exact ih

/-- The graph of the listed commits. -/
def registered (data : GraphData) : CallGraph :=
  { empty with commits := data.commits.foldl (put CommitInfo.hash) [] }

theorem hashes_registered (data : GraphData) :
    (registered data).commits.map CommitInfo.hash = data.hashes.eraseDups :=
  map_foldl_put_nil data.commits

theorem hasCommit_registered {hash : String} :
    (registered data).hasCommit hash = true ↔ hash ∈ data.hashes := by
  rw [hasCommit_iff, hashes_registered, List.mem_eraseDups]

/-- A graph that holds the listed functions becomes the normal form with the listed calls. -/
theorem Holds.normalForm (h : Holds (registered data) data.nodes g) :
    NormalForm data ⟨g.commits, g.nodes, data.edges.foldl (put CallEdge.ends) []⟩ := by
  have hnames : (g.nodes.map FunctionNode.name).Nodup := by
    rw [h.names]
    exact nodup_eraseDups _
  have hcommits : g.commits = (registered data).commits := by rw [h.frame]
  have hfound : ∀ node ∈ g.nodes, g.node? node.name = some node := fun node hnode =>
    (find?_eq_some_iff_of_nodup hnames).2 ⟨hnode, rfl⟩
  exact {
    hashes := by
      rw [GraphData.hashes, hcommits, hashes_registered]
    commits := fun info hinfo => by
      rw [hcommits] at hinfo
      exact lastWith?_of_mem hinfo
    names := h.names
    files := fun node hnode file => by
      have hfile := h.files node.name file
      rw [filesOf, hfound node hnode] at hfile
      exact hfile
    histories := fun node hnode hash => by
      have hentry := h.entries node.name hash
      rw [statsAt?, hfound node hnode] at hentry
      exact hentry
    ends := map_foldl_put_nil data.edges
    stamps := fun e he => lastWith?_of_mem he }

/-- **A saved form** is refused for the first thing that is wrong with it; or else it is loaded and
brought into normal form, unless a sum of records does not fit. -/
theorem ofData_cases (data : GraphData) :
    JoinsFit data.soundNodes ∧
        ((∃ e, data.offence? = some e ∧ ofData data = .error (.refused e)) ∨
          data.offence? = none ∧ ∃ g, ofData data = .ok g ∧ NormalForm data g.toData) ∨
      ¬ JoinsFit data.soundNodes ∧ ofData data = .error .overflow := by
  have hbase : data.commits.foldl registerCommit empty = registered data :=
    foldl_registerCommit_eq data.commits
  have hload : ofData data = (data.nodes.foldlM loadNode (registered data)).bind fun g =>
      Halt.ofChecked (data.edges.foldlM loadEdge g) := by
    rw [← hbase]
    rfl
  have hstart : Holds (registered data) [] (registered data) := .empty rfl
  rcases foldlM_loadNode_cases (fun _ => hasCommit_registered) data.nodes hstart joinsFit_nil with
    ⟨hfit, ⟨e, hwrong, hnodes⟩ | ⟨hsound, g, hnodes, hg⟩⟩ | ⟨hfit, hnodes⟩
  · refine .inl ⟨hfit, .inl ⟨e, ?_, ?_⟩⟩
    · rw [GraphData.offence?, hwrong]
      rfl
    · rw [hload, hnodes]
      rfl
  · have hcommits : ∀ hash, g.hasCommit hash = true ↔ hash ∈ data.hashes := by
      intro hash
      rw [hg.frame]
      exact hasCommit_registered
    have hnames : ∀ name, g.contains name = true ↔ name ∈ data.names := by
      intro name
      rw [contains_iff, hg.names, List.mem_eraseDups]
      rfl
    have hedges : g.edges = [] := by
      rw [hg.frame]
      rfl
    refine .inl ⟨hfit, ?_⟩
    rw [hload, hnodes, GraphData.offence?, hsound, Option.none_or, Except.bind,
      foldlM_loadEdge_eq hcommits hnames]
    cases data.edges.findSome? data.edgeOffence? with
    | some e => exact .inl ⟨e, rfl, rfl⟩
    | none =>
      refine .inr ⟨rfl, _, rfl, ?_⟩
      rw [hedges]
      exact hg.normalForm
  · refine .inr ⟨hfit, ?_⟩
    rw [hload, hnodes]
    rfl

/-- **Loading accepts the consistent forms and normalizes them.** A form is loaded exactly if all
that it names is listed in it, and the sums of the records that are listed for one function and
commit fit. It is refused exactly for the first thing that is wrong with it, if the sums in front of
that fit. What is loaded is saved in normal form, and loading that again changes nothing. -/
theorem ofData_normalizes (data : GraphData) :
    ((∃ g, ofData data = .ok g) ↔ data.Consistent ∧ JoinsFit data.nodes) ∧
      (∀ e, ofData data = .error (.refused e) ↔
        data.offence? = some e ∧ JoinsFit data.soundNodes) ∧
      (ofData data = .error .overflow ↔ ¬ JoinsFit data.soundNodes) ∧
      (data.offence? = none ↔ data.Consistent) ∧
      ∀ g, ofData data = .ok g → NormalForm data g.toData ∧
        ∃ g', ofData g.toData = .ok g' ∧ g'.toData = g.toData := by
  have hagain : ∀ g, ofData data = .ok g → ∃ g', ofData g.toData = .ok g' ∧ g'.toData = g.toData :=
    fun g hg => ⟨_, ofData_toData (WellFormed.of_ofData hg), rfl⟩
  have hall : data.Consistent → data.soundNodes = data.nodes := by
    intro h
    rw [GraphData.soundNodes, List.takeWhile_eq_self_iff]
    intro node hnode
    rw [GraphData.nodeOffence?_eq_none_iff.2 (h.histories node hnode)]
    rfl
  rw [GraphData.offence?_eq_none_iff]
  rcases ofData_cases data with
    ⟨hfit, ⟨e, hwrong, hload⟩ | ⟨hsound, g, hload, hform⟩⟩ | ⟨hfit, hload⟩
  · have hbad : ¬ data.Consistent := by
      rw [← GraphData.offence?_eq_none_iff, hwrong]
      exact Option.some_ne_none e
    simp [hload, hwrong, hfit, hbad]
  · have hgood := GraphData.offence?_eq_none_iff.1 hsound
    rw [hall hgood] at hfit ⊢
    refine ⟨⟨fun _ => ⟨hgood, hfit⟩, fun _ => ⟨g, hload⟩⟩, fun e => ?_, ?_, Iff.rfl, ?_⟩
    · simp [hload, hsound]
    · simp [hload, hfit]
    · intro g' hg'
      obtain rfl := Except.ok.inj (hload.symm.trans hg')
      exact ⟨hform, hagain g hload⟩
  · have hsums : data.Consistent → ¬ JoinsFit data.nodes := by
      intro h
      rw [← hall h]
      exact hfit
    simpa [hload, hfit] using hsums

/-- A commit, a function and a call are listed twice; and a form names two commits that are not
listed, in a history and in a stamp. -/
theorem ofData_normalizes_of_repeated :
    let info : CommitInfo := ⟨"c", "", "", "", none⟩
    let stats : ChangeStats := ⟨1, 2, some 3, none⟩
    let f : FunctionNode := ⟨"f", .ofNames ["a"], .ofList [("c", stats)]⟩
    let data : GraphData := ⟨[info, { info with hash := "d" }, { info with message := "again" }],
      [f, .new "g", { f with files := .ofNames ["b"] }],
      [⟨"f", "g", some "d"⟩, ⟨"f", "g", some "c"⟩]⟩
    let unlisted : GraphData := ⟨[], [{ f with history := .ofList [("e", stats), ("b", stats)] }],
      [⟨"f", "g", some "a"⟩]⟩
    (∃ g g', ofData data = .ok g ∧ g.toData.hashes = ["c", "d"] ∧ g.toData.names = ["f", "g"] ∧
        (∀ node ∈ g.nodes, node.name = "f" → node.history.get? "c" = some ⟨2, 4, some 6, none⟩) ∧
        (∀ e ∈ g.edges, e.ends = ("f", "g") → e.addedBy = some "c") ∧
        ofData g.toData = .ok g' ∧ g'.toData = g.toData) ∧
      ofData unlisted = .error (.refused (.unknownCommit "b")) := by
  intro info stats f data unlisted
  have hloads : (ofData data).isOk = true := by decide +kernel
  obtain ⟨g, hg⟩ : ∃ g, ofData data = .ok g := by
    cases h : ofData data with
    | ok g => exact ⟨g, rfl⟩
    | error halt =>
      rw [h] at hloads
      cases hloads
  obtain ⟨-, -, -, -, hnormal⟩ := ofData_normalizes data
  obtain ⟨hform, g', hagain, hsame⟩ := hnormal g hg
  refine ⟨⟨g, g', hg, hform.hashes.trans ?_, hform.names.trans ?_, fun node hnode hname => ?_,
    fun e he hends => ?_, hagain, hsame⟩, ?_⟩
  · decide
  · decide
  · rw [hform.histories node hnode, hname]
    decide
  · have hlast := hform.stamps e he
    rw [hends] at hlast
    have hstamp : lastWith? CallEdge.ends data.edges ("f", "g") = some ⟨"f", "g", some "c"⟩ := by
      decide
    rw [← Option.some.inj (hstamp.symm.trans hlast)]
  · obtain ⟨-, hrefused, -⟩ := ofData_normalizes unlisted
    have hnone : unlisted.soundNodes = [] := by decide
    refine (hrefused (.unknownCommit "b")).2 ⟨by decide, ?_⟩
    rw [hnone]
    exact joinsFit_nil

/-- All that the form names is listed, but the counts of its function are too large together. -/
theorem ofData_of_full_count :
    let node : FunctionNode := ⟨"f", .empty, .ofList [("c", ⟨maxCount, 0, none, none⟩)]⟩
    let data : GraphData := ⟨[⟨"c", "", "", "", none⟩],
      [node, { node with history := .ofList [("c", ⟨1, 0, none, none⟩)] }], []⟩
    data.Consistent ∧ ofData data = .error .overflow := by
  intro node data
  have hsound : data.offence? = none := by decide
  exact ⟨GraphData.offence?_eq_none_iff.1 hsound, by decide +kernel⟩

end CallGraph

end EffortRank
