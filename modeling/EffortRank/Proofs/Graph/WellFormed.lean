import EffortRank.Graph.Request
import EffortRank.Proofs.Graph.Lookup
import EffortRank.Rank.Effort
import Mathlib.Data.List.Nodup

/-!
# Well formed graphs

A graph is well formed (`CallGraph.WellFormed`) if no function, call or commit stands in it twice,
and whatever one of its parts names is in the graph: the ends of calls, the commits of histories and
stamps, the current commit. Every answer to a request is well formed if the graph was
(`WellFormed.answer`), so that every graph a run of requests leads to is
(`Reachable.wellFormed`).
-/

namespace EffortRank

/-- The caller and the callee. There is one call for each such pair. -/
def CallEdge.ends (e : CallEdge) : String × String := (e.caller, e.callee)

namespace FunctionNode

/-- Recording the entries of a history one by one merges the history. -/
theorem foldl_record (node : FunctionNode) (history : NameMap ChangeStats) :
    history.entries.foldl (fun node e => node.record e.1 e.2) node =
      { node with history := node.history.mergeWith ChangeStats.merge history } := by
  rw [NameMap.mergeWith]
  generalize history.entries = es
  induction es generalizing node with
  | nil => rfl
  | cons e es ih =>
    rw [List.foldl_cons, List.foldl_cons, ih (node.record e.1 e.2)]
    refine congrArg (fun first => FunctionNode.mk node.name node.files (List.foldl _ first es)) ?_
    refine congrArg (node.history.alter e.1) (funext fun old => ?_)
    cases old <;> rfl

end FunctionNode

namespace CallGraph

variable {g g' : CallGraph}

theorem edges_link (g : CallGraph) (e : CallEdge) :
    (g.link e).edges =
      updateOrAppend (fun old => old.ends == e.ends) (fun _ => e) e g.edges := rfl

/-! ## What a graph knows -/

theorem hasCommit_iff {hash : String} :
    g.hasCommit hash = true ↔ hash ∈ g.commits.map CommitInfo.hash :=
  isSome_find?_iff

theorem contains_iff {name : String} :
    g.contains name = true ↔ name ∈ g.nodes.map FunctionNode.name :=
  isSome_find?_iff

theorem hasCommit_registerCommit {info : CommitInfo} {hash : String} :
    (g.registerCommit info).hasCommit hash = true ↔ hash = info.hash ∨ g.hasCommit hash = true := by
  rw [hasCommit_iff, hasCommit_iff]
  exact mem_map_updateOrAppend (fun _ _ => rfl) rfl

theorem contains_withNode {change : FunctionNode → FunctionNode} {name other : String}
    (hchange : ∀ node, (change node).name = node.name) :
    (g.withNode name change).contains other = true ↔ other = name ∨ g.contains other = true := by
  rw [contains_iff, contains_iff]
  exact mem_map_updateOrAppend (fun node hnode => (hchange node).trans hnode)
    (hchange (.new name))

/-- The call with the given ends. -/
def call? (g : CallGraph) (ends : String × String) : Option CallEdge :=
  g.edges.find? fun e => e.ends == ends

theorem mem_map_ends_iff {ends : String × String} :
    ends ∈ g.edges.map CallEdge.ends ↔ (g.call? ends).isSome = true :=
  isSome_find?_iff.symm

theorem call?_link (g : CallGraph) (e : CallEdge) (ends : String × String) :
    (g.link e).call? ends = if ends = e.ends then some e else g.call? ends :=
  find?_put g.edges e ends

/-- All commits of a history are registered. -/
def Knows (g : CallGraph) (history : NameMap ChangeStats) : Prop :=
  ∀ hash ∈ history.keys, g.hasCommit hash = true

theorem knows_empty (g : CallGraph) : g.Knows .empty := by
  intro hash h
  cases h

theorem unknownCommit?_eq_none_iff {hashes : List String} :
    g.unknownCommit? hashes = none ↔ ∀ hash ∈ hashes, g.hasCommit hash = true := by
  rw [unknownCommit?, List.find?_eq_none]
  simp only [Bool.not_eq_true', Bool.not_eq_false]

theorem Knows.alter {history : NameMap ChangeStats} (h : g.Knows history) {hash : String}
    (hhash : g.hasCommit hash = true) (f : Option ChangeStats → ChangeStats) :
    g.Knows (history.alter hash f) := by
  intro other hother
  rcases NameMap.mem_keys_alter.1 hother with rfl | hother
  · exact hhash
  · exact h other hother

theorem Knows.mergeWith {m n : NameMap ChangeStats} (hm : g.Knows m) (hn : g.Knows n)
    (f : ChangeStats → ChangeStats → ChangeStats) : g.Knows (m.mergeWith f n) := by
  intro hash hhash
  rcases NameMap.mem_keys_mergeWith.1 hhash with h | h
  · exact hm hash h
  · exact hn hash h

/-! ## What is loaded -/

/-- A function is loaded if all commits of its history are registered. -/
theorem loadNode_eq_ok {node : FunctionNode} (h : g.loadNode node = .ok g') :
    g.Knows node.history ∧
      g' = g.withNode node.name fun old =>
        node.history.entries.foldl (fun old e => old.record e.1 e.2)
          (old.addFiles node.files.keys) := by
  unfold loadNode at h
  split at h
  · cases h
  · rename_i hknown
    dsimp only at h
    split at h
    · cases h
      exact ⟨unknownCommit?_eq_none_iff.1 hknown, rfl⟩
    · cases h

/-- A call is loaded if its ends are known and its stamp is a registered commit. -/
theorem loadEdge_eq_ok {e : CallEdge} (h : g.loadEdge e = .ok g') :
    g.contains e.caller = true ∧ g.contains e.callee = true ∧
      (∀ hash, e.addedBy = some hash → g.hasCommit hash = true) ∧ g' = g.link e := by
  unfold loadEdge at h
  split at h
  · cases h
  · rename_i hknown
    rw [unknownCommit?_eq_none_iff] at hknown
    split at h
    · cases h
    · rename_i hcaller
      split at h
      · cases h
      · rename_i hcallee
        cases h
        refine ⟨by simpa using hcaller, by simpa using hcallee, fun hash hhash => ?_, rfl⟩
        exact hknown hash (by simp [hhash])

/-! ## The invariant -/

/-- No function, call or commit stands in the graph twice, and all that its parts name is there. -/
structure WellFormed (g : CallGraph) : Prop where
  names : (g.nodes.map FunctionNode.name).Nodup
  calls : (g.edges.map CallEdge.ends).Nodup
  hashes : (g.commits.map CommitInfo.hash).Nodup
  ends_known : ∀ e ∈ g.edges, g.contains e.caller = true ∧ g.contains e.callee = true
  current_known : ∀ hash, g.current = some hash → g.hasCommit hash = true
  history_known : ∀ node ∈ g.nodes, g.Knows node.history
  stamp_known : ∀ e ∈ g.edges, ∀ hash, e.addedBy = some hash → g.hasCommit hash = true

namespace WellFormed

theorem empty : CallGraph.empty.WellFormed := by
  constructor <;> simp [CallGraph.empty]

/-- Only what is current depends on the current commit. -/
theorem withCurrent (h : g.WellFormed) {current : Option String}
    (hcurrent : ∀ hash, current = some hash → g.hasCommit hash = true) :
    WellFormed { g with current := current } :=
  { h with current_known := hcurrent }

theorem registerCommit (h : g.WellFormed) (info : CommitInfo) :
    (g.registerCommit info).WellFormed where
  names := h.names
  calls := h.calls
  hashes := nodup_map_updateOrAppend (fun _ _ => rfl) rfl h.hashes
  ends_known := h.ends_known
  current_known hash hhash := hasCommit_registerCommit.2 (.inr (h.current_known hash hhash))
  history_known node hnode hash hhash :=
    hasCommit_registerCommit.2 (.inr (h.history_known node hnode hash hhash))
  stamp_known e he hash hhash :=
    hasCommit_registerCommit.2 (.inr (h.stamp_known e he hash hhash))

theorem addCommit (h : g.WellFormed) (info : CommitInfo) : (g.addCommit info).WellFormed := by
  refine (h.registerCommit info).withCurrent fun hash hhash => ?_
  cases hhash
  exact hasCommit_registerCommit.2 (.inl rfl)

/-- A function may be changed, or made, as long as its commits are registered. -/
theorem withNode (h : g.WellFormed) {name : String} {change : FunctionNode → FunctionNode}
    (hname : ∀ node, (change node).name = node.name)
    (hhistory : ∀ node, g.Knows node.history → g.Knows (change node).history) :
    (g.withNode name change).WellFormed where
  names := nodup_map_updateOrAppend (fun node hnode => (hname node).trans hnode)
    (hname (.new name)) h.names
  calls := h.calls
  hashes := h.hashes
  ends_known e he := by
    obtain ⟨hcaller, hcallee⟩ := h.ends_known e he
    exact ⟨(contains_withNode hname).2 (.inr hcaller), (contains_withNode hname).2 (.inr hcallee)⟩
  current_known := h.current_known
  history_known := forall_mem_updateOrAppend hhistory (hhistory (.new name) g.knows_empty)
    h.history_known
  stamp_known := h.stamp_known

theorem addNode (h : g.WellFormed) (name : String) (files : List String) :
    (g.addNode name files).WellFormed :=
  h.withNode (fun _ => rfl) fun _ hnode => hnode

/-- A call may be put between known functions, with the stamp of a registered commit. -/
theorem link (h : g.WellFormed) {e : CallEdge} (hcaller : g.contains e.caller = true)
    (hcallee : g.contains e.callee = true)
    (hstamp : ∀ hash, e.addedBy = some hash → g.hasCommit hash = true) :
    (g.link e).WellFormed where
  names := h.names
  calls := by
    rw [edges_link]
    exact nodup_map_updateOrAppend (fun _ _ => rfl) rfl h.calls
  hashes := h.hashes
  ends_known := forall_mem_updateOrAppend (fun _ _ => ⟨hcaller, hcallee⟩) ⟨hcaller, hcallee⟩
    h.ends_known
  current_known := h.current_known
  history_known := h.history_known
  stamp_known := forall_mem_updateOrAppend (fun _ _ => hstamp) hstamp h.stamp_known

theorem addEdge (h : g.WellFormed) {caller callee : String}
    (hanswer : g.addEdge caller callee = .ok g') : g'.WellFormed := by
  obtain ⟨hcaller, hcallee, rfl⟩ := addEdge_eq_ok hanswer
  exact h.link hcaller hcallee h.current_known

theorem setFiles (h : g.WellFormed) {name : String} {files : List String}
    (hanswer : g.setFiles name files = .ok g') : g'.WellFormed := by
  obtain ⟨-, rfl⟩ := setFiles_eq_ok hanswer
  exact h.withNode (fun _ => rfl) fun _ hnode => hnode

theorem recordHistory (h : g.WellFormed) {name : String} {stats : ChangeStats}
    (hanswer : g.recordHistory name stats = .ok g') : g'.WellFormed := by
  obtain ⟨hash, -, hcurrent, -, -, rfl⟩ := recordHistory_eq_ok hanswer
  have hhash := h.current_known hash hcurrent
  exact h.withNode (fun _ => rfl) fun node hnode => hnode.alter hhash _

/-! ## Loading -/

theorem loadNode (h : g.WellFormed) {node : FunctionNode} (hanswer : g.loadNode node = .ok g') :
    g'.WellFormed := by
  obtain ⟨hknown, rfl⟩ := loadNode_eq_ok hanswer
  refine h.withNode (fun old => ?_) fun old hold => ?_
  · rw [FunctionNode.foldl_record]
    rfl
  · rw [FunctionNode.foldl_record]
    exact hold.mergeWith hknown _

theorem loadEdge (h : g.WellFormed) {e : CallEdge} (hanswer : g.loadEdge e = .ok g') :
    g'.WellFormed := by
  obtain ⟨hcaller, hcallee, hstamp, rfl⟩ := loadEdge_eq_ok hanswer
  exact h.link hcaller hcallee hstamp

theorem of_ofData {data : GraphData} (hanswer : ofData data = .ok g') : g'.WellFormed := by
  rw [CallGraph.ofData, bind_eq_ok_iff] at hanswer
  obtain ⟨nodes, hnodes, hedges⟩ := hanswer
  rw [Halt.ofChecked_eq_ok_iff] at hedges
  have hcommits : (data.commits.foldl CallGraph.registerCommit CallGraph.empty).WellFormed :=
    List.foldlRecOn data.commits _ empty fun g hg info _ => hg.registerCommit info
  exact foldlM_preserves (fun hg => hg.loadEdge)
    (foldlM_preserves (fun hg => hg.loadNode) hcommits hnodes) hedges

/-! ## Runs -/

theorem answer (h : g.WellFormed) {request : GraphRequest} (hanswer : g.answer request = .ok g') :
    g'.WellFormed := by
  cases request with
  | addCommit info =>
    cases hanswer
    exact h.addCommit info
  | addNode name files =>
    cases hanswer
    exact h.addNode name files
  | addEdge caller callee => exact h.addEdge (Halt.ofChecked_eq_ok_iff.1 hanswer)
  | setFiles name files => exact h.setFiles (Halt.ofChecked_eq_ok_iff.1 hanswer)
  | recordHistory name stats => exact h.recordHistory hanswer
  | load data => exact of_ofData hanswer

theorem perform (h : g.WellFormed) (request : GraphRequest) : (g.perform request).1.WellFormed := by
  unfold CallGraph.perform
  split
  · rename_i g' hanswer
    exact h.answer hanswer
  · exact h

theorem run (h : g.WellFormed) (requests : List GraphRequest) : (g.run requests).WellFormed :=
  List.foldlRecOn requests _ h fun _ hg request _ => hg.perform request

/-! ## Finding functions -/

theorem node?_eq_some_iff (h : g.WellFormed) {name : String} {node : FunctionNode} :
    g.node? name = some node ↔ node ∈ g.nodes ∧ node.name = name :=
  find?_eq_some_iff_of_nodup h.names

/-- Names lead to the places of their functions, and to nothing else. -/
theorem indexOf_eq_iff (h : g.WellFormed) {name : String} {i : Nat} :
    g.contains name = true ∧ indexOf (g.nodes.map FunctionNode.name) name = i ↔
      ∃ node, g.nodes[i]? = some node ∧ node.name = name := by
  rw [contains_iff, indexOf]
  constructor
  · rintro ⟨hname, rfl⟩
    have hfound := List.getElem?_idxOf hname
    rw [List.getElem?_map, Option.map_eq_some_iff] at hfound
    exact hfound
  · rintro ⟨node, hnode, rfl⟩
    have hat : (g.nodes.map FunctionNode.name)[i]? = some node.name := by
      rw [List.getElem?_map, hnode]
      rfl
    obtain ⟨hi, hget⟩ := List.getElem?_eq_some_iff.1 hat
    refine ⟨List.mem_of_getElem? hat, ?_⟩
    rw [← hget]
    exact h.names.idxOf_getElem i hi

end WellFormed

theorem Reachable.wellFormed (h : g.Reachable) : g.WellFormed := by
  obtain ⟨requests, rfl⟩ := h
  exact WellFormed.empty.run requests

end CallGraph

end EffortRank
