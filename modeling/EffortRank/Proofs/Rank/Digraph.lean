import EffortRank.Rank.Effort
import EffortRank.Proofs.Graph.WellFormed

/-!
# Calls as a digraph

The ranks of a graph are computed on places instead of names. A place has an edge to the place of
each function that its function calls, that of the latest new call first
(`CallGraph.WellFormed.getElem?_targets`). A call that is seen again keeps its place among them
(`CallGraph.callees_addEdge`).
-/

namespace EffortRank

theorem Digraph.getElem?_targets (d : Digraph) (i : Nat) :
    d.targets[i]? =
      if i < d.size then some ((d.edges.filter fun e => e.1 = i).map (·.2)).reverse else none := by
  have hfold : ∀ (es : List (Nat × Nat)) (out : Array (List Nat)),
      (es.foldl (fun out e => out.modify e.1 (e.2 :: ·)) out)[i]? =
        out[i]?.map fun targets => ((es.filter fun e => e.1 = i).map (·.2)).reverse ++ targets := by
    intro es
    induction es with
    | nil => simp
    | cons e es ih =>
      intro out
      rw [List.foldl_cons, ih, Array.getElem?_modify, List.filter_cons]
      by_cases he : e.1 = i
      · rw [if_pos he, if_pos (by simpa using he)]
        cases out[i]? <;> simp
      · rw [if_neg he, if_neg (by simpa using he)]
  rw [targets, hfold, Array.getElem?_replicate]
  split <;> simp

namespace CallGraph

variable {g g' : CallGraph}

/-- The functions that a function calls, that of the latest new call first. -/
def callees (g : CallGraph) (name : String) : List String :=
  (((g.edges.map CallEdge.ends).filter fun ends => ends.1 = name).map (·.2)).reverse

theorem mem_callees_iff {caller callee : String} :
    callee ∈ g.callees caller ↔ (caller, callee) ∈ g.edges.map CallEdge.ends := by
  rw [callees, List.mem_reverse, List.mem_map]
  constructor
  · rintro ⟨⟨_, _⟩, hends, rfl⟩
    rw [List.mem_filter, decide_eq_true_eq] at hends
    obtain ⟨hmem, rfl⟩ := hends
    exact hmem
  · intro hmem
    exact ⟨(caller, callee), List.mem_filter.2 ⟨hmem, by simp⟩, rfl⟩

/-- **A call that is new goes first, one that is seen again stays where it is.** -/
theorem callees_addEdge {caller callee : String} (h : g.addEdge caller callee = .ok g')
    (name : String) :
    g'.callees name =
      if name = caller ∧ callee ∉ g.callees caller then callee :: g.callees name
      else g.callees name := by
  obtain ⟨-, -, hlink⟩ := addEdge_eq_ok h
  have hends : g'.edges.map CallEdge.ends =
      if (caller, callee) ∈ g.edges.map CallEdge.ends then g.edges.map CallEdge.ends
      else g.edges.map CallEdge.ends ++ [(caller, callee)] := by
    rw [hlink, edges_link]
    exact map_updateOrAppend (fun _ _ => rfl) rfl g.edges
  have hseen_iff : callee ∈ g.callees caller ↔ (caller, callee) ∈ g.edges.map CallEdge.ends :=
    mem_callees_iff
  rw [callees, hends]
  by_cases hseen : (caller, callee) ∈ g.edges.map CallEdge.ends
  · rw [if_pos hseen, if_neg fun h => h.2 (hseen_iff.2 hseen)]
    rfl
  · rw [if_neg hseen, List.filter_append, List.map_append, List.reverse_append]
    by_cases hname : name = caller
    · rw [if_pos ⟨hname, fun h => hseen (hseen_iff.1 h)⟩, hname]
      simp [callees]
    · rw [if_neg fun h => hname h.1]
      simp [callees, Ne.symm hname]

/-- **The edges of a place** lead to the places of the functions that its function calls. -/
theorem WellFormed.getElem?_targets (h : g.WellFormed) {i : Nat} {node : FunctionNode}
    (hnode : g.nodes[i]? = some node) :
    g.digraph.targets[i]? =
      some ((g.callees node.name).map (indexOf (g.nodes.map FunctionNode.name))) := by
  have hi : i < g.digraph.size := (List.getElem?_eq_some_iff.1 hnode).1
  have hcaller : ∀ e ∈ g.edges,
      (indexOf (g.nodes.map FunctionNode.name) e.caller = i ↔ e.caller = node.name) := by
    intro e he
    constructor
    · intro hindex
      obtain ⟨node', hnode', hname⟩ := h.indexOf_eq_iff.1 ⟨(h.ends_known e he).1, hindex⟩
      rw [hnode] at hnode'
      cases hnode'
      exact hname.symm
    · intro hname
      exact (h.indexOf_eq_iff.2 ⟨node, hnode, hname.symm⟩).2
  have hfilter : (g.edges.filter fun e => indexOf (g.nodes.map FunctionNode.name) e.caller = i) =
      g.edges.filter fun e => e.caller = node.name :=
    List.filter_congr fun e he => decide_eq_decide.2 (hcaller e he)
  rw [Digraph.getElem?_targets, if_pos hi, callees, List.map_reverse, digraph, List.filter_map,
    List.filter_map, List.map_map, List.map_map, List.map_map]
  dsimp only [Function.comp_def, CallEdge.ends]
  rw [hfilter]
  rfl

end CallGraph

end EffortRank
