import EffortRank.Graph.Store
import EffortRank.Proofs.Graph.WellFormed

/-!
# Stores show well formed graphs

A store is sound (`GraphStore.Sound`) if its index leads to every function by its name and to
nothing else, its calls are between places of the arena, and the graph that it shows is well formed.
Each change keeps a store sound, and does to the graph that is shown what the change of that name
does to a graph. A sound store is told by the graph that it shows
(`GraphStore.Sound.eq_of_graph_eq`).
-/

namespace EffortRank

/-! ## Changing one element of a list -/

section

variable {α β κ : Type} [BEq κ] [LawfulBEq κ] {key : α → κ} {k : κ}

/-- With one element for each key, the element with a key is the one at its place. -/
theorem modify_eq_updateOrAppend {xs : List α} (h : (xs.map key).Nodup) {i : Nat} {x : α}
    (hx : xs[i]? = some x) (hkey : key x = k) (change : α → α) (fresh : α) :
    xs.modify i change = updateOrAppend (fun y => key y == k) change fresh xs := by
  induction xs generalizing i with
  | nil => cases hx
  | cons y ys ih =>
    rw [List.map_cons, List.nodup_cons] at h
    rw [updateOrAppend]
    cases i with
    | zero =>
      cases hx
      rw [if_pos (by simpa using hkey)]
      rfl
    | succ i =>
      have hmem : x ∈ ys := List.mem_of_getElem? hx
      have hne : key y ≠ k := fun hy => h.1 (List.mem_map.2 ⟨x, hmem, by rw [hkey, hy]⟩)
      rw [if_neg (by simpa using hne), List.modify_succ_cons, ih h.2 hx]

theorem updateOrAppend_updateOrAppend {change change' : α → α} {fresh fresh' : α}
    (hchange : ∀ x, key x = k → key (change x) = k) (hfresh : key fresh = k) (xs : List α) :
    updateOrAppend (fun x => key x == k) change' fresh'
        (updateOrAppend (fun x => key x == k) change fresh xs) =
      updateOrAppend (fun x => key x == k) (fun x => change' (change x)) (change' fresh) xs := by
  induction xs with
  | nil => simp [updateOrAppend, hfresh]
  | cons x xs ih =>
    by_cases hx : key x = k
    · simp [updateOrAppend, hx, hchange x hx]
    · simp [updateOrAppend, hx, ih]

theorem map_updateOrAppend_of_test {f : α → β} {test : α → Bool} {test' : β → Bool} {x : α}
    {xs : List α} (h : ∀ y ∈ xs, test y = test' (f y)) :
    (updateOrAppend test (fun _ => x) x xs).map f =
      updateOrAppend test' (fun _ => f x) (f x) (xs.map f) := by
  induction xs with
  | nil => rfl
  | cons y ys ih =>
    rw [List.forall_mem_cons] at h
    rw [updateOrAppend, List.map_cons, updateOrAppend, h.1]
    split
    · rfl
    · rw [List.map_cons, ih h.2]

end

theorem CallGraph.withNode_withNode (g : CallGraph) (name : String)
    {change : FunctionNode → FunctionNode} (hchange : ∀ node, (change node).name = node.name)
    (change' : FunctionNode → FunctionNode) :
    (g.withNode name change).withNode name change' =
      g.withNode name fun node => change' (change node) := by
  have hnew : (change (.new name)).name = name := hchange (.new name)
  rw [withNode, withNode, withNode,
    updateOrAppend_updateOrAppend (fun node hnode => (hchange node).trans hnode) hnew]

namespace GraphStore

variable {s s' : GraphStore}

/-! ## Sound stores -/

/-- The index leads to every function by its name, the calls are between functions, and the graph
that is shown is well formed. -/
structure Sound (s : GraphStore) : Prop where
  index_iff : ∀ name i, s.index.get? name = some i ↔
    ∃ node, s.nodes[i]? = some node ∧ node.name = name
  placed : ∀ c ∈ s.calls, c.source < s.nodes.size ∧ c.target < s.nodes.size
  wellFormed : s.graph.WellFormed

theorem graph_empty : empty.graph = CallGraph.empty := rfl

theorem hasCommit_graph (s : GraphStore) (hash : String) :
    s.graph.hasCommit hash = s.hasCommit hash := by
  rw [CallGraph.hasCommit, CallGraph.commit?, hasCommit, Bool.eq_iff_iff, List.find?_isSome,
    List.any_eq_true]
  rfl

theorem unknownCommit?_graph (s : GraphStore) (hashes : List String) :
    s.graph.unknownCommit? hashes = s.unknownCommit? hashes := by
  rw [CallGraph.unknownCommit?, unknownCommit?]
  simp only [hasCommit_graph]

theorem nameAt_of_getElem? {i : Nat} {node : FunctionNode} (h : s.nodes[i]? = some node) :
    s.nameAt i = node.name := by
  rw [nameAt, h]
  rfl

namespace Sound

theorem empty : GraphStore.empty.Sound where
  index_iff name i := by simp [GraphStore.empty, NameMap.get?_empty]
  placed c hc := by cases hc
  wellFormed := CallGraph.WellFormed.empty

/-- The function that a name leads to. -/
theorem exists_node (h : s.Sound) {name : String} {i : Nat} (hi : s.index.get? name = some i) :
    ∃ node, s.nodes[i]? = some node ∧ node.name = name ∧ s.node? name = some node := by
  obtain ⟨node, hnode, hname⟩ := (h.index_iff name i).1 hi
  exact ⟨node, hnode, hname, by rw [node?, hi, Option.bind_some, hnode]⟩

theorem node?_eq_some_iff (h : s.Sound) {name : String} {node : FunctionNode} :
    s.node? name = some node ↔ node ∈ s.nodes.toList ∧ node.name = name := by
  rw [node?, Option.bind_eq_some_iff]
  constructor
  · rintro ⟨i, hi, hnode⟩
    obtain ⟨node', hnode', hname⟩ := (h.index_iff name i).1 hi
    obtain rfl := Option.some.inj (hnode.symm.trans hnode')
    exact ⟨Array.mem_toList_iff.2 (Array.mem_of_getElem? hnode), hname⟩
  · rintro ⟨hmem, hname⟩
    obtain ⟨i, hi⟩ := List.getElem?_of_mem hmem
    rw [Array.getElem?_toList] at hi
    exact ⟨i, (h.index_iff name i).2 ⟨node, hi, hname⟩, hi⟩

/-- A name leads to the function that the graph has under it. -/
theorem node?_graph (h : s.Sound) (name : String) : s.graph.node? name = s.node? name := by
  ext node
  rw [h.wellFormed.node?_eq_some_iff, h.node?_eq_some_iff]
  rfl

theorem contains_graph (h : s.Sound) (name : String) :
    s.graph.contains name = s.contains name := by
  rw [CallGraph.contains, h.node?_graph, contains]
  cases hi : s.index.get? name with
  | none => rw [node?, hi]; rfl
  | some i =>
    obtain ⟨node, -, -, hnode⟩ := h.exists_node hi
    rw [hnode]
    rfl

theorem nameAt_eq_iff (h : s.Sound) {i : Nat} {name : String} (hi : i < s.nodes.size) :
    s.nameAt i = name ↔ s.index.get? name = some i := by
  have hnode := Array.getElem?_eq_getElem hi
  rw [nameAt_of_getElem? hnode, h.index_iff, hnode]
  simp

/-- There is one call for each pair of places. -/
theorem nodup_ends (h : s.Sound) : (s.calls.map PlacedCall.ends).Nodup := by
  refine List.Nodup.of_map (fun ends => (s.nameAt ends.1, s.nameAt ends.2)) ?_
  have hcalls : (s.calls.map s.named).map CallEdge.ends =
      (s.calls.map PlacedCall.ends).map fun ends => (s.nameAt ends.1, s.nameAt ends.2) := by
    rw [List.map_map, List.map_map]
    rfl
  rw [← hcalls]
  exact h.wellFormed.calls

/-- The names of the ends of the calls lead back to their places. -/
theorem map_placeOf (h : s.Sound) :
    s.graph.edges.map (fun e => (s.index.get? e.caller, s.index.get? e.callee, e.addedBy)) =
      s.calls.map fun c => (some c.source, some c.target, c.addedBy) := by
  have hedges : s.graph.edges = s.calls.map s.named := rfl
  rw [hedges, List.map_map]
  refine List.map_congr_left fun c hc => ?_
  obtain ⟨hsource, htarget⟩ := h.placed c hc
  rw [Function.comp_apply, named, (h.nameAt_eq_iff hsource).1 rfl, (h.nameAt_eq_iff htarget).1 rfl]

/-- A sound store is told by the graph that it shows. -/
theorem eq_of_graph_eq (h : s.Sound) (h' : s'.Sound) (hgraph : s.graph = s'.graph) : s = s' := by
  have hnodes : s.nodes = s'.nodes := Array.toList_inj.1 (congrArg CallGraph.nodes hgraph)
  have hindex : s.index = s'.index := by
    refine NameMap.ext_get? fun name => Option.ext fun i => ?_
    rw [h.index_iff, h'.index_iff, hnodes]
  have hcalls : s.calls = s'.calls := by
    have hplaces := h.map_placeOf
    rw [hgraph, hindex, h'.map_placeOf] at hplaces
    refine List.map_injective_iff.2 ?_ hplaces.symm
    rintro ⟨source, target, stamp⟩ ⟨source', target', stamp'⟩ hsame
    cases hsame
    rfl
  have hcommits : s.commits = s'.commits := congrArg CallGraph.commits hgraph
  have hcurrent : s.current = s'.current := congrArg CallGraph.current hgraph
  cases s
  cases s'
  rw [GraphStore.mk.injEq]
  exact ⟨hnodes, hindex, hcalls, hcommits, hcurrent⟩

/-! ## Changes -/

theorem addCommit (h : s.Sound) (info : CommitInfo) : (s.addCommit info).Sound where
  index_iff := h.index_iff
  placed := h.placed
  wellFormed := h.wellFormed.addCommit info

theorem withoutCurrent (h : s.Sound) : Sound { s with current := none } where
  index_iff := h.index_iff
  placed := h.placed
  wellFormed := h.wellFormed.withCurrent fun _ hcurrent => nomatch hcurrent

/-- Changing the function at its place changes the function with its name. -/
theorem graph_changeAt (h : s.Sound) {name : String} {i : Nat} (hi : s.index.get? name = some i)
    {change : FunctionNode → FunctionNode} (hchange : ∀ node, (change node).name = node.name) :
    (s.changeAt i change).graph = s.graph.withNode name change := by
  obtain ⟨node, hnode, hname, -⟩ := h.exists_node hi
  have hnodes : (s.changeAt i change).nodes.toList = (s.graph.withNode name change).nodes := by
    rw [changeAt, Array.toList_modify]
    exact modify_eq_updateOrAppend h.wellFormed.names (by rw [← hnode]; exact Array.getElem?_toList)
      hname change _
  have hnamed : (s.changeAt i change).named = s.named := by
    have hnameAt : ∀ j, (s.changeAt i change).nameAt j = s.nameAt j := by
      intro j
      rw [nameAt, nameAt, changeAt, Array.getElem?_modify]
      split
      · cases s.nodes[j]? <;> simp [hchange]
      · rfl
    funext c
    rw [named, named, hnameAt, hnameAt]
  rw [graph, hnodes, hnamed]
  rfl

theorem changeAt (h : s.Sound) {name : String} {i : Nat} (hi : s.index.get? name = some i)
    {change : FunctionNode → FunctionNode} (hchange : ∀ node, (change node).name = node.name)
    (hhistory : ∀ node, s.graph.Knows node.history → s.graph.Knows (change node).history) :
    (s.changeAt i change).Sound where
  index_iff other j := by
    refine (h.index_iff other j).trans ?_
    rw [GraphStore.changeAt, Array.getElem?_modify]
    split
    · cases s.nodes[j]? <;> simp [hchange]
    · rfl
  placed c hc := by
    rw [GraphStore.changeAt, Array.size_modify]
    exact h.placed c hc
  wellFormed := by
    rw [h.graph_changeAt hi hchange]
    exact h.wellFormed.withNode hchange hhistory

/-- A new function is put at the end of the functions, and the calls are what they were. -/
theorem graph_push (h : s.Sound) {name : String} (hname : s.index.get? name = none) :
    (s.push name).graph = s.graph.withNode name id := by
  have hnew : name ∉ s.graph.nodes.map FunctionNode.name := by
    rw [← CallGraph.contains_iff, h.contains_graph, contains, hname]
    simp
  have hold : ∀ i < s.nodes.size, (s.push name).nodes[i]? = s.nodes[i]? := by
    intro i hi
    rw [GraphStore.push, Array.getElem?_push_lt hi, Array.getElem?_eq_getElem hi]
  have hnamed : ∀ c ∈ s.calls, (s.push name).named c = s.named c := by
    intro c hc
    obtain ⟨hsource, htarget⟩ := h.placed c hc
    rw [GraphStore.named, GraphStore.named, nameAt, nameAt, nameAt, nameAt, hold _ hsource,
      hold _ htarget]
  have hnodes : (s.push name).nodes.toList = s.graph.nodes ++ [.new name] := Array.toList_push
  have hshown : (s.push name).graph =
      ⟨s.commits, (s.push name).nodes.toList, s.calls.map (s.push name).named, s.current⟩ := rfl
  rw [hshown, hnodes, List.map_congr_left hnamed, CallGraph.withNode,
    updateOrAppend_of_not_mem hnew]
  rfl

/-- A new function is found at the next place. -/
theorem push (h : s.Sound) {name : String} (hname : s.index.get? name = none) :
    (s.push name).Sound where
  index_iff other i := by
    rw [GraphStore.push, NameMap.get?_insert, Array.getElem?_push]
    by_cases hi : i = s.nodes.size
    · have hfree : s.index.get? other ≠ some s.nodes.size := by
        intro hget
        obtain ⟨node, hnode, -⟩ := h.exists_node hget
        simp at hnode
      subst hi
      by_cases hother : other = name
      · simp [hother, FunctionNode.new]
      · simp [hother, hfree, FunctionNode.new, Ne.symm hother]
    · rw [if_neg hi, ← h.index_iff]
      by_cases hother : other = name
      · simp [hother, hname, Ne.symm hi]
      · rw [if_neg hother]
  placed c hc := by
    obtain ⟨hsource, htarget⟩ := h.placed c hc
    rw [GraphStore.push, Array.size_push]
    exact ⟨Nat.lt_succ_of_lt hsource, Nat.lt_succ_of_lt htarget⟩
  wellFormed := by
    rw [h.graph_push hname]
    exact h.wellFormed.withNode (fun _ => rfl) fun _ hnode => hnode

/-- Leaving a known function as it is leaves the graph as it is. -/
theorem withNode_id (h : s.Sound) {name : String} {i : Nat} (hi : s.index.get? name = some i) :
    s.graph.withNode name id = s.graph := by
  have hgraph : (s.changeAt i id).graph = s.graph.withNode name id :=
    h.graph_changeAt hi fun _ => rfl
  have hsame : s.changeAt i id = s := by
    rw [GraphStore.changeAt]
    congr 1
    ext1 <;> simp [Array.getElem_modify]
  rw [← hgraph, hsame]

/-- A function that is interned is there, at the place that the index tells. -/
theorem intern (h : s.Sound) (name : String) :
    (s.intern name).2.Sound ∧ (s.intern name).2.index.get? name = some (s.intern name).1 ∧
      (s.intern name).2.graph = s.graph.withNode name id := by
  rw [GraphStore.intern]
  cases hi : s.index.get? name with
  | some i => exact ⟨h, hi, (h.withNode_id hi).symm⟩
  | none =>
    have hplace : (s.push name).index.get? name = some s.nodes.size := by
      rw [GraphStore.push, NameMap.get?_insert, if_pos rfl]
    exact ⟨h.push hi, hplace, h.graph_push hi⟩

theorem addNode (h : s.Sound) (name : String) (files : List String) :
    (s.addNode name files).Sound ∧
      (s.addNode name files).graph = s.graph.addNode name files ∧
        (s.addNode name files).index.get? name = some (s.intern name).1 := by
  obtain ⟨hsound, hplace, hgraph⟩ := h.intern name
  refine ⟨hsound.changeAt hplace (fun _ => rfl) fun _ hnode => hnode, ?_, hplace⟩
  have hshown : (s.addNode name files).graph =
      (s.intern name).2.graph.withNode name fun node => node.addFiles files :=
    hsound.graph_changeAt hplace fun _ => rfl
  have hid : ∀ node : FunctionNode, (id node).name = node.name := fun _ => rfl
  rw [hshown, hgraph, CallGraph.withNode_withNode s.graph name hid]
  rfl

theorem addNodes (h : s.Sound) {ι : Type} (name : ι → String) (files : List String) (xs : List ι) :
    (xs.foldl (fun s x => s.addNode (name x) files) s).Sound ∧
      (xs.foldl (fun s x => s.addNode (name x) files) s).graph =
        xs.foldl (fun g x => g.addNode (name x) files) s.graph := by
  induction xs generalizing s with
  | nil => exact ⟨h, rfl⟩
  | cons x xs ih =>
    obtain ⟨hsound, hgraph, -⟩ := h.addNode (name x) files
    rw [List.foldl_cons, List.foldl_cons, ← hgraph]
    exact ih hsound

/-- Putting a call between two places puts it between the names of their functions. -/
theorem graph_link (h : s.Sound) {caller callee : String} {i j : Nat}
    (hcaller : s.index.get? caller = some i) (hcallee : s.index.get? callee = some j)
    (stamp : Option String) :
    (s.link ⟨i, j, stamp⟩).graph = s.graph.link ⟨caller, callee, stamp⟩ := by
  obtain ⟨node, hnode, hname, -⟩ := h.exists_node hcaller
  obtain ⟨node', hnode', hname', -⟩ := h.exists_node hcallee
  have hnamed : s.named ⟨i, j, stamp⟩ = ⟨caller, callee, stamp⟩ := by
    rw [named, nameAt_of_getElem? hnode, nameAt_of_getElem? hnode', hname, hname']
  have htest : ∀ c ∈ s.calls,
      (c.ends == (i, j)) = ((s.named c).ends == (s.named ⟨i, j, stamp⟩).ends) := by
    intro c hc
    obtain ⟨hsource, htarget⟩ := h.placed c hc
    rw [hnamed, Bool.eq_iff_iff, beq_iff_eq, beq_iff_eq, PlacedCall.ends, CallEdge.ends,
      CallEdge.ends, named, Prod.mk.injEq, Prod.mk.injEq, h.nameAt_eq_iff hsource,
      h.nameAt_eq_iff htarget, hcaller, hcallee, Option.some.injEq, Option.some.injEq,
      eq_comm (a := i), eq_comm (a := j)]
  have hedges : (s.link ⟨i, j, stamp⟩).calls.map s.named =
      (s.graph.link ⟨caller, callee, stamp⟩).edges := by
    rw [CallGraph.edges_link, ← hnamed]
    exact map_updateOrAppend_of_test htest
  have hshown : (s.link ⟨i, j, stamp⟩).graph =
      ⟨s.commits, s.nodes.toList, (s.link ⟨i, j, stamp⟩).calls.map s.named, s.current⟩ := rfl
  rw [hshown, hedges]
  rfl

theorem link (h : s.Sound) {caller callee : String} {i j : Nat}
    (hcaller : s.index.get? caller = some i) (hcallee : s.index.get? callee = some j)
    {stamp : Option String} (hstamp : ∀ hash, stamp = some hash → s.graph.hasCommit hash = true) :
    (s.link ⟨i, j, stamp⟩).Sound where
  index_iff := h.index_iff
  placed := by
    obtain ⟨node, hnode, -⟩ := h.exists_node hcaller
    obtain ⟨node', hnode', -⟩ := h.exists_node hcallee
    have hends := And.intro (Array.getElem?_eq_some_iff.1 hnode).1
      (Array.getElem?_eq_some_iff.1 hnode').1
    exact forall_mem_updateOrAppend (fun _ _ => hends) hends h.placed
  wellFormed := by
    rw [h.graph_link hcaller hcallee]
    refine h.wellFormed.link ?_ ?_ hstamp
    · rw [h.contains_graph, contains, hcaller]
      rfl
    · rw [h.contains_graph, contains, hcallee]
      rfl

end Sound

end GraphStore

end EffortRank
