import EffortRank.Graph.Basic
import EffortRank.NameMap.Lemmas

/-!
# Looking into a graph

The lists of a graph hold one element for each key. An element that is put into such a list takes
the place of the one with its key, so that of several the last is found (`find?_foldl_put`).

`CallGraph.statsAt?` is what a graph records of a function and a commit. Of all requests, only
`recordHistory` changes an entry, and only the one of the function and the current commit
(`CallGraph.statsAt?_recordHistory`).
-/

namespace EffortRank

/-! ## Changing one element of a list -/

section

variable {α κ : Type} [BEq κ] [LawfulBEq κ] {key : α → κ} {change : α → α} {fresh : α} {name : κ}

/-- An element that is changed is found under its own key, and all others are as before. -/
theorem find?_updateOrAppend [DecidableEq κ] (hchange : ∀ x, key x = name → key (change x) = name)
    (hfresh : key fresh = name) (xs : List α) (other : κ) :
    (updateOrAppend (fun x => key x == name) change fresh xs).find? (fun x => key x == other) =
      if other = name then some (((xs.find? fun x => key x == name).map change).getD fresh)
      else xs.find? fun x => key x == other := by
  induction xs with
  | nil =>
    rw [updateOrAppend]
    by_cases hother : other = name
    · simp [hother, hfresh]
    · have hmiss : (key fresh == other) = false := by simpa [hfresh] using Ne.symm hother
      simp [hother, hmiss]
  | cons x xs ih =>
    rw [updateOrAppend]
    by_cases hx : key x = name
    · have hkey : key (change x) = name := hchange x hx
      by_cases hother : other = name
      · simp [hx, hother, hkey]
      · have hmiss : (name == other) = false := by simpa using Ne.symm hother
        simp [hx, hother, hkey, hmiss]
    · have hmiss : (key x == name) = false := by simpa using hx
      rw [if_neg (by simpa using hx), List.find?_cons, List.find?_cons, List.find?_cons, ih, hmiss]
      by_cases hother : other = name
      · simp [hother, hmiss]
      · simp [hother]

/-- Two changes of different elements may change places if one of the elements is there. -/
theorem updateOrAppend_comm {change' : α → α} {name' : κ} (fresh fresh' : α)
    (hchange : ∀ x, key (change x) = key x) (hchange' : ∀ x, key (change' x) = key x)
    (hne : name ≠ name') {xs : List α} (hxs : (xs.find? fun x => key x == name).isSome = true) :
    updateOrAppend (fun x => key x == name') change' fresh'
        (updateOrAppend (fun x => key x == name) change fresh xs) =
      updateOrAppend (fun x => key x == name) change fresh
        (updateOrAppend (fun x => key x == name') change' fresh' xs) := by
  induction xs with
  | nil => simp at hxs
  | cons x xs ih =>
    by_cases hx : key x = name
    · have hx' : key x ≠ name' := by rw [hx]; exact hne
      simp [updateOrAppend, hchange, hx, hne]
    · by_cases hx' : key x = name'
      · simp [updateOrAppend, hchange', hx', Ne.symm hne]
      · have hrest : (xs.find? fun x => key x == name).isSome = true := by simpa [hx] using hxs
        simp [updateOrAppend, hx, hx', ih hrest]

end

/-! ## Elements that take the place of others -/

section

variable {α κ : Type} [BEq κ] {key : α → κ}

/-- Puts an element in the place of the one with its key, or behind all others. -/
def put (key : α → κ) (xs : List α) (x : α) : List α :=
  updateOrAppend (fun y => key y == key x) (fun _ => x) x xs

/-- The last element with a key. -/
def lastWith? (key : α → κ) (xs : List α) (k : κ) : Option α := xs.reverse.find? fun x => key x == k

theorem lastWith?_append (xs ys : List α) (k : κ) :
    lastWith? key (xs ++ ys) k = (lastWith? key ys k).or (lastWith? key xs k) := by
  rw [lastWith?, List.reverse_append, List.find?_append]
  rfl

end

/-! ## Lists with one element for each key -/

section

variable {α κ : Type} [BEq κ] [LawfulBEq κ] {key : α → κ} {change : α → α} {fresh : α} {k : κ}

theorem isSome_find?_iff {xs : List α} :
    (xs.find? fun x => key x == k).isSome = true ↔ k ∈ xs.map key := by
  rw [List.find?_isSome, List.mem_map]
  simp only [beq_iff_eq]

/-- With one element for each key, an element is found by its key. -/
theorem find?_eq_some_iff_of_nodup {xs : List α} (h : (xs.map key).Nodup) {x : α} :
    (xs.find? fun x => key x == k) = some x ↔ x ∈ xs ∧ key x = k := by
  induction xs with
  | nil => simp
  | cons y ys ih =>
    rw [List.map_cons, List.nodup_cons] at h
    rw [List.find?_cons]
    by_cases hy : key y = k
    · have hmiss : x ∈ ys → key x ≠ k := by
        intro hx hkey
        exact h.1 (List.mem_map.2 ⟨x, hx, by rw [hkey, hy]⟩)
      simp only [hy, beq_self_eq_true, Option.some.injEq, List.mem_cons]
      constructor
      · rintro rfl
        exact ⟨.inl rfl, hy⟩
      · rintro ⟨rfl | hx, hkey⟩
        · rfl
        · exact absurd hkey (hmiss hx)
    · have hbeq : (key y == k) = false := by simpa using hy
      rw [hbeq, ih h.2, List.mem_cons]
      constructor
      · rintro ⟨hx, hkey⟩
        exact ⟨.inr hx, hkey⟩
      · rintro ⟨rfl | hx, hkey⟩
        · exact absurd hkey hy
        · exact ⟨hx, hkey⟩

theorem updateOrAppend_of_not_mem {xs : List α} (h : k ∉ xs.map key) :
    updateOrAppend (fun x => key x == k) change fresh xs = xs ++ [fresh] := by
  induction xs with
  | nil => rfl
  | cons x xs ih =>
    rw [List.map_cons, List.mem_cons, not_or] at h
    have hmiss : (key x == k) = false := by simpa using Ne.symm h.1
    rw [updateOrAppend, hmiss, ih h.2]
    rfl

/-- **Keys keep their places**: an element that is changed stays where it is, and a fresh one comes
behind all others. -/
theorem map_updateOrAppend (hchange : ∀ x, key x = k → key (change x) = k) (hfresh : key fresh = k)
    (xs : List α) :
    (updateOrAppend (fun x => key x == k) change fresh xs).map key =
      if k ∈ xs.map key then xs.map key else xs.map key ++ [k] := by
  by_cases hmem : k ∈ xs.map key
  · rw [if_pos hmem]
    induction xs with
    | nil => simp at hmem
    | cons x xs ih =>
      rw [updateOrAppend]
      by_cases hx : key x = k
      · simp [hx, hchange x hx]
      · have hrest : k ∈ xs.map key := by simpa [Ne.symm hx] using hmem
        simp [hx, ih hrest]
  · rw [if_neg hmem, updateOrAppend_of_not_mem hmem, List.map_append, List.map_singleton, hfresh]

theorem nodup_map_updateOrAppend (hchange : ∀ x, key x = k → key (change x) = k)
    (hfresh : key fresh = k) {xs : List α} (h : (xs.map key).Nodup) :
    ((updateOrAppend (fun x => key x == k) change fresh xs).map key).Nodup := by
  rw [map_updateOrAppend hchange hfresh]
  split
  · exact h
  · rename_i hmem
    refine List.nodup_append.2 ⟨h, by simp, fun a ha b hb heq => ?_⟩
    rw [heq, List.mem_singleton.1 hb] at ha
    exact hmem ha

theorem mem_map_updateOrAppend (hchange : ∀ x, key x = k → key (change x) = k)
    (hfresh : key fresh = k) {xs : List α} {other : κ} :
    other ∈ (updateOrAppend (fun x => key x == k) change fresh xs).map key ↔
      other = k ∨ other ∈ xs.map key := by
  rw [map_updateOrAppend hchange hfresh]
  split
  · rename_i hmem
    constructor
    · exact .inr
    · rintro (rfl | h)
      · exact hmem
      · exact h
  · rw [List.mem_append, List.mem_singleton, or_comm]

/-- Only the first element that passes is changed; if none does, the fresh one is added. -/
theorem forall_mem_updateOrAppend_of_find? {test : α → Bool} {p : α → Prop} {xs : List α}
    (h : ∀ x ∈ xs, p x) (hchange : ∀ x, xs.find? test = some x → p (change x))
    (hfresh : xs.find? test = none → p fresh) :
    ∀ x ∈ updateOrAppend test change fresh xs, p x := by
  induction xs with
  | nil => simpa [updateOrAppend] using hfresh rfl
  | cons x xs ih =>
    rw [List.forall_mem_cons] at h
    rw [updateOrAppend]
    split
    · rename_i hx
      exact List.forall_mem_cons.2 ⟨hchange x (List.find?_cons_of_pos hx), h.2⟩
    · rename_i hx
      rw [List.find?_cons_of_neg hx] at hchange hfresh
      exact List.forall_mem_cons.2 ⟨h.1, ih h.2 hchange hfresh⟩

theorem forall_mem_updateOrAppend {test : α → Bool} {p : α → Prop} {xs : List α}
    (hchange : ∀ x, p x → p (change x)) (hfresh : p fresh) (h : ∀ x ∈ xs, p x) :
    ∀ x ∈ updateOrAppend test change fresh xs, p x :=
  forall_mem_updateOrAppend_of_find? h
    (fun x hx => hchange x (h x (List.mem_of_find?_eq_some hx))) fun _ => hfresh

theorem lastWith?_singleton [DecidableEq κ] (x : α) (k : κ) :
    lastWith? key [x] k = if k = key x then some x else none := by
  rw [lastWith?, List.reverse_singleton, List.find?_singleton]
  by_cases hk : k = key x
  · simp [hk]
  · simp [hk, Ne.symm hk]

theorem find?_put [DecidableEq κ] (xs : List α) (x : α) (k : κ) :
    (put key xs x).find? (fun y => key y == k) =
      if k = key x then some x else xs.find? fun y => key y == k := by
  refine (find?_updateOrAppend (fun _ _ => rfl) rfl xs k).trans ?_
  cases (xs.find? fun y => key y == key x) <;> rfl

/-- **The last one stays**: of all elements with one key that are put in, the last is found. -/
theorem find?_foldl_put [DecidableEq κ] (xs ys : List α) (k : κ) :
    (xs.foldl (put key) ys).find? (fun y => key y == k) =
      (lastWith? key xs k).or (ys.find? fun y => key y == k) := by
  induction xs generalizing ys with
  | nil => rfl
  | cons x xs ih =>
    rw [List.foldl_cons, ih, find?_put, ← List.singleton_append, lastWith?_append,
      lastWith?_singleton, Option.or_assoc]
    split
    · rfl
    · rfl

end

theorem FunctionNode.name_record (hash : String) (stats : ChangeStats) (node : FunctionNode) :
    (node.record hash stats).name = node.name := rfl

namespace CallGraph

variable {g g' : CallGraph}

/-! ## Entries -/

/-- What the graph records of a function and a commit. -/
def statsAt? (g : CallGraph) (name hash : String) : Option ChangeStats :=
  (g.node? name).bind fun node => node.history.get? hash

theorem node?_withNode {change : FunctionNode → FunctionNode} (name other : String)
    (hchange : ∀ node, (change node).name = node.name) :
    (g.withNode name change).node? other =
      if other = name then some (change ((g.node? name).getD (.new name))) else g.node? other := by
  have hfresh : (change (.new name)).name = name := hchange (.new name)
  rw [node?, withNode, find?_updateOrAppend (fun node hnode => (hchange node).trans hnode) hfresh,
    node?, node?]
  cases g.nodes.find? fun node => node.name == name with
  | none => rfl
  | some node => rfl

theorem statsAt?_congr (h : g'.nodes = g.nodes) (name hash : String) :
    g'.statsAt? name hash = g.statsAt? name hash := by
  rw [statsAt?, statsAt?, node?, node?, h]

theorem statsAt?_withNode_of_history {change : FunctionNode → FunctionNode} (name : String)
    (hchange : ∀ node, (change node).name = node.name)
    (hhistory : ∀ node, (change node).history = node.history) (other hash : String) :
    (g.withNode name change).statsAt? other hash = g.statsAt? other hash := by
  rw [statsAt?, statsAt?, node?_withNode name other hchange]
  split
  · rename_i hother
    rw [hother, Option.bind_some, hhistory]
    cases g.node? name with
    | none => rfl
    | some node => rfl
  · rfl

/-- More counts of a function and a commit are merged with those that are there. -/
theorem statsAt?_withNode_record {name hash : String} {stats : ChangeStats}
    (other otherHash : String) :
    (g.withNode name fun node => node.record hash stats).statsAt? other otherHash =
      if other = name ∧ otherHash = hash then
        Option.merge ChangeStats.merge (g.statsAt? other otherHash) (some stats)
      else g.statsAt? other otherHash := by
  rw [statsAt?, statsAt?, node?_withNode name other (FunctionNode.name_record hash stats)]
  by_cases hother : other = name
  · rw [if_pos hother, hother, Option.bind_some, FunctionNode.record, NameMap.get?_alter]
    by_cases hhash : otherHash = hash
    · rw [if_pos hhash, if_pos ⟨rfl, hhash⟩, hhash]
      cases hnode : g.node? name with
      | none => rfl
      | some node =>
        rw [Option.getD_some, Option.bind_some]
        cases node.history.get? hash with
        | none => rfl
        | some old => rfl
    · rw [if_neg hhash, if_neg fun h => hhash h.2]
      cases g.node? name with
      | none => rfl
      | some node => rfl
  · rw [if_neg hother, if_neg fun h => hother h.1]

/-! ## What a request changes -/

/-- A call is added between known functions only, with the stamp of the current commit. -/
theorem addEdge_eq_ok {caller callee : String} (h : g.addEdge caller callee = .ok g') :
    g.contains caller = true ∧ g.contains callee = true ∧
      g' = g.link ⟨caller, callee, g.current⟩ := by
  unfold addEdge at h
  split at h
  · cases h
  · rename_i hcaller
    split at h
    · cases h
    · rename_i hcallee
      cases h
      exact ⟨by simpa using hcaller, by simpa using hcallee, rfl⟩

/-- Files are set for known functions only. -/
theorem setFiles_eq_ok {name : String} {files : List String} (h : g.setFiles name files = .ok g') :
    g.contains name = true ∧
      g' = g.withNode name fun node => { node with files := NameSet.ofNames files } := by
  unfold setFiles at h
  split at h
  · rename_i hname
    cases h
    exact ⟨hname, rfl⟩
  · cases h

/-- History is recorded for known functions and the current commit only, and if the counts fit. -/
theorem recordHistory_eq_ok {name : String} {stats : ChangeStats}
    (h : g.recordHistory name stats = .ok g') :
    ∃ hash node, g.current = some hash ∧ g.node? name = some node ∧
      node.recordFits hash stats = true ∧
        g' = g.withNode name fun node => node.record hash stats := by
  unfold recordHistory at h
  split at h
  · cases h
  · cases h
  · rename_i hash node hcurrent hnode
    split at h
    · rename_i hfits
      cases h
      exact ⟨hash, node, hcurrent, hnode, hfits, rfl⟩
    · cases h

/-- The graphs have the same entries and the same current commit. -/
structure SameHistory (g g' : CallGraph) : Prop where
  entries : ∀ name hash, g'.statsAt? name hash = g.statsAt? name hash
  current : g'.current = g.current

namespace SameHistory

theorem refl (g : CallGraph) : SameHistory g g := ⟨fun _ _ => rfl, rfl⟩

theorem trans {g g' g'' : CallGraph} (h : SameHistory g g') (h' : SameHistory g' g'') :
    SameHistory g g'' :=
  ⟨fun name hash => (h'.entries name hash).trans (h.entries name hash), h'.current.trans h.current⟩

theorem addNode (g : CallGraph) (name : String) (files : List String) :
    SameHistory g (g.addNode name files) :=
  ⟨statsAt?_withNode_of_history name (fun _ => rfl) fun _ => rfl, rfl⟩

theorem addEdge {caller callee : String} (h : g.addEdge caller callee = .ok g') :
    SameHistory g g' := by
  obtain ⟨-, -, rfl⟩ := addEdge_eq_ok h
  exact ⟨statsAt?_congr rfl, rfl⟩

theorem addCommit (g : CallGraph) (info : CommitInfo) (name hash : String) :
    (g.addCommit info).statsAt? name hash = g.statsAt? name hash := statsAt?_congr rfl name hash

end SameHistory

/-! ## Recording history -/

/-- **Recording**: the counts go to the entry of the function and the current commit, and all other
entries stay. -/
theorem statsAt?_recordHistory {name hash : String} {stats : ChangeStats}
    (hcurrent : g.current = some hash) (h : g.recordHistory name stats = .ok g') :
    g'.current = some hash ∧
      ∀ other otherHash, g'.statsAt? other otherHash =
        if other = name ∧ otherHash = hash then
          Option.merge ChangeStats.merge (g.statsAt? other otherHash) (some stats)
        else g.statsAt? other otherHash := by
  obtain ⟨hash', -, hcurrent', -, -, rfl⟩ := recordHistory_eq_ok h
  obtain rfl : hash = hash' := Option.some.inj (hcurrent.symm.trans hcurrent')
  exact ⟨hcurrent, statsAt?_withNode_record⟩

theorem toOption_recordHistory (g : CallGraph) (name : String) (stats : ChangeStats) :
    (g.recordHistory name stats).toOption =
      g.current.bind fun hash => (g.node? name).bind fun node =>
        if node.recordFits hash stats then some (g.withNode name fun node => node.record hash stats)
        else none := by
  rw [recordHistory]
  cases g.current with
  | none => rfl
  | some hash =>
    cases g.node? name with
    | none => rfl
    | some node =>
      rw [Option.bind_some, Option.bind_some]
      dsimp only
      split
      · rfl
      · rfl

theorem withNode_comm {change change' : FunctionNode → FunctionNode} {name name' : String}
    (hchange : ∀ node, (change node).name = node.name)
    (hchange' : ∀ node, (change' node).name = node.name) (hne : name ≠ name')
    (hnode : (g.node? name).isSome = true) :
    (g.withNode name change).withNode name' change' =
      (g.withNode name' change').withNode name change := by
  have hnodes := updateOrAppend_comm (change (.new name)) (change' (.new name')) hchange hchange'
    hne hnode
  rw [withNode, withNode, withNode, withNode, hnodes]

theorem toOption_recordHistory_recordHistory (g : CallGraph) {name name' : String}
    (hne : name ≠ name') (stats stats' : ChangeStats) :
    ((g.recordHistory name stats).toOption.bind fun g => (g.recordHistory name' stats').toOption) =
      g.current.bind fun hash => (g.node? name).bind fun node => (g.node? name').bind fun node' =>
        if node.recordFits hash stats ∧ node'.recordFits hash stats' then
          some ((g.withNode name fun node => node.record hash stats).withNode name'
            fun node => node.record hash stats')
        else none := by
  rw [toOption_recordHistory]
  cases hcurrent : g.current with
  | none => rfl
  | some hash =>
    cases hnode : g.node? name with
    | none => rfl
    | some node =>
      have hnode' : (g.withNode name fun node => node.record hash stats).node? name' =
          g.node? name' := by
        rw [node?_withNode name name' (FunctionNode.name_record hash stats), if_neg (Ne.symm hne)]
      have hcurrent' : (g.withNode name fun node => node.record hash stats).current = some hash :=
        hcurrent
      rw [Option.bind_some, Option.bind_some, Option.bind_some, Option.bind_some]
      by_cases hfits : node.recordFits hash stats = true
      · rw [if_pos hfits, Option.bind_some, toOption_recordHistory, hcurrent', hnode',
          Option.bind_some]
        simp only [hfits, true_and]
      · rw [if_neg hfits, Option.bind_none]
        simp [hfits]

/-- The histories of two functions may be recorded in either order. -/
theorem recordHistory_comm (g : CallGraph) {name name' : String} (hne : name ≠ name')
    (stats stats' : ChangeStats) :
    ((g.recordHistory name stats).toOption.bind fun g => (g.recordHistory name' stats').toOption) =
      (g.recordHistory name' stats').toOption.bind fun g =>
        (g.recordHistory name stats).toOption := by
  rw [toOption_recordHistory_recordHistory g hne,
    toOption_recordHistory_recordHistory g (Ne.symm hne)]
  cases g.current with
  | none => rfl
  | some hash =>
    cases hnode : g.node? name with
    | none => cases g.node? name' <;> rfl
    | some node =>
      cases g.node? name' with
      | none => rfl
      | some node' =>
        have hisSome : (g.node? name).isSome = true := by rw [hnode]; rfl
        simp only [Option.bind_some]
        rw [withNode_comm (FunctionNode.name_record hash stats)
          (FunctionNode.name_record hash stats') hne hisSome]
        simp only [and_comm]

end CallGraph

end EffortRank
