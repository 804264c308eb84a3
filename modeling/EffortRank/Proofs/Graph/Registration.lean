import EffortRank.Proofs.Graph.WellFormed

/-!
# Registrations

A commit may be registered more than once, and a graph that is loaded brings the registrations of
its saved form along instead of those made before (`CallGraph.register`). The graph knows a commit
as its latest registration describes it (`CallGraph.commit?_run`).
-/

namespace EffortRank

namespace CallGraph

variable {g g' : CallGraph}

/-! ## Registrations in force -/

/-- The registrations in force after a request, in the order in which they were made. -/
def register (known : List CommitInfo) : GraphRequest → List CommitInfo
  | .addCommit info => known ++ [info]
  | .load data =>
    match ofData data with
    | .ok _ => data.commits
    | .error _ => known
  | _ => known

/-- The registrations in force after some requests. -/
def registrations (requests : List GraphRequest) : List CommitInfo := requests.foldl register []

/-- The latest of some registrations of a commit. -/
def latest? (known : List CommitInfo) (hash : String) : Option CommitInfo :=
  known.reverse.find? fun info => info.hash == hash

theorem latest?_append_singleton (known : List CommitInfo) (info : CommitInfo) (hash : String) :
    latest? (known ++ [info]) hash =
      if hash = info.hash then some info else latest? known hash := by
  rw [latest?, List.reverse_append, List.reverse_singleton, List.singleton_append, List.find?_cons]
  by_cases hhash : hash = info.hash
  · simp [hhash]
  · have hmiss : (info.hash == hash) = false := by simpa using Ne.symm hhash
    rw [if_neg hhash, hmiss]
    rfl

/-- The graph knows each commit as the latest of these registrations describes it. -/
def KnowsLatest (g : CallGraph) (known : List CommitInfo) : Prop :=
  ∀ hash, g.commit? hash = latest? known hash

/-! ## What a request registers -/

theorem commit?_registerCommit (g : CallGraph) (info : CommitInfo) (hash : String) :
    (g.registerCommit info).commit? hash =
      if hash = info.hash then some info else g.commit? hash :=
  find?_put g.commits info hash

theorem KnowsLatest.registerCommit {known : List CommitInfo} (h : g.KnowsLatest known)
    (info : CommitInfo) : (g.registerCommit info).KnowsLatest (known ++ [info]) := by
  intro hash
  rw [commit?_registerCommit, latest?_append_singleton, h hash]

theorem KnowsLatest.foldl_registerCommit {known : List CommitInfo} (h : g.KnowsLatest known)
    (infos : List CommitInfo) :
    (infos.foldl CallGraph.registerCommit g).KnowsLatest (known ++ infos) := by
  induction infos generalizing g known with
  | nil =>
    rw [List.append_nil]
    exact h
  | cons info infos ih =>
    rw [List.foldl_cons, List.append_cons]
    exact ih (h.registerCommit info)

/-- A loaded graph knows the commits of its saved form. -/
theorem KnowsLatest.of_ofData {data : GraphData} (h : ofData data = .ok g) :
    g.KnowsLatest data.commits := by
  rw [ofData, bind_eq_ok_iff] at h
  obtain ⟨nodes, hnodes, hedges⟩ := h
  rw [Halt.ofChecked_eq_ok_iff] at hedges
  have hempty : empty.KnowsLatest [] := fun _ => rfl
  have hcommits := hempty.foldl_registerCommit data.commits
  -- Functions and calls are loaded without touching the commits.
  have hloaded : nodes.KnowsLatest data.commits := by
    refine foldlM_preserves (p := fun g => g.KnowsLatest data.commits) ?_ hcommits hnodes
    intro g g' node hg hstep
    obtain ⟨-, rfl⟩ := loadNode_eq_ok hstep
    exact hg
  refine foldlM_preserves (p := fun g => g.KnowsLatest data.commits) ?_ hloaded hedges
  intro g g' e hg hstep
  obtain ⟨-, -, -, rfl⟩ := loadEdge_eq_ok hstep
  exact hg

/-- An answer knows the registrations that the request leaves in force. -/
theorem KnowsLatest.answer {known : List CommitInfo} (h : g.KnowsLatest known)
    {request : GraphRequest} (hanswer : g.answer request = .ok g') :
    g'.KnowsLatest (register known request) := by
  cases request with
  | addCommit info =>
    cases hanswer
    exact h.registerCommit info
  | addNode name files =>
    cases hanswer
    exact h
  | addEdge caller callee =>
    obtain ⟨-, -, rfl⟩ := addEdge_eq_ok (Halt.ofChecked_eq_ok_iff.1 hanswer)
    exact h
  | setFiles name files =>
    obtain ⟨-, rfl⟩ := setFiles_eq_ok (Halt.ofChecked_eq_ok_iff.1 hanswer)
    exact h
  | recordHistory name stats =>
    obtain ⟨-, -, -, -, -, rfl⟩ := recordHistory_eq_ok hanswer
    exact h
  | load data =>
    have hloaded : ofData data = .ok g' := hanswer
    rw [register, hloaded]
    exact .of_ofData hloaded

/-- A request without an answer leaves all registrations in force. -/
theorem register_of_error {request : GraphRequest} {halt : Halt GraphError}
    (hanswer : g.answer request = .error halt) (known : List CommitInfo) :
    register known request = known := by
  cases request with
  | addCommit info => cases hanswer
  | load data =>
    have hrefused : ofData data = .error halt := hanswer
    rw [register, hrefused]
  | _ => rfl

/-- **A graph that knows the latest registrations** knows them after every request. -/
theorem KnowsLatest.perform {known : List CommitInfo} (h : g.KnowsLatest known)
    (request : GraphRequest) : (g.perform request).1.KnowsLatest (register known request) := by
  unfold CallGraph.perform
  split
  · rename_i g' hanswer
    exact h.answer hanswer
  · rename_i halt hanswer
    rw [register_of_error hanswer]
    exact h

theorem KnowsLatest.run {known : List CommitInfo} (h : g.KnowsLatest known)
    (requests : List GraphRequest) :
    (g.run requests).KnowsLatest (requests.foldl register known) := by
  induction requests generalizing g known with
  | nil => exact h
  | cons request requests ih => exact ih (h.perform request)

/-- **The graph knows each commit as it was registered last.** -/
theorem commit?_run (requests : List GraphRequest) (hash : String) :
    (empty.run requests).commit? hash = latest? (registrations requests) hash :=
  KnowsLatest.run (fun _ => rfl) requests hash

end CallGraph

end EffortRank
