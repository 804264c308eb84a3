import EffortRank.Proofs.Graph.WellFormed
import EffortRank.Proofs.Record.Decoding

/-!
# Graphs keep to 64 bits

A request whose numbers fit leads from a graph whose numbers fit to another (`Fits.answer`): counts
are joined only where their sums fit, and instants are kept as they come. So the numbers fit in
every graph that such requests lead to (`CallGraph.fits_run`).
-/

namespace EffortRank

/-! ## Functions -/

namespace FunctionNode

variable {node : FunctionNode} {hash : String} {stats : ChangeStats}

theorem fits_new (name : String) : (new name).Fits := by
  intro e he
  cases he

theorem Fits.withFiles (h : node.Fits) (files : NameSet) :
    Fits { node with files := files } := h

theorem Fits.record (h : node.Fits) (hstats : stats.fits = true)
    (hfits : node.recordFits hash stats = true) : (node.record hash stats).Fits := by
  rw [recordFits] at hfits
  refine NameMap.forall_entries_alter (p := fun stats : ChangeStats => stats.fits = true) h ?_
  cases hold : node.history.get? hash with
  | none => exact hstats
  | some old =>
    rw [hold] at hfits
    exact hfits

/-- A history is recorded as a whole if each of its entries could be. -/
theorem Fits.recordAll {history : NameMap ChangeStats} (h : node.Fits)
    (hhistory : ∀ e ∈ history.entries, e.2.fits = true)
    (hfits : ∀ e ∈ history.entries, node.recordFits e.1 e.2 = true) :
    (history.entries.foldl (fun old e => old.record e.1 e.2) node).Fits := by
  rw [foldl_record]
  refine NameMap.forall_entries_mergeWith (p := fun stats : ChangeStats => stats.fits = true) h
    hhistory fun hash old new hold hnew => ?_
  have hrecord := hfits (hash, new) (NameMap.mem_entries_iff.2 hnew)
  rw [recordFits, hold] at hrecord
  exact hrecord

end FunctionNode

/-! ## Requests -/

/-- The numbers of a request are such as the program can hold. -/
def GraphRequest.Fits : GraphRequest → Prop
  | .addCommit info => info.Fits
  | .recordHistory _ stats => stats.fits = true
  | .load data => data.Fits
  | _ => True

instance : (request : GraphRequest) → Decidable request.Fits
  | .addCommit info => inferInstanceAs (Decidable info.Fits)
  | .recordHistory _ stats => inferInstanceAs (Decidable (stats.fits = true))
  | .load data => inferInstanceAs (Decidable data.Fits)
  | .addNode _ _ => inferInstanceAs (Decidable True)
  | .addEdge _ _ => inferInstanceAs (Decidable True)
  | .setFiles _ _ => inferInstanceAs (Decidable True)

namespace CallGraph

/-- The numbers of the graph are such as the program can hold. -/
def Fits (g : CallGraph) : Prop := g.toData.Fits

namespace Fits

variable {g g' : CallGraph}

theorem empty : CallGraph.empty.Fits := by
  constructor <;> simp [toData, CallGraph.empty]

theorem registerCommit (h : g.Fits) {info : CommitInfo} (hinfo : info.Fits) :
    (g.registerCommit info).Fits :=
  ⟨forall_mem_updateOrAppend (fun _ _ => hinfo) hinfo h.commits, h.nodes⟩

/-- A function may change in any way that keeps its numbers small. -/
theorem withNode (h : g.Fits) {name : String} {change : FunctionNode → FunctionNode}
    (hchange : ∀ node, g.node? name = some node → (change node).Fits)
    (hfresh : g.node? name = none → (change (.new name)).Fits) : (g.withNode name change).Fits :=
  ⟨h.commits, forall_mem_updateOrAppend_of_find? h.nodes hchange hfresh⟩

theorem of_node? (h : g.Fits) {name : String} {node : FunctionNode}
    (hnode : g.node? name = some node) : node.Fits :=
  h.nodes node (List.mem_of_find?_eq_some hnode)

theorem addCommit (h : g.Fits) {info : CommitInfo} (hinfo : info.Fits) : (g.addCommit info).Fits :=
  ⟨(h.registerCommit hinfo).commits, h.nodes⟩

theorem addNode (h : g.Fits) (name : String) (files : List String) : (g.addNode name files).Fits :=
  h.withNode (fun _ hnode => (h.of_node? hnode).withFiles _) fun _ => FunctionNode.fits_new name

theorem addEdge (h : g.Fits) {caller callee : String} (hanswer : g.addEdge caller callee = .ok g') :
    g'.Fits := by
  unfold CallGraph.addEdge at hanswer
  split at hanswer
  · cases hanswer
  · split at hanswer
    · cases hanswer
    · cases hanswer
      exact ⟨h.commits, h.nodes⟩

theorem setFiles (h : g.Fits) {name : String} {files : List String}
    (hanswer : g.setFiles name files = .ok g') : g'.Fits := by
  unfold CallGraph.setFiles at hanswer
  split at hanswer
  · cases hanswer
    exact h.withNode (fun _ hnode => (h.of_node? hnode).withFiles _) fun _ =>
      FunctionNode.fits_new name
  · cases hanswer

theorem recordHistory (h : g.Fits) {name : String} {stats : ChangeStats}
    (hstats : stats.fits = true) (hanswer : g.recordHistory name stats = .ok g') : g'.Fits := by
  unfold CallGraph.recordHistory at hanswer
  split at hanswer
  · cases hanswer
  · cases hanswer
  · rename_i hash node hcurrent hnode
    split at hanswer
    · rename_i hfits
      cases hanswer
      refine h.withNode (fun other hother => ?_) fun hnone => ?_
      · rw [hnode] at hother
        cases hother
        exact (h.of_node? hnode).record hstats hfits
      · rw [hnode] at hnone
        cases hnone
    · cases hanswer

theorem loadNode (h : g.Fits) {node : FunctionNode} (hnode : node.Fits)
    (hanswer : g.loadNode node = .ok g') : g'.Fits := by
  unfold CallGraph.loadNode at hanswer
  split at hanswer
  · cases hanswer
  · dsimp only at hanswer
    split at hanswer
    · rename_i hfits
      rw [List.all_eq_true] at hfits
      cases hanswer
      refine h.withNode (fun old hold => ?_) fun hnone => ?_
      · rw [hold, Option.getD_some] at hfits
        have hfiles : (old.addFiles node.files.keys).Fits := (h.of_node? hold).withFiles _
        exact hfiles.recordAll hnode hfits
      · rw [hnone, Option.getD_none] at hfits
        have hfiles : ((FunctionNode.new node.name).addFiles node.files.keys).Fits :=
          FunctionNode.fits_new node.name
        exact hfiles.recordAll hnode hfits
    · cases hanswer

theorem of_ofData {data : GraphData} (hdata : data.Fits) (hanswer : ofData data = .ok g') :
    g'.Fits := by
  rw [CallGraph.ofData, bind_eq_ok_iff] at hanswer
  obtain ⟨nodes, hnodes, hedges⟩ := hanswer
  rw [Halt.ofChecked_eq_ok_iff] at hedges
  have hcommits : (data.commits.foldl CallGraph.registerCommit CallGraph.empty).Fits :=
    List.foldlRecOn data.commits _ empty fun g hg info hinfo =>
      hg.registerCommit (hdata.commits info hinfo)
  have hstep {g g' : CallGraph} {node : FunctionNode} (hnode : node.Fits) (hg : g.Fits)
      (h : g.loadNode node = .ok g') : g'.Fits := hg.loadNode hnode h
  have hloaded : nodes.Fits := foldlM_preserves_of_forall hstep hdata.nodes hcommits hnodes
  refine foldlM_preserves (p := CallGraph.Fits) (fun hg hlink => ?_) hloaded hedges
  obtain ⟨-, -, -, rfl⟩ := loadEdge_eq_ok hlink
  exact ⟨hg.commits, hg.nodes⟩

/-! ## Runs -/

theorem answer (h : g.Fits) {request : GraphRequest} (hrequest : request.Fits)
    (hanswer : g.answer request = .ok g') : g'.Fits := by
  cases request with
  | addCommit info =>
    cases hanswer
    exact h.addCommit hrequest
  | addNode name files =>
    cases hanswer
    exact h.addNode name files
  | addEdge caller callee => exact h.addEdge (Halt.ofChecked_eq_ok_iff.1 hanswer)
  | setFiles name files => exact h.setFiles (Halt.ofChecked_eq_ok_iff.1 hanswer)
  | recordHistory name stats => exact h.recordHistory hrequest hanswer
  | load data => exact of_ofData hrequest hanswer

theorem perform (h : g.Fits) {request : GraphRequest} (hrequest : request.Fits) :
    (g.perform request).1.Fits := by
  unfold CallGraph.perform
  split
  · rename_i g' hanswer
    exact h.answer hrequest hanswer
  · exact h

theorem run (h : g.Fits) {requests : List GraphRequest}
    (hrequests : ∀ request ∈ requests, request.Fits) : (g.run requests).Fits :=
  List.foldlRecOn requests _ h fun _ hg request hrequest =>
    hg.perform (hrequests request hrequest)

end Fits

/-- **Requests whose numbers fit lead to graphs whose numbers fit.** -/
theorem fits_run {requests : List GraphRequest} (h : ∀ request ∈ requests, request.Fits) :
    (empty.run requests).Fits :=
  Fits.empty.run h

end CallGraph

end EffortRank
