import EffortRank.NameMap.Lemmas
import EffortRank.Proofs.Diff.Order
import EffortRank.Sketch.History
import Mathlib

/-!
# Scripts and the changes that they make

The reader of a sketch goes from line to line, and a function ends at the line that it has come to.
The function that is open was opened behind the last one that ended, so that each function starts
behind the one before it (`Sketch.checkFunctions_functions`). This holds of any text, for a function
that is opened while another one is open takes its place.

`stepsBy` follows a script with a map of the files. Of a file, the map has what the edits so far
left of it (`textAfter`), also in the middle of a commit. So the changes of the history are those
of the script's edits, one by one, each with the text that the last edit of the file before it left
(`Sketch.changes_stepsBy`).
-/

namespace EffortRank

namespace Sketch

/-! ## The functions of a sketch are in order -/

section

open Text

variable {n line : Int} {current : Option (String × Int)} {ls : List Line}

/-- Functions that are opened at a line or behind it start there. -/
theorem le_first_functionsFrom (hcurrent : ∀ f ∈ current, line ≤ f.2) (hn : line ≤ n) :
    ∀ f ∈ functionsFrom n current ls, line ≤ f.range.first := by
  fun_induction functionsFrom n current ls with
  | case1 => exact List.forall_mem_nil _
  | case2 n current text rest name hkind ih =>
    refine ih (fun f hf => ?_) (by omega)
    cases hf
    exact hn
  | case3 n text rest name first hkind ih =>
    have hfirst : line ≤ first := hcurrent (name, first) rfl
    refine List.forall_mem_cons.2 ⟨hfirst, ih (fun f hf => ?_) (by omega)⟩
    cases hf
  | case4 n text rest hkind ih =>
    refine ih (fun f hf => ?_) (by omega)
    cases hf
  | case5 n text rest current hopening hclosing hnone ih => exact ih hcurrent (by omega)

/-- The open function was opened in front of the line that is read next, and those behind it start
behind the line that closes it. -/
theorem pairwise_functionsFrom (hcurrent : ∀ f ∈ current, f.2 < n) :
    ((functionsFrom n current ls).map FunctionRange.range).Pairwise LineRange.Precedes := by
  fun_induction functionsFrom n current ls with
  | case1 => exact .nil
  | case2 n current text rest name hkind ih =>
    refine ih fun f hf => ?_
    cases hf
    exact Int.lt_succ n
  | case3 n text rest name first hkind ih =>
    have hfirst : first < n := hcurrent (name, first) rfl
    have hbehind : ∀ f ∈ functionsFrom (n + 1) none rest, n + 1 ≤ f.range.first :=
      le_first_functionsFrom (by simp) (Int.le_refl _)
    refine List.pairwise_cons.2 ⟨List.forall_mem_map.2 fun f hf => ?_, ih (by simp)⟩
    have hf := hbehind f hf
    constructor <;> dsimp only <;> omega
  | case4 n text rest hkind ih => exact ih (by simp)
  | case5 n text rest current hopening hclosing hnone ih =>
    exact ih fun f hf => Int.lt_trans (hcurrent f hf) (Int.lt_succ n)

/-- **The functions of any text are in order.** -/
theorem checkFunctions_functions (source : String) : checkFunctions (functions source) = .ok () :=
  checkFunctions_eq_ok_iff.2 (pairwise_functionsFrom (by simp))

end

/-! ## Scripts -/

/-- The edits of a script, in their order. A rewind edits nothing. -/
def edits (script : List ScriptStep) : List Edit :=
  (script.filter fun s => s.mode ≠ .rewind).flatMap ScriptStep.edits

/-- What some edits leave of a file that was not there: the text of its last edit. -/
def textAfter (es : List Edit) (path : String) : Option String :=
  (es.reverse.find? fun e => e.path = path).bind Edit.text

/-- An edit of a file, with the text that the file had before. -/
structure Revision where
  path : String
  old : Option String
  new : Option String
deriving DecidableEq, Repr

namespace Revision

def oldText (r : Revision) : String := r.old.getD ""

def newText (r : Revision) : String := r.new.getD ""

def change (r : Revision) (differ : Differ) (withSources : Bool) : FileChange :=
  Sketch.change differ r.path r.old r.new withSources

end Revision

/-- Each of some edits with the text that those before it left, the edits in `past` included. -/
def revisions (past es : List Edit) : List Revision :=
  es.mapIdx fun i e => ⟨e.path, textAfter (past ++ es.take i) e.path, e.text⟩

theorem revisions_cons (past : List Edit) (e : Edit) (es : List Edit) :
    revisions past (e :: es) =
      ⟨e.path, textAfter past e.path, e.text⟩ :: revisions (past ++ [e]) es := by
  rw [revisions, List.mapIdx_cons, List.take_zero, List.append_nil, revisions]
  simp only [List.take_succ_cons, List.append_assoc, List.singleton_append]

theorem revisions_append (past es fs : List Edit) :
    revisions past (es ++ fs) = revisions past es ++ revisions (past ++ es) fs := by
  induction es generalizing past with
  | nil =>
    rw [List.nil_append, List.append_nil]
    rfl
  | cons e es ih =>
    rw [List.cons_append, revisions_cons, revisions_cons, ih, List.append_assoc]
    rfl

/-! ## Files -/

theorem Files.get?_apply (files : Files) (e : Edit) (path : String) :
    (files.apply e).get? path = if e.path = path then e.text else files.get? path := by
  rw [Files.apply]
  by_cases hpath : e.path = path
  · subst hpath
    rw [if_pos rfl]
    cases e.text with
    | some text => rw [NameMap.get?_insert, if_pos rfl]
    | none =>
      rw [NameMap.get?_filter]
      simp
  · rw [if_neg hpath]
    cases e.text with
    | some text => rw [NameMap.get?_insert, if_neg (Ne.symm hpath)]
    | none =>
      have hne : (path != e.path) = true := by simpa using Ne.symm hpath
      rw [NameMap.get?_filter]
      cases files.get? path <;> simp [hne]

theorem textAfter_append_singleton (es : List Edit) (e : Edit) (path : String) :
    textAfter (es ++ [e]) path = if e.path = path then e.text else textAfter es path := by
  rw [textAfter, List.reverse_append, List.reverse_singleton, List.singleton_append,
    List.find?_cons]
  by_cases hpath : e.path = path
  · simp [hpath]
  · simp [hpath, textAfter]

/-- The files are those that some edits leave. -/
def Files.Holds (files : Files) (past : List Edit) : Prop :=
  ∀ path, files.get? path = textAfter past path

theorem Files.holds_empty : Files.Holds .empty [] := fun _ => rfl

theorem Files.Holds.apply {files : Files} {past : List Edit} (h : files.Holds past) (e : Edit) :
    (files.apply e).Holds (past ++ [e]) := by
  intro path
  rw [Files.get?_apply, textAfter_append_singleton, h path]

/-! ## Commits -/

section

variable (differ : Differ) (withSources : Bool) {files : Files} {past : List Edit}

/-- **One commit**: its changes are those of its edits, and the files are as these leave them. -/
theorem changes_eq (h : files.Holds past) (es : List Edit) :
    (changes differ withSources files es).1 =
        (revisions past es).map (fun r => r.change differ withSources) ∧
      (changes differ withSources files es).2.Holds (past ++ es) := by
  induction es generalizing files past with
  | nil => exact ⟨rfl, by rwa [List.append_nil]⟩
  | cons e es ih =>
    obtain ⟨hchanges, hfiles⟩ := ih (h.apply e)
    rw [revisions_cons, List.map_cons, ← hchanges]
    refine ⟨?_, by rwa [List.append_assoc] at hfiles⟩
    rw [changes, h e.path]
    rfl

theorem length_changes (files : Files) (es : List Edit) :
    (changes differ withSources files es).1.length = es.length := by
  induction es generalizing files with
  | nil => rfl
  | cons e es ih => exact congrArg (· + 1) (ih (files.apply e))

theorem edits_cons (s : ScriptStep) (script : List ScriptStep) :
    edits (s :: script) = (if s.mode = .rewind then [] else s.edits) ++ edits script := by
  rw [edits, List.filter_cons]
  by_cases hmode : s.mode = .rewind
  · simp [hmode, edits]
  · simp [hmode, edits]

/-- **The changes of a history are those of the script's edits**, each with the text that the last
edit of the file before it left. -/
theorem changes_stepsBy (h : files.Holds past) (script : List ScriptStep) :
    (stepsBy differ withSources files script).flatMap CommitStep.changes =
      (revisions past (edits script)).map fun r => r.change differ withSources := by
  induction script generalizing files past with
  | nil => rfl
  | cons s script ih =>
    obtain ⟨hchanges, hfiles⟩ := changes_eq differ withSources h s.edits
    rw [edits_cons, stepsBy]
    split
    · rename_i hmode
      rw [if_pos hmode, List.nil_append, List.flatMap_cons, ih h]
      rfl
    · rename_i hmode
      rw [if_neg hmode, revisions_append, List.map_append, List.flatMap_cons, ← hchanges, ih hfiles]

theorem map_stepsBy (files : Files) (script : List ScriptStep) :
    (stepsBy differ withSources files script).map (fun k => (k.info.hash, k.mode)) =
      script.map fun s => (s.hash, s.mode) := by
  induction script generalizing files with
  | nil => rfl
  | cons s script ih =>
    rw [stepsBy]
    split
    · rename_i hmode
      rw [List.map_cons, List.map_cons, ih, hmode]
    · rw [List.map_cons, List.map_cons, ih]

/-- Outside of rewinds, there is a change for each edit. -/
theorem sum_changes_stepsBy (files : Files) (script : List ScriptStep) :
    (((stepsBy differ withSources files script).filter fun k => k.mode ≠ .rewind).map
      fun k => k.changes.length).sum = (edits script).length := by
  induction script generalizing files with
  | nil => rfl
  | cons s script ih =>
    rw [edits_cons, stepsBy]
    split
    · rename_i hmode
      rw [if_pos hmode, List.nil_append, List.filter_cons_of_neg (by simp), ih]
    · rename_i hmode
      rw [if_neg hmode, List.length_append, List.filter_cons_of_pos (by simpa using hmode),
        List.map_cons, List.sum_cons, length_changes, ih]

end

end Sketch

end EffortRank
