import EffortRank.Proofs.Churn.Agreement
import EffortRank.Proofs.Graph.Efforts

/-!
# More history, more effort

Recording a change adds to the counts of one entry. Effort is measured in words where an entry has
them, and in lines elsewhere. So it grows with the entry, but for one case: the change completes the
words of an entry that was measured in lines, and they are fewer than the lines were
(`ChangeStats.Shrinks`). In that case, and in no other, the effort of the entry becomes less
(`ChangeStats.effort_merge_lt_iff`), and with it that of its commit
(`CallGraph.efforts_recordHistory`).
-/

namespace EffortRank

/-! ## One entry -/

namespace ChangeStats

variable {s t : ChangeStats}

/-- An entry without words on both sides gets them, and fewer of them than it had lines. -/
def Shrinks (s t : ChangeStats) : Prop :=
  s.hasUnits = false ∧ (s.merge t).unitChurn?.any (fun units => units < s.lineChurn) = true

instance (s t : ChangeStats) : Decidable (s.Shrinks t) :=
  inferInstanceAs (Decidable (_ ∧ _))

theorem lineChurn_le_merge (s t : ChangeStats) : s.lineChurn ≤ (s.merge t).lineChurn := by
  rw [lineChurn_merge]
  exact Nat.le_add_right _ _

theorem hasUnits_eq (s : ChangeStats) : s.hasUnits = s.unitChurn?.isSome := by
  obtain ⟨adds, dels, added, removed⟩ := s
  cases added <;> cases removed <;> rfl

/-- Words that are there stay. -/
theorem exists_unitChurn?_merge {m : Nat} (h : s.unitChurn? = some m) (t : ChangeStats) :
    ∃ n, (s.merge t).unitChurn? = some n ∧ m ≤ n := by
  obtain ⟨adds, dels, _ | added, _ | removed⟩ := s
  case some.some =>
    cases h
    obtain ⟨adds', dels', _ | added', _ | removed'⟩ := t
    · exact ⟨_, rfl, le_refl _⟩
    · exact ⟨_, rfl, Nat.add_le_add_left (Nat.le_add_right _ _) _⟩
    · exact ⟨_, rfl, Nat.add_le_add_right (Nat.le_add_right _ _) _⟩
    · exact ⟨_, rfl, Nat.add_le_add (Nat.le_add_right _ _) (Nat.le_add_right _ _)⟩
  all_goals cases h

/-- **The effort of an entry becomes less** only where words replace more lines. -/
theorem effort_merge_lt_iff : (s.merge t).effort < s.effort ↔ s.Shrinks t := by
  rw [Shrinks, hasUnits_eq, effort, effort]
  cases hold : s.unitChurn? with
  | some m =>
    obtain ⟨n, hnew, hle⟩ := exists_unitChurn?_merge hold t
    rw [hnew, Option.getD_some, Option.getD_some]
    simp only [Option.isSome_some, Bool.true_eq_false, false_and, iff_false, not_lt]
    exact hle
  | none =>
    cases hnew : (s.merge t).unitChurn? with
    | some n => simp
    | none =>
      have hlines := lineChurn_le_merge s t
      simpa using hlines

end ChangeStats

/-! ## One function -/

namespace FunctionNode

variable {node : FunctionNode} {blacklist : Blacklist} {hash : String} {stats : ChangeStats}

/-- What an entry counts for. -/
def counted (blacklist : Blacklist) (hash : String) (s : ChangeStats) : Nat :=
  if blacklist.contains hash then 0 else s.effort

theorem total_efforts (node : FunctionNode) (blacklist : Blacklist) :
    total (node.efforts blacklist).values = node.history.sumOf (counted blacklist) := by
  have hfilter : ∀ es : List (String × ChangeStats),
      ((es.filter fun e => !blacklist.contains e.1).map fun e => e.2.effort).sum =
        (es.map fun e => counted blacklist e.1 e.2).sum := by
    intro es
    induction es with
    | nil => rfl
    | cons e es ih =>
      rw [List.filter_cons, List.map_cons, List.sum_cons, ← ih, counted]
      cases blacklist.contains e.1 with
      | true => exact (Nat.zero_add _).symm
      | false => rfl
  rw [efforts, NameMap.values_map, NameMap.values, List.map_map]
  exact hfilter node.history.entries

theorem getD_get?_efforts (node : FunctionNode) (blacklist : Blacklist) (hash : String) :
    ((node.efforts blacklist).get? hash).getD 0 =
      (node.history.get? hash).elim 0 (counted blacklist hash) := by
  rw [get?_efforts]
  cases node.history.get? hash with
  | none => split <;> rfl
  | some s =>
    rw [Option.elim_some, counted]
    split <;> rfl

/-- The entry after a recording. -/
theorem get?_history_record (node : FunctionNode) (hash : String) (stats : ChangeStats)
    (other : String) :
    (node.record hash stats).history.get? other =
      if other = hash then
        some (((node.history.get? hash).map fun old => old.merge stats).getD stats)
      else node.history.get? other := by
  rw [record, NameMap.get?_alter]
  cases node.history.get? hash <;> rfl

theorem counts_of_get?_efforts {n : Nat} (h : (node.efforts blacklist).get? hash = some n) :
    blacklist.contains hash = false :=
  (mem_keys_efforts.1 (NameMap.mem_keys_iff.2 (Option.isSome_of_eq_some h))).1

theorem get?_efforts_record (node : FunctionNode) (stats : ChangeStats)
    (h : blacklist.contains hash = false) :
    ∃ n, ((node.record hash stats).efforts blacklist).get? hash = some n := by
  rw [get?_efforts, get?_history_record, if_pos rfl, h]
  exact ⟨_, rfl⟩

theorem get?_efforts_record_of_ne {other : String} (h : other ≠ hash) :
    ((node.record hash stats).efforts blacklist).get? other =
      (node.efforts blacklist).get? other := by
  rw [get?_efforts, get?_efforts, get?_history_record, if_neg h]

/-- Efforts that fit still do if one of them becomes less. -/
theorem all_countFits_record {m n : Nat} (hold : (node.efforts blacklist).get? hash = some m)
    (hnew : ((node.record hash stats).efforts blacklist).get? hash = some n) (hle : n ≤ m)
    (h : (node.efforts blacklist).values.all countFits = true) :
    ((node.record hash stats).efforts blacklist).values.all countFits = true := by
  rw [List.all_eq_true] at h ⊢
  intro k hk
  obtain ⟨other, hother⟩ := NameMap.mem_values_iff.1 hk
  by_cases hsame : other = hash
  · obtain rfl : n = k := Option.some.inj (hnew.symm.trans (hsame ▸ hother))
    have hfits : m ≤ maxCount := of_decide_eq_true (h _ (NameMap.mem_values_iff.2 ⟨hash, hold⟩))
    exact decide_eq_true (hle.trans hfits)
  · rw [get?_efforts_record_of_ne hsame] at hother
    exact h k (NameMap.mem_values_iff.2 ⟨other, hother⟩)

/-- The effort of the function changes by what the entry changes by. -/
theorem total_efforts_record (node : FunctionNode) (blacklist : Blacklist) (hash : String)
    (stats : ChangeStats) :
    total ((node.record hash stats).efforts blacklist).values +
        ((node.efforts blacklist).get? hash).getD 0 =
      total (node.efforts blacklist).values +
        (((node.record hash stats).efforts blacklist).get? hash).getD 0 := by
  rw [total_efforts, total_efforts, getD_get?_efforts, getD_get?_efforts, record,
    NameMap.get?_alter_self]
  exact NameMap.sumOf_alter _ _ _ _

/-- **The effort of an entry becomes less** if it counts and shrinks. -/
theorem effort_record_lt_iff :
    (((node.record hash stats).efforts blacklist).get? hash).getD 0 <
        ((node.efforts blacklist).get? hash).getD 0 ↔
      blacklist.contains hash = false ∧
        ∃ old, node.history.get? hash = some old ∧ old.Shrinks stats := by
  rw [get?_efforts, get?_efforts, get?_history_record, if_pos rfl]
  cases blacklist.contains hash with
  | true => simp
  | false =>
    cases node.history.get? hash with
    | none => simp
    | some old => simpa using ChangeStats.effort_merge_lt_iff

end FunctionNode

/-! ## The whole graph -/

/-- When one element of a list changes, so does the sum, by what that element changes by. -/
theorem sum_map_updateOrAppend {α : Type} {test : α → Bool} {change : α → α} {fresh x : α}
    {xs : List α} (w : α → Nat) (h : xs.find? test = some x) :
    ((updateOrAppend test change fresh xs).map w).sum + w x = (xs.map w).sum + w (change x) := by
  induction xs with
  | nil => cases h
  | cons y ys ih =>
    rw [List.find?_cons] at h
    rw [updateOrAppend]
    cases hy : test y with
    | true =>
      rw [hy] at h
      cases h
      rw [if_pos rfl, List.map_cons, List.map_cons, List.sum_cons, List.sum_cons]
      omega
    | false =>
      rw [hy] at h
      have hrest := ih h
      rw [if_neg Bool.false_ne_true, List.map_cons, List.map_cons, List.sum_cons, List.sum_cons]
      omega

namespace CallGraph

variable {g : CallGraph} {name hash : String} {node : FunctionNode} {stats : ChangeStats}

/-- The effort of a commit changes by what the entry of the function changes by. -/
theorem commitEffort_withNode_record (hnode : g.node? name = some node) (hash : String)
    (stats : ChangeStats) (blacklist : Blacklist) (other : String) :
    (g.withNode name fun node => node.record hash stats).commitEffort blacklist other +
        ((node.efforts blacklist).get? other).getD 0 =
      g.commitEffort blacklist other +
        (((node.record hash stats).efforts blacklist).get? other).getD 0 :=
  sum_map_updateOrAppend (fun node => ((node.efforts blacklist).get? other).getD 0) hnode

theorem commitEffort_withNode_record_of_ne (hnode : g.node? name = some node)
    (blacklist : Blacklist) {other : String} (hother : other ≠ hash) :
    (g.withNode name fun node => node.record hash stats).commitEffort blacklist other =
      g.commitEffort blacklist other := by
  have hsum := commitEffort_withNode_record hnode hash stats blacklist other
  rw [FunctionNode.get?_efforts_record_of_ne hother] at hsum
  exact Nat.add_right_cancel hsum

theorem node?_withNode_record_self (hnode : g.node? name = some node) (hash : String)
    (stats : ChangeStats) :
    (g.withNode name fun node => node.record hash stats).node? name =
      some (node.record hash stats) := by
  rw [node?_withNode name name (FunctionNode.name_record hash stats), if_pos rfl, hnode,
    Option.getD_some]

theorem node?_withNode_record_of_ne {other : String} (h : other ≠ name) (hash : String)
    (stats : ChangeStats) :
    (g.withNode name fun node => node.record hash stats).node? other = g.node? other := by
  rw [node?_withNode name other (FunctionNode.name_record hash stats), if_neg h]

theorem nodeEffort_eq_ok {blacklist : Blacklist} {n : Nat}
    (h : g.nodeEffort name blacklist = .ok n) :
    ∃ node, g.node? name = some node ∧ node.effort blacklist = n := by
  cases hnode : g.node? name with
  | none =>
    rw [nodeEffort, hnode] at h
    cases h
  | some node =>
    rw [nodeEffort_of_node? hnode, Halt.ofFitting_eq_ok_iff, fitting_eq_some_iff] at h
    exact ⟨node, rfl, h.2⟩

/-- The current commit counts, and what it did to the function shrinks when more is recorded. -/
def Shrinks (g : CallGraph) (blacklist : Blacklist) (name hash : String) (stats : ChangeStats) :
    Prop :=
  blacklist.contains hash = false ∧ ∃ old, g.statsAt? name hash = some old ∧ old.Shrinks stats

theorem shrinks_iff (hnode : g.node? name = some node) {blacklist : Blacklist} :
    g.Shrinks blacklist name hash stats ↔
      (((node.record hash stats).efforts blacklist).get? hash).getD 0 <
        ((node.efforts blacklist).get? hash).getD 0 := by
  rw [Shrinks, statsAt?, hnode, FunctionNode.effort_record_lt_iff]
  rfl

section Recorded

variable {blacklist : Blacklist} (hnode : g.node? name = some node)

include hnode

/-- Unless the entry shrinks, no function has less effort than before. -/
theorem nodeEffort_withNode_record (hkeeps : ¬ g.Shrinks blacklist name hash stats)
    {other : String} {n : Nat} (h : g.nodeEffort other blacklist = .ok n) :
    ∃ n', n ≤ n' ∧
      (g.withNode name fun node => node.record hash stats).nodeEffort other blacklist =
        Halt.ofFitting (fitting (countFits n') n') := by
  obtain ⟨node', hnode', rfl⟩ := nodeEffort_eq_ok h
  by_cases hother : other = name
  · subst hother
    obtain rfl : node = node' := Option.some.inj (hnode.symm.trans hnode')
    refine ⟨_, ?_, nodeEffort_of_node? (node?_withNode_record_self hnode hash stats) blacklist⟩
    rw [shrinks_iff hnode, not_lt] at hkeeps
    have htotal := node.total_efforts_record blacklist hash stats
    exact max_le_max_right 1 (by omega)
  · rw [← node?_withNode_record_of_ne hother hash stats] at hnode'
    exact ⟨_, le_rfl, nodeEffort_of_node? hnode' blacklist⟩

/-- Unless the entry shrinks, no commit has less effort than before. -/
theorem commitEffort_le_withNode_record (hkeeps : ¬ g.Shrinks blacklist name hash stats)
    (other : String) :
    g.commitEffort blacklist other ≤
      (g.withNode name fun node => node.record hash stats).commitEffort blacklist other := by
  by_cases hother : other = hash
  · subst hother
    rw [shrinks_iff hnode, not_lt] at hkeeps
    have hsum := commitEffort_withNode_record hnode other stats blacklist other
    omega
  · exact (commitEffort_withNode_record_of_ne hnode blacklist hother).ge

/-- If the entry shrinks, its commit has less effort than before, and no commit has more. -/
theorem commitEffort_withNode_record_lt (hshrinks : g.Shrinks blacklist name hash stats) :
    (g.withNode name fun node => node.record hash stats).commitEffort blacklist hash <
      g.commitEffort blacklist hash := by
  rw [shrinks_iff hnode] at hshrinks
  have hsum := commitEffort_withNode_record hnode hash stats blacklist hash
  omega

end Recorded

/-- Whatever the first graph tells of effort, the second tells no less of, if it fits: of functions,
of commits, and of one commit in one function. -/
structure EffortsLE (blacklist : Blacklist) (name hash : String) (g g' : CallGraph) : Prop where
  nodeEffort : ∀ other n, g.nodeEffort other blacklist = .ok n →
    ∃ n', n ≤ n' ∧ g'.nodeEffort other blacklist = Halt.ofFitting (fitting (countFits n') n')
  commitEfforts : ∀ efforts, g.commitEfforts? blacklist = some efforts →
    ∃ efforts', g'.commitEfforts? blacklist =
        fitting (efforts'.values.all countFits) efforts' ∧
      ∀ other n, efforts.get? other = some n → ∃ n', efforts'.get? other = some n' ∧ n ≤ n'
  nodeEfforts : ∀ efforts, g.nodeEfforts name blacklist = .ok efforts →
    ∃ efforts', g'.nodeEfforts name blacklist =
        Halt.ofFitting (fitting (efforts'.values.all countFits) efforts') ∧
      ∀ n, efforts.get? hash = some n → ∃ n', efforts'.get? hash = some n' ∧ n ≤ n'

/-- The second graph tells less effort of a commit than the first, both over all functions and in
one of them. Of the other commits and functions it tells the same. -/
structure EffortsLT (blacklist : Blacklist) (name hash : String) (g' g : CallGraph) : Prop where
  nodeEffort : ∀ other, other ≠ name → g'.nodeEffort other blacklist = g.nodeEffort other blacklist
  commitEfforts : ∀ efforts, g.commitEfforts? blacklist = some efforts →
    ∃ efforts' n n', g'.commitEfforts? blacklist = some efforts' ∧
      (∀ other, other ≠ hash → efforts'.get? other = efforts.get? other) ∧
      efforts.get? hash = some n ∧ efforts'.get? hash = some n' ∧ n' < n
  nodeEfforts : ∀ efforts, g.nodeEfforts name blacklist = .ok efforts →
    ∃ efforts' n n', g'.nodeEfforts name blacklist = .ok efforts' ∧
      efforts.get? hash = some n ∧ efforts'.get? hash = some n' ∧ n' < n

section Recorded

variable {blacklist : Blacklist} (h : g.WellFormed) (hnode : g.node? name = some node)
  (h' : (g.withNode name fun node => node.record hash stats).WellFormed)

include h hnode h'

theorem WellFormed.effortsLE_withNode_record (hkeeps : ¬ g.Shrinks blacklist name hash stats) :
    EffortsLE blacklist name hash g (g.withNode name fun node => node.record hash stats) where
  nodeEffort other n := nodeEffort_withNode_record hnode hkeeps
  commitEfforts efforts hefforts := by
    obtain ⟨-, rfl⟩ := h.commitEfforts?_eq_some_iff.1 hefforts
    refine ⟨_, rfl, fun other n hn => ?_⟩
    rw [h.get?_commitEfforts] at hn
    split at hn
    · rename_i hother
      cases hn
      refine ⟨_, ?_, commitEffort_le_withNode_record hnode hkeeps other⟩
      rw [h'.get?_commitEfforts]
      exact if_pos hother
    · cases hn
  nodeEfforts efforts hefforts := by
    rw [nodeEfforts_of_node? hnode, Halt.ofFitting_eq_ok_iff, fitting_eq_some_iff] at hefforts
    obtain ⟨-, rfl⟩ := hefforts
    refine ⟨_, nodeEfforts_of_node? (node?_withNode_record_self hnode hash stats) blacklist,
      fun n hn => ?_⟩
    obtain ⟨n', hn'⟩ := node.get?_efforts_record stats (FunctionNode.counts_of_get?_efforts hn)
    rw [shrinks_iff hnode, not_lt, hn, hn'] at hkeeps
    exact ⟨n', hn', hkeeps⟩

theorem WellFormed.effortsLT_withNode_record (hcommit : g.hasCommit hash = true)
    (hshrinks : g.Shrinks blacklist name hash stats) :
    EffortsLT blacklist name hash (g.withNode name fun node => node.record hash stats) g where
  nodeEffort other hother := by
    rw [nodeEffort, node?_withNode_record_of_ne hother, nodeEffort]
  commitEfforts efforts hefforts := by
    obtain ⟨hfits, rfl⟩ := h.commitEfforts?_eq_some_iff.1 hefforts
    have hless := commitEffort_withNode_record_lt hnode hshrinks
    have hsame : ∀ other, other ≠ hash →
        (g.withNode name fun node => node.record hash stats).commitEffort blacklist other =
          g.commitEffort blacklist other :=
      fun _ hother => commitEffort_withNode_record_of_ne hnode blacklist hother
    have hfits' : ∀ info ∈ g.commits,
        (g.withNode name fun node => node.record hash stats).commitEffort blacklist info.hash ≤
          maxCount := by
      intro info hinfo
      by_cases hinfoHash : info.hash = hash
      · rw [hinfoHash]
        exact hless.le.trans (hinfoHash ▸ hfits info hinfo)
      · rw [hsame _ hinfoHash]
        exact hfits info hinfo
    refine ⟨_, _, _, h'.commitEfforts?_eq_some_iff.2 ⟨hfits', rfl⟩, fun other hother => ?_,
      (h.get?_commitEfforts hash).trans (if_pos hcommit),
      (h'.get?_commitEfforts hash).trans (if_pos hcommit), hless⟩
    rw [h.get?_commitEfforts, h'.get?_commitEfforts, hsame other hother]
    rfl
  nodeEfforts efforts hefforts := by
    rw [nodeEfforts_of_node? hnode, Halt.ofFitting_eq_ok_iff, fitting_eq_some_iff] at hefforts
    obtain ⟨hfits, rfl⟩ := hefforts
    obtain ⟨hcounts, old, hold, -⟩ := id hshrinks
    obtain ⟨n', hn'⟩ := node.get?_efforts_record stats hcounts
    have hn : (node.efforts blacklist).get? hash = some old.effort := by
      rw [statsAt?, hnode] at hold
      rw [FunctionNode.get?_efforts, hcounts]
      exact congrArg (Option.map ChangeStats.effort) hold
    rw [shrinks_iff hnode, hn, hn'] at hshrinks
    refine ⟨_, _, n', ?_, hn, hn', hshrinks⟩
    rw [nodeEfforts_of_node? (node?_withNode_record_self hnode hash stats),
      FunctionNode.all_countFits_record hn hn' hshrinks.le hfits]
    rfl

end Recorded

/-- **More history is more effort, unless words replace more lines.** Whatever is recorded of a
function of a graph that requests lead to, no function and no commit has less effort afterwards, and
the function has no less of the current commit. The exception is an entry that counts and shrinks:
then there is less effort of the commit, in the function and over all functions, and nothing else
changes but the effort of the function. -/
theorem efforts_recordHistory {requests : List GraphRequest} {name : String} {stats : ChangeStats}
    {g' : CallGraph} (h : (empty.run requests).recordHistory name stats = .ok g')
    (blacklist : Blacklist) :
    let g := empty.run requests
    ∃ hash, g.current = some hash ∧
      (¬ g.Shrinks blacklist name hash stats → EffortsLE blacklist name hash g g') ∧
      (g.Shrinks blacklist name hash stats → EffortsLT blacklist name hash g' g) := by
  intro g
  have hwell : g.WellFormed := WellFormed.empty.run requests
  have hwell' : g'.WellFormed := hwell.recordHistory h
  obtain ⟨hash, node, hcurrent, hnode, -, rfl⟩ := recordHistory_eq_ok h
  exact ⟨hash, hcurrent, hwell.effortsLE_withNode_record hnode hwell',
    hwell.effortsLT_withNode_record hnode hwell' (hwell.current_known hash hcurrent)⟩

/-- More lines are recorded of a function, and words instead. -/
theorem efforts_recordHistory_of_lines :
    let g := empty.run [.addCommit ⟨"c", "", "", "", none⟩, .addNode "f" [],
      .recordHistory "f" ⟨10, 0, none, none⟩]
    (∃ g', g.recordHistory "f" ⟨1, 1, none, none⟩ = .ok g' ∧ EffortsLE [] "f" "c" g g' ∧
      g'.nodeEffort "f" [] = .ok 12) ∧
      ∃ g', g.recordHistory "f" ⟨1, 1, some 1, some 1⟩ = .ok g' ∧ EffortsLT [] "f" "c" g' g := by
  intro g
  have hstats : g.statsAt? "f" "c" = some ⟨10, 0, none, none⟩ := by decide
  constructor
  · have hrecord : g.recordHistory "f" ⟨1, 1, none, none⟩ = .ok (g.withNode "f" fun node =>
        node.record "c" ⟨1, 1, none, none⟩) := by decide
    have hkeeps : ¬ g.Shrinks [] "f" "c" ⟨1, 1, none, none⟩ := by
      rintro ⟨-, old, hold, hshrinks⟩
      rw [hstats] at hold
      cases hold
      exact absurd hshrinks (by decide)
    obtain ⟨hash, hcurrent, hle, -⟩ := efforts_recordHistory hrecord []
    obtain rfl : "c" = hash := Option.some.inj hcurrent
    exact ⟨_, hrecord, hle hkeeps, by decide⟩
  · have hrecord : g.recordHistory "f" ⟨1, 1, some 1, some 1⟩ = .ok (g.withNode "f" fun node =>
        node.record "c" ⟨1, 1, some 1, some 1⟩) := by decide
    obtain ⟨hash, hcurrent, -, hlt⟩ := efforts_recordHistory hrecord []
    obtain rfl : "c" = hash := Option.some.inj hcurrent
    exact ⟨_, hrecord, hlt ⟨rfl, _, hstats, by decide⟩⟩

/-- Ten lines are recorded of a function, and afterwards two words that were measured. -/
theorem nodeEffort_of_late_words :
    let g := empty.run [.addCommit ⟨"c", "", "", "", none⟩, .addNode "f" [],
      .recordHistory "f" ⟨10, 0, none, none⟩]
    ∃ g', g.recordHistory "f" ⟨1, 1, some 1, some 1⟩ = .ok g' ∧
      g.nodeEffort "f" [] = .ok 10 ∧ g'.nodeEffort "f" [] = .ok 2 ∧
      g.commitEfforts? [] = some (.ofList [("c", 10)]) ∧
      g'.commitEfforts? [] = some (.ofList [("c", 2)]) :=
  ⟨_, rfl, by decide, by decide, by decide, by decide⟩

end CallGraph

end EffortRank
