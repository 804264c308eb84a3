import EffortRank.Proofs.Graph.Efforts
import EffortRank.Proofs.Replay.Resumption

/-!
# The measures of history agree

The complexity of a graph is measured all in words or all in lines, as its first entry is, while
effort is measured entry by entry. Where all entries have words, or none has
(`CallGraph.Uniform`), that makes no difference, and the complexity is the effort of all commits as
well as that of all functions. A replay makes such graphs if all the changes it records come with
the text of both versions, or none does: what a change did is counted in words exactly then
(`FileChange.measuredAs_stats`), and merging keeps that.
-/

namespace EffortRank

/-! ## Words on both sides -/

/-- Words were counted on both sides, or on neither. -/
def ChangeStats.MeasuredAs (measured : Bool) (s : ChangeStats) : Prop :=
  s.addedUnits.isSome = measured ∧ s.removedUnits.isSome = measured

namespace ChangeStats.MeasuredAs

variable {measured : Bool} {s t : ChangeStats}

theorem hasUnits_eq (h : s.MeasuredAs measured) : s.hasUnits = measured := by
  rw [hasUnits, h.1, h.2, Bool.and_self]

theorem swap (h : s.MeasuredAs measured) : s.swap.MeasuredAs measured := ⟨h.2, h.1⟩

theorem merge (hs : s.MeasuredAs measured) (ht : t.MeasuredAs measured) :
    (s.merge t).MeasuredAs measured := by
  have hsum : ∀ {m n : Option Nat}, m.isSome = measured → n.isSome = measured →
      (addMeasured m n).isSome = measured := by
    rintro (_ | m) (_ | n) hm hn
    · exact hm
    · exact hn
    · exact hm
    · exact hm
  exact ⟨hsum hs.1 ht.1, hsum hs.2 ht.2⟩

end ChangeStats.MeasuredAs

/-- **Words are counted in a change** if it comes with the text of both versions, whichever version
the functions are of. -/
theorem FileChange.measuredAs_stats (c : FileChange) :
    ∀ e ∈ c.stats.entries, e.2.MeasuredAs c.sources?.isSome := by
  have hreversed : c.reversedSources?.isSome = c.sources?.isSome := Option.isSome_map
  have hnew : ∀ e ∈ (c.newFunctionStats (readPatch c.patch.toList)).entries,
      e.2.MeasuredAs c.sources?.isSome := by
    intro e he
    obtain ⟨old, hold, rfl⟩ := List.mem_map.1 he
    rw [← hreversed]
    exact ChangeStats.MeasuredAs.swap (isSome_units_changedStats _ _ _ old hold)
  have hold := isSome_units_changedStats c.functions (readPatch c.patch.toList) c.sources?
  exact NameMap.forall_entries_mergeWith (p := ChangeStats.MeasuredAs c.sources?.isSome) hold hnew
    fun name s _ hs _ => hold (name, s) (NameMap.mem_entries_iff.2 hs)

namespace CallGraph

variable {g : CallGraph} {filter : FileFilter} {measured : Bool}

/-- Recorded changes that all come with the text of both versions, or without, lead to entries that
all have words, or have none. -/
theorem Grows.measuredAs {cs : List (String × FileChange)} (h : Grows empty cs g)
    (hcs : ∀ c ∈ cs, c.2.sources?.isSome = measured) (name hash : String) :
    ∀ s ∈ g.statsAt? name hash, s.MeasuredAs measured := by
  rw [h name hash]
  refine ChangeStats.forall_mem_foldl_merge .merge (fun s hs => by cases hs) fun s hs => ?_
  rw [statsOf, List.mem_filterMap] at hs
  obtain ⟨c, hc, hs⟩ := hs
  rw [← hcs c (List.mem_filter.1 hc).1]
  exact c.2.measuredAs_stats (name, s) (NameMap.mem_entries_iff.2 hs)

theorem WellFormed.uniform (h : g.WellFormed)
    (hentries : ∀ name hash, ∀ s ∈ g.statsAt? name hash, s.MeasuredAs measured) :
    g.Uniform measured := by
  intro node hnode s hs
  obtain ⟨⟨hash, s⟩, he, rfl⟩ := List.mem_map.1 hs
  refine (hentries node.name hash s ?_).hasUnits_eq
  rw [statsAt?, h.node?_eq_some_iff.2 ⟨hnode, rfl⟩]
  exact NameMap.mem_entries_iff.1 he

/-- The efforts of a function are told if the efforts of all functions fit together. -/
theorem WellFormed.nodeEfforts_eq_ok (h : g.WellFormed) {blacklist : Blacklist}
    (hfits : (g.nodes.map fun node => total (node.efforts blacklist).values).sum ≤ maxCount)
    {node : FunctionNode} (hnode : node ∈ g.nodes) :
    g.nodeEfforts node.name blacklist = .ok (node.efforts blacklist) := by
  have hnodeFits : total (node.efforts blacklist).values ≤ maxCount :=
    (List.le_sum_of_mem (List.mem_map_of_mem hnode)).trans hfits
  rw [nodeEfforts_of_node? (h.node?_eq_some_iff.2 ⟨hnode, rfl⟩),
    all_countFits_of_total_le hnodeFits]
  rfl

theorem commitEfforts?_of_total_le {blacklist : Blacklist}
    (hfits : total (g.commitEfforts blacklist).values ≤ maxCount) :
    g.commitEfforts? blacklist = some (g.commitEfforts blacklist) := by
  rw [commitEfforts?, all_countFits_of_total_le hfits]
  rfl

/-- **The measures of history agree.** On every graph that requests lead to whose entries all have
words, or all have none, the churn in the measure that is chosen is the effort of all commits, and
that of all functions, whatever the blacklist. The complexity is told if it fits, and if it does, so
do the efforts. A replay that starts without a graph and is not stopped leads to such a graph if
the changes that it records all come with the text of both versions, or all without. -/
theorem measures_agree :
    (∀ (requests : List GraphRequest) (blacklist : Blacklist) (measured : Bool),
      let g := empty.run requests
      let effort := total (g.commitEfforts blacklist).values
      g.Uniform measured →
        g.churn (HistoryMode.resolve g) blacklist = effort ∧
        (g.nodes.map fun node => total (node.efforts blacklist).values).sum = effort ∧
        (∀ (α : Type) [Scalar α] (perNode perEdge : α),
          g.complexity? perNode perEdge blacklist (HistoryMode.resolve g) =
            fitting (countFits effort) (Scalar.ofNat effort +
              perNode * Scalar.ofNat g.nodes.length + perEdge * Scalar.ofNat g.edges.length)) ∧
        (effort ≤ maxCount →
          g.commitEfforts? blacklist = some (g.commitEfforts blacklist) ∧
            ∀ node ∈ g.nodes,
              g.nodeEfforts node.name blacklist = .ok (node.efforts blacklist))) ∧
      ∀ (filter : FileFilter) (history : List CommitStep) (g : CallGraph) (stats : ReplayStats)
        (measured : Bool), empty.replay filter history = (g, .ok stats) →
        (∀ c ∈ recordedChanges filter history, c.2.sources?.isSome = measured) →
          g.Reachable ∧ g.Uniform measured := by
  constructor
  · intro requests blacklist measured g effort huniform
    have hchurn : g.churn (HistoryMode.resolve g) blacklist = effort :=
      (huniform.churn_eq blacklist).trans (g.total_commitEfforts blacklist).symm
    have hnodes := (g.total_commitEfforts blacklist).symm
    refine ⟨hchurn, hnodes, fun α _ perNode perEdge => ?_, fun hfits => ⟨?_, fun node hnode => ?_⟩⟩
    · rw [complexity?, churnFits, complexity, hchurn]
    · exact commitEfforts?_of_total_le hfits
    · exact (WellFormed.empty.run requests).nodeEfforts_eq_ok (hnodes.trans_le hfits) hnode
  · intro filter history g stats measured hreplay hsources
    have hleads := leads_replay empty filter history
    rw [hreplay] at hleads
    have hreachable : g.Reachable := reachable_empty.leads hleads
    refine ⟨hreachable, hreachable.wellFormed.uniform fun name hash => ?_⟩
    exact (grows_replayFrom hreplay).1.measuredAs hsources name hash

/-- A commit that changes lines of two functions, and one that does not count. -/
theorem measures_agree_of_lines :
    let change : FileChange := ⟨some "a", some "a",
      "@@ -1,2 +1,3 @@\n-x\n+y\n+y\n z\n@@ -4,2 +5,1 @@\n-u\n v\n",
      [⟨"f", ⟨1, 2⟩⟩, ⟨"g", ⟨4, 5⟩⟩], [], none, none, []⟩
    let info : CommitInfo := ⟨"c", "", "", "", none⟩
    let history : List CommitStep :=
      [⟨info, .forward, [change]⟩, ⟨{ info with hash := "d" }, .forward, [change]⟩]
    ∃ g stats, empty.replay .all history = (g, .ok stats) ∧ g.Uniform false ∧
      total (g.commitEfforts ["d"]).values = 4 ∧ g.churn (HistoryMode.resolve g) ["d"] = 4 := by
  intro change info history
  have hrun : (empty.replay .all history).2 = .ok ⟨2, 2, 0, 0, 2, 0, 4, 0⟩ := by decide +kernel
  have h : empty.replay .all history =
      ((empty.replay .all history).1, .ok ⟨2, 2, 0, 0, 2, 0, 4, 0⟩) := Prod.ext rfl hrun
  have heffort : total ((empty.replay .all history).1.commitEfforts ["d"]).values = 4 := by
    decide +kernel
  obtain ⟨hagree, hreplay⟩ := measures_agree
  obtain ⟨⟨requests, hrequests⟩, huniform⟩ :=
    hreplay .all history _ _ false h (by decide +kernel)
  rw [← hrequests] at huniform heffort h
  exact ⟨_, _, h, huniform, heffort, (hagree requests ["d"] false huniform).1.trans heffort⟩

/-- Two commits whose efforts fit, but not together. -/
theorem complexity?_of_full_count :
    let g := empty.run [.addCommit ⟨"c", "", "", "", none⟩, .addNode "f" [],
      .recordHistory "f" ⟨maxCount, 0, none, none⟩, .addCommit ⟨"d", "", "", "", none⟩,
      .addNode "g" [], .recordHistory "g" ⟨1, 0, none, none⟩]
    g.Uniform false ∧ g.commitEfforts? [] = some (.ofList [("c", maxCount), ("d", 1)]) ∧
      g.complexity? (0 : Rat) 0 [] (HistoryMode.resolve g) = none := by
  intro g
  have hfits : g.churnFits (HistoryMode.resolve g) [] = false := by decide
  exact ⟨by decide, by decide, by rw [complexity?, hfits]; rfl⟩

end CallGraph

end EffortRank
