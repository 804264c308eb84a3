import EffortRank.Proofs.Churn.Bounded
import EffortRank.Proofs.Diff.Involution
import EffortRank.Proofs.Graph.Fitting
import EffortRank.Proofs.Replay.Refusal

/-!
# Counts that cannot outgrow the texts

What a change counts for a function is bounded by the texts of the change: its lines by those of the
patch, its words by those of the sources (`FileChange.size`). What a replay records of a function is
merged from the counts of its changes, so that it is bounded by the sizes of all of them. A history
whose texts fit in memory together therefore cannot outgrow its counts, and if its changes are in
order, it is replayed to its end (`CallGraph.exists_replay_of_counted`).
-/

namespace EffortRank

open Text

/-! ## Counts of a change -/

namespace FileChange

/-- The number of characters in the texts of a change. -/
def size (c : FileChange) : Nat :=
  c.patch.toList.length + (c.oldSource.getD "").toList.length + (c.newSource.getD "").toList.length

/-- The change is in order, and what it counts for a function is no more than its texts hold. -/
structure Counted (c : FileChange) : Prop where
  read : (readPatch? c.patch.toList).isSome = true
  order : c.order = .ok ()
  counts : ∃ stats, c.functionStats? (readPatch c.patch.toList) = some stats ∧
    ∀ e ∈ stats.entries, e.2.Within c.size

variable {c : FileChange} {d : FileDiff} {n : Nat}

/-- **A change in order is counted**, if its inverse and that of its inverse have results and its
lines and sources are no more than can be counted. -/
theorem exists_functionStats? {lo hi : Int} (hd : d.Placed lo hi) (hle : lo ≤ hi)
    (hinverse : d.inverseFits = true) (hback : d.inverse.inverseFits = true) (hn : n ≤ maxCount)
    (hold : checkFunctions c.functions = .ok ()) (hnew : checkFunctions c.newFunctions = .ok ())
    (hadded : d.addedLines ≤ n) (hremoved : d.removedLines ≤ n)
    (hsources : ∀ s ∈ c.sources?, s.old.toList.length ≤ n ∧ s.new.toList.length ≤ n) :
    ∃ stats, c.functionStats? d = some stats ∧ ∀ e ∈ stats.entries, e.2.Within n := by
  have hplaced := hd.inverse hle
  have htwice := hd.inverse_inverse hle
  have hforward : ∀ e ∈ (changedStats c.functions d c.sources?).entries, e.2.Within n := by
    refine within_changedStats hold hd.deletions_sorted hadded hremoved fun s hs => ?_
    obtain ⟨holdSize, hnewSize⟩ := hsources s hs
    exact words_le_of_size hplaced.deletions_sorted holdSize hnewSize
  have hbackward :
      ∀ e ∈ (changedStats c.newFunctions d.inverse c.reversedSources?).entries, e.2.Within n := by
    refine within_changedStats hnew hplaced.deletions_sorted ?_ ?_ fun s hs => ?_
    · rwa [d.addedLines_inverse]
    · rwa [d.removedLines_inverse]
    · obtain ⟨t, ht, rfl⟩ := Option.map_eq_some_iff.1 hs
      obtain ⟨holdSize, hnewSize⟩ := hsources t ht
      exact words_le_of_size (by rw [htwice]; exact hd.deletions_sorted) hnewSize holdSize
  have hsecond :
      ∃ found, c.newFunctionStats? d = some found ∧ ∀ e ∈ found.entries, e.2.Within n := by
    rw [newFunctionStats?]
    split
    · exact ⟨.empty, rfl, List.forall_mem_nil _⟩
    · rw [FileDiff.inverse?, hinverse, fitting_true, Option.bind_eq_bind, Option.bind_some,
        changedStats?_of_within (fun _ => hback) hn hbackward]
      refine ⟨_, rfl, fun e he => ?_⟩
      obtain ⟨old, hmem, rfl⟩ := List.mem_map.1 he
      exact (hbackward old hmem).swap
  obtain ⟨found, hfound, hwithin⟩ := hsecond
  rw [functionStats?, changedStats?_of_within (fun _ => hinverse) hn hforward, hfound]
  refine ⟨_, rfl, ?_⟩
  exact NameMap.forall_entries_mergeWith (p := fun s : ChangeStats => s.Within n) hforward hwithin
    fun name s _ hs _ => hforward (name, s) (NameMap.mem_entries_iff.2 hs)

theorem Counted.within (h : c.Counted) {name : String} {s : ChangeStats}
    (hs : c.stats.get? name = some s) : s.Within c.size := by
  obtain ⟨stats, hstats, hwithin⟩ := h.counts
  rw [FileChange.stats, ← functionStats?_eq_some hstats] at hs
  exact hwithin (name, s) (NameMap.mem_entries_iff.2 hs)

end FileChange

/-! ## Counts of a replay -/

/-- The number of characters in the texts of some changes. -/
def sizeOfChanges (cs : List FileChange) : Nat := (cs.map FileChange.size).sum

theorem sizeOfChanges_append (cs ds : List FileChange) :
    sizeOfChanges (cs ++ ds) = sizeOfChanges cs + sizeOfChanges ds := by
  rw [sizeOfChanges, List.map_append, List.sum_append]
  rfl

theorem sizeOfChanges_le_of_sublist {cs ds : List FileChange} (h : cs.Sublist ds) :
    sizeOfChanges cs ≤ sizeOfChanges ds :=
  (h.map FileChange.size).sum_le_sum fun _ _ => Nat.zero_le _

/-- What is recorded of a commit are some of its changes. -/
theorem recorded_sublist (filter : FileFilter) (commit : CommitStep) :
    ((commit.recorded filter).map (·.2)).Sublist commit.changes := by
  rw [CommitStep.recorded]
  split
  · rw [List.map_map]
    exact (List.map_id' _).symm ▸ List.filter_sublist
  · exact List.nil_sublist _

theorem recordedChanges_sublist (filter : FileFilter) (history : List CommitStep) :
    ((recordedChanges filter history).map (·.2)).Sublist
      (history.flatMap CommitStep.changes) := by
  induction history with
  | nil => exact .slnil
  | cons commit history ih =>
    rw [recordedChanges, List.flatMap_cons, List.map_append, List.flatMap_cons]
    exact (recorded_sublist filter commit).append ih

namespace CallGraph

variable {g g' : CallGraph} {filter : FileFilter} {n : Nat}

/-- What the graph records of any function and commit is no more than `n`. -/
def EntriesWithin (n : Nat) (g : CallGraph) : Prop :=
  ∀ name hash, ∀ s ∈ g.statsAt? name hash, s.Within n

theorem entriesWithin_empty : empty.EntriesWithin 0 := by
  intro name hash s hs
  cases hs

/-- Merging counts in adds up their bounds. -/
theorem EntriesWithin.grows (h : g.EntriesWithin n) {cs : List (String × FileChange)}
    (hgrows : Grows g cs g') (hcs : ∀ c ∈ cs, c.2.Counted) :
    g'.EntriesWithin (n + sizeOfChanges (cs.map (·.2))) := by
  intro name hash
  rw [hgrows name hash]
  have hold := h name hash
  generalize g.statsAt? name hash = old at hold
  clear h hgrows
  induction cs generalizing n old with
  | nil => exact hold
  | cons c cs ih =>
    obtain ⟨other, c⟩ := c
    rw [List.forall_mem_cons] at hcs
    have hnext : ∀ s ∈ ((statsOf [(other, c)] name hash).map some).foldl
        (Option.merge ChangeStats.merge) old, s.Within (n + c.size) := by
      have hkept : ∀ s ∈ old, s.Within (n + c.size) := fun s hs =>
        (hold s hs).mono (Nat.le_add_right _ _)
      rw [statsOf_singleton]
      split
      · cases hget : c.stats.get? name with
        | none => exact hkept
        | some t =>
          have ht := hcs.1.within hget
          cases old with
          | none =>
            rintro s ⟨⟩
            exact ht.mono (Nat.le_add_left _ _)
          | some s =>
            rintro s' ⟨⟩
            exact (hold s rfl).merge ht
      · exact hkept
    have hsplit : statsOf ((other, c) :: cs) name hash =
        statsOf [(other, c)] name hash ++ statsOf cs name hash := statsOf_append [(other, c)] cs _ _
    rw [hsplit, List.map_append, List.foldl_append, List.map_cons, sizeOfChanges, List.map_cons,
      List.sum_cons, ← Nat.add_assoc]
    exact ih hcs.2 _ hnext

theorem EntriesWithin.numbersFit (h : g.EntriesWithin n) {c : FileChange} (hc : c.Counted)
    (hn : n + c.size ≤ maxCount) (commit : CommitStep) : g.NumbersFit commit c := by
  obtain ⟨_, hstats, -⟩ := hc.counts
  obtain ⟨-, hinverses, hcounts⟩ := FileChange.functionStats?_eq_some_iff.1 hstats
  exact
    { lines := hc.read
      inverses := fun _ _ => hinverses
      counts := fun _ _ => hcounts
      sums := fun _ _ name _ old hs hold => ((h name _ old hold).merge (hc.within hs)).fits hn }

/-- **A history that is in order and fits in memory is replayed to its end.** -/
theorem exists_replay_of_counted (filter : FileFilter) {history : List CommitStep}
    (hcounted : ∀ c ∈ history.flatMap CommitStep.changes, c.Counted)
    (hsize : sizeOfChanges (history.flatMap CommitStep.changes) ≤ maxCount) :
    ∃ g stats, empty.replay filter history = (g, .ok stats) := by
  rcases replayFrom_cases empty filter .zero history with
    hdone | ⟨past, commit, future, g₁, stats, rfl, hpast, hstop⟩
  · exact hdone
  · -- In front of the change that stops the replay, the graph has grown by the changes before it.
    have hreached : ∀ {g' c}, g₁.StopsBefore filter commit c g' →
        c.Counted ∧ g'.NumbersFit commit c := by
      rintro g' c ⟨before, after, update, hchanges, -, -, hbefore⟩
      rw [List.flatMap_append, List.flatMap_cons, hchanges] at hcounted hsize
      rw [List.forall_mem_append, List.forall_mem_append, List.forall_mem_append,
        List.forall_mem_cons] at hcounted
      obtain ⟨hcountedPast, ⟨hcountedBefore, hc, -⟩, -⟩ := hcounted
      have hpastRecorded := recordedChanges_sublist filter past
      have hbeforeRecorded := recorded_sublist filter { commit with changes := before }
      have hentries := (entriesWithin_empty.grows (grows_replayFrom hpast).1 fun k hk =>
        hcountedPast k.2 (hpastRecorded.subset (List.mem_map_of_mem hk))).grows
          (grows_replayCommit hbefore).1 fun k hk =>
            hcountedBefore k.2 (hbeforeRecorded.subset (List.mem_map_of_mem hk))
      have hpastSize := sizeOfChanges_le_of_sublist hpastRecorded
      have hbeforeSize := sizeOfChanges_le_of_sublist hbeforeRecorded
      rw [sizeOfChanges_append, sizeOfChanges_append, sizeOfChanges_append,
        ← List.singleton_append, sizeOfChanges_append] at hsize
      have hself : sizeOfChanges [c] = c.size := Nat.add_zero _
      dsimp only at hbeforeSize
      exact ⟨hc, hentries.numbersFit hc (by omega) commit⟩
    rcases hstop with ⟨g', c, e, hstops, horder, -⟩ | ⟨g', c, hstops, hfit, -⟩
    · rw [(hreached hstops).1.order] at horder
      cases horder
    · exact absurd (hreached hstops).2 hfit

end CallGraph

end EffortRank
