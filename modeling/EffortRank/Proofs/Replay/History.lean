import EffortRank.Proofs.Churn.Agreement
import EffortRank.Proofs.Churn.Merging
import EffortRank.Proofs.Graph.Lookup
import EffortRank.Replay.Run
import Mathlib

/-!
# A replay loses no history and counts none twice

A replay records the changes of its forward commits that its filter wants (`recordedChanges`).
`CallGraph.Grows` says that the entries of a graph have been merged with what some recorded changes
did. It holds from step to step, of one change, of one commit and of a whole replay, and the entries
at the end are those at the start, merged with what the recorded changes did
(`CallGraph.statsAt?_replay`).
-/

namespace EffortRank

/-! ## What is recorded -/

/-- What a change did to each function. -/
def FileChange.stats (c : FileChange) : NameMap ChangeStats :=
  c.functionStats (readPatch c.patch.toList)

/-- The changes of a commit that a replay records, with the hash of the commit. -/
def CommitStep.recorded (filter : FileFilter) (commit : CommitStep) : List (String × FileChange) :=
  if commit.mode = .forward then
    (commit.changes.filter filter.wants).map fun c => (commit.info.hash, c)
  else []

def recordedChanges (filter : FileFilter) (history : List CommitStep) :
    List (String × FileChange) :=
  history.flatMap (CommitStep.recorded filter)

/-- What recorded changes of one commit did to a function. -/
def statsOf (changes : List (String × FileChange)) (name hash : String) : List ChangeStats :=
  (changes.filter fun c => c.1 = hash).filterMap fun c => c.2.stats.get? name

theorem statsOf_append (cs ds : List (String × FileChange)) (name hash : String) :
    statsOf (cs ++ ds) name hash = statsOf cs name hash ++ statsOf ds name hash := by
  rw [statsOf, List.filter_append, List.filterMap_append]
  rfl

theorem statsOf_singleton (hash : String) (c : FileChange) (name other : String) :
    statsOf [(hash, c)] name other = if other = hash then (c.stats.get? name).toList else [] := by
  rw [statsOf]
  by_cases hother : other = hash
  · rw [if_pos hother]
    cases hget : c.stats.get? name with
    | none => simp [hother, hget]
    | some s => simp [hother, hget]
  · simp [hother, Ne.symm hother]

theorem recorded_cons (filter : FileFilter) (info : CommitInfo) (mode : SeekingMode)
    (c : FileChange) (cs : List FileChange) :
    CommitStep.recorded filter ⟨info, mode, c :: cs⟩ =
      (if filter.wants c = true ∧ mode = .forward then [(info.hash, c)] else []) ++
        CommitStep.recorded filter ⟨info, mode, cs⟩ := by
  rw [CommitStep.recorded, CommitStep.recorded, List.filter_cons]
  by_cases hmode : mode = .forward
  · by_cases hwants : filter.wants c = true
    · simp [hmode, hwants]
    · simp [hmode, hwants]
  · simp [hmode]

theorem ChangeStats.fits_swap (s : ChangeStats) : s.swap.fits = s.fits := by
  rw [fits, fits, swap, Bool.and_comm (countFits s.dels), Bool.and_right_comm]

namespace FileChange

variable {c : FileChange} {d : FileDiff} {stats : NameMap ChangeStats}

/-- The sums fit that inverting a change takes. It is inverted to find the functions of the new
version and to measure words, and inverted back to measure the words of those functions. -/
structure InversesFit (c : FileChange) (d : FileDiff) : Prop where
  there : c.newFunctions ≠ [] ∨ c.sources?.isSome = true → d.inverseFits = true
  back : c.newFunctions ≠ [] → c.sources?.isSome = true → d.inverse.inverseFits = true

/-- The counts of the functions of both versions fit. -/
structure CountsFit (c : FileChange) (d : FileDiff) : Prop where
  old : ∀ s ∈ (changedStats c.functions d c.sources?).values, s.fits = true
  new : ∀ s ∈ (c.newFunctionStats d).values, s.fits = true

theorem newFunctionStats?_eq_some_iff : c.newFunctionStats? d = some stats ↔
    stats = c.newFunctionStats d ∧
      (c.newFunctions ≠ [] → d.inverseFits = true ∧
        (c.sources?.isSome = true → d.inverse.inverseFits = true)) ∧
      ∀ s ∈ (c.newFunctionStats d).values, s.fits = true := by
  have hfits : (∀ s ∈ (c.newFunctionStats d).values, s.fits = true) ↔
      ∀ s ∈ (changedStats c.newFunctions d.inverse c.reversedSources?).values,
        s.fits = true := by
    rw [newFunctionStats, NameMap.values_map, List.forall_mem_map]
    simp only [ChangeStats.fits_swap]
  rw [hfits, newFunctionStats?]
  split
  · rename_i hempty
    rw [List.isEmpty_iff] at hempty
    have hnone : c.newFunctionStats d = .empty := by
      rw [newFunctionStats, hempty]
      rfl
    rw [hnone, hempty, Option.some.injEq, eq_comm (a := NameMap.empty)]
    exact (and_iff_left ⟨fun h => absurd rfl h, fun s hs => nomatch hs⟩).symm
  · rename_i hsome
    rw [List.isEmpty_iff] at hsome
    rw [FileDiff.inverse?, newFunctionStats]
    cases hinverse : d.inverseFits with
    | false =>
      refine iff_of_false (fun h => nomatch h) fun h => ?_
      cases (h.2.1 hsome).1
    | true =>
      have hsources : c.reversedSources?.isSome = c.sources?.isSome := Option.isSome_map
      rw [fitting_true, Option.bind_eq_bind, Option.bind_some, Option.bind_eq_bind,
        Option.bind_eq_some_iff]
      constructor
      · rintro ⟨found, hfound, ⟨⟩⟩
        obtain ⟨rfl, hback, hall⟩ := changedStats?_eq_some_iff.1 hfound
        rw [hsources] at hback
        exact ⟨rfl, fun _ => ⟨rfl, hback⟩, hall⟩
      · rintro ⟨rfl, hback, hall⟩
        refine ⟨_, changedStats?_eq_some_iff.2 ⟨rfl, ?_, hall⟩, rfl⟩
        rw [hsources]
        exact (hback hsome).2

/-- A change has counts if the sums of its inversions and the counts themselves fit. -/
theorem functionStats?_eq_some_iff : c.functionStats? d = some stats ↔
    stats = c.functionStats d ∧ c.InversesFit d ∧ c.CountsFit d := by
  constructor
  · intro h
    rw [functionStats?, Option.bind_eq_bind, Option.bind_eq_some_iff] at h
    obtain ⟨old, hold, h⟩ := h
    rw [Option.bind_eq_some_iff] at h
    obtain ⟨new, hnew, h⟩ := h
    obtain ⟨rfl, hthere, holdFits⟩ := changedStats?_eq_some_iff.1 hold
    obtain ⟨rfl, hinverse, hnewFits⟩ := newFunctionStats?_eq_some_iff.1 hnew
    cases h
    refine ⟨rfl, ⟨?_, fun hsome => (hinverse hsome).2⟩, ⟨holdFits, hnewFits⟩⟩
    rintro (hsome | hsources)
    · exact (hinverse hsome).1
    · exact hthere hsources
  · rintro ⟨rfl, hinverses, hcounts⟩
    have hold := changedStats?_eq_some_iff.2
      ⟨rfl, fun hsources => hinverses.there (.inr hsources), hcounts.old⟩
    have hnew := newFunctionStats?_eq_some_iff.2
      ⟨rfl, fun hsome => ⟨hinverses.there (.inl hsome), hinverses.back hsome⟩, hcounts.new⟩
    rw [functionStats?, hold, hnew]
    rfl

theorem functionStats?_eq_some (h : c.functionStats? d = some stats) :
    stats = c.functionStats d :=
  (functionStats?_eq_some_iff.1 h).1

/-- A change is taken only if its patch can be read, and its records and functions are in order. -/
theorem inOrder_of_checkedDiff (h : c.checkedDiff = .ok d) :
    readPatch? c.patch.toList = some d ∧ d.check = .ok () ∧
      checkFunctions c.functions = .ok () ∧ checkFunctions c.newFunctions = .ok () := by
  rw [checkedDiff, bind_eq_ok_iff] at h
  obtain ⟨e, hread, h⟩ := h
  rw [bind_eq_ok_iff] at h
  obtain ⟨_, hcheck, h⟩ := h
  rw [bind_eq_ok_iff] at h
  obtain ⟨_, hold, h⟩ := h
  rw [bind_eq_ok_iff] at h
  obtain ⟨_, hnew, h⟩ := h
  cases h
  exact ⟨Halt.ofFitting_eq_ok_iff.1 hread, Halt.ofChecked_eq_ok_iff.1 hcheck,
    Halt.ofChecked_eq_ok_iff.1 hold, Halt.ofChecked_eq_ok_iff.1 hnew⟩

theorem checkedDiff_eq_ok (h : c.checkedDiff = .ok d) : d = readPatch c.patch.toList := by
  obtain ⟨hread, -⟩ := inOrder_of_checkedDiff h
  rw [readPatch?, fitting_eq_some_iff] at hread
  exact hread.2.symm

end FileChange

namespace CallGraph

variable {g g' g'' : CallGraph} {filter : FileFilter}

/-- The entries of `g'` are those of `g`, merged with what the changes did. -/
def Grows (g : CallGraph) (changes : List (String × FileChange)) (g' : CallGraph) : Prop :=
  ∀ name hash, g'.statsAt? name hash =
    ((statsOf changes name hash).map some).foldl (Option.merge ChangeStats.merge)
      (g.statsAt? name hash)

theorem Grows.append {cs ds : List (String × FileChange)} (h : Grows g cs g')
    (h' : Grows g' ds g'') : Grows g (cs ++ ds) g'' := by
  intro name hash
  rw [statsOf_append, List.map_append, List.foldl_append, ← h name hash, h' name hash]

/-! ## One change -/

theorem sameHistory_addFunctions (g : CallGraph) (path : String) (c : FileChange) :
    SameHistory g (g.addFunctions path c) :=
  List.foldlRecOn (motive := SameHistory g) _ _ (.refl g) fun g' h f _ =>
    h.trans (.addNode g' f.name [path])

theorem sameHistory_addCall {path : String} {call : CallSite} (h : g.addCall path call = .ok g') :
    SameHistory g g' := by
  have hends : ∀ (g : CallGraph) (name : String) (files : List String),
      SameHistory g (if g.contains name then g else g.addNode name files) := by
    intro g name files
    split
    · exact .refl g
    · exact .addNode g name files
  exact ((hends g call.caller [path]).trans (hends _ call.callee [])).trans (.addEdge h)

theorem sameHistory_addCalls {path : String} {calls : List CallSite}
    (h : calls.foldlM (fun g call => g.addCall path call) g = .ok g') : SameHistory g g' := by
  refine foldlM_preserves (p := SameHistory g) ?_ (.refl g) h
  intro g₁ g₂ call h₁ h₂
  exact h₁.trans (sameHistory_addCall h₂)

theorem statsAt?_recordAll {hash : String} {stats : NameMap ChangeStats}
    (hcurrent : g.current = some hash) (h : g.recordAll stats = .ok g') :
    g'.current = some hash ∧ ∀ name other, g'.statsAt? name other =
      if other = hash then Option.merge ChangeStats.merge (g.statsAt? name other) (stats.get? name)
      else g.statsAt? name other := by
  obtain ⟨es, hes⟩ := stats
  rw [recordAll] at h
  dsimp only at h
  simp only [NameMap.get?]
  induction es generalizing g with
  | nil =>
    cases h
    refine ⟨hcurrent, fun name other => ?_⟩
    simp [NameMap.lookup]
  | cons e es ih =>
    rw [List.foldlM_cons, bind_eq_ok_iff] at h
    obtain ⟨g₁, hfirst, hrest⟩ := h
    rw [List.pairwise_cons] at hes
    obtain ⟨hcurrent₁, hentry₁⟩ := statsAt?_recordHistory hcurrent hfirst
    obtain ⟨hcurrent', hentry'⟩ := ih hcurrent₁ hes.2 hrest
    refine ⟨hcurrent', fun name other => ?_⟩
    rw [hentry' name other, hentry₁ name other, NameMap.lookup]
    -- Each name comes once, so the entry of the first name is changed by no later one.
    by_cases hother : other = hash
    · by_cases hname : e.1 = name
      · have hnone : NameMap.lookup name es = none := by
          rw [← hname]
          exact NameMap.lookup_of_lower hes.1
        simp [hother, hname, hnone]
      · simp [hother, hname, Ne.symm hname]
    · simp [hother]

/-- A change adds the functions of both versions, then its counts, then its calls. -/
theorem applyDiff_eq_ok {mode : SeekingMode} {c : FileChange} {d : FileDiff}
    {update : CommitUpdate} (h : g.applyDiff mode c d = .ok (g', update)) :
    ∃ stats g₁, (if mode.updatesHistory then c.functionStats? d else some .empty) = some stats ∧
      (g.addFunctions (c.path?.getD "") c).recordAll stats = .ok g₁ ∧
      (if mode.updatesEdges then c.calls else []).foldlM
        (fun g call => g.addCall (c.path?.getD "") call) g₁ = .ok g' ∧
      update = ⟨1, 0, stats.size, (if mode.updatesEdges then c.calls else []).length⟩ := by
  rw [applyDiff, bind_eq_ok_iff] at h
  obtain ⟨stats, hstats, h⟩ := h
  rw [bind_eq_ok_iff] at h
  obtain ⟨g₁, hrecord, h⟩ := h
  rw [bind_eq_ok_iff] at h
  obtain ⟨g₂, hcalls, h⟩ := h
  cases h
  exact ⟨stats, g₁, Halt.ofFitting_eq_ok_iff.1 hstats, hrecord, Halt.ofChecked_eq_ok_iff.1 hcalls,
    rfl⟩

/-- **One change**: a change of a forward commit is recorded, and one of a merge is not. -/
theorem grows_applyDiff {info : CommitInfo} {mode : SeekingMode} {c : FileChange}
    {update : CommitUpdate} (hcurrent : g.current = some info.hash)
    (h : g.applyDiff mode c (readPatch c.patch.toList) = .ok (g', update)) :
    g'.current = some info.hash ∧
      Grows g (if mode = .forward then [(info.hash, c)] else []) g' ∧
      update.filesApplied = 1 ∧ update.filesSkipped = 0 ∧
      update.functionsTouched = if mode = .forward then c.stats.size else 0 := by
  obtain ⟨stats, g₁, hstats, hrecord, hcalls, rfl⟩ := applyDiff_eq_ok h
  have hfunctions := sameHistory_addFunctions g (c.path?.getD "") c
  have hsame := sameHistory_addCalls hcalls
  obtain ⟨hcurrent₁, hentries⟩ := statsAt?_recordAll (hfunctions.current.trans hcurrent) hrecord
  have hcounted : stats = if mode = .forward then c.stats else .empty := by
    cases mode with
    | forward =>
      rw [FileChange.functionStats?_eq_some hstats]
      rfl
    | merge => exact (Option.some.inj hstats).symm
    | rewind => exact (Option.some.inj hstats).symm
  refine ⟨hsame.current.trans hcurrent₁, fun name hash => ?_, rfl, rfl, ?_⟩
  · rw [hsame.entries, hentries, hfunctions.entries, hcounted]
    by_cases hmode : mode = .forward
    · rw [if_pos hmode, if_pos hmode, statsOf_singleton]
      by_cases hhash : hash = info.hash
      · rw [if_pos hhash, if_pos hhash]
        cases c.stats.get? name with
        | none => simp
        | some s => simp
      · simp [hhash]
    · simp [hmode, statsOf]
  · rw [hcounted]
    by_cases hmode : mode = .forward
    · rw [if_pos hmode, if_pos hmode]
    · rw [if_neg hmode, if_neg hmode]
      rfl

theorem applyChange_eq_ok {mode : SeekingMode} {c : FileChange} {update : CommitUpdate}
    (h : g.applyChange mode c = .ok (g', update)) :
    g.applyDiff mode c (readPatch c.patch.toList) = .ok (g', update) := by
  rw [applyChange] at h
  split at h
  · cases h
  · rename_i d hd
    rw [mapError_eq_ok_iff, FileChange.checkedDiff_eq_ok hd] at h
    exact h

/-- **One commit**: the changes that the filter wants are recorded, and all changes are counted. -/
theorem grows_applyChanges {info : CommitInfo} {mode : SeekingMode} {cs : List FileChange}
    {done update : CommitUpdate} (hcurrent : g.current = some info.hash)
    (h : g.applyChanges filter mode done cs = (g', .ok update)) :
    Grows g (CommitStep.recorded filter ⟨info, mode, cs⟩) g' ∧
      update.filesApplied + update.filesSkipped =
        done.filesApplied + done.filesSkipped + cs.length ∧
      update.functionsTouched = done.functionsTouched +
        ((CommitStep.recorded filter ⟨info, mode, cs⟩).map fun c => c.2.stats.size).sum := by
  induction cs generalizing g done with
  | nil =>
    cases h
    have hnone : CommitStep.recorded filter ⟨info, mode, []⟩ = [] := by
      rw [CommitStep.recorded]
      split <;> rfl
    rw [hnone]
    exact ⟨fun name hash => rfl, rfl, rfl⟩
  | cons c cs ih =>
    rw [applyChanges] at h
    rw [recorded_cons]
    split at h
    · rename_i hwants
      split at h
      · cases h
      · rename_i g₁ first hchange
        obtain ⟨hcurrent₁, hgrows₁, happlied, hskipped, htouched₁⟩ :=
          grows_applyDiff hcurrent (applyChange_eq_ok hchange)
        obtain ⟨hgrows, hfiles, htouched⟩ := ih hcurrent₁ h
        simp only [hwants, true_and]
        refine ⟨hgrows₁.append hgrows, ?_, ?_⟩
        · rw [hfiles, List.length_cons]
          dsimp only [CommitUpdate.add]
          omega
        · rw [htouched, List.map_append, List.sum_append]
          dsimp only [CommitUpdate.add]
          rw [htouched₁, Nat.add_assoc]
          congr 2
          split <;> rfl
    · rename_i hwants
      obtain ⟨hgrows, hfiles, htouched⟩ := ih hcurrent h
      rw [if_neg fun h => hwants h.1, List.nil_append]
      refine ⟨hgrows, ?_, htouched⟩
      rw [hfiles, List.length_cons]
      dsimp only [CommitUpdate.add]
      omega

theorem grows_replayCommit {commit : CommitStep} {update : CommitUpdate}
    (h : g.replayCommit filter commit = (g', .ok update)) :
    Grows g (commit.recorded filter) g' ∧
      update.filesApplied + update.filesSkipped =
        (if commit.mode = .rewind then 0 else commit.changes.length) ∧
      update.functionsTouched = ((commit.recorded filter).map fun c => c.2.stats.size).sum := by
  obtain ⟨info, mode, changes⟩ := commit
  have hentries : Grows g [] (g.addCommit info) := SameHistory.addCommit g info
  by_cases hmode : mode = .rewind
  · subst hmode
    cases h
    exact ⟨fun name hash => rfl, rfl, rfl⟩
  · have happly : (g.addCommit info).applyChanges filter mode .zero changes = (g', .ok update) := by
      cases mode with
      | forward => exact h
      | merge => exact h
      | rewind => exact absurd rfl hmode
    obtain ⟨hgrows, hfiles, htouched⟩ := grows_applyChanges (rfl : _ = some info.hash) happly
    rw [if_neg hmode, hfiles, htouched]
    refine ⟨hentries.append hgrows, ?_, ?_⟩
    · exact Nat.zero_add _
    · exact Nat.zero_add _

/-! ## A whole replay -/

/-- What a run has done, and what it has counted, when it has taken all commits. -/
theorem grows_replayFrom {history : List CommitStep} {done stats : ReplayStats}
    (h : g.replayFrom filter done history = (g', .ok stats)) :
    Grows g (recordedChanges filter history) g' ∧
      stats.functionsTouched = done.functionsTouched +
        ((recordedChanges filter history).map fun c => c.2.stats.size).sum ∧
      stats.filesApplied + stats.filesSkipped = done.filesApplied + done.filesSkipped +
        ((history.filter fun k => k.mode ≠ .rewind).map fun k => k.changes.length).sum ∧
      stats.commits = done.commits + history.length ∧
      stats.forward + stats.merges + stats.rewinds =
        done.forward + done.merges + done.rewinds + history.length := by
  induction history generalizing g done with
  | nil =>
    cases h
    exact ⟨fun name hash => rfl, rfl, rfl, rfl, rfl⟩
  | cons commit history ih =>
    rw [replayFrom] at h
    split at h
    · cases h
    · rename_i g₁ update hcommit
      obtain ⟨hgrows₁, hfiles₁, htouched₁⟩ := grows_replayCommit hcommit
      obtain ⟨hgrows, htouched, hfiles, hcommits, hmodes⟩ := ih h
      rw [recordedChanges, List.flatMap_cons]
      refine ⟨hgrows₁.append hgrows, ?_, ?_, ?_, ?_⟩
      · rw [htouched, List.map_append, List.sum_append, ← htouched₁]
        dsimp only [ReplayStats.count]
        rw [Nat.add_assoc]
        rfl
      · rw [hfiles, List.filter_cons]
        dsimp only [ReplayStats.count]
        by_cases hmode : commit.mode = .rewind
        · rw [if_pos hmode] at hfiles₁
          simp only [hmode, ne_eq, not_true_eq_false, decide_false, Bool.false_eq_true, if_false]
          omega
        · rw [if_neg hmode] at hfiles₁
          simp only [hmode, ne_eq, not_false_eq_true, decide_true, if_true, List.map_cons,
            List.sum_cons]
          omega
      · rw [hcommits, List.length_cons]
        dsimp only [ReplayStats.count]
        omega
      · rw [hmodes, List.length_cons]
        dsimp only [ReplayStats.count]
        cases commit.mode with
        | forward => simp; omega
        | merge => simp; omega
        | rewind => simp; omega

/-! ## Order -/

/-- Records the history of some functions in the given order; `none` as soon as one is refused. -/
def recordInOrder (g : CallGraph) (es : List (String × ChangeStats)) : Option CallGraph :=
  es.foldl (fun done e => done.bind fun g => (g.recordHistory e.1 e.2).toOption) (some g)

theorem toOption_foldlM_recordHistory (g : CallGraph) (es : List (String × ChangeStats)) :
    (es.foldlM (fun (g : CallGraph) e => g.recordHistory e.1 e.2) g).toOption =
      g.recordInOrder es := by
  have hrefused : ∀ es : List (String × ChangeStats), es.foldl
      (fun done e => done.bind fun g : CallGraph => (g.recordHistory e.1 e.2).toOption) none =
        none := by
    intro es
    induction es with
    | nil => rfl
    | cons e es ih => exact ih
  induction es generalizing g with
  | nil => rfl
  | cons e es ih =>
    rw [List.foldlM_cons, recordInOrder, List.foldl_cons, Option.bind_some]
    cases g.recordHistory e.1 e.2 with
    | error halt => exact (hrefused es).symm
    | ok g₁ => exact ih g₁

theorem recordInOrder_of_perm (g : CallGraph) {stats : NameMap ChangeStats}
    {es : List (String × ChangeStats)} (h : es.Perm stats.entries) :
    g.recordInOrder es = (g.recordAll stats).toOption := by
  rw [recordAll, toOption_foldlM_recordHistory, recordInOrder, recordInOrder]
  refine h.foldl_eq' (fun e he f hf done => ?_) _
  cases done with
  | none => rfl
  | some g =>
    rw [Option.bind_some, Option.bind_some]
    by_cases hname : e.1 = f.1
    · have hfound := NameMap.lookup_of_mem stats.ascending (h.subset he)
      rw [hname, NameMap.lookup_of_mem stats.ascending (h.subset hf)] at hfound
      have hef : e = f := Prod.ext hname (Option.some.inj hfound).symm
      rw [hef]
    · exact recordHistory_comm g hname e.2 f.2

/-- **A replay loses no history and counts none twice**: at its end, what the graph records of a
function and a commit is what it recorded before, merged with what the recorded changes of that
commit did to the function, in whatever order. It records nothing only if there is nothing to merge.
The numbers of the replay count each of its changes and commits once. -/
theorem statsAt?_replay {history : List CommitStep} {stats : ReplayStats}
    (h : g.replay filter history = (g', .ok stats)) :
    (∀ name hash,
        g'.statsAt? name hash =
            Multiset.fold (Option.merge ChangeStats.merge) (g.statsAt? name hash)
              (Multiset.map some (statsOf (recordedChanges filter history) name hash)) ∧
          (g'.statsAt? name hash = none ↔
            g.statsAt? name hash = none ∧
              statsOf (recordedChanges filter history) name hash = [])) ∧
      (∀ (g : CallGraph) (counts : NameMap ChangeStats) (es : List (String × ChangeStats)),
        es.Perm counts.entries → g.recordInOrder es = (g.recordAll counts).toOption) ∧
      stats.functionsTouched =
        ((recordedChanges filter history).map fun c => c.2.stats.size).sum ∧
      stats.filesApplied + stats.filesSkipped =
        ((history.filter fun k => k.mode ≠ .rewind).map fun k => k.changes.length).sum ∧
      stats.commits = stats.forward + stats.merges + stats.rewinds ∧
      stats.commits = history.length := by
  obtain ⟨hgrows, htouched, hfiles, hcommits, hmodes⟩ := grows_replayFrom h
  dsimp only [ReplayStats.zero] at htouched hfiles hcommits hmodes
  refine ⟨fun name hash => ⟨?_, ?_⟩, fun g _ _ => recordInOrder_of_perm g, ?_, ?_, ?_, ?_⟩
  · rw [Multiset.map_coe, Multiset.coe_fold_l]
    exact hgrows name hash
  · rw [hgrows name hash, ChangeStats.foldl_merge_eq_none_iff]
  · omega
  · omega
  · omega
  · omega

/-- One commit is taken forward twice, and as a merge and a rewind between, with a change that the
filter does not want. -/
theorem statsAt?_replay_of_repeated_commit :
    let change : FileChange := ⟨some "a", some "a", "@@ -1,2 +1,2 @@\n-x\n+y\n z\n",
      [⟨"f", ⟨1, 2⟩⟩], [], none, none, []⟩
    let unwanted : FileChange := { change with oldPath := none, newPath := none }
    let info : CommitInfo := ⟨"c", "", "", "", none⟩
    let history : List CommitStep := [⟨info, .forward, [change, unwanted]⟩,
      ⟨info, .merge, [change]⟩, ⟨info, .rewind, [change]⟩, ⟨info, .forward, [change]⟩]
    ∃ g stats, empty.replay .all history = (g, .ok stats) ∧
      g.statsAt? "f" "c" = some ⟨2, 2, none, none⟩ ∧ stats.functionsTouched = 2 ∧
      stats.filesApplied + stats.filesSkipped = 4 := by
  intro change unwanted info history
  have hrun : (empty.replay .all history).2 = .ok ⟨4, 2, 1, 1, 3, 1, 2, 0⟩ := by decide +kernel
  have h : empty.replay .all history =
      ((empty.replay .all history).1, .ok ⟨4, 2, 1, 1, 3, 1, 2, 0⟩) := Prod.ext rfl hrun
  obtain ⟨hentries, -⟩ := statsAt?_replay h
  refine ⟨_, _, h, (hentries "f" "c").1.trans ?_, rfl, rfl⟩
  decide +kernel

end CallGraph

end EffortRank
