import EffortRank.Proofs.Churn.Bounded

/-!
# What all functions count together

One pass over functions in order charges no line to two of them. So what it counts for all of them
together is no more than the change has: of the added lines those that stand in functions, and of
the deleted lines those that functions hold. It is all of them if the functions leave none out
(`changedStats_shares_lines`).

A range with more lines than can be counted counts as the largest count. The parts of one that
several functions hold may be countable each, and then count for more together
(`changedStats_of_all_lines`).
-/

namespace EffortRank

open Text

/-! ## Deleted lines in functions -/

/-- Lines each of which is in a function are no more than what functions count of them. -/
theorem length_le_sum_countP (functions : List FunctionRange) (ls : List Int)
    (h : ∀ line ∈ ls, ∃ f ∈ functions, f.range.contains line = true) :
    ls.length ≤ (functions.map fun f => ls.countP f.range.contains).sum := by
  induction functions generalizing ls with
  | nil =>
    have hnil : ls = [] := by simpa [List.eq_nil_iff_forall_not_mem] using h
    rw [hnil]
    exact Nat.zero_le _
  | cons f fs ih =>
    -- The lines that the first function leaves out are in the other ones.
    let others := ls.filter fun line => !f.range.contains line
    have hothers : ∀ line ∈ others, ∃ g ∈ fs, g.range.contains line = true := by
      intro line hline
      obtain ⟨hmem, hout⟩ := List.mem_filter.1 hline
      obtain ⟨g, hg, hin⟩ := h line hmem
      rcases List.mem_cons.1 hg with rfl | hg
      · rw [hin] at hout
        cases hout
      · exact ⟨g, hg, hin⟩
    have hfewer : (fs.map fun g => others.countP g.range.contains).sum ≤
        (fs.map fun g => ls.countP g.range.contains).sum :=
      List.sum_le_sum fun g _ => List.filter_sublist.countP_le
    have hrest := (ih others hothers).trans hfewer
    have hsplit := ls.length_eq_countP_add_countP f.range.contains
    rw [← List.countP_eq_length_filter] at hrest
    simp only [Bool.not_eq_true, Bool.decide_eq_false] at hsplit
    rw [List.map_cons, List.sum_cons]
    omega

/-- A range is held whole if each of its lines is in a function. -/
theorem le_heldLines {functions : List FunctionRange} {s : LineRange}
    (h : ∀ line ∈ s.lines, ∃ f ∈ functions, f.range.contains line = true) :
    s.lines.length ≤ heldLines functions s := by
  have hcount := length_le_sum_countP functions s.lines h
  simp only [heldLines, LineRange.commonLines_comm _ s]
  exact hcount

theorem min_sum_le (ns : List Nat) (m : Nat) : min ns.sum m ≤ (ns.map fun n => min n m).sum := by
  induction ns with
  | nil => exact Nat.min_le_left _ _
  | cons n ns ih =>
    rw [List.map_cons, List.sum_cons, List.sum_cons]
    omega

/-- What functions count of a range is its length if each of its lines is in one of them. -/
theorem length_le_sum_sharedLength {functions : List FunctionRange} {s : LineRange}
    (h : ∀ line ∈ s.lines, ∃ f ∈ functions, f.range.contains line = true) :
    s.length ≤ (functions.map fun f => f.range.sharedLength s).sum := by
  have hlength : s.length = min s.lines.length maxCount := by rw [s.length_lines, LineRange.length]
  have hcapped := min_sum_le (functions.map fun f => f.range.commonLines s) maxCount
  have hheld : s.lines.length ≤ (functions.map fun f => f.range.commonLines s).sum :=
    le_heldLines h
  simp only [List.map_map, Function.comp_def, ← LineRange.sharedLength_eq] at hcapped
  omega

/-! ## One pass -/

section

variable {functions : List FunctionRange} {d : FileDiff}

/-- What a pass counts of a kind, it finds in all ranges. -/
theorem sumOf_changedStats_all {φ : ChangeStats → Nat} (hzero : φ .zero = 0)
    (hmerge : ∀ s t : ChangeStats, φ (s.merge t) = φ s + φ t) (hd : d.check = .ok ())
    (hf : checkFunctions functions = .ok ()) (sources : Option SourceTexts) :
    ((changedStats functions d sources).sumOf fun _ s => φ s) =
      (functions.map fun f => ((d.piecesIn f.range).map fun piece =>
        φ (piece.stats (sources.map fun s => UnitMeter.of s d))).sum).sum :=
  (sumOf_changedStats (fun _ => hzero) (fun _ => hmerge) functions d sources).trans
    (sum_namedPieces _ hd hf)

/-- All functions together count the additions that one of them takes in. -/
theorem sum_adds_changedStats (hd : d.check = .ok ()) (hf : checkFunctions functions = .ok ())
    (sources : Option SourceTexts) :
    ((changedStats functions d sources).sumOf fun _ s => s.adds) =
      (d.additions.map (addedShare functions)).sum := by
  rw [sumOf_changedStats_all rfl (fun _ _ => rfl) hd hf]
  simp only [sum_adds_piecesIn]
  have hdisjoint := disjoint_takesIn (checkFunctions_eq_ok_iff.1 hf)
  exact sum_exists_of_disjoint (List.pairwise_map.1 hdisjoint) Addition.lines d.additions

/-- All functions together count what each holds of each deletion. -/
theorem sum_dels_changedStats (hd : d.check = .ok ()) (hf : checkFunctions functions = .ok ())
    (sources : Option SourceTexts) :
    ((changedStats functions d sources).sumOf fun _ s => s.dels) =
      (d.deletions.map fun s => (functions.map fun f => f.range.sharedLength s).sum).sum := by
  have hexchange := Multiset.sum_map_sum_map (functions : Multiset FunctionRange)
    (d.deletions : Multiset LineRange) (f := fun f s => f.range.sharedLength s)
  rw [sumOf_changedStats_all rfl (fun _ _ => rfl) hd hf]
  simp only [sum_dels_piecesIn]
  simpa using hexchange

end

/-- Functions take in every addition that has lines. -/
def FileDiff.AdditionsIn (functions : List FunctionRange) (d : FileDiff) : Prop :=
  ∀ a ∈ d.additions, 0 < a.length → ∃ f ∈ functions, f.range.TakesIn a

/-- Every line of every deletion is in a function. -/
def FileDiff.DeletionsIn (functions : List FunctionRange) (d : FileDiff) : Prop :=
  ∀ s ∈ d.deletions, ∀ line ∈ s.lines, ∃ f ∈ functions, f.range.contains line = true

section

variable {functions : List FunctionRange} {d : FileDiff}

theorem FileDiff.AdditionsIn.sum_addedShare (h : d.AdditionsIn functions) :
    (d.additions.map (addedShare functions)).sum = d.addedLines := by
  refine congrArg List.sum (List.map_congr_left fun a ha => ?_)
  rw [addedShare]
  split
  · rfl
  · rename_i hout
    have hlength : ¬ 0 < a.length := fun hpos => hout (h a ha hpos)
    rw [Addition.lines]
    omega

theorem FileDiff.DeletionsIn.deletedLines_le (h : d.DeletionsIn functions) :
    d.deletedLines ≤
      (d.deletions.map fun s => (functions.map fun f => f.range.sharedLength s).sum).sum :=
  List.sum_le_sum fun s hs => length_le_sum_sharedLength (h s hs)

/-- Functions in order hold no more lines of the deletions than there are. -/
theorem sum_sharedLength_le_removedLines (hf : checkFunctions functions = .ok ()) (d : FileDiff) :
    (d.deletions.map fun s => (functions.map fun f => f.range.sharedLength s).sum).sum ≤
      d.removedLines := by
  refine List.sum_le_sum fun s _ => ?_
  calc (functions.map fun f => f.range.sharedLength s).sum
      ≤ heldLines functions s := by
        refine List.sum_le_sum fun f _ => ?_
        rw [LineRange.sharedLength_eq]
        exact Nat.min_le_left _ _
    _ ≤ s.lines.length := heldLines_le (checkFunctions_eq_ok_iff.1 hf) s

/-- If each deletion can be counted, the lengths of all are their numbers of lines. -/
theorem FileDiff.removedLines_eq (h : ∀ s ∈ d.deletions, s.lines.length ≤ maxCount) :
    d.removedLines = d.deletedLines :=
  congrArg List.sum (List.map_congr_left fun s hs => (LineRange.length_of_le (h s hs)).symm)

end

/-- **One pass charges no line to two functions.** All functions together count no more added lines
than there are, and all of them if they take in each addition. They count no more deleted lines than
there are, and no fewer than the lengths of the deletions if each line is in a function. If each
deletion can be counted, its length is its number of lines. The pass has a result if the lines of
the change can be counted and, given the texts, its inverse fits and the words can be counted. -/
theorem changedStats_shares_lines {functions : List FunctionRange} {d : FileDiff}
    (hd : d.check = .ok ()) (hf : checkFunctions functions = .ok ())
    (sources : Option SourceTexts) :
    let stats := changedStats functions d sources
    let adds := stats.sumOf fun _ s => s.adds
    let dels := stats.sumOf fun _ s => s.dels
    (adds ≤ d.addedLines ∧ (d.AdditionsIn functions → adds = d.addedLines)) ∧
      (dels ≤ d.removedLines ∧ (d.DeletionsIn functions → d.deletedLines ≤ dels)) ∧
      ((∀ s ∈ d.deletions, s.lines.length ≤ maxCount) →
        dels ≤ d.deletedLines ∧ (d.DeletionsIn functions → dels = d.deletedLines)) ∧
      (∀ result, changedStats? functions d sources = some result → result = stats) ∧
      (d.addedLines ≤ maxCount → d.removedLines ≤ maxCount →
        (∀ s ∈ sources, d.inverseFits = true ∧ wordsOf (lines s.old.toList) ≤ maxCount ∧
          (d.inverse.deletions.map (unitCount (lines s.new.toList))).sum ≤ maxCount) →
        changedStats? functions d sources = some stats) := by
  intro stats adds dels
  have hadds : adds = (d.additions.map (addedShare functions)).sum :=
    sum_adds_changedStats hd hf sources
  have hdels : dels =
      (d.deletions.map fun s => (functions.map fun f => f.range.sharedLength s).sum).sum :=
    sum_dels_changedStats hd hf sources
  have hremoved : dels ≤ d.removedLines := by
    rw [hdels]
    exact sum_sharedLength_le_removedLines hf d
  have hheld : d.DeletionsIn functions → d.deletedLines ≤ dels := by
    rw [hdels]
    exact FileDiff.DeletionsIn.deletedLines_le
  refine ⟨⟨?_, fun hin => ?_⟩, ⟨hremoved, hheld⟩, fun hcounted => ?_, fun result hresult => ?_,
    fun hadded hlines hsources => ?_⟩
  · rw [hadds]
    exact List.sum_le_sum fun a _ => addedShare_le functions a
  · rw [hadds, hin.sum_addedShare]
  · rw [FileDiff.removedLines_eq hcounted] at hremoved
    exact ⟨hremoved, fun hin => Nat.le_antisymm hremoved (hheld hin)⟩
  · exact (changedStats?_eq_some_iff.1 hresult).1.symm
  · have hdeletions := (FileDiff.check_eq_ok_iff.1 hd).2
    have hwithin := within_changedStats hf hdeletions hadded hlines fun s hs => (hsources s hs).2
    refine changedStats?_of_within (fun hsome => ?_) (Nat.le_refl _) hwithin
    obtain ⟨s, hs⟩ := Option.isSome_iff_exists.1 hsome
    exact (hsources s hs).1

/-- A deletion that reaches from one function into the next, and an addition without lines. -/
theorem changedStats_shares_lines_straddling :
    let functions : List FunctionRange := [⟨"f", ⟨1, 6⟩⟩, ⟨"g", ⟨7, 12⟩⟩]
    let d : FileDiff := ⟨[⟨5, 2⟩, ⟨6, 0⟩, ⟨10, 1⟩], [⟨5, 8⟩, ⟨12, 12⟩]⟩
    d.check = .ok () ∧ checkFunctions functions = .ok () ∧
      ∃ stats, changedStats? functions d none = some stats ∧
        (stats.sumOf fun _ s => s.adds) = d.addedLines ∧ d.addedLines = 3 ∧
        (stats.sumOf fun _ s => s.dels) = d.deletedLines ∧ d.deletedLines = 5 := by
  intro functions d
  have hd : d.check = .ok () := rfl
  have hf : checkFunctions functions = .ok () := rfl
  obtain ⟨⟨-, hadds⟩, -, hdels, -, hresult⟩ := changedStats_shares_lines hd hf none
  have hadditions : d.AdditionsIn functions := by unfold FileDiff.AdditionsIn; decide
  have hdeletions : d.DeletionsIn functions := by unfold FileDiff.DeletionsIn; decide
  have hcounted : ∀ s ∈ d.deletions, s.lines.length ≤ maxCount := by decide
  exact ⟨hd, hf, _, hresult (by decide) (by decide) nofun, hadds hadditions, rfl,
    (hdels hcounted).2 hdeletions, rfl⟩

/-- All line numbers together are more than can be counted, but those of either sign are not. -/
theorem changedStats_of_all_lines :
    let functions : List FunctionRange := [⟨"f", ⟨-2 ^ 63, -1⟩⟩, ⟨"g", ⟨0, 2 ^ 63 - 1⟩⟩]
    let d : FileDiff := ⟨[], [⟨-2 ^ 63, 2 ^ 63 - 1⟩]⟩
    d.check = .ok () ∧ checkFunctions functions = .ok () ∧
      ∃ stats, changedStats? functions d none = some stats ∧
        stats = .ofList [("f", ⟨0, 2 ^ 63, none, none⟩), ("g", ⟨0, 2 ^ 63, none, none⟩)] ∧
        d.deletedLines < stats.sumOf fun _ s => s.dels :=
  ⟨rfl, rfl, _, rfl, by decide +kernel, by decide +kernel⟩

end EffortRank
