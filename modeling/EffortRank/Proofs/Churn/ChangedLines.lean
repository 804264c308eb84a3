import EffortRank.NameMap.Lemmas
import EffortRank.Proofs.Churn.Scan
import Mathlib

/-!
# Changed lines, counted one by one

`churnOf` counts the changed lines of a function without a scan: for each of its ranges, the lines
that are put in behind one of its lines but not behind its last one, and the lines that it shares
with the deletions. Main statement (`changedLines?_eq_churnOf`): one pass finds just these numbers.
-/

namespace EffortRank

def LineRange.lines (r : LineRange) : List Int :=
  (List.range (r.last + 1 - r.first).toNat).map fun i : Nat => r.first + i

/-- The number of lines that lie in both ranges. -/
def LineRange.commonLines (r s : LineRange) : Nat := r.lines.countP s.contains

/-- The number of changed lines in a range. The part of a deletion in the range that is too long to
be counted counts as the largest count. -/
def FileDiff.churnIn (d : FileDiff) (r : LineRange) : Nat :=
  ((d.additions.filter fun a => r.first ≤ a.position ∧ a.position < r.last).map
      Addition.lines).sum +
    (d.deletions.map fun s => min (r.commonLines s) maxCount).sum

/-- The number of changed lines in all ranges of a function. -/
def churnOf (functions : List FunctionRange) (d : FileDiff) (name : String) : Nat :=
  ((functions.filter fun f => f.name = name).map fun f => d.churnIn f.range).sum

/-! ## The lines of a range -/

namespace LineRange

theorem length_lines (r : LineRange) : r.lines.length = (r.last + 1 - r.first).toNat := by
  rw [lines, List.length_map, List.length_range]

theorem lines_of_lt {r : LineRange} (h : r.last < r.first) : r.lines = [] := by
  rw [← List.length_eq_zero_iff, length_lines]
  omega

theorem lines_succ {first last : Int} (h : first ≤ last + 1) :
    lines ⟨first, last + 1⟩ = lines ⟨first, last⟩ ++ [last + 1] := by
  obtain ⟨n, hn⟩ : ∃ n : Nat, last + 1 = first + n := ⟨(last + 1 - first).toNat, by omega⟩
  have hlength : (last + 1 - first).toNat = n := by omega
  have hnext : (last + 1 + 1 - first).toNat = n + 1 := by omega
  rw [lines, lines, hlength, hnext, List.range_succ, List.map_append, List.map_singleton, hn]

/-- Line by line, every range is reached from an empty one. -/
theorem line_induction {motive : LineRange → Prop}
    (empty : ∀ r : LineRange, r.last < r.first → motive r)
    (next : ∀ first last, first ≤ last + 1 → motive ⟨first, last⟩ → motive ⟨first, last + 1⟩)
    (r : LineRange) : motive r := by
  obtain ⟨first, last⟩ := r
  by_cases h : last < first
  · exact empty _ h
  · obtain ⟨n, rfl⟩ : ∃ n : Nat, last = first - 1 + n := ⟨(last + 1 - first).toNat, by omega⟩
    clear h
    induction n with
    | zero => exact empty _ (by dsimp only; omega)
    | succ n ih =>
      have hlast : first - 1 + ((n + 1 : Nat) : Int) = first - 1 + n + 1 := by omega
      rw [hlast]
      exact next _ _ (by omega) ih

/-- The lines of a range that lie in another one are those of a range. -/
theorem filter_lines (r s : LineRange) :
    s.lines.filter r.contains = lines ⟨max r.first s.first, min r.last s.last⟩ := by
  induction s using line_induction with
  | empty s hempty =>
    rw [lines_of_lt hempty, List.filter_nil, lines_of_lt]
    dsimp only
    omega
  | next first last hle ih =>
    rw [lines_succ hle, List.filter_append, ih, List.filter_singleton]
    dsimp only
    by_cases hin : r.contains (last + 1) = true
    · rw [hin, cond_true]
      rw [contains_iff] at hin
      have hlast : min r.last last = last := by omega
      have hnext : min r.last (last + 1) = last + 1 := by omega
      rw [hlast, hnext, lines_succ (by omega)]
    · rw [Bool.eq_false_iff.2 hin, cond_false, List.append_nil]
      rw [contains_iff] at hin
      by_cases hfirst : last + 1 < r.first
      · rw [lines_of_lt (by dsimp only; omega), lines_of_lt (by dsimp only; omega)]
      · have hlast : min r.last (last + 1) = min r.last last := by omega
        rw [hlast]

theorem commonLines_eq (r s : LineRange) :
    r.commonLines s = (min r.last s.last + 1 - max r.first s.first).toNat := by
  rw [commonLines, List.countP_eq_length_filter, filter_lines, length_lines]
  dsimp only
  omega

theorem commonLines_comm (r s : LineRange) : r.commonLines s = s.commonLines r := by
  rw [commonLines_eq, commonLines_eq]
  omega

end LineRange

/-! ## Sums over pieces -/

theorem sum_map_filterMap {α β : Type} (f : α → Option β) (w : β → Nat) (as : List α) :
    ((as.filterMap f).map w).sum = (as.map fun a => ((f a).map w).getD 0).sum := by
  induction as with
  | nil => rfl
  | cons a as ih =>
    rw [List.map_cons, List.sum_cons, ← ih, List.filterMap_cons]
    cases f a with
    | none => exact (Nat.zero_add _).symm
    | some b => exact List.sum_cons

/-- A sum over pieces is one over the records that they come from. -/
theorem sum_piecesIn (w : Contribution → Nat) (d : FileDiff) (range : LineRange) :
    ((d.piecesIn range).map w).sum =
      (d.additions.zipIdx.map fun e =>
        if range.first ≤ e.1.position ∧ e.1.position < range.last ∧ 0 < e.1.length then
          w (.added e.2 e.1.lines) else 0).sum +
        ((d.deletions.filterMap range.intersection?).map fun t => w (.deleted t)).sum := by
  have hdeleted : deletedPieces range d.deletions =
      (d.deletions.filterMap range.intersection?).map .deleted := List.map_filterMap.symm
  rw [FileDiff.piecesIn, List.map_append, List.sum_append, hdeleted, List.map_map, addedPieces,
    sum_map_filterMap]
  refine congrArg (fun l : List Nat => l.sum + _) (List.map_congr_left fun e _ => ?_)
  split <;> rfl

/-! ## The lines of pieces -/

/-- The shared part of two ranges is as long as there are lines in both, if they can be counted. -/
theorem LineRange.sharedLength_eq (r s : LineRange) :
    r.sharedLength s = min (r.commonLines s) maxCount := by
  rw [commonLines_eq, sharedLength]
  cases hshared : r.intersection? s with
  | none =>
    rw [intersection?_eq_none_iff] at hshared
    have hnone : (min r.last s.last + 1 - max r.first s.first).toNat = 0 := by omega
    rw [hnone]
    rfl
  | some t =>
    rw [intersection?] at hshared
    split at hshared
    · cases hshared
    · cases hshared
      rfl

/-- Additions without lines add nothing. -/
theorem sum_taken (range : LineRange) (as : List Addition) :
    (as.zipIdx.map fun e =>
      if range.first ≤ e.1.position ∧ e.1.position < range.last ∧ 0 < e.1.length then e.1.lines
      else 0).sum =
      (as.map fun a =>
        if range.first ≤ a.position ∧ a.position < range.last then a.lines else 0).sum := by
  have htaken : ∀ a : Addition,
      (if range.first ≤ a.position ∧ a.position < range.last ∧ 0 < a.length then a.lines else 0) =
        if range.first ≤ a.position ∧ a.position < range.last then a.lines else 0 := by
    intro a
    rw [Addition.lines]
    split <;> split <;> omega
  conv_rhs => rw [← List.zipIdx_map_fst 0 as, List.map_map]
  exact congrArg List.sum (List.map_congr_left fun e _ => htaken e.1)

theorem sum_lines_piecesIn (d : FileDiff) (range : LineRange) :
    ((d.piecesIn range).map Contribution.lines).sum = d.churnIn range := by
  have hheld : (d.deletions.map fun s =>
      ((range.intersection? s).map fun t => (Contribution.deleted t).lines).getD 0) =
        d.deletions.map fun s => min (range.commonLines s) maxCount :=
    List.map_congr_left fun s _ => range.sharedLength_eq s
  rw [sum_piecesIn, sum_map_filterMap, hheld, FileDiff.churnIn]
  refine congrArg (· + _) ((sum_taken range d.additions).trans ?_)
  rw [List.sum_map_ite, List.map_const', List.sum_replicate, smul_zero, Nat.add_zero]

theorem lines_pos_of_mem_piecesIn {d : FileDiff} {range : LineRange} {piece : Contribution}
    (h : piece ∈ d.piecesIn range) : 0 < piece.lines := by
  rw [FileDiff.piecesIn, List.mem_append, addedPieces, deletedPieces, List.mem_filterMap,
    List.mem_filterMap] at h
  rcases h with ⟨e, -, hpiece⟩ | ⟨s, -, hpiece⟩
  · split at hpiece
    · rename_i hin
      cases hpiece
      rw [Contribution.lines, Addition.lines]
      omega
    · cases hpiece
  · rw [Option.map_eq_some_iff] at hpiece
    obtain ⟨t, hshared, rfl⟩ := hpiece
    have hne : range.intersection? s ≠ none := by simp [hshared]
    have hlength := range.sharedLength_eq s
    rw [Ne, LineRange.intersection?_eq_none_iff] at hne
    rw [LineRange.sharedLength, hshared, LineRange.commonLines_eq] at hlength
    rw [Contribution.lines]
    simp only [Option.map_some, Option.getD_some] at hlength
    rw [hlength, maxCount]
    omega

/-! ## Counting by name -/

section

variable {functions : List FunctionRange} {d : FileDiff}

theorem contributions_eq (hd : d.check = .ok ()) (hf : checkFunctions functions = .ok ()) :
    contributions functions d = functions.map fun f => (f.name, d.piecesIn f.range) := by
  rw [contributions, ScanCursor.visitAll_eq hd (checkFunctions_eq_ok_iff.1 hf) fun r _ =>
    ScanCursor.past_start d r.first, List.map_map, List.zip_map']
  rfl

theorem sum_lines_namedPieces (hd : d.check = .ok ()) (hf : checkFunctions functions = .ok ())
    (name : String) :
    (((namedPieces functions d).filter fun e => e.1 = name).map fun e => e.2.lines).sum =
      churnOf functions d name := by
  rw [namedPieces, contributions_eq hd hf]
  clear hf
  rw [churnOf]
  induction functions with
  | nil => rfl
  | cons f fs ih =>
    rw [List.map_cons, List.flatMap_cons, List.filter_append, List.map_append, List.sum_append, ih,
      List.filter_cons]
    have hsum := sum_lines_piecesIn d f.range
    by_cases hname : f.name = name
    · simp [hname, List.filter_map, Function.comp_def, ← hsum]
    · simp [hname, List.filter_map, Function.comp_def]

theorem lines_pos_of_mem_namedPieces (hd : d.check = .ok ())
    (hf : checkFunctions functions = .ok ()) {e : String × Contribution}
    (he : e ∈ namedPieces functions d) : 0 < e.2.lines := by
  rw [namedPieces, contributions_eq hd hf, List.mem_flatMap] at he
  obtain ⟨g, hg, hpiece⟩ := he
  obtain ⟨f, -, rfl⟩ := List.mem_map.1 hg
  obtain ⟨piece, hmem, rfl⟩ := List.mem_map.1 hpiece
  exact lines_pos_of_mem_piecesIn hmem

/-- The pass finds pieces of a function if lines of it are changed. -/
theorem filter_namedPieces_eq_nil_iff (hd : d.check = .ok ())
    (hf : checkFunctions functions = .ok ()) (name : String) :
    (namedPieces functions d).filter (fun e => e.1 = name) = [] ↔
      churnOf functions d name = 0 := by
  have hsum := sum_lines_namedPieces hd hf name
  constructor
  · intro hnone
    rw [hnone] at hsum
    exact hsum.symm
  · intro hzero
    rw [hzero, List.sum_eq_zero_iff_forall_eq_nat, List.forall_mem_map] at hsum
    rw [List.eq_nil_iff_forall_not_mem]
    intro e he
    have hlines := lines_pos_of_mem_namedPieces hd hf (List.mem_of_mem_filter he)
    rw [hsum e he] at hlines
    exact Nat.lt_irrefl 0 hlines

/-- Adding up counts makes an entry as soon as there is a count. -/
theorem foldl_count {ε : Type} (count : ε → Nat) (es : List ε) (old : Option Nat) :
    es.foldl (fun old e => some (old.getD 0 + count e)) old =
      if es = [] then old else some (old.getD 0 + (es.map count).sum) := by
  induction es generalizing old with
  | nil => rfl
  | cons e es ih =>
    rw [List.foldl_cons, ih]
    by_cases hes : es = []
    · simp [hes]
    · simp [hes, Nat.add_assoc]

/-- The pass lists a function if lines of it are changed, with their number. -/
theorem get?_changedLines (hd : d.check = .ok ()) (hf : checkFunctions functions = .ok ())
    (name : String) :
    (changedLines functions d).get? name =
      if churnOf functions d name = 0 then none else some (churnOf functions d name) := by
  have hsum := sum_lines_namedPieces hd hf name
  have hnone := filter_namedPieces_eq_nil_iff hd hf name
  have hfold := NameMap.get?_foldl_alter (fun e : String × Contribution => e.1)
    (fun e old => old.getD 0 + e.2.lines) (namedPieces functions d) .empty name
  rw [foldl_count fun e : String × Contribution => e.2.lines, hsum, NameMap.get?_empty] at hfold
  rw [changedLines, hfold]
  by_cases hzero : churnOf functions d name = 0
  · rw [if_pos (hnone.2 hzero), if_pos hzero]
  · rw [if_neg fun h => hzero (hnone.1 h), if_neg hzero]
    simp

/-- A pass that keeps both sides apart lists the same functions. -/
theorem get?_changedStats_eq_none_iff (hd : d.check = .ok ())
    (hf : checkFunctions functions = .ok ()) (sources : Option SourceTexts) (name : String) :
    (changedStats functions d sources).get? name = none ↔ churnOf functions d name = 0 := by
  rw [← filter_namedPieces_eq_nil_iff hd hf, changedStats, NameMap.get?_foldl_alter,
    NameMap.get?_empty]
  cases (namedPieces functions d).filter fun e => e.1 = name with
  | nil => simp
  | cons e es =>
    rw [List.foldl_cons]
    constructor
    · intro hnone
      refine absurd hnone (List.foldlRecOn (motive := fun found => found ≠ none) es _ ?_ ?_)
      · exact Option.some_ne_none _
      · exact fun _ _ _ _ => Option.some_ne_none _
    · intro hnil
      cases hnil

theorem exists_of_churnOf_ne_zero {name : String} (h : churnOf functions d name ≠ 0) :
    ∃ f ∈ functions, f.name = name := by
  have hne : functions.filter (fun f => f.name = name) ≠ [] := by
    intro hnil
    rw [churnOf, hnil] at h
    exact h rfl
  obtain ⟨f, hf⟩ := List.exists_mem_of_ne_nil _ hne
  rw [List.mem_filter, decide_eq_true_eq] at hf
  exact ⟨f, hf⟩

theorem changedLines?_eq (hd : d.check = .ok ()) (hf : checkFunctions functions = .ok ()) :
    changedLines? functions d =
      fitting (functions.all fun f => countFits (churnOf functions d f.name))
        (changedLines functions d) := by
  rw [changedLines?]
  congr 1
  rw [Bool.eq_iff_iff, List.all_eq_true, List.all_eq_true]
  constructor
  · intro hfits f _
    by_cases hzero : churnOf functions d f.name = 0
    · rw [hzero]
      rfl
    · have hget := get?_changedLines hd hf f.name
      rw [if_neg hzero, ← NameMap.mem_entries_iff] at hget
      exact hfits _ (List.mem_map_of_mem hget)
  · intro hfits n hn
    obtain ⟨⟨name, m⟩, he, rfl⟩ := List.mem_map.1 hn
    rw [NameMap.mem_entries_iff, get?_changedLines hd hf] at he
    split at he
    · cases he
    · rename_i hne
      cases he
      obtain ⟨f, hmem, rfl⟩ := exists_of_churnOf_ne_zero hne
      exact hfits f hmem

end

/-- **One pass agrees with counting**: for a change and functions in order, each visit of a pass
finds the pieces that a look at every record finds, and so does a visit that starts anew. If the
numbers of changed lines fit, the pass lists them for just the functions with changed lines. -/
theorem changedLines?_eq_churnOf {functions : List FunctionRange} {d : FileDiff}
    (hd : d.check = .ok ()) (hf : checkFunctions functions = .ok ()) :
    (ScanCursor.start.visitAll d (functions.map FunctionRange.range)).map (·.1) =
        functions.map (fun f => d.piecesIn f.range) ∧
      (∀ f ∈ functions, (ScanCursor.start.visit f.range d).1 = d.piecesIn f.range) ∧
      ((∀ f ∈ functions, churnOf functions d f.name ≤ maxCount) →
        ∃ churn, changedLines? functions d = some churn ∧
          ∀ name, churn.get? name =
            if churnOf functions d name = 0 then none else some (churnOf functions d name)) ∧
      ((∃ f ∈ functions, maxCount < churnOf functions d f.name) →
        changedLines? functions d = none) := by
  refine ⟨?_, fun f _ => ?_, fun hfits => ?_, fun hover => ?_⟩
  · have hall := ScanCursor.visitAll_eq hd (checkFunctions_eq_ok_iff.1 hf) fun r _ =>
      ScanCursor.past_start d r.first
    rw [hall, List.map_map]
    rfl
  · exact (ScanCursor.visit_eq hd (ScanCursor.past_start d f.range.first)).1
  · have hall : (functions.all fun f => countFits (churnOf functions d f.name)) = true := by
      rw [List.all_eq_true]
      exact fun f hmem => decide_eq_true (hfits f hmem)
    refine ⟨changedLines functions d, ?_, get?_changedLines hd hf⟩
    rw [changedLines?_eq hd hf, hall, fitting_true]
  · obtain ⟨f, hmem, hlarge⟩ := hover
    have hall : (functions.all fun f => countFits (churnOf functions d f.name)) = false := by
      rw [List.all_eq_false]
      refine ⟨f, hmem, ?_⟩
      rw [countFits, decide_eq_true_eq]
      omega
    rw [changedLines?_eq hd hf, hall]
    rfl

/-- A deletion that reaches from one function into the next, a function in two ranges, an addition
behind the last line of a function, and one without lines. -/
theorem changedLines?_eq_churnOf_shared :
    let functions : List FunctionRange := [⟨"f", ⟨2, 6⟩⟩, ⟨"g", ⟨8, 12⟩⟩, ⟨"f", ⟨13, 13⟩⟩]
    let d : FileDiff := ⟨[⟨5, 2⟩, ⟨6, 3⟩, ⟨9, 0⟩, ⟨10, 1⟩], [⟨1, 2⟩, ⟨6, 9⟩, ⟨12, 14⟩]⟩
    d.check = .ok () ∧ checkFunctions functions = .ok () ∧
      ∃ churn, changedLines? functions d = some churn ∧
        churn.get? "f" = some 5 ∧ churn.get? "g" = some 4 := by
  intro functions d
  have hd : d.check = .ok () := rfl
  have hf : checkFunctions functions = .ok () := rfl
  obtain ⟨-, -, hchurn, -⟩ := changedLines?_eq_churnOf hd hf
  obtain ⟨churn, hresult, hget⟩ := hchurn (by decide)
  exact ⟨hd, hf, churn, hresult, hget "f", hget "g"⟩

/-- All line numbers together are more than can be counted. -/
theorem changedLines?_of_all_lines :
    let all : LineRange := ⟨-2 ^ 63, 2 ^ 63 - 1⟩
    let d : FileDiff := ⟨[], [all]⟩
    let functions : List FunctionRange := [⟨"f", all⟩]
    d.check = .ok () ∧ checkFunctions functions = .ok () ∧
      (changedLines? functions d).map (fun churn => churn.get? "f") = some (some (2 ^ 64 - 1)) ∧
      all.commonLines all = 2 ^ 64 := by
  intro all d functions
  refine ⟨rfl, rfl, by decide, ?_⟩
  rw [LineRange.commonLines_eq]
  rfl

end EffortRank
