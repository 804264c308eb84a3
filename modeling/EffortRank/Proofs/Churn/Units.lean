import EffortRank.Churn.Attribution
import EffortRank.Proofs.Churn.ChangedLines
import EffortRank.Proofs.Diff.Order
import EffortRank.Proofs.Text.Lines

/-!
# Words on lines

The words of a line are the runs of word characters on it (`Text.length_words`). The text of a range
is that of its lines (`linesIn_eq_linesAt`), so the words of a range are those on its lines, and
ranges in order have no word of a text twice (`sum_unitCount_le`).
-/

namespace EffortRank

open Text

/-! ## Words of a text -/

/-- The words of a line: the runs of word characters between other ones. -/
def Text.words (line : Line) : List (List Char) :=
  (line.splitOnP fun c => !isWordChar c).filter fun run => !run.isEmpty

/-- A word is counted where it starts. -/
theorem Text.length_words (line : Line) : (words line).length = wordCount line := by
  let runs (cs : List Char) := cs.splitOnP fun c => !isWordChar c
  have hstarts : ∀ cs : List Char,
      wordStarts true cs = ((runs cs).tail.filter fun run => !run.isEmpty).length ∧
        wordStarts false cs = ((runs cs).filter fun run => !run.isEmpty).length := by
    intro cs
    induction cs with
    | nil => exact ⟨rfl, rfl⟩
    | cons c cs ih =>
      obtain ⟨hin, hout⟩ := ih
      obtain ⟨first, rest, hruns⟩ := List.exists_cons_of_ne_nil
        (List.splitOnP_ne_nil (fun c => !isWordChar c) cs)
      simp only [runs] at hin hout ⊢
      rw [hruns] at hin hout
      rw [wordStarts, wordStarts, List.splitOnP_cons_eq_if_modifyHead, hruns]
      cases hword : isWordChar c with
      | true => simp [hin]; omega
      | false => simp [hout]
  exact (hstarts line).2.symm

theorem Text.wordCount_le (line : Line) : wordCount line ≤ line.length := by
  have hstarts : ∀ (cs : List Char) (inWord : Bool), wordStarts inWord cs ≤ cs.length := by
    intro cs
    induction cs with
    | nil => exact fun _ => Nat.le_refl 0
    | cons c cs ih =>
      intro inWord
      have hin := ih true
      have hout := ih false
      rw [wordStarts, List.length_cons]
      split
      · split <;> omega
      · omega
  exact hstarts line false

/-- The lines of a text have no more characters than the text. -/
theorem Text.sum_length_lines_le (text : List Char) :
    ((lines text).map List.length).sum ≤ text.length := by
  have hcons : ∀ (c : Char) (ls : List Line),
      ((consLine c ls).map List.length).sum = (ls.map List.length).sum + 1 := by
    intro c ls
    cases ls with
    | nil => rfl
    | cons line rest =>
      rw [consLine, List.map_cons, List.map_cons, List.sum_cons, List.sum_cons, List.length_cons]
      omega
  fun_induction lines text with
  | case1 => exact Nat.le_refl 0
  | case2 cs ih =>
    rw [List.map_cons, List.sum_cons, List.length_cons, List.length_nil]
    omega
  | case3 cs ih =>
    rw [List.map_cons, List.sum_cons, List.length_cons, List.length_cons, List.length_nil]
    omega
  | case4 c cs hfeed hreturn ih =>
    rw [hcons, List.length_cons]
    omega

/-- The number of words on some lines. -/
def wordsOf (text : List Line) : Nat := (text.map wordCount).sum

theorem wordsOf_eq_length (text : List Line) : wordsOf text = (text.flatMap words).length := by
  rw [List.length_flatMap]
  simp only [length_words]
  rfl

theorem wordsOf_flatMap {α : Type} (f : α → List Line) (as : List α) :
    wordsOf (as.flatMap f) = (as.map fun a => wordsOf (f a)).sum := by
  simp only [wordsOf_eq_length, List.flatMap_assoc, List.length_flatMap]

theorem wordsOf_lines_le (text : List Char) : wordsOf (lines text) ≤ text.length :=
  (List.sum_le_sum fun line _ => wordCount_le line).trans (sum_length_lines_le text)

/-! ## Words of numbered lines -/

/-- The line with a number; numbers outside the text have none. -/
def lineAt? (text : List Line) (line : Int) : Option Line :=
  if 0 < line then text[(line - 1).toNat]? else none

/-- The lines with the given numbers. -/
def linesAt (text : List Line) (ls : List Int) : List Line := ls.filterMap (lineAt? text)

/-- **Line by line**: the text of a range is that of its lines. -/
theorem linesIn_eq_linesAt (text : List Line) (r : LineRange) :
    linesIn text r = linesAt text r.lines := by
  induction r using LineRange.line_induction with
  | empty r hempty =>
    rw [LineRange.lines_of_lt hempty, linesIn, List.drop_eq_nil_of_le]
    · rfl
    · rw [List.length_take]
      omega
  | next first last hle ih =>
    rw [LineRange.lines_succ hle, linesAt, List.filterMap_append, ← linesAt, ← ih]
    by_cases hpos : 0 < last + 1
    · have hnext : (last + 1).toNat = last.toNat + 1 := by omega
      have hline : (last + 1 - 1).toNat = last.toNat := by omega
      have hat : [last + 1].filterMap (lineAt? text) = text[last.toNat]?.toList := by
        rw [List.filterMap_cons, lineAt?, if_pos hpos, hline]
        cases text[last.toNat]? <;> rfl
      rw [hat, linesIn, linesIn, hnext, List.take_add_one]
      cases htext : text[last.toNat]? with
      | none => rw [Option.toList_none, List.append_nil, List.append_nil]
      | some line =>
        have hlast : last.toNat < text.length := (List.getElem?_eq_some_iff.1 htext).1
        refine List.drop_append_of_le_length ?_
        rw [List.length_take]
        dsimp only
        omega
    · have hzero : (last + 1).toNat = 0 := by omega
      have hzero' : last.toNat = 0 := by omega
      have hat : [last + 1].filterMap (lineAt? text) = [] := by
        rw [List.filterMap_cons, lineAt?, if_neg hpos]
        rfl
      rw [hat, linesIn, linesIn, hzero, hzero', List.append_nil]

/-- The words on numbered lines are those on each. -/
theorem wordsOf_linesAt (text : List Line) (ls : List Int) :
    wordsOf (linesAt text ls) =
      (ls.map fun line => ((lineAt? text line).map wordCount).getD 0).sum :=
  sum_map_filterMap (lineAt? text) wordCount ls

theorem unitCount_eq (text : List Line) (r : LineRange) :
    unitCount text r = wordsOf (linesAt text r.lines) := by
  rw [← linesIn_eq_linesAt]
  rfl

/-- The words on the lines that a range shares with others. -/
theorem sum_unitCount_intersections (text : List Line) (r : LineRange) (ds : List LineRange) :
    ((ds.filterMap r.intersection?).map (unitCount text)).sum =
      wordsOf (linesAt text ((ds.flatMap LineRange.lines).filter r.contains)) := by
  induction ds with
  | nil => rfl
  | cons s ds ih =>
    have hshared : ((r.intersection? s).map (unitCount text)).getD 0 =
        wordsOf (linesAt text (s.lines.filter r.contains)) := by
      rw [LineRange.filter_lines]
      cases hshared : r.intersection? s with
      | none =>
        rw [LineRange.intersection?_eq_none_iff] at hshared
        rw [LineRange.lines_of_lt hshared]
        rfl
      | some t =>
        rw [LineRange.intersection?] at hshared
        split at hshared
        · cases hshared
        · cases hshared
          exact unitCount_eq text _
    rw [List.flatMap_cons, List.filter_append, wordsOf_linesAt, List.map_append, List.sum_append,
      ← wordsOf_linesAt, ← wordsOf_linesAt, ← hshared, ← ih, sum_map_filterMap, sum_map_filterMap,
      List.map_cons, List.sum_cons]

/-! ## Ranges in order -/

theorem wordsOf_drop_le {m n : Nat} (h : m ≤ n) (text : List Line) :
    wordsOf (text.drop n) ≤ wordsOf (text.drop m) := by
  have hsublist : (text.drop n).Sublist (text.drop m) := List.drop_sublist_drop_left text h
  exact (hsublist.map wordCount).sum_le_sum fun _ _ => Nat.zero_le _

/-- The words of a range, and those behind it, are words from the first line of the range on. -/
theorem unitCount_add_le (text : List Line) (r : LineRange) :
    unitCount text r + wordsOf (text.drop (max (r.first.toNat - 1) r.last.toNat)) ≤
      wordsOf (text.drop (r.first.toNat - 1)) := by
  rw [unitCount_eq, ← linesIn_eq_linesAt, linesIn, List.drop_take]
  generalize r.first.toNat - 1 = m
  by_cases hempty : r.last.toNat ≤ m
  · rw [Nat.sub_eq_zero_of_le hempty, List.take_zero, Nat.max_eq_left hempty]
    exact Nat.le_of_eq (Nat.zero_add _)
  · have hsplit : r.last.toNat = m + (r.last.toNat - m) := by omega
    rw [Nat.max_eq_right (by omega)]
    generalize r.last.toNat - m = n at hsplit ⊢
    rw [hsplit, ← List.drop_drop, wordsOf, wordsOf, wordsOf, ← List.sum_append, ← List.map_append,
      List.take_append_drop]

/-- Ranges in order that start at a line or behind it hold words from there on, each once. -/
theorem sum_unitCount_le_behind {ranges : List LineRange}
    (h : ranges.Pairwise LineRange.Precedes) (text : List Line) {n : Nat}
    (hn : ∀ r ∈ ranges, n ≤ r.first.toNat - 1) :
    (ranges.map (unitCount text)).sum ≤ wordsOf (text.drop n) := by
  induction ranges generalizing n with
  | nil => exact Nat.zero_le _
  | cons r rs ih =>
    rw [List.pairwise_cons] at h
    rw [List.forall_mem_cons] at hn
    have hbehind : ∀ s ∈ rs, max (r.first.toNat - 1) r.last.toNat ≤ s.first.toNat - 1 := by
      intro s hs
      obtain ⟨hfirst, hlast⟩ := h.1 s hs
      omega
    have hrest := ih h.2 hbehind
    have hfirst := unitCount_add_le text r
    have hfrom := wordsOf_drop_le hn.1 text
    rw [List.map_cons, List.sum_cons]
    omega

/-- **Ranges in order share no word.** -/
theorem sum_unitCount_le {ranges : List LineRange} (h : ranges.Pairwise LineRange.Precedes)
    (text : List Line) : (ranges.map (unitCount text)).sum ≤ wordsOf text :=
  sum_unitCount_le_behind h text fun _ _ => Nat.zero_le _

end EffortRank
