import EffortRank.Churn.Attribution
import Mathlib.Algebra.BigOperators.Fin
import Mathlib.Data.Nat.Count
import Mathlib.Data.Set.Card

/-!
# Words as a sum over lines

A word of a line is a run of word characters that neither side can make longer; a scan counts each
where it starts (`Text.ncard_wordRuns`). The words of a range are those on the lines of the text
whose numbers lie in the range, wherever the range starts and ends. Main statement
(`unitCount_eq_sum_lines`): the sum over these lines, and how a range adds up from its parts.
-/

namespace EffortRank

namespace Text

/-! ## Words as runs -/

/-- The line has a word character at the place. -/
def wordCharAt (cs : Line) (i : Nat) : Bool := cs[i]?.any isWordChar

/-- The places from `start` up to before `stop` hold word characters, and the places around them
hold none: the run cannot be made longer. -/
structure IsWordRun (line : Line) (start stop : Nat) : Prop where
  nonempty : start < stop
  inside : ∀ i, start ≤ i → i < stop → wordCharAt line i = true
  before : ∀ i, i + 1 = start → wordCharAt line i = false
  behind : wordCharAt line stop = false

/-- The words of a line, each as the places where it starts and stops. -/
def wordRuns (line : Line) : Set (Nat × Nat) := {run | IsWordRun line run.1 run.2}

/-- A word starts at the place, where `inWord` tells whether the character before the line belongs
to a word. -/
def WordStartsAt (inWord : Bool) (line : Line) (i : Nat) : Prop :=
  wordCharAt line i = true ∧ (match i with | 0 => inWord | j + 1 => wordCharAt line j) = false

instance (inWord : Bool) (line : Line) : DecidablePred (WordStartsAt inWord line) :=
  fun i => by unfold WordStartsAt; infer_instance

theorem lt_length_of_wordCharAt {line : Line} {i : Nat} (h : wordCharAt line i = true) :
    i < line.length := by
  by_contra hle
  rw [wordCharAt, List.getElem?_eq_none (by omega)] at h
  cases h

theorem wordCharAt_length (line : Line) : wordCharAt line line.length = false := by
  rw [wordCharAt, List.getElem?_eq_none (Nat.le_refl _)]
  rfl

theorem wordStartsAt_cons_zero {inWord : Bool} {c : Char} {cs : Line} :
    WordStartsAt inWord (c :: cs) 0 ↔ isWordChar c = true ∧ inWord = false := Iff.rfl

theorem wordStartsAt_cons_succ {inWord : Bool} {c : Char} {cs : Line} {i : Nat} :
    WordStartsAt inWord (c :: cs) (i + 1) ↔ WordStartsAt (isWordChar c) cs i := by
  cases i <;> rfl

/-- The scan counts the places where words start. -/
theorem wordStarts_eq_count (inWord : Bool) (line : Line) :
    wordStarts inWord line = Nat.count (WordStartsAt inWord line) line.length := by
  induction line generalizing inWord with
  | nil => rfl
  | cons c cs ih =>
    simp only [List.length_cons, Nat.count_succ', wordStartsAt_cons_succ, wordStartsAt_cons_zero]
    rw [wordStarts]
    cases hword : isWordChar c with
    | true =>
      rw [if_pos rfl, ← ih true]
      cases inWord <;> simp [Nat.add_comm]
    | false => simp [← ih false]

/-- A word goes on up to a place of its own. -/
theorem IsWordRun.stop_unique {line : Line} {start stop stop' : Nat}
    (h : IsWordRun line start stop) (h' : IsWordRun line start stop') : stop = stop' := by
  have hle : ∀ {s t : Nat}, IsWordRun line start s → IsWordRun line start t → s ≤ t := by
    intro s t hs ht
    by_contra hlt
    have hinside := hs.inside t ht.nonempty.le (by omega)
    rw [ht.behind] at hinside
    cases hinside
  exact le_antisymm (hle h h') (hle h' h)

/-- Words start at the places where the scan counts them. -/
theorem exists_isWordRun_iff {line : Line} {start : Nat} :
    (∃ stop, IsWordRun line start stop) ↔ WordStartsAt false line start := by
  constructor
  · rintro ⟨stop, hrun⟩
    refine ⟨hrun.inside start (Nat.le_refl _) hrun.nonempty, ?_⟩
    cases start with
    | zero => rfl
    | succ i => exact hrun.before i rfl
  · rintro ⟨hchar, hbefore⟩
    -- the word stops at the first place behind its start without a word character
    have hstops : ∃ n, wordCharAt line (start + n) = false := by
      have hlt := lt_length_of_wordCharAt hchar
      refine ⟨line.length - start, ?_⟩
      rw [Nat.add_sub_cancel' hlt.le, wordCharAt_length]
    refine ⟨start + Nat.find hstops, ?_, fun i hle hlt => ?_, fun i hi => ?_, Nat.find_spec hstops⟩
    · have hpos : 0 < Nat.find hstops := by
        rw [Nat.find_pos, Nat.add_zero, hchar]
        decide
      omega
    · have hnot := Nat.find_min hstops (m := i - start) (by omega)
      rwa [Nat.add_sub_cancel' hle, Bool.not_eq_false] at hnot
    · subst hi
      exact hbefore

/-- **The scan counts the words of a line.** -/
theorem ncard_wordRuns (line : Line) : (wordRuns line).ncard = wordCount line := by
  have hstarts : Prod.fst '' wordRuns line =
      ((Finset.range line.length).filter (WordStartsAt false line) : Set Nat) := by
    ext start
    have hmem : start ∈ Prod.fst '' wordRuns line ↔ ∃ stop, IsWordRun line start stop := by
      constructor
      · rintro ⟨⟨_, stop⟩, hrun, rfl⟩
        exact ⟨stop, hrun⟩
      · rintro ⟨stop, hrun⟩
        exact ⟨(start, stop), hrun, rfl⟩
    rw [hmem, exists_isWordRun_iff, Finset.mem_coe, Finset.mem_filter, Finset.mem_range]
    exact ⟨fun h => ⟨lt_length_of_wordCharAt h.1, h⟩, And.right⟩
  have hinjective : Set.InjOn Prod.fst (wordRuns line) := by
    rintro ⟨start, stop⟩ hrun ⟨_, stop'⟩ hrun' rfl
    exact congrArg (Prod.mk start) (IsWordRun.stop_unique hrun hrun')
  rw [← hinjective.ncard_image, hstarts, Set.ncard_coe_finset,
    ← Nat.count_eq_card_filter_range, ← wordStarts_eq_count]
  rfl

end Text

open Text

/-! ## Lines in range -/

/-- What a part of a list adds up to, between two places that may be out of order or behind the end
of the list. -/
theorem sum_map_drop_take {α : Type} (f : α → Nat) (l : List α) (start stop : Nat) :
    (((l.take stop).drop start).map f).sum =
      ∑ i : Fin l.length with start ≤ i.val ∧ i.val < stop, f l[i] := by
  induction l generalizing start stop with
  | nil => simp
  | cons a l ih =>
    rw [Finset.sum_filter]
    refine Eq.trans ?_ (Fin.sum_univ_succ _).symm
    cases stop with
    | zero => simp
    | succ stop =>
      cases start with
      | zero =>
        have htail := ih 0 stop
        rw [Finset.sum_filter] at htail
        simpa using htail
      | succ start =>
        have htail := ih start stop
        rw [Finset.sum_filter] at htail
        simpa using htail

/-- **The units of a range are those of the lines with its numbers.** -/
theorem unitCount_eq_sum (text : List Line) (r : LineRange) :
    unitCount text r =
      ∑ i : Fin text.length with r.first ≤ i.val + 1 ∧ (i.val : Int) + 1 ≤ r.last,
        wordCount text[i] := by
  have hplaces : ∀ i : Fin text.length, (r.first.toNat - 1 ≤ i.val ∧ i.val < r.last.toNat) ↔
      (r.first ≤ i.val + 1 ∧ (i.val : Int) + 1 ≤ r.last) := by
    intro i
    omega
  rw [← Finset.filter_congr fun i _ => hplaces i, ← sum_map_drop_take]
  rfl

/-- **The units of a range are a sum over the lines in it.** For every text and every range, also
one that is empty, starts above the first line, or goes on behind the last one, they are the words
of the lines of the text whose numbers the range holds. A range that is cut in two has the units of
both parts. -/
theorem unitCount_eq_sum_lines (text : List Line) :
    (∀ r : LineRange, unitCount text r =
      ∑ i : Fin text.length with r.first ≤ i.val + 1 ∧ (i.val : Int) + 1 ≤ r.last,
        (wordRuns text[i]).ncard) ∧
    ∀ a b c : Int, a ≤ b + 1 → b ≤ c →
      unitCount text ⟨a, c⟩ = unitCount text ⟨a, b⟩ + unitCount text ⟨b + 1, c⟩ := by
  constructor
  · intro r
    simp only [ncard_wordRuns]
    exact unitCount_eq_sum text r
  · intro a b c hab hbc
    simp only [unitCount_eq_sum, Finset.sum_filter, ← Finset.sum_add_distrib]
    refine Finset.sum_congr rfl fun i _ => ?_
    -- a line of the whole range lies in just one of its parts
    by_cases hfirst : (i.val : Int) + 1 ≤ b
    · rw [if_neg (c := b + 1 ≤ _ ∧ _) (by omega), Nat.add_zero]
      exact if_congr (by omega) rfl rfl
    · rw [if_neg (c := a ≤ _ ∧ _ ≤ b) (by omega), Nat.zero_add]
      exact if_congr (by omega) rfl rfl

/-- A range that starts above the text and stops behind it, cut between its second line and the
third, which has no word. -/
theorem unitCount_eq_sum_lines_cut :
    let text : List Line := ["let x_1 = y;".toList, "(é, 2nd)".toList, "--".toList, "end".toList]
    (-3 : Int) ≤ 2 + 1 ∧ (2 : Int) ≤ 9 ∧ unitCount text ⟨-3, 2⟩ = 5 ∧ unitCount text ⟨3, 9⟩ = 1 ∧
      unitCount text ⟨-3, 9⟩ = 6 := by
  intro text
  have hfirst : unitCount text ⟨-3, 2⟩ = 5 := by decide +kernel
  have hrest : unitCount text ⟨3, 9⟩ = 1 := by decide +kernel
  refine ⟨by decide, by decide, hfirst, hrest, ?_⟩
  rw [(unitCount_eq_sum_lines text).2 (-3) 2 9 (by decide) (by decide), hfirst]
  exact congrArg (5 + ·) hrest

end EffortRank
