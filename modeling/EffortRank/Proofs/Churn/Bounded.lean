import EffortRank.Proofs.Churn.Agreement
import EffortRank.Proofs.Churn.Words
import EffortRank.Proofs.Diff.Conservation

/-!
# Counts that one pass cannot outgrow

One pass counts no line and no word twice. So none of its counts is larger than the number of lines
of the change, or the number of words of the blocks that its additions became and of the old version
(`within_changedStats`). If these fit, the pass has a result (`changedStats?_of_within`).
-/

namespace EffortRank

open Text

namespace ChangeStats

/-- None of the counts is larger than `n`. -/
structure Within (n : Nat) (s : ChangeStats) : Prop where
  adds : s.adds ≤ n
  dels : s.dels ≤ n
  addedUnits : s.addedUnits.getD 0 ≤ n
  removedUnits : s.removedUnits.getD 0 ≤ n

namespace Within

variable {m n : Nat} {s t : ChangeStats}

theorem mono (h : s.Within m) (hle : m ≤ n) : s.Within n :=
  ⟨h.adds.trans hle, h.dels.trans hle, h.addedUnits.trans hle, h.removedUnits.trans hle⟩

theorem swap (h : s.Within n) : s.swap.Within n :=
  ⟨h.dels, h.adds, h.removedUnits, h.addedUnits⟩

theorem merge (hs : s.Within m) (ht : t.Within n) : (s.merge t).Within (m + n) where
  adds := Nat.add_le_add hs.adds ht.adds
  dels := Nat.add_le_add hs.dels ht.dels
  addedUnits := by
    rw [ChangeStats.merge, addMeasured_getD]
    exact Nat.add_le_add hs.addedUnits ht.addedUnits
  removedUnits := by
    rw [ChangeStats.merge, addMeasured_getD]
    exact Nat.add_le_add hs.removedUnits ht.removedUnits

theorem fits (h : s.Within n) (hn : n ≤ maxCount) : s.fits = true := by
  have hunits : ∀ units : Option Nat, units.getD 0 ≤ n → units.all countFits = true := by
    intro units hle
    cases units with
    | none => rfl
    | some u => exact decide_eq_true (Nat.le_trans hle hn)
  rw [ChangeStats.fits, hunits _ h.addedUnits, hunits _ h.removedUnits, Bool.and_true,
    Bool.and_true, Bool.and_eq_true]
  exact ⟨decide_eq_true (h.adds.trans hn), decide_eq_true (h.dels.trans hn)⟩

end Within

end ChangeStats

section

variable {functions : List FunctionRange} {d : FileDiff} {sources : Option SourceTexts} {n : Nat}

/-- **What a pass counts for a function** is bounded by the lines of the change and by the words of
its blocks and of the old version. -/
theorem within_changedStats (hf : checkFunctions functions = .ok ())
    (hd : d.deletions.Pairwise LineRange.Precedes) (hadded : d.addedLines ≤ n)
    (hremoved : d.removedLines ≤ n)
    (hwords : ∀ s ∈ sources, wordsOf (lines s.old.toList) ≤ n ∧
      (d.inverse.deletions.map (unitCount (lines s.new.toList))).sum ≤ n) :
    ∀ e ∈ (changedStats functions d sources).entries, e.2.Within n := by
  have hall := checkFunctions_eq_ok_iff.1 (checkFunctions_filter hf fun _ => True)
  -- Of all names together, the pass counts no more than `n` of anything.
  have hentry : ∀ φ : ChangeStats → Nat,
      ((changedStats functions d sources).sumOf fun _ s => if True then φ s else 0) ≤ n →
        ∀ e ∈ (changedStats functions d sources).entries, φ e.2 ≤ n := by
    intro φ hφ e he
    simp only [if_true] at hφ
    exact (NameMap.le_sumOf (fun _ s => φ s) he).trans hφ
  have hadds := hentry ChangeStats.adds <| (sum_adds_changedStats_le _ hf d sources).trans <|
    (List.sum_le_sum fun a _ => addedShare_le _ a).trans hadded
  have hdels := hentry ChangeStats.dels <|
    (sum_dels_changedStats_le _ functions d sources).trans <|
      (List.sum_le_sum fun s _ => heldLines_le hall s).trans hremoved
  cases sources with
  | none =>
    intro e he
    obtain ⟨hadded, hremoved⟩ := isSome_units_changedStats functions d none e he
    rw [Option.isSome_none, Option.isSome_eq_false_iff, Option.isNone_iff_eq_none]
      at hadded hremoved
    refine ⟨hadds e he, hdels e he, ?_, ?_⟩
    · rw [hadded]
      exact Nat.zero_le n
    · rw [hremoved]
      exact Nat.zero_le n
  | some s =>
    obtain ⟨hold, hnew⟩ := hwords s rfl
    have hadded := hentry (fun s => s.addedUnits.getD 0) <|
      (sum_addedUnits_changedStats_le _ hf d s).trans hnew
    have hremoved := hentry (fun s => s.removedUnits.getD 0) <|
      (sum_removedUnits_changedStats_le _ hf hd s).trans hold
    exact fun e he => ⟨hadds e he, hdels e he, hadded e he, hremoved e he⟩

/-- Blocks in order, and the old version, have no more words than the texts have characters. -/
theorem words_le_of_size (hblocks : d.inverse.deletions.Pairwise LineRange.Precedes)
    {s : SourceTexts} (hold : s.old.toList.length ≤ n) (hnew : s.new.toList.length ≤ n) :
    wordsOf (lines s.old.toList) ≤ n ∧
      (d.inverse.deletions.map (unitCount (lines s.new.toList))).sum ≤ n :=
  ⟨(wordsOf_lines_le _).trans hold,
    (sum_unitCount_le hblocks _).trans ((wordsOf_lines_le _).trans hnew)⟩

theorem changedStats?_of_within (hfits : sources.isSome = true → d.inverseFits = true)
    (hn : n ≤ maxCount) (h : ∀ e ∈ (changedStats functions d sources).entries, e.2.Within n) :
    changedStats? functions d sources = some (changedStats functions d sources) := by
  refine changedStats?_eq_some_iff.2 ⟨rfl, hfits, ?_⟩
  rw [NameMap.values, List.forall_mem_map]
  exact fun e he => (h e he).fits hn

end

end EffortRank
