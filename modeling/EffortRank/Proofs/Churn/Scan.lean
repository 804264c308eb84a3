import EffortRank.Churn.Attribution
import EffortRank.Proofs.Diff.Order

/-!
# The scan finds every piece

`FileDiff.piecesIn` looks for the pieces of a change inside a range in every record of the change.
The scan looks at some records only: its cursor passes records for good. It passes those that lie
before the next range (`ScanCursor.Past`), so they hold no piece of that range or a later one, and
each visit finds what a look at every record finds (`ScanCursor.visit_eq`).
-/

namespace EffortRank

/-! ## Record by record -/

/-- The pieces inside a range that additions make, the first of which has index `i`. -/
def addedPieces (range : LineRange) (i : Nat) (as : List Addition) : List Contribution :=
  (as.zipIdx i).filterMap fun e =>
    if range.first ≤ e.1.position ∧ e.1.position < range.last ∧ 0 < e.1.length then
      some (.added e.2 e.1.lines)
    else none

def deletedPieces (range : LineRange) (ds : List LineRange) : List Contribution :=
  ds.filterMap fun s => (range.intersection? s).map .deleted

/-- The pieces of a change inside a range, looked for in each of its records. -/
def FileDiff.piecesIn (d : FileDiff) (range : LineRange) : List Contribution :=
  addedPieces range 0 d.additions ++ deletedPieces range d.deletions

theorem LineRange.intersection?_eq_none_iff {r s : LineRange} :
    r.intersection? s = none ↔ min r.last s.last < max r.first s.first := by
  unfold intersection?
  dsimp only
  split
  · rename_i hempty
    rw [isEmpty, decide_eq_true_eq] at hempty
    exact ⟨fun _ => hempty, fun _ => rfl⟩
  · rename_i hempty
    rw [isEmpty, decide_eq_true_eq] at hempty
    exact ⟨fun h => absurd h (Option.some_ne_none _), fun h => absurd h hempty⟩

section

variable {range : LineRange} {i j next : Nat} {a : Addition} {as bs : List Addition}
  {s : LineRange} {ds es : List LineRange}

theorem addedPieces_append :
    addedPieces range i (as ++ bs) =
      addedPieces range i as ++ addedPieces range (i + as.length) bs := by
  rw [addedPieces, List.zipIdx_append, List.filterMap_append]
  rfl

theorem addedPieces_cons :
    addedPieces range i (a :: as) =
      (if range.first ≤ a.position ∧ a.position < range.last ∧ 0 < a.length then
        [Contribution.added i a.lines] else []) ++ addedPieces range (i + 1) as := by
  rw [addedPieces, List.zipIdx_cons, List.filterMap_cons]
  dsimp only
  split
  · rename_i heq
    split at heq
    · cases heq
    · rename_i hnot
      rw [if_neg hnot]
      rfl
  · rename_i heq
    split at heq
    · rename_i hin
      cases heq
      rw [if_pos hin]
      rfl
    · cases heq

theorem addedPieces_eq_nil (h : ∀ a ∈ as, a.position < range.first ∨ range.last ≤ a.position) :
    addedPieces range i as = [] := by
  induction as generalizing i with
  | nil => rfl
  | cons a as ih =>
    have ha := h a List.mem_cons_self
    have hout : ¬ (range.first ≤ a.position ∧ a.position < range.last ∧ 0 < a.length) := by omega
    rw [addedPieces_cons, if_neg hout, ih fun b hb => h b (List.mem_cons_of_mem _ hb)]
    rfl

theorem deletedPieces_append :
    deletedPieces range (ds ++ es) = deletedPieces range ds ++ deletedPieces range es :=
  List.filterMap_append

theorem deletedPieces_eq_nil (h : ∀ s ∈ ds, s.last < range.first ∨ range.last < s.first) :
    deletedPieces range ds = [] := by
  rw [deletedPieces, List.filterMap_eq_nil_iff]
  intro s hs
  have hout := h s hs
  rw [Option.map_eq_none_iff, LineRange.intersection?_eq_none_iff]
  omega

/-! ## One visit -/

/-- The additions are looked at up to the last line of the range. -/
theorem scanAdditions_eq (h : as.Pairwise Addition.Precedes) :
    scanAdditions range i as =
      (addedPieces range i as, i + (as.takeWhile fun a => a.position < range.last).length) := by
  induction as generalizing i with
  | nil => rfl
  | cons a as ih =>
    rw [List.pairwise_cons] at h
    rw [scanAdditions]
    split
    · rename_i hlast
      have hbehind : ∀ b ∈ a :: as, b.position < range.first ∨ range.last ≤ b.position := by
        rw [List.forall_mem_cons]
        exact ⟨.inr hlast, fun b hb => .inr (Int.le_trans hlast (h.1 b hb))⟩
      rw [addedPieces_eq_nil hbehind, List.takeWhile_cons_of_neg (by simpa using hlast)]
      rfl
    · rename_i hlast
      rw [ih h.2, addedPieces_cons, List.takeWhile_cons_of_pos (by simpa using hlast),
        List.length_cons, Nat.add_right_comm, Nat.add_assoc]
      dsimp only
      have hlines : a.lines = 0 ↔ ¬ 0 < a.length := by
        rw [Addition.lines]
        omega
      by_cases hout : a.position < range.first ∨ a.lines = 0
      · rw [if_pos hout, if_neg (by omega)]
        rfl
      · rw [if_neg hout, if_pos (by omega)]
        rfl

theorem scanDeletions_fst (h : ds.Pairwise LineRange.Precedes) :
    (scanDeletions range next j ds).1 = deletedPieces range ds := by
  induction ds generalizing next j with
  | nil => rfl
  | cons s ds ih =>
    rw [List.pairwise_cons] at h
    rw [scanDeletions]
    split
    · rename_i hlast
      have hbehind : ∀ t ∈ s :: ds, t.last < range.first ∨ range.last < t.first := by
        rw [List.forall_mem_cons]
        exact ⟨.inr hlast, fun t ht => .inr (Int.lt_of_lt_of_le hlast (h.1 t ht).1)⟩
      rw [deletedPieces_eq_nil hbehind]
    · split
      · rename_i hfirst
        have hbefore : ∀ t ∈ [s], t.last < range.first ∨ range.last < t.first := by
          simpa using Or.inl hfirst
        rw [ih h.2, ← List.singleton_append, deletedPieces_append, deletedPieces_eq_nil hbefore]
        rfl
      · cases hshared : range.intersection? s with
        | none =>
          dsimp only
          rw [ih h.2, deletedPieces, deletedPieces, List.filterMap_cons, hshared]
          rfl
        | some shared =>
          dsimp only
          rw [ih h.2, deletedPieces, deletedPieces, List.filterMap_cons, hshared]
          rfl

end

/-! ## What the cursor passes -/

/-- The first `n` records of a list have the given property. -/
def Passed {α : Type} (n : Nat) (records : List α) (p : α → Prop) : Prop :=
  ∃ pre rest, records = pre ++ rest ∧ pre.length = n ∧ ∀ x ∈ pre, p x

/-- A record that the scan does not stop at comes behind records that end before the range does, so
the cursor may pass those. -/
theorem passed_scanDeletions {range : LineRange} {line : Int} (hfirst : range.first ≤ line)
    (hlast : range.last < line) {ds pre all : List LineRange} {next : Nat}
    (hall : all = pre ++ ds) (hsorted : all.Pairwise LineRange.Precedes)
    (hnext : Passed next all fun s => s.last < line) :
    Passed (scanDeletions range next pre.length ds).2 all fun s => s.last < line := by
  induction ds generalizing pre next with
  | nil => exact hnext
  | cons s ds ih =>
    have hall' : all = (pre ++ [s]) ++ ds := by rw [hall, List.append_assoc, List.singleton_append]
    have hlength : (pre ++ [s]).length = pre.length + 1 := by simp
    rw [scanDeletions]
    split
    · exact hnext
    · rename_i hreached
      -- What comes before a record that the range reaches ends before that record starts.
      have hpre : ∀ t ∈ pre, t.last < line := by
        intro t ht
        rw [hall, List.pairwise_append] at hsorted
        have hts := (hsorted.2.2 t ht s List.mem_cons_self).2
        omega
      split
      · rename_i hskip
        rw [← hlength]
        refine ih hall' ⟨pre ++ [s], ds, hall', rfl, ?_⟩
        rw [List.forall_mem_append]
        refine ⟨hpre, ?_⟩
        simp only [List.mem_singleton, forall_eq]
        omega
      · cases range.intersection? s with
        | none =>
          dsimp only
          rw [← hlength]
          exact ih hall' hnext
        | some shared =>
          dsimp only
          rw [← hlength]
          exact ih hall' ⟨pre, s :: ds, hall, rfl, hpre⟩

namespace ScanCursor

/-- The cursor has passed only records in front of the given line. -/
structure Past (c : ScanCursor) (d : FileDiff) (line : Int) : Prop where
  additions : Passed c.nextAddition d.additions fun a => a.position < line
  deletions : Passed c.nextDeletion d.deletions fun s => s.last < line

theorem past_start (d : FileDiff) (line : Int) : start.Past d line where
  additions := ⟨[], d.additions, rfl, rfl, by simp⟩
  deletions := ⟨[], d.deletions, rfl, rfl, by simp⟩

/-- **A visit finds every piece** of its range if the cursor has passed records in front of it only.
Then the cursor goes on to pass only records in front of all lines behind the range. -/
theorem visit_eq {c : ScanCursor} {d : FileDiff} {range : LineRange} (hd : d.check = .ok ())
    (hc : c.Past d range.first) :
    (c.visit range d).1 = d.piecesIn range ∧
      ∀ line, range.first ≤ line → range.last < line → (c.visit range d).2.Past d line := by
  obtain ⟨hadditions, hdeletions⟩ := FileDiff.check_eq_ok_iff.1 hd
  obtain ⟨preA, restA, hA, hlengthA, hpreA⟩ := hc.additions
  obtain ⟨preD, restD, hD, hlengthD, hpreD⟩ := hc.deletions
  have hsortedA := hadditions
  rw [hA, List.pairwise_append] at hsortedA
  have hsortedD := hdeletions
  rw [hD, List.pairwise_append] at hsortedD
  have hdropA : d.additions.drop c.nextAddition = restA := by
    rw [hA, ← hlengthA, List.drop_left]
  have hdropD : d.deletions.drop c.nextDeletion = restD := by
    rw [hD, ← hlengthD, List.drop_left]
  rw [visit, hdropA, hdropD, scanAdditions_eq hsortedA.2.1]
  dsimp only
  refine ⟨?_, fun line hfirst hlast => ⟨?_, ?_⟩⟩
  · have hpassedA := addedPieces_eq_nil (i := 0) fun a ha => Or.inl (hpreA a ha)
    have hpassedD := deletedPieces_eq_nil fun s hs => Or.inl (hpreD s hs)
    rw [FileDiff.piecesIn, hA, hD, addedPieces_append, deletedPieces_append, hpassedA, hpassedD,
      scanDeletions_fst hsortedD.2.1, Nat.zero_add, hlengthA]
    rfl
  · refine ⟨preA ++ restA.takeWhile fun a => a.position < range.last,
      restA.dropWhile fun a => a.position < range.last, ?_, ?_, ?_⟩
    · rw [hA, List.append_assoc, List.takeWhile_append_dropWhile]
    · rw [List.length_append, hlengthA]
    · rw [List.forall_mem_append]
      refine ⟨fun a ha => Int.lt_of_lt_of_le (hpreA a ha) hfirst, fun a ha => ?_⟩
      have hposition : a.position < range.last := by
        simpa using List.all_eq_true.1 List.all_takeWhile a ha
      omega
  · rw [← hlengthD]
    refine passed_scanDeletions hfirst hlast hD hdeletions ?_
    exact ⟨preD, restD, hD, rfl, fun s hs => Int.lt_of_lt_of_le (hpreD s hs) hfirst⟩

theorem visitAll_eq {c : ScanCursor} {d : FileDiff} {ranges : List LineRange}
    (hd : d.check = .ok ()) (hranges : ranges.Pairwise LineRange.Precedes)
    (hc : ∀ r ∈ ranges, c.Past d r.first) :
    (c.visitAll d ranges).map (·.1) = ranges.map d.piecesIn := by
  induction ranges generalizing c with
  | nil => rfl
  | cons r rs ih =>
    rw [List.pairwise_cons] at hranges
    obtain ⟨hfound, hpast⟩ := visit_eq hd (hc r List.mem_cons_self)
    have hrest := ih hranges.2 fun s hs => hpast s.first (hranges.1 s hs).1 (hranges.1 s hs).2
    rw [visitAll, List.map_cons, List.map_cons, hfound, hrest]

end ScanCursor

/-! ## Changes out of order -/

section

variable {range : LineRange}

theorem scanAdditions_sublist (i : Nat) (as : List Addition) :
    (scanAdditions range i as).1.Sublist (addedPieces range i as) := by
  induction as generalizing i with
  | nil => exact .refl _
  | cons a as ih =>
    rw [scanAdditions, addedPieces_cons]
    split
    · exact List.nil_sublist _
    · rename_i hlast
      dsimp only
      split
      · exact (ih (i + 1)).trans (List.sublist_append_right _ _)
      · rename_i hin
        rw [Addition.lines] at hin
        rw [if_pos (by omega)]
        exact (ih (i + 1)).cons_cons _

theorem scanDeletions_sublist (next j : Nat) (ds : List LineRange) :
    (scanDeletions range next j ds).1.Sublist (deletedPieces range ds) := by
  induction ds generalizing next j with
  | nil => exact .refl _
  | cons s ds ih =>
    have hrest : (deletedPieces range ds).Sublist (deletedPieces range (s :: ds)) :=
      (List.sublist_cons_self s ds).filterMap _
    rw [scanDeletions]
    split
    · exact List.nil_sublist _
    · split
      · exact (ih _ _).trans hrest
      · cases hshared : range.intersection? s with
        | none => exact (ih _ _).trans hrest
        | some shared =>
          rw [deletedPieces, List.filterMap_cons, hshared]
          exact (ih _ _).cons_cons _

theorem addedPieces_drop_sublist (n : Nat) (as : List Addition) :
    (addedPieces range n (as.drop n)).Sublist (addedPieces range 0 as) := by
  by_cases hn : n ≤ as.length
  · have hsplit : addedPieces range 0 as = addedPieces range 0 (as.take n ++ as.drop n) := by
      rw [List.take_append_drop]
    rw [hsplit, addedPieces_append, Nat.zero_add, List.length_take_of_le hn]
    exact List.sublist_append_right _ _
  · rw [List.drop_of_length_le (by omega)]
    exact List.nil_sublist _

/-- Whatever the order of the records, and wherever the cursor stands, a visit finds pieces of its
range only, each once. -/
theorem ScanCursor.visit_sublist (c : ScanCursor) (d : FileDiff) :
    (c.visit range d).1.Sublist (d.piecesIn range) := by
  apply List.Sublist.append
  · exact (scanAdditions_sublist _ _).trans (addedPieces_drop_sublist _ _)
  · exact (scanDeletions_sublist _ _ _).trans ((List.drop_sublist _ _).filterMap _)

end

end EffortRank
