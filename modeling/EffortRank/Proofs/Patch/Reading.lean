import EffortRank.Patch.Body
import EffortRank.Proofs.Patch.Runs
import EffortRank.Proofs.Text.Lines

/-!
# Reading well formed diffs

Main statement (`readPatch?_eq_change`): the reader finds in a well formed unified diff just the
change that it describes, and that change is in order.

The walk over a body is followed by its script. `PatchWalk.within p m n ms` is the walk whose run
started behind the old line `p` and consists of `n` lines with the mark `m` so far, in front of
lines with the marks `ms`. Each line moves it on by its mark (`step_within`), and at the end of the
body the records that it has emitted are those of the maximal runs (`reads_body`).
-/

namespace EffortRank

open Text

theorem isHeaderLine_eq_false {line : Line} (h : ¬ LooksLikeHeader line) :
    PatchWalk.isHeaderLine line = false := by
  unfold PatchWalk.isHeaderLine
  split
  · exact absurd ⟨_, rfl⟩ h
  · rfl

namespace PatchWalk

/-! ## Stretches of the walk -/

/-- Reading lines takes the walk `w` to `v` and emits a change; all line numbers on the way fit. -/
inductive Reads : PatchWalk → List Line → FileDiff → PatchWalk → Prop where
  | done (w : PatchWalk) : Reads w [] .empty w
  | step {w u v : PatchWalk} {line : Line} {ls : List Line} {d e : FileDiff} :
      lineFits w.cursor = true → w.step line = (d, u) → Reads u ls e v →
      Reads w (line :: ls) (d ++ e) v

namespace Reads

variable {w u v : PatchWalk} {ls ls' : List Line} {d e : FileDiff}

theorem append (h : Reads w ls d u) (h' : Reads u ls' e v) : Reads w (ls ++ ls') (d ++ e) v := by
  induction h with
  | done w => exact h'
  | step hfits hstep _ ih =>
    rw [FileDiff.append_assoc]
    exact .step hfits hstep (ih h')

theorem collect_eq (h : Reads w ls d v) : w.collect ls = d ++ v.closed := by
  induction h with
  | done w => rfl
  | step _ hstep _ ih => simp only [collect, hstep, ih, FileDiff.append_assoc]

theorem fits_eq (h : Reads w ls d v) (hv : lineFits v.cursor = true) : w.fits ls = true := by
  induction h with
  | done w => exact hv
  | step hfits hstep _ ih => simp only [fits, hfits, hstep, ih hv, Bool.and_self]

end Reads

def outside (cursor : Int) : PatchWalk := ⟨.none, cursor, 0, 0⟩

theorem reads_outside {cursor : Int} {ls : List Line} (hfits : lineFits cursor = true)
    (hls : ∀ line ∈ ls, ¬ LooksLikeHeader line) :
    Reads (outside cursor) ls .empty (outside cursor) := by
  induction ls with
  | nil => exact .done _
  | cons line ls ih =>
    have hline := isHeaderLine_eq_false (hls line List.mem_cons_self)
    have hstep : (outside cursor).step line = (FileDiff.empty, outside cursor) := by
      simp [step, hline, outside, inHunk]
    have hrest := ih fun line hline => hls line (List.mem_cons_of_mem _ hline)
    simpa using Reads.step hfits hstep hrest

/-! ## Inside a hunk -/

/-- The run of `n` lines with the mark `m` behind the old line `p`. -/
def runOf (p : Int) (m : Mark) (n : Nat) : ChangeRun :=
  match m with
  | .keep => .none
  | .delete => .deleting (p + 1)
  | .add => .adding p n

/-- In a run of `n` lines with the mark `m` behind the old line `p`, in front of lines with the
marks `ms`. -/
def within (p : Int) (m : Mark) (n : Nat) (ms : List Mark) : PatchWalk where
  run := runOf p m n
  cursor := p + oldCount (List.replicate n m) + 1
  oldLeft := oldCount ms
  newLeft := newCount ms

theorem inHunk_within (p : Int) (m : Mark) (n : Nat) (x : Mark) (ms : List Mark) :
    (within p m n (x :: ms)).inHunk = true := by
  have hpos := oldCount_pos_or_newCount_pos x ms
  rw [inHunk, Bool.or_eq_true, decide_eq_true_eq, decide_eq_true_eq]
  dsimp only [within]
  omega

theorem inHunk_within_nil (p : Int) (m : Mark) (n : Nat) : (within p m n []).inHunk = false := rfl

theorem idle_within_nil (p : Int) (m : Mark) (n : Nat) :
    (within p m n []).idle = outside (p + oldCount (List.replicate n m) + 1) := rfl

theorem closed_within {p : Int} {m : Mark} {n : Nat} (hn : n ≠ 0 ∨ m = .keep) (ms : List Mark) :
    (within p m n ms).closed = recordOf p (List.replicate n m) := by
  cases n with
  | zero =>
    obtain rfl : m = .keep := by simpa using hn
    rfl
  | succ n =>
    cases m with
    | keep => rfl
    | delete =>
      have hlast : p + oldCount (List.replicate (n + 1) Mark.delete) + 1 - 1 =
          p + (n + 1 : Nat) := by
        rw [oldCount_replicate, if_neg (by decide)]
        omega
      rw [List.replicate_succ, recordOf, ← List.replicate_succ, List.length_replicate, ← hlast]
      rfl
    | add =>
      rw [List.replicate_succ, recordOf, ← List.replicate_succ, List.length_replicate]
      rfl

theorem takeLine_eq {x : Mark} {line : Line} (hline : x.Marks line) (w : PatchWalk) :
    w.takeLine line =
      match x with
      | .keep => w.keep
      | .delete => w.delete
      | .add => w.add := by
  cases x with
  | keep =>
    unfold takeLine
    split
    · exact absurd rfl (hline.2 _ rfl).1
    · exact absurd rfl (hline.2 _ rfl).2.1
    · exact absurd rfl (hline.2 _ rfl).2.2
    · rfl
  | delete =>
    obtain ⟨rest, rfl⟩ := List.head?_eq_some_iff.1 hline
    rfl
  | add =>
    obtain ⟨rest, rfl⟩ := List.head?_eq_some_iff.1 hline
    rfl

theorem takeLine_within_same {p : Int} {m : Mark} {n : Nat} {ms : List Mark} {line : Line}
    (hline : m.Marks line) :
    (within p m n (m :: ms)).takeLine line = (FileDiff.empty, within p m (n + 1) ms) := by
  rw [takeLine_eq hline]
  cases m with
  | keep =>
    simp [keep, closed, within, runOf, oldCount_replicate, oldCount_cons, newCount_cons]
    omega
  | delete =>
    simp [delete, within, runOf, oldCount_replicate, oldCount_cons, newCount_cons]
    omega
  | add => simp [add, within, runOf, oldCount_replicate, oldCount_cons, newCount_cons]

/-- A line with another mark ends the run and starts one. -/
theorem takeLine_within_other {p : Int} {m x : Mark} {n : Nat} (hn : n ≠ 0 ∨ m = .keep)
    (hx : x ≠ m) {ms : List Mark} {line : Line} (hline : x.Marks line) :
    (within p m n (x :: ms)).takeLine line =
      (recordOf p (List.replicate n m),
        within (p + oldCount (List.replicate n m)) x 1 ms) := by
  rw [takeLine_eq hline, ← closed_within hn (x :: ms)]
  cases x with
  | keep => simp [keep, within, runOf, oldCount_replicate, oldCount_cons, newCount_cons]
  | delete =>
    cases m with
    | delete => exact absurd rfl hx
    | keep => simp [delete, within, runOf, oldCount_replicate, oldCount_cons, newCount_cons]
    | add => simp [delete, within, runOf, oldCount_replicate, oldCount_cons, newCount_cons]
  | add =>
    cases m with
    | add => exact absurd rfl hx
    | keep => simp [add, within, runOf, oldCount_replicate, oldCount_cons, newCount_cons]
    | delete => simp [add, within, runOf, oldCount_replicate, oldCount_cons, newCount_cons]

/-- A line of the body comes to stand in a run; the record of a run that it ends, and the records of
the runs from there on, are those of the runs before it was taken. -/
theorem takeLine_within {p : Int} {m x : Mark} {n : Nat} (hn : n ≠ 0 ∨ m = .keep) {ms : List Mark}
    {line : Line} (hline : x.Marks line) :
    ∃ d p' m' n', (within p m n (x :: ms)).takeLine line = (d, within p' m' n' ms) ∧ n' ≠ 0 ∧
      p ≤ p' ∧
      p' + oldCount (List.replicate n' m' ++ ms) = p + oldCount (List.replicate n m ++ x :: ms) ∧
      d ++ changeOfRuns p' ((List.replicate n' m' ++ ms).splitBy (· == ·)) =
        changeOfRuns p ((List.replicate n m ++ x :: ms).splitBy (· == ·)) := by
  by_cases hx : x = m
  · subst hx
    have hrun : List.replicate (n + 1) x ++ ms = List.replicate n x ++ x :: ms := by
      rw [List.replicate_succ', List.append_assoc, List.singleton_append]
    refine ⟨.empty, p, x, n + 1, takeLine_within_same hline, by omega, Int.le_refl p, ?_, ?_⟩
    · rw [hrun]
    · rw [hrun, FileDiff.empty_append]
  · refine ⟨_, _, x, 1, takeLine_within_other hn hx hline, by omega, by omega, ?_, ?_⟩
    · have hone : oldCount (List.replicate 1 x) = if x = .add then 0 else 1 :=
        oldCount_replicate 1 x
      rw [oldCount_append, oldCount_append, oldCount_cons, hone]
      omega
    · have hhead : (x :: ms).head? ≠ some m := by simpa using hx
      rw [changeOfRuns_replicate p m n hhead]
      rfl

/-- A line of the body moves the walk on; the last one takes it out of the hunk. -/
theorem step_within {w next : PatchWalk} {line : Line} {d : FileDiff} (hw : w.inHunk = true)
    (hline : ¬ LooksLikeHeader line) (htake : w.takeLine line = (d, next)) :
    w.step line = if next.inHunk then (d, next) else (d ++ next.closed, next.idle) := by
  rw [step, isHeaderLine_eq_false hline, if_neg Bool.false_ne_true, if_pos hw, htake]

theorem not_looksLikeHeader_of_marker {marker : Line} (h : marker.head? = some '\\') :
    ¬ LooksLikeHeader marker := by
  obtain ⟨rest, rfl⟩ := List.head?_eq_some_iff.1 h
  simp [LooksLikeHeader]

theorem reads_markers {w : PatchWalk} (hfits : lineFits w.cursor = true) (hw : w.inHunk = true)
    {markers : List Line} (hmarkers : ∀ marker ∈ markers, marker.head? = some '\\') :
    Reads w markers .empty w := by
  induction markers with
  | nil => exact .done w
  | cons marker markers ih =>
    have hmarker := hmarkers marker List.mem_cons_self
    have htake : w.takeLine marker = (FileDiff.empty, w) := by
      obtain ⟨rest, rfl⟩ := List.head?_eq_some_iff.1 hmarker
      rfl
    have hstep : w.step marker = (FileDiff.empty, w) := by
      rw [step_within hw (not_looksLikeHeader_of_marker hmarker) htake, if_pos hw]
    have hrest := ih fun marker hmarker => hmarkers marker (List.mem_cons_of_mem _ hmarker)
    simpa using Reads.step hfits hstep hrest

theorem lineFits_within {p : Int} {m : Mark} {n : Nat} {ms : List Mark} (hp : 0 ≤ p)
    (hfits : p + oldCount (List.replicate n m ++ ms) + 1 ≤ maxLineNumber) :
    lineFits (within p m n ms).cursor = true := by
  rw [oldCount_append] at hfits
  refine lineFits_of_nonneg ?_ ?_
  · dsimp only [within]
    omega
  · dsimp only [within]
    omega

/-- The body of a hunk is read run by run, and the walk leaves the hunk with its last line. -/
theorem reads_body {body : List BodyLine} (hne : body ≠ []) (hbody : ∀ b ∈ body, b.WellFormed)
    {p : Int} {m : Mark} {n : Nat} (hn : n ≠ 0 ∨ m = .keep) (hp : 0 ≤ p)
    (hfits : p + oldCount (List.replicate n m ++ body.map BodyLine.mark) + 1 ≤ maxLineNumber) :
    Reads (within p m n (body.map BodyLine.mark)) (body.flatMap fun b => b.line :: b.markers)
      (changeOfRuns p ((List.replicate n m ++ body.map BodyLine.mark).splitBy (· == ·)))
      (outside (p + oldCount (List.replicate n m ++ body.map BodyLine.mark) + 1)) := by
  -- The next line may go on with the run of the walk, so the run is not fixed.
  induction body generalizing p m n with
  | nil => exact absurd rfl hne
  | cons b body ih =>
    obtain ⟨hmarks, hmarkers⟩ := hbody b List.mem_cons_self
    rw [List.map_cons] at hfits ⊢
    obtain ⟨d, p', m', n', htake, hn', hp', hcount, hchange⟩ :=
      takeLine_within (p := p) hn hmarks
    have hstep := step_within (inHunk_within p m n b.mark _) hmarks.not_looksLikeHeader htake
    have hcursor := lineFits_within hp hfits
    rw [← hcount] at hfits ⊢
    rw [← hchange, List.flatMap_cons, List.cons_append]
    cases body with
    | nil =>
      -- Behind the last line of the body, markers are lines outside of any hunk.
      rw [List.map_nil, List.append_nil] at hfits
      have hout : lineFits (p' + oldCount (List.replicate n' m') + 1) = true :=
        lineFits_of_nonneg (by omega) hfits
      rw [List.map_nil, inHunk_within_nil, if_neg Bool.false_ne_true, closed_within (.inl hn'),
        idle_within_nil] at hstep
      rw [List.map_nil, changeOfRuns_of_replicate, List.append_nil, List.flatMap_nil,
        List.append_nil, ← FileDiff.append_empty (d ++ recordOf _ _)]
      exact .step hcursor hstep (reads_outside hout fun marker hmarker =>
        not_looksLikeHeader_of_marker (hmarkers marker hmarker))
    | cons b' body =>
      have hin := inHunk_within p' m' n' b'.mark (body.map BodyLine.mark)
      have hcursor' := lineFits_within (by omega) hfits
      have hrest := ih (by simp) (fun c hc => hbody c (List.mem_cons_of_mem _ hc)) (.inl hn')
        (by omega) hfits
      rw [List.map_cons, if_pos hin] at hstep
      exact .step hcursor hstep ((reads_markers hcursor' hin hmarkers).append hrest)

theorem step_header {cursor : Int} {h : HunkText} (hh : h.WellFormed) :
    (outside cursor).step h.header.text =
      (FileDiff.empty, within h.linesBefore .keep 0 h.marks) := by
  obtain ⟨hdigits, hstart, -, -, -, -⟩ := Header.hunk?_eq_some hh.announced
  have hread : ((Header.read? h.header.text).bind fun r => r.1.hunk?) = some h.hunk := by
    rw [HeaderLine.read?_text hh.blanks hdigits, Option.bind_some, hh.announced]
  have hheader : isHeaderLine h.header.text = true := rfl
  rw [step, if_pos hheader, enter, hread]
  have hcursor : (if h.hunk.oldLength = 0 then h.hunk.oldStart + 1 else max h.hunk.oldStart 1) =
      h.linesBefore + oldCount (List.replicate 0 Mark.keep) + 1 := by
    have hpos := hh.oldStart
    have hlength := hh.oldLength
    rw [HunkText.linesBefore, List.replicate_zero, oldCount_nil]
    split <;> omega
  rw [within, ← hcursor, ← hh.oldLength, ← hh.newLength]
  rfl

theorem linesBefore_nonneg {h : HunkText} (hh : h.WellFormed) :
    0 ≤ h.linesBefore ∧ h.linesAfter + 1 ≤ maxLineNumber := by
  obtain ⟨-, hstart, -, -, -, hfits⟩ := Header.hunk?_eq_some hh.announced
  have hpos := hh.oldStart
  have hlength := hh.oldLength
  rw [Hunk.fits, Bool.and_eq_true, decide_eq_true_eq] at hfits
  rw [HunkText.linesAfter, HunkText.linesBefore]
  split <;> omega

theorem lineFits_linesAfter {h : HunkText} (hh : h.WellFormed) :
    lineFits (h.linesAfter + 1) = true := by
  obtain ⟨hbefore, hafter⟩ := linesBefore_nonneg hh
  refine lineFits_of_nonneg ?_ hafter
  rw [HunkText.linesAfter]
  omega

theorem reads_hunk {cursor : Int} {h : HunkText} (hcursor : lineFits cursor = true)
    (hh : h.WellFormed) :
    Reads (outside cursor) h.lines h.change (outside (h.linesAfter + 1)) := by
  obtain ⟨hbefore, hafter⟩ := linesBefore_nonneg hh
  have hbody : Reads (within h.linesBefore .keep 0 h.marks)
      (h.body.flatMap fun b => b.line :: b.markers) h.change (outside (h.linesAfter + 1)) := by
    by_cases hne : h.body = []
    · rw [HunkText.change, HunkText.linesAfter, HunkText.marks, hne]
      exact .done _
    · exact reads_body hne hh.body (.inr rfl) hbefore hafter
  have htrailer := reads_outside (lineFits_linesAfter hh) hh.trailer
  rw [HunkText.lines, ← FileDiff.empty_append h.change, ← FileDiff.append_empty h.change]
  exact .step hcursor (step_header hh) (hbody.append htrailer)

theorem reads_hunks {hs : List HunkText} (hhs : ∀ h ∈ hs, h.WellFormed) {cursor : Int}
    (hcursor : lineFits cursor = true) :
    ∃ cursor', lineFits cursor' = true ∧
      Reads (outside cursor) (hs.flatMap HunkText.lines) (changeOfHunks hs) (outside cursor') := by
  induction hs generalizing cursor with
  | nil => exact ⟨cursor, hcursor, .done _⟩
  | cons h hs ih =>
    have hh := hhs h List.mem_cons_self
    obtain ⟨cursor', hcursor', hrest⟩ :=
      ih (fun g hg => hhs g (List.mem_cons_of_mem _ hg)) (lineFits_linesAfter hh)
    exact ⟨cursor', hcursor', (reads_hunk hcursor hh).append hrest⟩

end PatchWalk

/-! ## The whole diff -/

/-- A well formed diff describes a change in order, behind the beginning of the file. -/
theorem PatchText.WellFormed.placed_change {p : PatchText} (hp : p.WellFormed) :
    ∃ hi, 0 ≤ hi ∧ p.change.Placed 0 hi := by
  refine placed_changeOfHunks (fun h hh => ?_) hp.ascending
  exact (PatchWalk.linesBefore_nonneg (hp.hunks h (List.mem_of_mem_head? hh))).1

theorem PatchText.WellFormed.readPatch?_eq {p : PatchText} (hp : p.WellFormed) {text : List Char}
    (htext : Spells p.lines text) : readPatch? text = some p.change := by
  have hstart : lineFits 0 = true := rfl
  obtain ⟨cursor, hcursor, hhunks⟩ := PatchWalk.reads_hunks hp.hunks hstart
  have hreads := (PatchWalk.reads_outside hstart hp.preamble).append hhunks
  rw [← PatchText.lines, ← htext.lines_eq, FileDiff.empty_append] at hreads
  have hchange : readPatch text = p.change :=
    hreads.collect_eq.trans (FileDiff.append_empty _)
  exact fitting_eq_some_iff.2 ⟨hreads.fits_eq hcursor, hchange⟩

/-- **A well formed diff is read exactly**: from each text that spells a well formed unified diff,
the reader gets the change that the diff describes. That change is in order, its additions have
lines, and none of them comes between the lines of a deletion. -/
theorem readPatch?_eq_change {p : PatchText} (hp : p.WellFormed) {text : List Char}
    (htext : Spells p.lines text) :
    readPatch? text = some p.change ∧ p.change.check = .ok () ∧
      ∀ a ∈ p.change.additions, 0 ≤ a.position ∧ 1 ≤ a.length ∧
        ∀ r ∈ p.change.deletions, ¬ (r.first ≤ a.position ∧ a.position < r.last) := by
  have hstart : lineFits 0 = true := rfl
  have hpreamble := PatchWalk.reads_outside hstart hp.preamble
  obtain ⟨cursor, hcursor, hhunks⟩ := PatchWalk.reads_hunks hp.hunks hstart
  have hreads := hpreamble.append hhunks
  obtain ⟨hi, -, hplaced⟩ := hp.placed_change
  refine ⟨?_, hplaced.check_eq_ok, fun a ha => ⟨(hplaced.additions_within a ha).1,
    hplaced.additions_nonempty a ha, hplaced.apart a ha⟩⟩
  have hread : readPatch text = p.change := by
    rw [readPatch, htext.lines_eq]
    exact hreads.collect_eq.trans (FileDiff.append_empty _)
  have hfits : PatchWalk.start.fits (lines text) = true := by
    rw [htext.lines_eq]
    exact hreads.fits_eq hcursor
  rw [readPatch?, hfits, fitting_true, hread]

/-- A diff of two hunks, with noise and markers between its lines: one line comes before the file,
and its third and fourth line are replaced. -/
def PatchText.insertAndReplace : PatchText where
  preamble := ["index 1..2".toList]
  hunks :=
    [ { header := ⟨⟨['0'], some ['0'], ['1'], none⟩, [' '], [' '], [], " here".toList⟩
        hunk := ⟨0, 0, 1, 1⟩
        body := [⟨.add, "+z".toList, ["\\ No newline at end of file".toList]⟩]
        trailer := ["".toList, "noise".toList] },
      { header := ⟨⟨['2'], some ['3'], ['3'], some ['0', '3']⟩, [' '], [' '], [' '], []⟩
        hunk := ⟨2, 3, 3, 3⟩
        body :=
          [⟨.keep, " b".toList, []⟩, ⟨.delete, "-c".toList, ["\\".toList]⟩,
            ⟨.delete, "-d".toList, []⟩, ⟨.add, "+C".toList, []⟩, ⟨.add, "+D".toList, []⟩]
        trailer := [] } ]

theorem readPatch?_eq_change_insertAndReplace :
    PatchText.insertAndReplace.WellFormed ∧
      readPatch? (PatchText.insertAndReplace.lines.flatMap (· ++ ['\n'])) =
        some ⟨[⟨0, 1⟩, ⟨4, 2⟩], [⟨3, 4⟩]⟩ := by
  have hwellFormed : PatchText.insertAndReplace.WellFormed := by
    refine ⟨by decide, ?_, by decide⟩
    simp only [PatchText.insertAndReplace, List.forall_mem_cons]
    refine ⟨?_, ?_, List.forall_mem_nil _⟩
    · constructor <;> decide
    · constructor <;> decide
  have htext : Spells _ (PatchText.insertAndReplace.lines.flatMap (· ++ ['\n'])) :=
    spells_feeds (by decide)
  have hread := (readPatch?_eq_change hwellFormed htext).1
  have hchange : PatchText.insertAndReplace.change = ⟨[⟨0, 1⟩, ⟨4, 2⟩], [⟨3, 4⟩]⟩ := by decide
  exact ⟨hwellFormed, hread.trans (congrArg some hchange)⟩

end EffortRank
