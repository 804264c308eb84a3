import EffortRank.Proofs.Diff.Involution
import EffortRank.Proofs.Patch.Numbering
import EffortRank.Proofs.Patch.Reading

/-!
# Hunk by hunk

A line that starts like a header ends the run before it, and says anew where the reader stands, or
that it stands in no hunk. So the reader takes the text from that line on as if nothing stood before
(`PatchWalk.collect_append`, `PatchWalk.fits_append`).

Within one hunk the reader only goes forward, whatever its lines are and however many of them the
header counts: each run that it ends comes behind the one before (`PatchWalk.Aligned.collect`). The
change of one hunk is therefore in order and does not put lines in between lines that it takes out
together (`FileDiff.Ascending`). Only hunks that go back spoil the order of a change.
-/

namespace EffortRank

open Text

namespace FileDiff

/-- The change puts lines in at `position` or later, each time behind the place before, and takes
lines out from `line` on, no two deletions sharing one. -/
structure Ascending (position line : Int) (d : FileDiff) : Prop where
  additions_sorted : d.additions.Pairwise fun a b => a.position < b.position
  additions_behind : ∀ a ∈ d.additions, position ≤ a.position ∧ 1 ≤ a.length
  deletions_sorted : d.deletions.Pairwise LineRange.Precedes
  deletions_behind : ∀ r ∈ d.deletions, line ≤ r.first ∧ r.first ≤ r.last
  apart : d.Apart

namespace Ascending

variable {position line : Int} {d : FileDiff}

theorem empty : FileDiff.empty.Ascending position line := by
  constructor <;> simp [Apart]

theorem mono {position' line' : Int} (h : d.Ascending position line)
    (hposition : position' ≤ position) (hline : line' ≤ line) :
    d.Ascending position' line' where
  additions_sorted := h.additions_sorted
  additions_behind a ha := by
    have := h.additions_behind a ha
    omega
  deletions_sorted := h.deletions_sorted
  deletions_behind r hr := by
    have := h.deletions_behind r hr
    omega
  apart := h.apart

/-- An addition in front of all records. -/
theorem cons_addition {a : Addition} (h : d.Ascending position line) (hlength : 1 ≤ a.length)
    (hposition : a.position < position) (hline : a.position < line) :
    (⟨[a], []⟩ ++ d : FileDiff).Ascending a.position line where
  additions_sorted := by
    refine List.pairwise_cons.2 ⟨fun b hb => ?_, h.additions_sorted⟩
    have := h.additions_behind b hb
    omega
  additions_behind := by
    refine List.forall_mem_cons.2 ⟨⟨Int.le_refl _, hlength⟩, fun b hb => ?_⟩
    have := h.additions_behind b hb
    omega
  deletions_sorted := h.deletions_sorted
  deletions_behind := h.deletions_behind
  apart := by
    refine List.forall_mem_cons.2 ⟨fun r hr => ?_, h.apart⟩
    have := h.deletions_behind r hr
    omega

/-- A deletion in front of all records; additions may follow its last line at once. -/
theorem cons_deletion {r : LineRange} (h : d.Ascending position line) (hr : r.first ≤ r.last)
    (hposition : r.last ≤ position) (hline : r.last < line) :
    (⟨[], [r]⟩ ++ d : FileDiff).Ascending position r.first where
  additions_sorted := h.additions_sorted
  additions_behind := h.additions_behind
  deletions_sorted := by
    refine List.pairwise_cons.2 ⟨fun s hs => ?_, h.deletions_sorted⟩
    have := h.deletions_behind s hs
    exact ⟨by omega, by omega⟩
  deletions_behind := by
    refine List.forall_mem_cons.2 ⟨⟨Int.le_refl _, hr⟩, fun s hs => ?_⟩
    have := h.deletions_behind s hs
    omega
  apart a ha := by
    refine List.forall_mem_cons.2 ⟨?_, h.apart a ha⟩
    have := h.additions_behind a ha
    omega

end Ascending

end FileDiff

namespace PatchWalk

variable {w : PatchWalk}

/-! ## In front of a header -/

/-- A line that starts like a header leaves the hunk, or leads into one that is the same wherever
the walk stood. -/
theorem enter_cases (line : Line) :
    (∀ w : PatchWalk, w.enter line = outside w.cursor) ∨
      ∃ v, ∀ w : PatchWalk, w.enter line = v := by
  unfold enter
  cases (Header.read? line).bind fun h => h.1.hunk? with
  | none => exact .inl fun w => rfl
  | some hunk => exact .inr ⟨_, fun w => rfl⟩

theorem collect_cons (w : PatchWalk) (line : Line) (ls : List Line) :
    w.collect (line :: ls) = (w.step line).1 ++ (w.step line).2.collect ls := rfl

theorem step_of_looksLikeHeader {line : Line} (h : LooksLikeHeader line) (w : PatchWalk) :
    w.step line = (w.closed, w.enter line) := by
  obtain ⟨rest, rfl⟩ := h
  rfl

/-- Outside of a hunk, other lines mean nothing. -/
theorem step_outside {line : Line} (h : ¬ LooksLikeHeader line) (hout : w.inHunk = false) :
    w.step line = (FileDiff.empty, w) := by
  rw [step, isHeaderLine_eq_false h, hout]
  rfl

theorem collect_of_not_inHunk {ls : List Line} (hls : ∀ line ∈ ls, ¬ LooksLikeHeader line)
    (hout : w.inHunk = false) : w.collect ls = w.closed := by
  induction ls with
  | nil => rfl
  | cons line ls ih =>
    rw [List.forall_mem_cons] at hls
    rw [collect_cons, step_outside hls.1 hout]
    exact ih hls.2

/-- It does not matter at which line the walk left the hunk before. -/
theorem collect_outside (c c' : Int) (ls : List Line) :
    (outside c).collect ls = (outside c').collect ls := by
  induction ls with
  | nil => rfl
  | cons line ls ih =>
    rw [collect_cons, collect_cons]
    by_cases hline : LooksLikeHeader line
    · rw [step_of_looksLikeHeader hline, step_of_looksLikeHeader hline]
      rcases enter_cases line with hout | ⟨v, hv⟩
      · rw [hout, hout]
        exact ih
      · rw [hv, hv]
        rfl
    · rw [step_outside hline rfl, step_outside hline rfl]
      exact ih

theorem fits_outside {c c' : Int} (hc : lineFits c = true) (hc' : lineFits c' = true)
    (ls : List Line) : (outside c).fits ls = (outside c').fits ls := by
  induction ls with
  | nil => exact hc.trans hc'.symm
  | cons line ls ih =>
    rw [fits, fits]
    by_cases hline : LooksLikeHeader line
    · rw [step_of_looksLikeHeader hline, step_of_looksLikeHeader hline]
      rcases enter_cases line with hout | ⟨v, hv⟩
      · rw [hout, hout]
        exact congr (congrArg _ (hc.trans hc'.symm)) ih
      · rw [hv, hv]
        exact congrArg (· && _) (hc.trans hc'.symm)
    · rw [step_outside hline rfl, step_outside hline rfl]
      exact congr (congrArg _ (hc.trans hc'.symm)) ih

/-- **A header makes a new start**: what stands from there on is read as if nothing stood before. -/
theorem collect_append (w : PatchWalk) (ls : List Line) {header : Line}
    (hheader : LooksLikeHeader header) (rest : List Line) :
    w.collect (ls ++ header :: rest) = w.collect ls ++ start.collect (header :: rest) := by
  induction ls generalizing w with
  | nil =>
    rw [List.nil_append, collect_cons, collect_cons, step_of_looksLikeHeader hheader,
      step_of_looksLikeHeader hheader]
    rcases enter_cases header with hout | ⟨v, hv⟩
    · rw [hout, hout]
      exact congrArg (w.closed ++ ·) (collect_outside _ _ rest)
    · rw [hv, hv]
      rfl
  | cons line ls ih =>
    rw [List.cons_append, collect_cons, collect_cons, ih, FileDiff.append_assoc]

/-- The line numbers fit if they do on both sides of the header. -/
theorem fits_append (w : PatchWalk) (ls : List Line) {header : Line}
    (hheader : LooksLikeHeader header) (rest : List Line) :
    w.fits (ls ++ header :: rest) = (w.fits ls && start.fits (header :: rest)) := by
  induction ls generalizing w with
  | nil =>
    rw [List.nil_append, fits, fits, fits, step_of_looksLikeHeader hheader,
      step_of_looksLikeHeader hheader]
    cases hcursor : lineFits w.cursor with
    | false => rfl
    | true =>
      rcases enter_cases header with hout | ⟨v, hv⟩
      · rw [hout, hout]
        exact fits_outside hcursor rfl rest
      · rw [hv, hv]
        rfl
  | cons line ls ih =>
    rw [List.cons_append, fits, fits, ih, Bool.and_assoc]

/-! ## Within a hunk -/

/-- The run of the walk goes up to the line that the walk has come to. -/
def Aligned (w : PatchWalk) : Prop :=
  match w.run with
  | .none => True
  | .adding position length => position = w.cursor - 1 ∧ 1 ≤ length
  | .deleting first => first < w.cursor

/-- The first line that a deletion from here on may take out. -/
def firstLine (w : PatchWalk) : Int :=
  match w.run with
  | .deleting first => first
  | _ => w.cursor

/-- The walk `next` goes on from `w`, which has emitted a change: what is emitted from there on
comes behind. -/
structure Continues (w : PatchWalk) (emitted : FileDiff) (next : PatchWalk) : Prop where
  aligned : next.Aligned
  append : ∀ d : FileDiff, d.Ascending (next.cursor - 1) next.firstLine →
    (emitted ++ d).Ascending (w.cursor - 1) w.firstLine

namespace Aligned

/-- The run of the walk stands in front of what is read behind it. -/
theorem closed_append (h : w.Aligned) {position : Int} {d : FileDiff}
    (hd : d.Ascending position w.cursor) (hposition : w.cursor - 1 ≤ position)
    (hadding : ∀ p n, w.run = .adding p n → w.cursor ≤ position) :
    (w.closed ++ d).Ascending (w.cursor - 1) w.firstLine := by
  obtain ⟨run, cursor, oldLeft, newLeft⟩ := w
  dsimp only at hd hposition hadding
  cases run with
  | none => exact hd.mono hposition (Int.le_refl _)
  | adding p n =>
    obtain ⟨hp, hn⟩ : p = cursor - 1 ∧ 1 ≤ n := h
    have hbehind := hadding p n rfl
    have hcons := hd.cons_addition (a := ⟨p, n⟩) hn (by dsimp only; omega) (by dsimp only; omega)
    exact hcons.mono (by dsimp only; omega) (Int.le_refl _)
  | deleting first =>
    have hfirst : first < cursor := h
    have hcons := hd.cons_deletion (r := ⟨first, cursor - 1⟩) (by dsimp only; omega) hposition
      (by dsimp only; omega)
    exact hcons.mono hposition (Int.le_refl _)

theorem closed (h : w.Aligned) : w.closed.Ascending (w.cursor - 1) w.firstLine := by
  have hempty : FileDiff.empty.Ascending w.cursor w.cursor := .empty
  have hclosed := h.closed_append hempty (by omega) fun _ _ _ => Int.le_refl _
  rwa [FileDiff.append_empty] at hclosed

theorem delete (h : w.Aligned) : Continues w w.delete.1 w.delete.2 := by
  obtain ⟨run, cursor, oldLeft, newLeft⟩ := w
  cases run with
  | none | adding =>
    refine ⟨Int.lt_succ cursor, fun d hd => ?_⟩
    have hbehind : d.Ascending cursor cursor :=
      hd.mono (by dsimp only [PatchWalk.delete]; omega) (Int.le_refl _)
    exact h.closed_append hbehind (by dsimp only; omega) fun _ _ _ => Int.le_refl _
  | deleting first =>
    have hfirst : first < cursor := h
    refine ⟨Int.lt_trans hfirst (Int.lt_succ cursor), fun d hd => hd.mono ?_ (Int.le_refl _)⟩
    dsimp only [PatchWalk.delete]
    omega

theorem add (h : w.Aligned) : Continues w w.add.1 w.add.2 := by
  obtain ⟨run, cursor, oldLeft, newLeft⟩ := w
  cases run with
  | none | deleting =>
    refine ⟨⟨rfl, Int.le_refl 1⟩, fun d hd => h.closed_append hd (Int.le_refl _) ?_⟩
    intro p n hrun
    cases hrun
  | adding p n =>
    obtain ⟨hp, hn⟩ : p = cursor - 1 ∧ 1 ≤ n := h
    exact ⟨⟨hp, by omega⟩, fun d hd => hd⟩

theorem keep (h : w.Aligned) : Continues w w.keep.1 w.keep.2 := by
  refine ⟨trivial, fun d hd => ?_⟩
  have hd' : d.Ascending (w.cursor + 1 - 1) (w.cursor + 1) := hd
  have hbehind : d.Ascending w.cursor w.cursor := hd'.mono (by omega) (by omega)
  exact h.closed_append hbehind (by omega) fun _ _ _ => Int.le_refl _

theorem takeLine (h : w.Aligned) (line : Line) :
    Continues w (w.takeLine line).1 (w.takeLine line).2 := by
  unfold PatchWalk.takeLine
  split
  · exact h.delete
  · exact h.add
  · exact ⟨h, fun d hd => hd⟩
  · exact h.keep

/-- **The lines of a hunk** may be whatever they are: their records ascend. -/
theorem collect (h : w.Aligned) {ls : List Line} (hls : ∀ line ∈ ls, ¬ LooksLikeHeader line) :
    (w.collect ls).Ascending (w.cursor - 1) w.firstLine := by
  induction ls generalizing w with
  | nil => exact h.closed
  | cons line ls ih =>
    rw [List.forall_mem_cons] at hls
    by_cases hin : w.inHunk = true
    · obtain ⟨hnext, happend⟩ := h.takeLine line
      rw [collect_cons, step, isHeaderLine_eq_false hls.1, hin]
      dsimp only
      cases hend : (w.takeLine line).2.inHunk with
      | true => exact happend _ (ih hnext hls.2)
      | false =>
        -- Behind the last line of the hunk, nothing is read any more.
        have hrest : (w.takeLine line).2.idle.collect ls = FileDiff.empty :=
          collect_of_not_inHunk hls.2 hend
        simp only [Bool.false_eq_true, if_false, if_true]
        rw [hrest, FileDiff.append_empty]
        exact happend _ hnext.closed
    · rw [collect_of_not_inHunk (List.forall_mem_cons.2 hls) (by simpa using hin)]
      exact h.closed

end Aligned

end PatchWalk

/-! ## Texts -/

/-- The first line of a text that starts like a header does so too. -/
theorem exists_lines_of_looksLikeHeader {text : List Char} (h : ['@', '@'] <+: text) :
    ∃ header rest, lines text = header :: rest ∧ LooksLikeHeader header := by
  obtain ⟨cs, rfl⟩ := h
  have hlines : lines (['@', '@'] ++ cs) = consLine '@' (consLine '@' (lines cs)) := by
    rw [List.cons_append, List.cons_append, List.nil_append, lines_cons (by decide) (by simp),
      lines_cons (by decide) (by simp)]
  rw [hlines]
  cases lines cs with
  | nil => exact ⟨_, [], rfl, List.prefix_refl _⟩
  | cons line rest => exact ⟨_, rest, rfl, line, rfl⟩

/-- The lines of a text with one line that starts like a header. -/
theorem exists_split_of_countP {ls : List Line}
    (h : ls.countP (fun line => decide (LooksLikeHeader line)) = 1) :
    ∃ before header after, ls = before ++ header :: after ∧ LooksLikeHeader header ∧
      (∀ line ∈ before, ¬ LooksLikeHeader line) ∧ ∀ line ∈ after, ¬ LooksLikeHeader line := by
  have hpos : 0 < ls.countP (fun line => decide (LooksLikeHeader line)) := by omega
  obtain ⟨header, hmem, hheader⟩ := List.countP_pos_iff.1 hpos
  obtain ⟨before, after, rfl⟩ := List.append_of_mem hmem
  rw [List.countP_append, List.countP_cons, if_pos hheader] at h
  have hbefore : before.countP (fun line => decide (LooksLikeHeader line)) = 0 := by omega
  have hafter : after.countP (fun line => decide (LooksLikeHeader line)) = 0 := by omega
  rw [List.countP_eq_zero] at hbefore hafter
  simp only [decide_eq_true_eq] at hheader hbefore hafter
  exact ⟨before, header, after, rfl, hheader, hbefore, hafter⟩

/-- **Texts are read hunk by hunk, and each hunk is in order.** Behind whole lines, a text that
starts with a header line is read as if nothing stood before. And whatever text has only one line
that starts like a header: its additions have lines and stand behind the top of the file or a line
of it, each behind the one before; its deletions take out lines from the first one on, no two of
them the same; and no addition stands in between lines that are taken out together. -/
theorem readPatch_hunk_by_hunk :
    (∀ text₁ text₂ : List Char, (text₁ = [] ∨ text₁.getLast? = some '\n') → ['@', '@'] <+: text₂ →
      readPatch (text₁ ++ text₂) = readPatch text₁ ++ readPatch text₂ ∧
        readPatch? (text₁ ++ text₂) =
          (readPatch? text₁).bind fun d => (readPatch? text₂).map fun e => d ++ e) ∧
    ∀ text : List Char,
      (lines text).countP (fun line => decide (LooksLikeHeader line)) = 1 →
        (readPatch text).Ascending 0 1 := by
  constructor
  · intro text₁ text₂ hended hheader
    obtain ⟨header, rest, hrest, hheader⟩ := exists_lines_of_looksLikeHeader hheader
    have hlines : lines (text₁ ++ text₂) = lines text₁ ++ header :: rest := by
      rcases hended with rfl | hended
      · rw [List.nil_append, hrest]
        rfl
      · rw [lines_append hended, hrest]
    have hread : readPatch (text₁ ++ text₂) = readPatch text₁ ++ readPatch text₂ := by
      rw [readPatch, readPatch, readPatch, hlines, hrest, PatchWalk.collect_append _ _ hheader]
    refine ⟨hread, ?_⟩
    rw [readPatch?, readPatch?, readPatch?, hread, hlines, hrest,
      PatchWalk.fits_append _ _ hheader]
    cases PatchWalk.start.fits (lines text₁) with
    | false => rfl
    | true => cases PatchWalk.start.fits (header :: rest) <;> rfl
  · intro text hone
    obtain ⟨before, header, after, hlines, hheader, hbefore, hafter⟩ := exists_split_of_countP hone
    have hread : readPatch text = (PatchWalk.start.enter header).collect after := by
      rw [readPatch, hlines, PatchWalk.collect_append _ _ hheader,
        PatchWalk.collect_of_not_inHunk hbefore rfl, PatchWalk.collect_cons,
        PatchWalk.step_of_looksLikeHeader hheader]
      rfl
    have hidle : (PatchWalk.start.enter header).run = .none := by
      unfold PatchWalk.enter
      split <;> rfl
    have haligned : (PatchWalk.start.enter header).Aligned := by
      rw [PatchWalk.Aligned, hidle]
      trivial
    rw [hread]
    by_cases hin : (PatchWalk.start.enter header).inHunk = true
    · have hcursor := (PatchWalk.Sound.enter PatchWalk.start header).cursor_pos hin
      refine (haligned.collect hafter).mono (by omega) ?_
      rw [PatchWalk.firstLine, hidle]
      exact hcursor
    · rw [PatchWalk.collect_of_not_inHunk hafter (by simpa using hin), PatchWalk.closed, hidle]
      exact .empty

/-- A hunk that ends before its old lines do and has too many new ones, and behind it a line that
only starts like a header. -/
theorem readPatch_hunk_by_hunk_truncated :
    let text₁ := "@@ -4,9 +4 @@\n-a\n+b\n-c\n+d\n+e\n".toList
    let text₂ := "@@ none @@\n-f\n".toList
    let d : FileDiff := ⟨[⟨4, 1⟩, ⟨5, 2⟩], [⟨4, 4⟩, ⟨5, 5⟩]⟩
    text₁.getLast? = some '\n' ∧ ['@', '@'] <+: text₂ ∧
      (lines text₁).countP (fun line => decide (LooksLikeHeader line)) = 1 ∧
      readPatch text₁ = d ∧ d.Ascending 0 1 ∧ readPatch? (text₁ ++ text₂) = some d := by
  intro text₁ text₂ d
  have hread : readPatch text₁ = d := by decide +kernel
  have hended : text₁.getLast? = some '\n' := by decide
  have hheader : ['@', '@'] <+: text₂ := by decide
  have hone : (lines text₁).countP (fun line => decide (LooksLikeHeader line)) = 1 := by
    decide +kernel
  obtain ⟨happend, hhunk⟩ := readPatch_hunk_by_hunk
  have hascending := hhunk text₁ hone
  rw [hread] at hascending
  refine ⟨hended, hheader, hone, hread, hascending, ?_⟩
  rw [(happend text₁ text₂ (.inr hended) hheader).2]
  decide +kernel

end EffortRank
