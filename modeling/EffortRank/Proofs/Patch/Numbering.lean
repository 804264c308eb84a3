import EffortRank.Patch.Body
import EffortRank.Proofs.Patch.HeaderText

/-!
# Line numbers in a diff

Whatever text is read as a unified diff, its change names lines of a file (`FileDiff.OnLines`):
lines are put in at the top or behind a line, and only lines from the first one on are taken out,
all of them in front of the largest line number (`readPatch?_onLines`). The walk over the text is
`Sound`: inside a hunk it has come to the first line at least, and a run of changed lines started
before the line that it has come to.
-/

namespace EffortRank

open Text

namespace FileDiff

/-- The records are not empty, and their line numbers are those of lines. -/
structure OnLines (d : FileDiff) : Prop where
  additions : ∀ a ∈ d.additions, 0 ≤ a.position ∧ a.position < maxLineNumber ∧ 1 ≤ a.length
  deletions : ∀ s ∈ d.deletions, 1 ≤ s.first ∧ s.first ≤ s.last ∧ s.last < maxLineNumber

theorem OnLines.empty : FileDiff.empty.OnLines := by
  constructor <;> simp

theorem OnLines.append {d e : FileDiff} (hd : d.OnLines) (he : e.OnLines) : (d ++ e).OnLines where
  additions := List.forall_mem_append.2 ⟨hd.additions, he.additions⟩
  deletions := List.forall_mem_append.2 ⟨hd.deletions, he.deletions⟩

end FileDiff

theorem le_maxLineNumber_of_lineFits {n : Int} (h : lineFits n = true) : n ≤ maxLineNumber := by
  rw [lineFits, Bool.and_eq_true, decide_eq_true_eq, decide_eq_true_eq] at h
  exact h.2

namespace PatchWalk

variable {w : PatchWalk}

/-- The run of the walk started at a line, in front of the line that the walk has come to. -/
structure Sound (w : PatchWalk) : Prop where
  cursor_pos : w.inHunk = true → 1 ≤ w.cursor
  adding : ∀ position length,
    w.run = .adding position length → 0 ≤ position ∧ position < w.cursor ∧ 1 ≤ length
  deleting : ∀ first, w.run = .deleting first → 1 ≤ first ∧ first < w.cursor

theorem sound_start : start.Sound := by
  constructor
  · intro h
    cases h
  · intro position length h
    cases h
  · intro first h
    cases h

namespace Sound

theorem closed (h : w.Sound) (hfits : lineFits w.cursor = true) : w.closed.OnLines := by
  have hcursor := le_maxLineNumber_of_lineFits hfits
  unfold PatchWalk.closed
  split
  · exact .empty
  · rename_i position length hrun
    have hadding := h.adding position length hrun
    constructor
    · intro a ha
      rw [List.mem_singleton] at ha
      subst ha
      dsimp only
      omega
    · simp
  · rename_i first hrun
    have hfirst := h.deleting first hrun
    constructor
    · simp
    · intro s hs
      rw [List.mem_singleton] at hs
      subst hs
      dsimp only
      omega

theorem idle (h : w.Sound) : w.idle.Sound where
  cursor_pos := h.cursor_pos
  adding := by
    intro position length hrun
    cases hrun
  deleting := by
    intro first hrun
    cases hrun

/-- A hunk starts at the first line at least; behind a line that is no header there is no hunk. -/
theorem enter (w : PatchWalk) (line : Line) : (w.enter line).Sound := by
  unfold PatchWalk.enter
  split
  · rename_i hunk hhunk
    rw [Option.bind_eq_some_iff] at hhunk
    obtain ⟨header, -, hannounced⟩ := hhunk
    obtain ⟨-, hstart, -⟩ := Header.hunk?_eq_some hannounced
    constructor
    · intro _
      dsimp only
      split
      · omega
      · exact Int.le_max_right _ _
    · intro position length hrun
      cases hrun
    · intro first hrun
      cases hrun
  · constructor
    · intro hin
      cases hin
    · intro position length hrun
      cases hrun
    · intro first hrun
      cases hrun

theorem delete (h : w.Sound) (hin : w.inHunk = true) (hfits : lineFits w.cursor = true) :
    w.delete.1.OnLines ∧ w.delete.2.Sound := by
  have hcursor := h.cursor_pos hin
  unfold PatchWalk.delete
  split
  · rename_i first hrun
    refine ⟨.empty, ?_, ?_, ?_⟩
    · intro _
      dsimp only
      omega
    · intro position length hadding
      rw [hrun] at hadding
      cases hadding
    · intro other hother
      have hfirst := h.deleting other hother
      dsimp only
      omega
  · refine ⟨h.closed hfits, ?_, ?_, ?_⟩
    · intro _
      dsimp only
      omega
    · intro position length hadding
      cases hadding
    · intro first hfirst
      cases hfirst
      dsimp only
      omega

theorem add (h : w.Sound) (hin : w.inHunk = true) (hfits : lineFits w.cursor = true) :
    w.add.1.OnLines ∧ w.add.2.Sound := by
  have hcursor := h.cursor_pos hin
  unfold PatchWalk.add
  split
  · rename_i position length hrun
    have hadding := h.adding position length hrun
    refine ⟨.empty, fun _ => hcursor, ?_, ?_⟩
    · intro position' length' hrun'
      cases hrun'
      dsimp only
      omega
    · intro first hfirst
      cases hfirst
  · refine ⟨h.closed hfits, fun _ => hcursor, ?_, ?_⟩
    · intro position length hrun
      cases hrun
      dsimp only
      omega
    · intro first hfirst
      cases hfirst

theorem keep (h : w.Sound) (hin : w.inHunk = true) (hfits : lineFits w.cursor = true) :
    w.keep.1.OnLines ∧ w.keep.2.Sound := by
  have hcursor := h.cursor_pos hin
  refine ⟨h.closed hfits, ?_, ?_, ?_⟩
  · intro _
    dsimp only [PatchWalk.keep]
    omega
  · intro position length hrun
    cases hrun
  · intro first hrun
    cases hrun

theorem takeLine (h : w.Sound) (hin : w.inHunk = true) (hfits : lineFits w.cursor = true)
    (line : Line) : (w.takeLine line).1.OnLines ∧ (w.takeLine line).2.Sound := by
  unfold PatchWalk.takeLine
  split
  · exact h.delete hin hfits
  · exact h.add hin hfits
  · exact ⟨.empty, h⟩
  · exact h.keep hin hfits

/-- **One line** emits records of lines, and leaves a sound walk. -/
theorem step (h : w.Sound) {line : Line} (hfits : lineFits w.cursor = true)
    (hnext : lineFits (w.step line).2.cursor = true) :
    (w.step line).1.OnLines ∧ (w.step line).2.Sound := by
  unfold PatchWalk.step at hnext ⊢
  split
  · exact ⟨h.closed hfits, enter w line⟩
  · rename_i hheader
    rw [if_neg hheader] at hnext
    split
    · rename_i hin
      rw [if_pos hin] at hnext
      obtain ⟨hemitted, hsound⟩ := h.takeLine hin hfits line
      dsimp only at hnext ⊢
      split
      · exact ⟨hemitted, hsound⟩
      · rename_i hout
        rw [if_neg hout] at hnext
        exact ⟨hemitted.append (hsound.closed hnext), hsound.idle⟩
    · exact ⟨.empty, h⟩

end Sound

theorem lineFits_of_fits {ls : List Line} (h : w.fits ls = true) : lineFits w.cursor = true := by
  cases ls with
  | nil => exact h
  | cons line ls => exact (Bool.and_eq_true_iff.1 h).1

/-- **The whole walk** emits records of lines. -/
theorem Sound.collect (h : w.Sound) {ls : List Line} (hfits : w.fits ls = true) :
    (w.collect ls).OnLines := by
  induction ls generalizing w with
  | nil => exact h.closed hfits
  | cons line ls ih =>
    obtain ⟨hcursor, hrest⟩ := Bool.and_eq_true_iff.1 hfits
    obtain ⟨hemitted, hsound⟩ := h.step hcursor (lineFits_of_fits hrest)
    exact hemitted.append (ih hsound hrest)

end PatchWalk

/-- **A diff names lines of a file**, whatever text it is. -/
theorem readPatch?_onLines {text : List Char} {d : FileDiff} (h : readPatch? text = some d) :
    d.OnLines := by
  rw [readPatch?, fitting_eq_some_iff] at h
  obtain ⟨hfits, rfl⟩ := h
  exact PatchWalk.sound_start.collect hfits

end EffortRank
