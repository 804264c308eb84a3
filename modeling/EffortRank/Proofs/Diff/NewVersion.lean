import EffortRank.Proofs.Churn.ChangedLines
import EffortRank.Proofs.Diff.Restoration

/-!
# Where a change shows in the new version

The blocks that a change puts in take up lines of the new version (`FileDiff.insertedLines`), and
what it takes out has a place there: behind the line that comes last in front of it
(`FileDiff.newPlace`). Both are read off the walk over the old version. The inverse of a well placed
change names just these lines and places (`FileDiff.WellPlaced.deletions_inverse`,
`FileDiff.WellPlaced.additions_inverse`).
-/

namespace EffortRank

open Text

/-- The lines that the blocks among some pieces take up, where `p` lines stand in front. -/
def blockLines (p : Int) : List Piece → List Int
  | [] => []
  | .kept _ :: rest => blockLines (p + 1) rest
  | .inserted _ text :: rest =>
    LineRange.lines ⟨p + 1, p + text.length⟩ ++ blockLines (p + text.length) rest

namespace FileDiff

/-- The lines of the new version that a change puts in. -/
def insertedLines (d : FileDiff) (old : List Line) (texts : List (List Line)) : List Int :=
  blockLines 0 (d.pieces old texts)

/-- The line of the new version that a deletion comes behind: the last one of what the change makes
of the old lines in front of the deletion. -/
def newPlace (d : FileDiff) (old : List Line) (texts : List (List Line)) (r : LineRange) : Int :=
  (d.applyTo (old.take (r.first - 1).toNat) texts).length

end FileDiff

theorem blockLines_kept_append (p : Int) (kept : List Line) (pieces : List Piece) :
    blockLines p (kept.map .kept ++ pieces) = blockLines (p + kept.length) pieces := by
  induction kept generalizing p with
  | nil => simp
  | cons line kept ih =>
    rw [List.map_cons, List.cons_append, blockLines, ih, List.length_cons]
    congr 1
    omega

section Play

variable {hi p : Int} {L : List ChangeRecord}

theorem blockLines_play (h : Tiles hi p L) (index : Nat) (texts : List (List Line))
    (old : List Line) (hlength : hi = p + old.length)
    (htexts : (FileDiff.ofRecords L).Texts texts) (shift : Int) :
    blockLines (p + shift) (play index p L texts old) =
      (FileDiff.ofRecords (inverseRecords shift L)).deletions.flatMap LineRange.lines := by
  induction h generalizing index texts old shift with
  | done _ =>
    rw [play, ← List.append_nil (old.map Piece.kept), blockLines_kept_append]
    rfl
  | @added p a rest hpos hn hrest ih =>
    cases htexts with
    | @cons _ text _ texts htext htexts =>
      have hle := hrest.le
      have hk : (old.take (a.position - p).toNat).length = (a.position - p).toNat :=
        List.length_take_of_le (by omega)
      have hold := ih (index + 1) texts (old.drop (a.position - p).toNat)
        (by rw [List.length_drop]; omega) htexts (shift + a.length)
      have hfront : p + shift + (a.position - p).toNat = shift + a.position := by omega
      have hbehind : a.position + (shift + a.length) = shift + a.position + text.length := by omega
      rw [hbehind] at hold
      rw [play, blockLines_kept_append, hk, hfront, List.headD_cons, List.tail_cons, blockLines,
        hold, inverseRecords, FileDiff.ofRecords, List.flatMap_cons, htext]
  | @deleted p r rest hfirst hr hrest ih =>
    have hle := hrest.le
    have hk : (old.take (r.first - 1 - p).toNat).length = (r.first - 1 - p).toNat :=
      List.length_take_of_le (by omega)
    have hold := ih index texts (old.drop (r.last - p).toNat) (by rw [List.length_drop]; omega)
      htexts (shift - (r.last - r.first + 1))
    have hfront : p + shift + (r.first - 1 - p).toNat =
        r.last + (shift - (r.last - r.first + 1)) := by
      omega
    rw [play, blockLines_kept_append, hk, hfront, hold]
    rfl

/-- The additions of the inverse stand where the walk comes to the deletions. -/
theorem additions_inverseRecords (h : Tiles hi p L) (index : Nat) (texts : List (List Line))
    (old : List Line) (hlength : hi = p + old.length)
    (htexts : (FileDiff.ofRecords L).Texts texts) (shift : Int) :
    (FileDiff.ofRecords (inverseRecords shift L)).additions =
      (FileDiff.ofRecords L).deletions.map fun r =>
        ⟨p + shift + (linesOf (walk (insertionsFrom index (FileDiff.ofRecords L).additions texts)
          (FileDiff.ofRecords L).deletions p (old.take (r.first - 1 - p).toNat))).length,
          r.last - r.first + 1⟩ := by
  induction h generalizing index texts old shift with
  | done _ => rfl
  | @added p a rest hpos hn hrest ih =>
    cases htexts with
    | @cons _ text _ texts htext htexts =>
      have hle := hrest.le
      have hplaced := hrest.placed
      have hold := ih (index + 1) texts (old.drop (a.position - p).toNat)
        (by rw [List.length_drop]; omega) htexts (shift + a.length)
      rw [inverseRecords]
      refine hold.trans (List.map_congr_left fun r hr => ?_)
      have hfirst := hplaced.deletions_within r hr
      have hfront : (old.take (r.first - 1 - p).toNat).length = (r.first - 1 - p).toNat :=
        List.length_take_of_le (by omega)
      have hrest' : (r.first - 1 - p).toNat - (a.position - p).toNat =
          (r.first - 1 - a.position).toNat := by
        omega
      rw [FileDiff.ofRecords, (Tiles.added hpos hn hrest).walk_added index text (by omega),
        List.drop_take, hrest']
      simp only [linesOf_append, linesOf_kept, linesOf_cons, Piece.lines, List.length_append,
        List.length_take, Addition.mk.injEq, and_true]
      omega
  | @deleted p r rest hfirst hr hrest ih =>
    have hle := hrest.le
    have hplaced := hrest.placed
    have htiles := Tiles.deleted hfirst hr hrest
    have hold := ih index texts (old.drop (r.last - p).toNat) (by rw [List.length_drop]; omega)
      htexts (shift - (r.last - r.first + 1))
    have hk : (old.take (r.first - 1 - p).toNat).length = (r.first - 1 - p).toNat :=
      List.length_take_of_le (by omega)
    rw [inverseRecords]
    refine congrArg₂ List.cons ?_ (hold.trans (List.map_congr_left fun s hs => ?_))
    · dsimp only [FileDiff.ofRecords]
      rw [htiles.walk_before index texts (by omega), linesOf_kept, Addition.mk.injEq]
      omega
    · have hbehind := hplaced.deletions_within s hs
      have hfront : (old.take (s.first - 1 - p).toNat).length = (s.first - 1 - p).toNat :=
        List.length_take_of_le (by omega)
      have hrest' : (s.first - 1 - p).toNat - (r.last - p).toNat =
          (s.first - 1 - r.last).toNat := by
        omega
      rw [FileDiff.ofRecords, htiles.walk_deleted index texts (by omega), List.drop_take, hrest']
      simp only [linesOf_append, linesOf_kept, List.length_append, List.length_take,
        Addition.mk.injEq, and_true]
      omega

end Play

namespace FileDiff.WellPlaced

variable {d : FileDiff} {old : List Line} {texts : List (List Line)}

/-- **The inverse takes out the lines that were put in.** -/
theorem deletions_inverse (hd : d.WellPlaced old.length) (htexts : d.Texts texts) :
    d.inverse.deletions.flatMap LineRange.lines = d.insertedLines old texts := by
  have hlines := blockLines_play hd.tiles 0 texts old (by omega) htexts.ofRecords 0
  rw [insertedLines, hd.pieces_eq htexts, inverse_eq]
  exact hlines.symm

/-- **The inverse puts lines in at the places of those that were taken out.** -/
theorem additions_inverse (hd : d.WellPlaced old.length) (htexts : d.Texts texts) :
    d.inverse.additions =
      d.deletions.map fun r => ⟨d.newPlace old texts r, r.last - r.first + 1⟩ := by
  have hplaces := additions_inverseRecords hd.tiles 0 texts old (by omega) htexts.ofRecords 0
  rw [ofRecords_records] at hplaces
  rw [inverse_eq, hplaces]
  refine List.map_congr_left fun r _ => ?_
  rw [newPlace, applyTo, pieces, Int.sub_zero, Int.add_zero, Int.zero_add]

/-- The deletions of the inverse cover the blocks. -/
theorem linesIn_deletions_inverse (hd : d.WellPlaced old.length) (htexts : d.Texts texts) :
    d.inverse.deletions.map (linesIn (d.applyTo old texts)) = texts := by
  have hlength : d.inverse.deletions.length = texts.length := by
    rw [inverse_eq, length_deletions_inverseRecords, ofRecords_records]
    exact List.Forall₂.length_eq htexts
  refine List.ext_getElem? fun i => ?_
  rw [List.getElem?_map]
  cases hr : d.inverse.deletions[i]? with
  | none =>
    rw [List.getElem?_eq_none_iff, hlength] at hr
    rw [List.getElem?_eq_none hr]
    rfl
  | some r =>
    rw [inverse_eq] at hr
    obtain ⟨before, text, after, hsplit, htext, hfirst, hlast⟩ :=
      exists_piece_of_deletion hd.tiles 0 texts old (by omega) htexts.ofRecords 0 hr
    have hnew : d.applyTo old texts = linesOf before ++ (text ++ linesOf after) := by
      rw [applyTo, hd.pieces_eq htexts, hsplit, linesOf_append, linesOf_cons]
      rfl
    rw [Option.map_some, htext, hnew,
      linesIn_eq (m := (linesOf before).length) (n := text.length) (by omega) (by omega),
      List.drop_left, List.take_left]

end FileDiff.WellPlaced

end EffortRank
