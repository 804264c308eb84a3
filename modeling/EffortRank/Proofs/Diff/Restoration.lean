import EffortRank.Proofs.Diff.Application

/-!
# The inverse restores the old version

Main statement (`applyTo_inverse_applyTo`): the inverse of a well placed change takes out just the
lines that the blocks of the change take up in the new version, each deletion those of the block
with its index; and applied to the new version, with the deleted lines as its texts, it gives the
old version back.

The proof plays the records of the change and those of the inverse side by side: `Tiles` says that
both tile their versions, and each record of the inverse undoes the piece of its record.
-/

namespace EffortRank

open Text

theorem linesIn_eq {text : List Line} {r : LineRange} {m n : Nat} (hfirst : r.first = m + 1)
    (hlast : r.last = m + n) : linesIn text r = (text.drop m).take n := by
  have hm : r.first.toNat - 1 = m := by omega
  have hn : r.last.toNat = m + n := by omega
  rw [linesIn, hm, hn, List.drop_take, Nat.add_sub_cancel_left]

section Play

variable {hi p : Int} {L : List ChangeRecord}

theorem length_play (h : Tiles hi p L) (index : Nat) (texts : List (List Line))
    (old : List Line) (hlength : hi = p + old.length)
    (htexts : (FileDiff.ofRecords L).Texts texts) (shift : Int) :
    p + shift + (linesOf (play index p L texts old)).length = hi + shiftAfter shift L := by
  induction h generalizing index texts old shift with
  | @done p _ =>
    rw [play, linesOf_kept, shiftAfter]
    omega
  | @added p a rest hpos hn hrest ih =>
    cases htexts with
    | @cons _ text _ texts htext htexts =>
      have hle := hrest.le
      have hold := ih (index + 1) texts (old.drop (a.position - p).toNat)
        (by rw [List.length_drop]; omega) htexts (shift + a.length)
      rw [shiftAfter, ← hold]
      simp only [play, linesOf_append, linesOf_kept, linesOf_cons, Piece.lines, List.headD_cons,
        List.tail_cons, List.length_append, List.length_take]
      omega
  | @deleted p r rest hfirst hr hrest ih =>
    have hle := hrest.le
    have hold := ih index texts (old.drop (r.last - p).toNat)
      (by rw [List.length_drop]; omega) htexts (shift - (r.last - r.first + 1))
    rw [shiftAfter, ← hold]
    simp only [play, linesOf_append, linesOf_kept, List.length_append, List.length_take]
    omega

/-- Each block comes once, in the order of the additions. -/
theorem indices_play (h : Tiles hi p L) (index : Nat) (texts : List (List Line))
    (old : List Line) :
    (play index p L texts old).filterMap Piece.index? =
      List.range' index (FileDiff.ofRecords L).additions.length := by
  have hkept : ∀ lines : List Line, (lines.map Piece.kept).filterMap Piece.index? = [] := by
    intro lines
    refine List.filterMap_eq_nil_iff.2 fun piece hpiece => ?_
    obtain ⟨line, _, rfl⟩ := List.mem_map.1 hpiece
    rfl
  induction h generalizing index texts old with
  | done _ => rw [play, hkept]; rfl
  | added _ _ _ ih =>
    rw [play, List.filterMap_append, hkept, List.nil_append,
      List.filterMap_cons_some (by rfl), ih]
    rfl
  | deleted _ _ _ ih =>
    rw [play, List.filterMap_append, hkept, List.nil_append, ih]
    rfl

/-- The deletion of the inverse with a given index covers the lines of the block with that index. -/
theorem exists_piece_of_deletion (h : Tiles hi p L) (index : Nat) (texts : List (List Line))
    (old : List Line) (hlength : hi = p + old.length)
    (htexts : (FileDiff.ofRecords L).Texts texts) (shift : Int) {i : Nat} {r : LineRange}
    (hr : (FileDiff.ofRecords (inverseRecords shift L)).deletions[i]? = some r) :
    ∃ before text after,
      play index p L texts old = before ++ .inserted (index + i) text :: after ∧
        texts[i]? = some text ∧ r.first = p + shift + (linesOf before).length + 1 ∧
        r.last = p + shift + (linesOf before).length + text.length := by
  induction h generalizing index texts old shift i with
  | done _ => simp [inverseRecords, FileDiff.ofRecords] at hr
  | @added p a rest hpos hn hrest ih =>
    cases htexts with
    | @cons _ text _ texts htext htexts =>
      have hle := hrest.le
      have hk : (old.take (a.position - p).toNat).length = (a.position - p).toNat :=
        List.length_take_of_le (by omega)
      cases i with
      | zero =>
        simp only [inverseRecords, FileDiff.ofRecords, List.getElem?_cons_zero,
          Option.some.injEq] at hr
        subst hr
        refine ⟨_, text, _, rfl, rfl, ?_, ?_⟩
        · rw [linesOf_kept]
          dsimp only
          omega
        · rw [linesOf_kept]
          dsimp only
          omega
      | succ i =>
        simp only [inverseRecords, FileDiff.ofRecords, List.getElem?_cons_succ] at hr
        obtain ⟨before, block, after, hplay, hblock, hfirst, hlast⟩ :=
          ih (index + 1) texts (old.drop (a.position - p).toNat)
            (by rw [List.length_drop]; omega) htexts (shift + a.length) hr
        refine ⟨(old.take (a.position - p).toNat).map .kept ++ .inserted index text :: before,
          block, after, ?_, by simpa using hblock, ?_, ?_⟩
        · have hindex : index + 1 + i = index + (i + 1) := by omega
          rw [play, List.headD_cons, List.tail_cons, hplay, hindex, List.append_assoc,
            List.cons_append]
        · simp only [linesOf_append, linesOf_kept, linesOf_cons, Piece.lines,
            List.length_append]
          omega
        · simp only [linesOf_append, linesOf_kept, linesOf_cons, Piece.lines,
            List.length_append]
          omega
  | @deleted p s rest hs hs' hrest ih =>
    have hle := hrest.le
    have hk : (old.take (s.first - 1 - p).toNat).length = (s.first - 1 - p).toNat :=
      List.length_take_of_le (by omega)
    simp only [inverseRecords, FileDiff.ofRecords] at hr
    obtain ⟨before, block, after, hplay, hblock, hfirst, hlast⟩ :=
      ih index texts (old.drop (s.last - p).toNat) (by rw [List.length_drop]; omega) htexts
        (shift - (s.last - s.first + 1)) hr
    refine ⟨(old.take (s.first - 1 - p).toNat).map .kept ++ before, block, after, ?_, hblock,
      ?_, ?_⟩
    · rw [play, hplay, List.append_assoc]
    · simp only [linesOf_append, linesOf_kept, List.length_append]
      omega
    · simp only [linesOf_append, linesOf_kept, List.length_append]
      omega

/-- The old lines of the deletions are texts for the additions of the inverse. -/
theorem texts_inverse (h : Tiles hi p L) {whole : List Line} (hp : 0 ≤ p)
    (hhi : hi = whole.length) (shift : Int) :
    (FileDiff.ofRecords (inverseRecords shift L)).Texts
      ((FileDiff.ofRecords L).deletions.map (linesIn whole)) := by
  induction h generalizing shift with
  | done _ => exact .nil
  | added hpos _ _ ih => exact ih (by omega) _
  | @deleted p r rest hfirst hr hrest ih =>
    have hle := hrest.le
    refine .cons ?_ (ih (by omega) _)
    obtain ⟨m, hm⟩ : ∃ m : Nat, r.first = m + 1 := ⟨(r.first - 1).toNat, by omega⟩
    obtain ⟨n, hn⟩ : ∃ n : Nat, r.last = m + n := ⟨(r.last - m).toNat, by omega⟩
    rw [linesIn_eq hm hn, List.length_take, List.length_drop]
    dsimp only
    omega

/-- **Playing the inverse restores the old lines**: each inverted record puts back what its record
took out and takes out what it put in. -/
theorem play_inverse_play (h : Tiles hi p L) {whole : List Line} (hp : 0 ≤ p)
    (hhi : hi = whole.length) (index : Nat) (texts : List (List Line))
    (htexts : (FileDiff.ofRecords L).Texts texts) (shift : Int) (index' : Nat) :
    linesOf (play index' (p + shift) (inverseRecords shift L)
      ((FileDiff.ofRecords L).deletions.map (linesIn whole))
      (linesOf (play index p L texts (whole.drop p.toNat)))) = whole.drop p.toNat := by
  induction h generalizing index texts shift index' with
  | done _ => rw [play, linesOf_kept, inverseRecords, play, linesOf_kept]
  | @added p a rest hpos hn hrest ih =>
    cases htexts with
    | @cons _ text _ texts htext htexts =>
      have hle := hrest.le
      obtain ⟨k, hk⟩ : ∃ k : Nat, a.position = p + k := ⟨(a.position - p).toNat, by omega⟩
      have hlength : ((whole.drop p.toNat).take k).length = k := by
        rw [List.length_take, List.length_drop]
        omega
      have hdrop : (whole.drop p.toNat).drop k = whole.drop a.position.toNat := by
        rw [List.drop_drop]
        congr 1
        omega
      have hrestored := ih (by omega) (index + 1) texts htexts (shift + a.length) index'
      -- The inverted record takes out what stands behind the kept lines, which is the text.
      have hkept : (shift + a.position + 1 - 1 - (p + shift)).toNat = k := by omega
      have hpassed : (shift + a.position + a.length - (p + shift)).toNat = k + text.length := by
        omega
      have hnext : a.position + (shift + a.length) = shift + a.position + a.length := by omega
      have hsub : (a.position - p).toNat = k := by omega
      rw [hnext] at hrestored
      simp only [play, inverseRecords, FileDiff.ofRecords, hsub, hkept, hpassed, linesOf_append,
        linesOf_kept, linesOf_cons, Piece.lines, List.headD_cons, List.tail_cons, hdrop]
      rw [List.take_append_of_le_length (by omega), List.take_take, Nat.min_self,
        ← List.drop_drop, List.drop_left' hlength, List.drop_left' rfl, hrestored, ← hdrop,
        List.take_append_drop]
  | @deleted p r rest hfirst hr hrest ih =>
    have hle := hrest.le
    obtain ⟨k, hk⟩ : ∃ k : Nat, r.first = p + k + 1 := ⟨(r.first - 1 - p).toNat, by omega⟩
    obtain ⟨n, hn⟩ : ∃ n : Nat, r.last = p + k + n := ⟨(r.last - p - k).toNat, by omega⟩
    have hlength : ((whole.drop p.toNat).take k).length = k := by
      rw [List.length_take, List.length_drop]
      omega
    have hdrop : (whole.drop p.toNat).drop (k + n) = whole.drop r.last.toNat := by
      rw [List.drop_drop]
      congr 1
      omega
    have hdeleted : linesIn whole r = ((whole.drop p.toNat).drop k).take n := by
      have hsum : p.toNat + k = (p + k).toNat := by omega
      rw [List.drop_drop, hsum]
      exact linesIn_eq (by omega) (by omega)
    have hrestored := ih (by omega) index texts htexts (shift - (r.last - r.first + 1))
      (index' + 1)
    have hkept : (shift + r.first - 1 - (p + shift)).toNat = k := by omega
    have hfirst' : (r.first - 1 - p).toNat = k := by omega
    have hlast' : (r.last - p).toNat = k + n := by omega
    have hnext : r.last + (shift - (r.last - r.first + 1)) = shift + r.first - 1 := by omega
    rw [hnext] at hrestored
    simp only [play, inverseRecords, FileDiff.ofRecords, hkept, hfirst', hlast', linesOf_append,
      linesOf_kept, linesOf_cons, Piece.lines, List.map_cons, List.headD_cons, List.tail_cons,
      hdrop]
    rw [List.take_append_of_le_length (by omega), List.take_take, Nat.min_self,
      List.drop_left' hlength, hrestored, ← hdrop, hdeleted, ← List.drop_drop,
      List.take_append_drop, List.take_append_drop]

end Play

/-! ## Files -/

namespace FileDiff

/-- In the new version, the block with an index takes up the lines of a range. -/
def TakesUp (d : FileDiff) (old : List Line) (texts : List (List Line)) (i : Nat)
    (r : LineRange) : Prop :=
  ∃ before text after,
    d.pieces old texts = before ++ .inserted i text :: after ∧ texts[i]? = some text ∧
      r.first = (linesOf before).length + 1 ∧ r.last = (linesOf before).length + text.length

section

variable {d : FileDiff} {old : List Line} {texts : List (List Line)}

theorem WellPlaced.tiles (hd : d.WellPlaced old.length) : Tiles old.length 0 d.records :=
  Placed.tiles_records hd (Int.natCast_nonneg _)

theorem Texts.ofRecords (htexts : d.Texts texts) : (FileDiff.ofRecords d.records).Texts texts := by
  rwa [ofRecords_records]

theorem WellPlaced.length_applyTo (hd : d.WellPlaced old.length) (htexts : d.Texts texts) :
    (d.applyTo old texts).length = (old.length : Int) + shiftAfter 0 d.records := by
  have hcount := length_play hd.tiles 0 texts old (by omega) htexts.ofRecords 0
  rw [← hd.pieces_eq htexts] at hcount
  rw [applyTo]
  omega

theorem WellPlaced.inverseFits (hd : d.WellPlaced old.length) (htexts : d.Texts texts)
    (hold : lineFits (old.length + 1) = true)
    (hnew : lineFits ((d.applyTo old texts).length + 1) = true) : d.inverseFits = true := by
  rw [hd.length_applyTo htexts] at hnew
  exact hd.tiles.shiftsFit (Int.le_refl 0) (by omega) hold hnew

end

/-- **The inverse restores the old version.** Let a well placed change put texts into a file. Each
text stands in the new version once, and the deletion of the inverse with its index covers just the
lines that it takes up there. The inverse is a well placed change of the new version, and with the
deleted lines as its texts it turns the new version back into the old one. Its numbers fit if those
of the lines of both versions do. -/
theorem applyTo_inverse_applyTo {d : FileDiff} {old : List Line} {texts : List (List Line)}
    (hd : d.WellPlaced old.length) (htexts : d.Texts texts) :
    (d.pieces old texts).filterMap Piece.index? = List.range d.additions.length ∧
      d.inverse.deletions.length = d.additions.length ∧
      (∀ i r, d.inverse.deletions[i]? = some r → d.TakesUp old texts i r) ∧
      d.inverse.WellPlaced (d.applyTo old texts).length ∧
      d.inverse.Texts (d.deletions.map (linesIn old)) ∧
      d.inverse.applyTo (d.applyTo old texts) (d.deletions.map (linesIn old)) = old ∧
      (lineFits (old.length + 1) = true → lineFits ((d.applyTo old texts).length + 1) = true →
        d.inverse? = some d.inverse) := by
  have htiles := hd.tiles
  have htexts' := htexts.ofRecords
  have hrecords := ofRecords_records d
  have hplay := hd.pieces_eq htexts
  have hinverse : d.inverse.WellPlaced (d.applyTo old texts).length := by
    rw [WellPlaced, hd.length_applyTo htexts]
    exact Placed.inverse hd (by omega)
  have hremoved : d.inverse.Texts (d.deletions.map (linesIn old)) := by
    have h := texts_inverse htiles (Int.le_refl 0) rfl 0
    rwa [hrecords, ← inverse_eq] at h
  refine ⟨?_, ?_, ?_, hinverse, hremoved, ?_, ?_⟩
  · rw [hplay, indices_play htiles, hrecords, List.range_eq_range']
  · rw [inverse_eq, length_deletions_inverseRecords, hrecords]
  · intro i r hr
    rw [inverse_eq] at hr
    obtain ⟨before, text, after, hsplit, htext, hfirst, hlast⟩ :=
      exists_piece_of_deletion htiles 0 texts old (by omega) htexts' 0 hr
    rw [← hplay, Nat.zero_add] at hsplit
    exact ⟨before, text, after, hsplit, htext, by omega, by omega⟩
  · have h := play_inverse_play htiles (Int.le_refl 0) rfl 0 texts htexts' 0 0
    rw [applyTo, hinverse.pieces_eq hremoved, Placed.records_inverse hd (by omega), applyTo, hplay]
    rwa [hrecords] at h
  · intro hold hnew
    rw [inverse?, hd.inverseFits htexts hold hnew, fitting_true]

/-- Two blocks at one place, right in front of a deletion, and a third right behind it. -/
theorem applyTo_inverse_applyTo_touching :
    let old : List Line := [['a'], ['b'], ['c'], ['d']]
    let d : FileDiff := ⟨[⟨1, 1⟩, ⟨1, 2⟩, ⟨3, 1⟩], [⟨2, 3⟩]⟩
    let texts : List (List Line) := [[['p']], [['q'], ['r']], [['s']]]
    d.WellPlaced old.length ∧ d.Texts texts ∧
      d.applyTo old texts = [['a'], ['p'], ['q'], ['r'], ['s'], ['d']] ∧
      d.inverse.applyTo (d.applyTo old texts) (d.deletions.map (linesIn old)) = old := by
  intro old d texts
  have hd : d.WellPlaced old.length := by constructor <;> decide
  have htexts : d.Texts texts := .cons rfl (.cons rfl (.cons rfl .nil))
  obtain ⟨-, -, -, -, -, hrestored, -⟩ := applyTo_inverse_applyTo hd htexts
  exact ⟨hd, htexts, by decide, hrestored⟩

end FileDiff

end EffortRank
