import EffortRank.NameMap.Sums
import EffortRank.Proofs.Churn.ChangedLines
import EffortRank.Proofs.Diff.Inversion

/-!
# How functions share the lines of a change

Functions in order share no line. So of all functions of one version, at most one takes in a given
addition, and together they hold no more lines of a range than there are. A pass over a version
therefore counts no line twice (`sum_adds_changedStats_le`, `sum_dels_changedStats_le`).

With the functions of both versions this is different: a block that stands in a function of one
version may have lines in functions of the other. `countedTwice` is the number of lines that both
count, and it is all that they count too much (`sum_shares_le`).
-/

namespace EffortRank

/-- The addition stands behind a line of the range, but not behind its last one. -/
def LineRange.TakesIn (r : LineRange) (a : Addition) : Prop :=
  r.first ≤ a.position ∧ a.position < r.last

instance (r : LineRange) (a : Addition) : Decidable (r.TakesIn a) :=
  inferInstanceAs (Decidable (_ ∧ _))

/-- The lines of an addition that functions count, the one that takes it in all of them. -/
def addedShare (functions : List FunctionRange) (a : Addition) : Nat :=
  if ∃ f ∈ functions, f.range.TakesIn a then a.lines else 0

theorem addedShare_le (functions : List FunctionRange) (a : Addition) :
    addedShare functions a ≤ a.lines := by
  rw [addedShare]
  split
  · exact Nat.le_refl _
  · exact Nat.zero_le _

/-- The number of lines of a range that lie in functions. -/
def heldLines (functions : List FunctionRange) (s : LineRange) : Nat :=
  (functions.map fun f => f.range.commonLines s).sum

/-- The number of lines of blocks that lie in functions of one version, although a function of the
other version takes in the addition that the block is. -/
def countedTwice (takers holders : List FunctionRange) (as : List Addition)
    (blocks : List LineRange) : Nat :=
  ((as.zip blocks).map fun e =>
    if ∃ f ∈ takers, f.range.TakesIn e.1 then heldLines holders e.2 else 0).sum

/-! ## Functions in order -/

section

variable {functions : List FunctionRange} {ranges : List LineRange}

/-- If at most one of some things has an element, the elements that any of them has are those that
each has, together. -/
theorem sum_exists_of_disjoint {α β : Type} {has : β → α → Prop} [∀ b a, Decidable (has b a)]
    {bs : List β} (h : bs.Pairwise fun b c => ∀ a, has b a → ¬ has c a) (weight : α → Nat)
    (as : List α) :
    (bs.map fun b => (as.map fun a => if has b a then weight a else 0).sum).sum =
      (as.map fun a => if ∃ b ∈ bs, has b a then weight a else 0).sum := by
  induction bs with
  | nil => simp
  | cons b bs ih =>
    rw [List.pairwise_cons] at h
    have hcons : ∀ a ∈ as, (if ∃ c ∈ b :: bs, has c a then weight a else 0) =
        (if has b a then weight a else 0) + if ∃ c ∈ bs, has c a then weight a else 0 := by
      intro a _
      simp only [List.mem_cons, exists_eq_or_imp]
      by_cases hb : has b a
      · have hnone : ¬ ∃ c ∈ bs, has c a := by
          rintro ⟨c, hc, ha⟩
          exact h.1 c hc a hb ha
        rw [if_pos (.inl hb), if_pos hb, if_neg hnone, Nat.add_zero]
      · rw [if_neg hb, Nat.zero_add]
        exact if_congr (or_iff_right hb) rfl rfl
    rw [List.map_cons, List.sum_cons, ih h.2, List.map_congr_left hcons, List.sum_map_add]

/-- **Of ranges in order, at most one takes in an addition.** -/
theorem disjoint_takesIn (h : ranges.Pairwise LineRange.Precedes) :
    ranges.Pairwise fun r s => ∀ a : Addition, r.TakesIn a → ¬ s.TakesIn a := by
  refine h.imp fun {r s} hprec a hr hs => ?_
  obtain ⟨-, hlast⟩ := hprec
  obtain ⟨-, hposition⟩ := hr
  obtain ⟨hfirst, -⟩ := hs
  omega

/-- Functions that start at a line or behind it hold lines of a range from there on, each once. -/
theorem heldLines_le_behind (h : (functions.map FunctionRange.range).Pairwise LineRange.Precedes)
    (s : LineRange) {line : Int} (hline : ∀ f ∈ functions, line ≤ f.range.first) :
    heldLines functions s ≤ (s.last + 1 - max line s.first).toNat := by
  induction functions generalizing line with
  | nil => exact Nat.zero_le _
  | cons f fs ih =>
    rw [List.map_cons, List.pairwise_cons, List.forall_mem_map] at h
    have hfirst := hline f List.mem_cons_self
    have hbehind : ∀ g ∈ fs, max f.range.first (f.range.last + 1) ≤ g.range.first := by
      intro g hg
      obtain ⟨hfirst, hlast⟩ := h.1 g hg
      exact Int.max_le.2 ⟨hfirst, hlast⟩
    have hrest := ih h.2 hbehind
    have hcommon := f.range.commonLines_eq s
    unfold heldLines at hrest ⊢
    rw [List.map_cons, List.sum_cons, hcommon]
    omega

theorem heldLines_le (h : (functions.map FunctionRange.range).Pairwise LineRange.Precedes)
    (s : LineRange) : heldLines functions s ≤ s.lines.length := by
  rw [s.length_lines]
  cases functions with
  | nil => exact Nat.zero_le _
  | cons f fs =>
    have hfirst : ∀ g ∈ f :: fs, f.range.first ≤ g.range.first := by
      rw [List.forall_mem_cons]
      refine ⟨Int.le_refl _, fun g hg => ?_⟩
      rw [List.map_cons, List.pairwise_cons, List.forall_mem_map] at h
      exact (h.1 g hg).1
    have hle := heldLines_le_behind h s hfirst
    omega

end

/-! ## One pass -/

theorem sum_namedPieces_le (v : String × Contribution → Nat) (functions : List FunctionRange)
    (d : FileDiff) :
    ((namedPieces functions d).map v).sum ≤
      (functions.map fun f =>
        ((d.piecesIn f.range).map fun piece => v (f.name, piece)).sum).sum := by
  have hvisits : ∀ c : ScanCursor,
      ((((functions.map FunctionRange.name).zip
        ((c.visitAll d (functions.map FunctionRange.range)).map (·.1))).flatMap
          fun e => e.2.map fun piece => (e.1, piece)).map v).sum ≤
      (functions.map fun f =>
        ((d.piecesIn f.range).map fun piece => v (f.name, piece)).sum).sum := by
    induction functions with
    | nil =>
      intro c
      exact Nat.zero_le _
    | cons f fs ih =>
      intro c
      rw [List.map_cons, List.map_cons, ScanCursor.visitAll, List.map_cons, List.zip_cons_cons,
        List.flatMap_cons, List.map_append, List.sum_append, List.map_cons, List.sum_cons,
        List.map_map]
      apply Nat.add_le_add
      · apply List.Sublist.sum_le_sum
        · exact (c.visit_sublist d).map _
        · exact fun _ _ => Nat.zero_le _
      · exact ih _
  exact hvisits .start

theorem sum_namedPieces (v : String × Contribution → Nat) {functions : List FunctionRange}
    {d : FileDiff} (hd : d.check = .ok ()) (hf : checkFunctions functions = .ok ()) :
    ((namedPieces functions d).map v).sum =
      (functions.map fun f =>
        ((d.piecesIn f.range).map fun piece => v (f.name, piece)).sum).sum := by
  rw [namedPieces, contributions_eq hd hf, List.flatMap_map, List.map_flatMap, List.flatMap_def,
    List.sum_flatten, List.map_map]
  simp only [Function.comp_def, List.map_map]

/-- What adds up under merging adds up over the pieces that a pass finds. -/
theorem sumOf_changedStats {w : String → ChangeStats → Nat} (hzero : ∀ name, w name .zero = 0)
    (hmerge : ∀ name s t, w name (s.merge t) = w name s + w name t)
    (functions : List FunctionRange) (d : FileDiff) (sources : Option SourceTexts) :
    (changedStats functions d sources).sumOf w =
      ((namedPieces functions d).map fun e =>
        w e.1 (e.2.stats (sources.map fun s => UnitMeter.of s d))).sum := by
  have hcount : ∀ (e : String × Contribution) (old : Option ChangeStats),
      w e.1 ((old.getD .zero).merge (e.2.stats (sources.map fun s => UnitMeter.of s d))) =
        old.elim 0 (w e.1) + w e.1 (e.2.stats (sources.map fun s => UnitMeter.of s d)) := by
    intro e old
    rw [hmerge]
    cases old with
    | none => rw [Option.getD_none, hzero, Option.elim_none]
    | some old => rw [Option.getD_some, Option.elim_some]
  exact (NameMap.sumOf_foldl_alter w _ _ _ hcount (namedPieces functions d) .empty).trans
    (Nat.zero_add _)

/-- The pieces in functions whose name has a property. -/
theorem sum_pieces_filter (φ : Contribution → Nat) (p : String → Prop) [DecidablePred p]
    (functions : List FunctionRange) (d : FileDiff) :
    (functions.map fun f =>
        ((d.piecesIn f.range).map fun piece => if p f.name then φ piece else 0).sum).sum =
      ((functions.filter fun f => p f.name).map fun f => ((d.piecesIn f.range).map φ).sum).sum := by
  have hfunction : ∀ f ∈ functions,
      ((d.piecesIn f.range).map fun piece => if p f.name then φ piece else 0).sum =
        if p f.name then ((d.piecesIn f.range).map φ).sum else 0 := by
    intro f _
    split
    · rfl
    · rw [List.map_const', List.sum_replicate, smul_zero]
  rw [List.map_congr_left hfunction, List.sum_map_ite, List.map_const', List.sum_replicate,
    smul_zero, Nat.add_zero]

section

variable {φ : ChangeStats → Nat} (hzero : φ .zero = 0)
  (hmerge : ∀ s t : ChangeStats, φ (s.merge t) = φ s + φ t) (p : String → Prop) [DecidablePred p]
include hzero hmerge

theorem sumOf_ite_changedStats (functions : List FunctionRange) (d : FileDiff)
    (sources : Option SourceTexts) :
    ((changedStats functions d sources).sumOf fun name s => if p name then φ s else 0) =
      ((namedPieces functions d).map fun e =>
        if p e.1 then φ (e.2.stats (sources.map fun s => UnitMeter.of s d)) else 0).sum :=
  sumOf_changedStats (w := fun name s => if p name then φ s else 0)
    (fun name => by rw [hzero, ite_self])
    (fun name s t => by split <;> simp only [hmerge, Nat.add_zero]) functions d sources

/-- What a pass counts for the functions whose name has a property, it finds in their ranges. -/
theorem sumOf_changedStats_le (functions : List FunctionRange) (d : FileDiff)
    (sources : Option SourceTexts) :
    ((changedStats functions d sources).sumOf fun name s => if p name then φ s else 0) ≤
      ((functions.filter fun f => p f.name).map fun f => ((d.piecesIn f.range).map fun piece =>
        φ (piece.stats (sources.map fun s => UnitMeter.of s d))).sum).sum := by
  rw [sumOf_ite_changedStats hzero hmerge, ← sum_pieces_filter]
  exact sum_namedPieces_le _ functions d

/-- If all is in order, a pass finds all that is in the ranges. -/
theorem sumOf_changedStats_eq {functions : List FunctionRange} {d : FileDiff}
    (hd : d.check = .ok ()) (hf : checkFunctions functions = .ok ())
    (sources : Option SourceTexts) :
    ((changedStats functions d sources).sumOf fun name s => if p name then φ s else 0) =
      ((functions.filter fun f => p f.name).map fun f => ((d.piecesIn f.range).map fun piece =>
        φ (piece.stats (sources.map fun s => UnitMeter.of s d))).sum).sum := by
  rw [sumOf_ite_changedStats hzero hmerge, ← sum_pieces_filter]
  exact sum_namedPieces _ hd hf

end

theorem sum_adds_piecesIn (meter : Option UnitMeter) (d : FileDiff) (range : LineRange) :
    ((d.piecesIn range).map fun piece => (piece.stats meter).adds).sum =
      (d.additions.map fun a => if range.TakesIn a then a.lines else 0).sum := by
  have hheld : ∀ t, ((Contribution.deleted t).stats meter).adds = 0 := fun _ => rfl
  rw [sum_piecesIn]
  simp only [hheld, List.map_const', List.sum_replicate, smul_zero, Nat.add_zero]
  exact sum_taken range d.additions

theorem sum_dels_piecesIn (meter : Option UnitMeter) (d : FileDiff) (range : LineRange) :
    ((d.piecesIn range).map fun piece => (piece.stats meter).dels).sum =
      (d.deletions.map range.sharedLength).sum := by
  have htaken : ∀ e : Addition × Nat,
      ((Contribution.added e.2 e.1.lines).stats meter).dels = 0 := fun _ => rfl
  rw [sum_piecesIn, sum_map_filterMap]
  simp only [htaken, ite_self, List.map_const', List.sum_replicate, smul_zero, Nat.zero_add]
  rfl

/-- **One pass counts no added line twice**: it counts what functions take in. -/
theorem sum_adds_changedStats_le (p : String → Prop) [DecidablePred p]
    {functions : List FunctionRange} (hf : checkFunctions functions = .ok ()) (d : FileDiff)
    (sources : Option SourceTexts) :
    ((changedStats functions d sources).sumOf fun name s => if p name then s.adds else 0) ≤
      (d.additions.map (addedShare (functions.filter fun f => p f.name))).sum := by
  have hsorted := checkFunctions_eq_ok_iff.1 (checkFunctions_filter hf fun f => p f.name)
  refine (sumOf_changedStats_le rfl (fun _ _ => rfl) p functions d sources).trans
    (Nat.le_of_eq ?_)
  simp only [sum_adds_piecesIn]
  exact sum_exists_of_disjoint (List.pairwise_map.1 (disjoint_takesIn hsorted)) Addition.lines
    d.additions

/-- **One pass counts no deleted line twice**: it counts what functions hold. -/
theorem sum_dels_changedStats_le (p : String → Prop) [DecidablePred p]
    (functions : List FunctionRange) (d : FileDiff) (sources : Option SourceTexts) :
    ((changedStats functions d sources).sumOf fun name s => if p name then s.dels else 0) ≤
      (d.deletions.map (heldLines (functions.filter fun f => p f.name))).sum := by
  refine (sumOf_changedStats_le rfl (fun _ _ => rfl) p functions d sources).trans ?_
  generalize functions.filter (fun f => p f.name) = fs
  induction fs with
  | nil => exact Nat.zero_le _
  | cons f fs ih =>
    have hcons : d.deletions.map (heldLines (f :: fs)) = d.deletions.map fun s =>
        f.range.commonLines s + heldLines fs s :=
      List.map_congr_left fun s _ => List.sum_cons
    rw [List.map_cons, List.sum_cons, hcons, List.sum_map_add, sum_dels_piecesIn]
    refine Nat.add_le_add (List.sum_le_sum fun s _ => ?_) ih
    rw [f.range.sharedLength_eq]
    exact Nat.min_le_left _ _

/-! ## Both versions -/

section

variable {takers holders : List FunctionRange} {as : List Addition} {blocks : List LineRange}

/-- The inverse takes out a block for each addition, and puts in what a deletion took out. -/
theorem FileDiff.forall₂_inverse (d : FileDiff) :
    List.Forall₂ (fun a block => block.lines.length = a.lines) d.additions d.inverse.deletions ∧
      List.Forall₂ (fun a block => block.lines.length = a.lines) d.inverse.additions
        d.deletions := by
  have hrecords : ∀ (L : List ChangeRecord) (shift : Int),
      List.Forall₂ (fun a block => block.lines.length = a.lines) (ofRecords L).additions
          (ofRecords (inverseRecords shift L)).deletions ∧
        List.Forall₂ (fun a block => block.lines.length = a.lines)
          (ofRecords (inverseRecords shift L)).additions (ofRecords L).deletions := by
    intro L
    induction L with
    | nil => exact fun _ => ⟨.nil, .nil⟩
    | cons record rest ih =>
      intro shift
      cases record with
      | added a =>
        obtain ⟨hadded, hdeleted⟩ := ih (shift + a.length)
        refine ⟨.cons ?_ hadded, hdeleted⟩
        rw [LineRange.length_lines, Addition.lines]
        dsimp only
        omega
      | deleted s =>
        obtain ⟨hadded, hdeleted⟩ := ih (shift - (s.last - s.first + 1))
        refine ⟨hadded, .cons ?_ hdeleted⟩
        rw [LineRange.length_lines, Addition.lines]
        dsimp only
        omega
  have hinverse := hrecords d.records 0
  rwa [← inverse_eq, ofRecords_records] at hinverse

theorem map_lines_of_forall₂ {length : LineRange → Nat}
    (h : List.Forall₂ (fun a block => length block = a.lines) as blocks) :
    as.map Addition.lines = blocks.map length := by
  induction h with
  | nil => rfl
  | cons hblock _ ih => rw [List.map_cons, List.map_cons, hblock, ih]

/-- **What both versions count**: functions of one version count additions, and those of the other
the lines of the blocks that the additions are. Together they count the added lines, and those that
they count twice. -/
theorem sum_shares_le
    (hholders : (holders.map FunctionRange.range).Pairwise LineRange.Precedes)
    (h : List.Forall₂ (fun a block => block.lines.length = a.lines) as blocks) :
    (as.map (addedShare takers)).sum + (blocks.map (heldLines holders)).sum ≤
      (as.map Addition.lines).sum + countedTwice takers holders as blocks := by
  induction h with
  | nil => exact Nat.zero_le _
  | @cons a block as blocks hblock _ ih =>
    have hheld := heldLines_le hholders block
    unfold countedTwice at ih ⊢
    unfold addedShare at ih ⊢
    simp only [List.zip_cons_cons, List.map_cons, List.sum_cons]
    split
    · omega
    · omega

theorem countedTwice_le
    (hholders : (holders.map FunctionRange.range).Pairwise LineRange.Precedes)
    (h : List.Forall₂ (fun a block => block.lines.length = a.lines) as blocks) :
    countedTwice takers holders as blocks ≤ (as.map Addition.lines).sum := by
  induction h with
  | nil => exact Nat.zero_le _
  | @cons a block as blocks hblock _ ih =>
    have hheld := heldLines_le hholders block
    unfold countedTwice at ih ⊢
    simp only [List.zip_cons_cons, List.map_cons, List.sum_cons]
    split
    · omega
    · omega

end

end EffortRank
