import EffortRank.Churn.Attribution
import EffortRank.Proofs.Diff.Inversion

/-!
# Applying a change to a file

To apply a change (`FileDiff.applyTo`) is to walk over the lines of the old version: lines that the
change takes out are dropped, and behind each line the blocks that the change puts in there come in
the order of its additions. The pieces of the walk (`FileDiff.pieces`) keep track of what came from
where. The walk looks at the places of all records at each line. `play` gives the same pieces record
by record (`FileDiff.WellPlaced.pieces_eq`), which is how the inverse is computed.
-/

namespace EffortRank

open Text

/-- A block of new lines, which goes behind the old line `position`. -/
structure Insertion where
  index : Nat
  position : Int
  lines : List Line

/-- A piece of the new version: a line that was there before, or a block of new lines. -/
inductive Piece where
  | kept (line : Line)
  | inserted (index : Nat) (lines : List Line)

namespace Piece

def lines : Piece → List Line
  | .kept line => [line]
  | .inserted _ lines => lines

def index? : Piece → Option Nat
  | .kept _ => none
  | .inserted index _ => some index

end Piece

def linesOf (pieces : List Piece) : List Line := pieces.flatMap Piece.lines

/-- The blocks that go behind the old line `p`. -/
def blocksAt (blocks : List Insertion) (p : Int) : List Piece :=
  (blocks.filter fun b => b.position = p).map fun b => .inserted b.index b.lines

/-- The pieces of the new version from the old line `p` on: the blocks behind that line, then the
next line unless it is deleted, and so on to the end of the old version. -/
def walk (blocks : List Insertion) (deletions : List LineRange) (p : Int) :
    List Line → List Piece
  | [] => blocksAt blocks p
  | line :: rest =>
    blocksAt blocks p ++
      ((if deletions.any fun r => r.contains (p + 1) then [] else [.kept line]) ++
        walk blocks deletions (p + 1) rest)

/-- Additions with the texts that they put in, numbered from `index` on. -/
def insertionsFrom (index : Nat) : List Addition → List (List Line) → List Insertion
  | a :: as, text :: texts => ⟨index, a.position, text⟩ :: insertionsFrom (index + 1) as texts
  | _, _ => []

namespace FileDiff

def pieces (d : FileDiff) (old : List Line) (texts : List (List Line)) : List Piece :=
  walk (insertionsFrom 0 d.additions texts) d.deletions 0 old

/-- The new version of a file, where `texts` are the blocks that the additions put in. -/
def applyTo (d : FileDiff) (old : List Line) (texts : List (List Line)) : List Line :=
  linesOf (d.pieces old texts)

/-- There is a text for each addition, of the length that the addition says. -/
def Texts (d : FileDiff) (texts : List (List Line)) : Prop :=
  List.Forall₂ (fun a text => a.length = (text.length : Int)) d.additions texts

end FileDiff

@[simp] theorem linesOf_cons (piece : Piece) (pieces : List Piece) :
    linesOf (piece :: pieces) = piece.lines ++ linesOf pieces := by
  simp [linesOf]

@[simp] theorem linesOf_append (ps qs : List Piece) :
    linesOf (ps ++ qs) = linesOf ps ++ linesOf qs := by
  simp [linesOf]

@[simp] theorem linesOf_kept (lines : List Line) : linesOf (lines.map .kept) = lines := by
  induction lines with
  | nil => rfl
  | cons line rest ih => simp [ih, Piece.lines]

/-! ## Stretches of the walk -/

section Walk

variable {blocks : List Insertion} {deletions : List LineRange} {p : Int}

theorem blocksAt_of_lt (h : ∀ b ∈ blocks, p < b.position) : blocksAt blocks p = [] := by
  have hnone : blocks.filter (fun b => b.position = p) = [] := by
    refine List.filter_eq_nil_iff.2 fun b hb => ?_
    have := h b hb
    simp only [decide_eq_true_eq]
    omega
  rw [blocksAt, hnone, List.map_nil]

theorem walk_kept {k : Nat} {old : List Line} (hblocks : ∀ b ∈ blocks, p + k ≤ b.position)
    (hdeletions : ∀ r ∈ deletions, p + k < r.first) (hk : k ≤ old.length) :
    walk blocks deletions p old =
      (old.take k).map .kept ++ walk blocks deletions (p + k) (old.drop k) := by
  induction k generalizing p old with
  | zero => simp
  | succ k ih =>
    cases old with
    | nil => simp at hk
    | cons line rest =>
      have hnext : p + 1 + (k : Int) = p + ((k + 1 : Nat) : Int) := by omega
      have hnone : blocksAt blocks p = [] :=
        blocksAt_of_lt fun b hb => by have := hblocks b hb; omega
      have hkeep : (deletions.any fun r => r.contains (p + 1)) = false := by
        refine List.any_eq_false.2 fun r hr => ?_
        have := hdeletions r hr
        rw [LineRange.contains_iff]
        omega
      have hlength : k ≤ rest.length := by simpa using hk
      have hrest := ih (p := p + 1)
        (fun b hb => by have := hblocks b hb; omega)
        (fun r hr => by have := hdeletions r hr; omega) hlength
      rw [walk, hnone, hkeep, hrest, hnext]
      simp

theorem walk_deleted {k : Nat} {old : List Line} {r : LineRange} (hr : r ∈ deletions)
    (hblocks : ∀ b ∈ blocks, p + k ≤ b.position) (hfirst : r.first ≤ p + 1)
    (hlast : p + k ≤ r.last) (hk : k ≤ old.length) :
    walk blocks deletions p old = walk blocks deletions (p + k) (old.drop k) := by
  induction k generalizing p old with
  | zero => simp
  | succ k ih =>
    cases old with
    | nil => simp at hk
    | cons line rest =>
      have hnext : p + 1 + (k : Int) = p + ((k + 1 : Nat) : Int) := by omega
      have hnone : blocksAt blocks p = [] :=
        blocksAt_of_lt fun b hb => by have := hblocks b hb; omega
      have hdrop : (deletions.any fun r => r.contains (p + 1)) = true := by
        refine List.any_eq_true.2 ⟨r, hr, ?_⟩
        rw [LineRange.contains_iff]
        omega
      have hlength : k ≤ rest.length := by simpa using hk
      have hrest := ih (p := p + 1)
        (fun b hb => by have := hblocks b hb; omega) (by omega) (by omega) hlength
      rw [walk, hnone, hdrop, hrest, hnext]
      simp

/-- A block that the walk has passed plays no part any more. -/
theorem walk_cons_of_lt {b : Insertion} {old : List Line} (hb : b.position < p) :
    walk (b :: blocks) deletions p old = walk blocks deletions p old := by
  have hskip : ∀ q, b.position < q → blocksAt (b :: blocks) q = blocksAt blocks q := by
    intro q hq
    have hne : ¬ b.position = q := by omega
    simp [blocksAt, hne]
  induction old generalizing p with
  | nil => rw [walk, walk, hskip p hb]
  | cons line rest ih => rw [walk, walk, hskip p hb, ih (by omega)]

theorem walk_cons_of_eq {b : Insertion} {old : List Line} (hb : b.position = p) :
    walk (b :: blocks) deletions p old =
      .inserted b.index b.lines :: walk blocks deletions p old := by
  have hhead : blocksAt (b :: blocks) p = .inserted b.index b.lines :: blocksAt blocks p := by
    simp [blocksAt, hb]
  cases old with
  | nil => rw [walk, walk, hhead]
  | cons line rest =>
    rw [walk, walk, hhead, walk_cons_of_lt (by omega), List.cons_append]

/-- A deletion that the walk has passed plays no part any more. -/
theorem walk_deletion_of_le {r : LineRange} {old : List Line} (hr : r.last ≤ p) :
    walk blocks (r :: deletions) p old = walk blocks deletions p old := by
  induction old generalizing p with
  | nil => rw [walk, walk]
  | cons line rest ih =>
    have hout : r.contains (p + 1) = false := by
      rw [Bool.eq_false_iff, ne_eq, LineRange.contains_iff]
      omega
    rw [walk, walk, List.any_cons, hout, Bool.false_or, ih (by omega)]

end Walk

/-! ## Record by record -/

/-- The pieces of the new version behind the old line `p`, record by record. `old` are the old lines
behind `p`, and `texts` the texts of the additions among the records. -/
def play (index : Nat) (p : Int) :
    List ChangeRecord → List (List Line) → List Line → List Piece
  | [], _, old => old.map .kept
  | .added a :: rest, texts, old =>
    (old.take (a.position - p).toNat).map .kept ++
      .inserted index (texts.headD []) ::
        play (index + 1) a.position rest texts.tail (old.drop (a.position - p).toNat)
  | .deleted r :: rest, texts, old =>
    (old.take (r.first - 1 - p).toNat).map .kept ++
      play index r.last rest texts (old.drop (r.last - p).toNat)

theorem exists_position_of_mem_insertionsFrom {index : Nat} {as : List Addition}
    {texts : List (List Line)} {b : Insertion} (hb : b ∈ insertionsFrom index as texts) :
    ∃ a ∈ as, a.position = b.position := by
  induction as generalizing index texts with
  | nil => simp [insertionsFrom] at hb
  | cons a as ih =>
    cases texts with
    | nil => simp [insertionsFrom] at hb
    | cons text texts =>
      rw [insertionsFrom, List.mem_cons] at hb
      rcases hb with rfl | hb
      · exact ⟨a, List.mem_cons_self, rfl⟩
      · obtain ⟨c, hc, hpos⟩ := ih hb
        exact ⟨c, List.mem_cons_of_mem _ hc, hpos⟩

section

variable {hi p : Int} {rest : List ChangeRecord} {texts : List (List Line)} {old : List Line}

/-- Up to an addition the walk keeps all lines, and then comes its block. -/
theorem Tiles.walk_added {a : Addition} (h : Tiles hi p (.added a :: rest)) (index : Nat)
    (text : List Line) (hold : a.position ≤ p + old.length) :
    walk (insertionsFrom index (a :: (FileDiff.ofRecords rest).additions) (text :: texts))
        (FileDiff.ofRecords rest).deletions p old =
      (old.take (a.position - p).toNat).map .kept ++ .inserted index text ::
        walk (insertionsFrom (index + 1) (FileDiff.ofRecords rest).additions texts)
          (FileDiff.ofRecords rest).deletions a.position (old.drop (a.position - p).toNat) := by
  cases h with
  | added hpos hn hrest =>
    have hplaced := hrest.placed
    obtain ⟨k, hk⟩ : ∃ k : Nat, a.position = p + k := ⟨(a.position - p).toNat, by omega⟩
    have hsub : (a.position - p).toNat = k := by omega
    have hblocks : ∀ b ∈ insertionsFrom index (a :: (FileDiff.ofRecords rest).additions)
        (text :: texts), p + k ≤ b.position := by
      intro b hb
      obtain ⟨c, hc, hposition⟩ := exists_position_of_mem_insertionsFrom hb
      rcases List.mem_cons.1 hc with rfl | hc
      · omega
      · have := hplaced.additions_within c hc
        omega
    have hdeletions : ∀ r ∈ (FileDiff.ofRecords rest).deletions, p + k < r.first := by
      intro r hr
      have := hplaced.deletions_within r hr
      omega
    rw [walk_kept hblocks hdeletions (by omega), hsub, insertionsFrom,
      walk_cons_of_eq (by dsimp only; omega), ← hk]

section

variable {r : LineRange} (h : Tiles hi p (.deleted r :: rest)) (index : Nat)
  (texts : List (List Line))
include h

theorem Tiles.last_le_position :
    ∀ b ∈ insertionsFrom index (FileDiff.ofRecords rest).additions texts, r.last ≤ b.position := by
  cases h with
  | deleted hfirst hr hrest =>
    intro b hb
    obtain ⟨c, hc, hposition⟩ := exists_position_of_mem_insertionsFrom hb
    have := hrest.placed.additions_within c hc
    omega

/-- In front of a deletion, the walk keeps all lines. -/
theorem Tiles.walk_kept (old : List Line) {k : Nat} (hk : p + k < r.first)
    (hold : k ≤ old.length) :
    walk (insertionsFrom index (FileDiff.ofRecords rest).additions texts)
        (r :: (FileDiff.ofRecords rest).deletions) p old =
      (old.take k).map .kept ++
        walk (insertionsFrom index (FileDiff.ofRecords rest).additions texts)
          (r :: (FileDiff.ofRecords rest).deletions) (p + k) (old.drop k) := by
  have hblocks := h.last_le_position index texts
  cases h with
  | deleted hfirst hr hrest =>
    refine EffortRank.walk_kept (fun b hb => ?_) (fun s hs => ?_) hold
    · have := hblocks b hb
      omega
    · rcases List.mem_cons.1 hs with rfl | hs
      · omega
      · have := hrest.placed.deletions_within s hs
        omega

/-- Of a text that ends in front of a deletion, the walk keeps all lines. -/
theorem Tiles.walk_before {old : List Line} (hold : p + old.length < r.first) :
    walk (insertionsFrom index (FileDiff.ofRecords rest).additions texts)
        (r :: (FileDiff.ofRecords rest).deletions) p old = old.map .kept := by
  have hposition := h.last_le_position index texts
  have hkept := h.walk_kept index texts old hold (Nat.le_refl _)
  cases h with
  | deleted hfirst hr hrest =>
    have hnone : blocksAt (insertionsFrom index (FileDiff.ofRecords rest).additions texts)
        (p + old.length) = [] :=
      blocksAt_of_lt fun b hb => by have := hposition b hb; omega
    rw [hkept, List.take_length, List.drop_length, walk, hnone, List.append_nil]

/-- The walk drops the lines of a deletion. -/
theorem Tiles.walk_deleted (hold : r.last ≤ p + old.length) :
    walk (insertionsFrom index (FileDiff.ofRecords rest).additions texts)
        (r :: (FileDiff.ofRecords rest).deletions) p old =
      (old.take (r.first - 1 - p).toNat).map .kept ++
        walk (insertionsFrom index (FileDiff.ofRecords rest).additions texts)
          (FileDiff.ofRecords rest).deletions r.last (old.drop (r.last - p).toNat) := by
  have hblocks := h.last_le_position index texts
  have hkept := h.walk_kept index texts old (k := (r.first - 1 - p).toNat)
  cases h with
  | deleted hfirst hr hrest =>
    obtain ⟨k, hk⟩ : ∃ k : Nat, r.first = p + k + 1 := ⟨(r.first - 1 - p).toNat, by omega⟩
    obtain ⟨n, hn⟩ : ∃ n : Nat, r.last = p + k + n := ⟨(r.last - p - k).toNat, by omega⟩
    have hfirst' : (r.first - 1 - p).toNat = k := by omega
    have hlast' : (r.last - p).toNat = k + n := by omega
    rw [hfirst'] at hkept ⊢
    rw [hlast', hkept (by omega) (by omega),
      EffortRank.walk_deleted (k := n) List.mem_cons_self
        (fun b hb => by have := hblocks b hb; omega) (by omega) (by omega)
        (by rw [List.length_drop]; omega),
      walk_deletion_of_le (by omega), List.drop_drop, ← hn]

end

end

/-- **The walk goes record by record**: between its records, a change keeps the old lines. -/
theorem walk_eq_play {hi p : Int} {L : List ChangeRecord} (h : Tiles hi p L) (index : Nat)
    (texts : List (List Line)) (old : List Line) (hlength : hi = p + old.length)
    (htexts : (FileDiff.ofRecords L).Texts texts) :
    walk (insertionsFrom index (FileDiff.ofRecords L).additions texts)
      (FileDiff.ofRecords L).deletions p old = play index p L texts old := by
  induction h generalizing index texts old with
  | @done p _ =>
    have hkept : walk [] [] p old = _ :=
      walk_kept (k := old.length) (by simp) (by simp) (Nat.le_refl _)
    simpa [FileDiff.ofRecords, FileDiff.empty, insertionsFrom, play, walk, blocksAt] using hkept
  | @added p a rest hpos hn hrest ih =>
    cases htexts with
    | @cons _ text _ texts htext htexts =>
      have hle := hrest.le
      have hplay := ih (index + 1) texts (old.drop (a.position - p).toNat)
        (by rw [List.length_drop]; omega) htexts
      rw [FileDiff.ofRecords, (Tiles.added hpos hn hrest).walk_added index text (by omega), hplay,
        play]
      rfl
  | @deleted p r rest hfirst hr hrest ih =>
    have hle := hrest.le
    have hplay := ih index texts (old.drop (r.last - p).toNat) (by rw [List.length_drop]; omega)
      htexts
    rw [FileDiff.ofRecords, (Tiles.deleted hfirst hr hrest).walk_deleted index texts (by omega),
      hplay, play]

namespace FileDiff

theorem WellPlaced.pieces_eq {d : FileDiff} {old : List Line} {texts : List (List Line)}
    (hd : d.WellPlaced old.length) (htexts : d.Texts texts) :
    d.pieces old texts = play 0 0 d.records texts old := by
  have htiles := Placed.tiles_records hd (by omega)
  have hwalk := walk_eq_play htiles 0 texts old (by simp) (by rwa [ofRecords_records])
  rwa [ofRecords_records] at hwalk

end FileDiff

end EffortRank
