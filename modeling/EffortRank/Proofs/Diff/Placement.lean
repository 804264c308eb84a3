import EffortRank.Proofs.Diff.Order

/-!
# Well placed changes

A change is placed between the old lines `lo` and `hi` (`FileDiff.Placed`) if it takes lines out
behind `lo` and not behind `hi`, puts lines in behind `lo`, `hi` or a line between them, keeps its
records in order, and puts nothing in between two lines that it takes out together. Changes placed
one behind the other make one such change (`FileDiff.Placed.append`).
-/

namespace EffortRank

namespace FileDiff

/-- The change has its place behind the old line `lo`, up to the old line `hi`. -/
structure Placed (lo hi : Int) (d : FileDiff) : Prop where
  additions_sorted : d.additions.Pairwise Addition.Precedes
  additions_within : ∀ a ∈ d.additions, lo ≤ a.position ∧ a.position ≤ hi
  additions_nonempty : ∀ a ∈ d.additions, 1 ≤ a.length
  deletions_sorted : d.deletions.Pairwise LineRange.Precedes
  deletions_within : ∀ r ∈ d.deletions, lo < r.first ∧ r.first ≤ r.last ∧ r.last ≤ hi
  apart : ∀ a ∈ d.additions, ∀ r ∈ d.deletions, ¬ (r.first ≤ a.position ∧ a.position < r.last)

/-- The change is one of a file with the given number of lines. -/
def WellPlaced (d : FileDiff) (lineCount : Nat) : Prop := d.Placed 0 lineCount

namespace Placed

variable {lo mid hi : Int} {d e : FileDiff}

theorem empty : FileDiff.empty.Placed lo hi := by
  constructor <;> simp

theorem addition {a : Addition} (hlo : lo ≤ a.position) (hhi : a.position ≤ hi)
    (hn : 1 ≤ a.length) : Placed lo hi ⟨[a], []⟩ := by
  constructor <;> simp [hlo, hhi, hn]

theorem deletion {r : LineRange} (hlo : lo < r.first) (hr : r.first ≤ r.last) (hhi : r.last ≤ hi) :
    Placed lo hi ⟨[], [r]⟩ := by
  constructor <;> simp [hlo, hr, hhi]

theorem mono {lo' hi' : Int} (h : d.Placed lo hi) (hlo : lo' ≤ lo) (hhi : hi ≤ hi') :
    d.Placed lo' hi' where
  additions_sorted := h.additions_sorted
  additions_within a ha := by
    have := h.additions_within a ha
    omega
  additions_nonempty := h.additions_nonempty
  deletions_sorted := h.deletions_sorted
  deletions_within r hr := by
    have := h.deletions_within r hr
    omega
  apart := h.apart

theorem check_eq_ok (h : d.Placed lo hi) : d.check = .ok () :=
  check_eq_ok_iff.2 ⟨h.additions_sorted, h.deletions_sorted⟩

/-- **One change behind the other**: if `d` stops where `e` starts, both together are placed. -/
theorem append (hd : d.Placed lo mid) (he : e.Placed mid hi) (hlo : lo ≤ mid) (hhi : mid ≤ hi) :
    (d ++ e).Placed lo hi where
  additions_sorted := by
    refine List.pairwise_append.2 ⟨hd.additions_sorted, he.additions_sorted, fun a ha b hb => ?_⟩
    have h₁ := hd.additions_within a ha
    have h₂ := he.additions_within b hb
    exact Int.le_trans h₁.2 h₂.1
  additions_within a ha := by
    rcases List.mem_append.1 ha with ha | ha
    · have := hd.additions_within a ha
      omega
    · have := he.additions_within a ha
      omega
  additions_nonempty a ha := by
    rcases List.mem_append.1 ha with ha | ha
    · exact hd.additions_nonempty a ha
    · exact he.additions_nonempty a ha
  deletions_sorted := by
    refine List.pairwise_append.2 ⟨hd.deletions_sorted, he.deletions_sorted, fun r hr s hs => ?_⟩
    have h₁ := hd.deletions_within r hr
    have h₂ := he.deletions_within s hs
    exact ⟨by omega, by omega⟩
  deletions_within r hr := by
    rcases List.mem_append.1 hr with hr | hr
    · have := hd.deletions_within r hr
      omega
    · have := he.deletions_within r hr
      omega
  apart a ha r hr := by
    rcases List.mem_append.1 ha with ha | ha <;> rcases List.mem_append.1 hr with hr | hr
    · exact hd.apart a ha r hr
    · have h₁ := hd.additions_within a ha
      have h₂ := he.deletions_within r hr
      omega
    · have h₁ := he.additions_within a ha
      have h₂ := hd.deletions_within r hr
      omega
    · exact he.apart a ha r hr

/-- Behind its first addition, a change is placed from the position of that addition on. -/
theorem tail_addition {a : Addition} {as : List Addition} {rs : List LineRange}
    (h : Placed lo hi ⟨a :: as, rs⟩) (hr : ∀ r ∈ rs, a.position < r.first) :
    Placed a.position hi ⟨as, rs⟩ where
  additions_sorted := (List.pairwise_cons.1 h.additions_sorted).2
  additions_within b hb :=
    ⟨(List.pairwise_cons.1 h.additions_sorted).1 b hb,
      (h.additions_within b (List.mem_cons_of_mem _ hb)).2⟩
  additions_nonempty b hb := h.additions_nonempty b (List.mem_cons_of_mem _ hb)
  deletions_sorted := h.deletions_sorted
  deletions_within r hr' := ⟨hr r hr', (h.deletions_within r hr').2⟩
  apart b hb := h.apart b (List.mem_cons_of_mem _ hb)

theorem tail_deletion {r : LineRange} {as : List Addition} {rs : List LineRange}
    (h : Placed lo hi ⟨as, r :: rs⟩) (ha : ∀ a ∈ as, r.first ≤ a.position) :
    Placed r.last hi ⟨as, rs⟩ where
  additions_sorted := h.additions_sorted
  additions_within a ha' := by
    have h₁ := h.apart a ha' r List.mem_cons_self
    have h₂ := ha a ha'
    have h₃ := h.additions_within a ha'
    omega
  additions_nonempty := h.additions_nonempty
  deletions_sorted := (List.pairwise_cons.1 h.deletions_sorted).2
  deletions_within s hs :=
    ⟨((List.pairwise_cons.1 h.deletions_sorted).1 s hs).2,
      (h.deletions_within s (List.mem_cons_of_mem _ hs)).2⟩
  apart a ha' s hs := h.apart a ha' s (List.mem_cons_of_mem _ hs)

end Placed

end FileDiff

end EffortRank
