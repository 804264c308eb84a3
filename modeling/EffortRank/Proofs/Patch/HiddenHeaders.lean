import EffortRank.Proofs.Patch.HeaderSearch
import EffortRank.Proofs.Patch.Reading

/-!
# Headers hidden in the lines of a diff

The reader of bodies looks for headers at the starts of lines only, and `hunksOf` looks for them
everywhere. A line of a body, or what stands behind a header, may show a header too, and one that
begins in the middle of a line may even run on into the next line and take the header that starts
there for its end. So the two agree on a well formed diff if no header is hidden in this way
(`HeadersStartLines`): each one starts within a header that starts its line.

The headers that start lines are listed line by line (`exists_lineSpans`). They are the headers of
the hunks, and the search takes them all if it takes no others (`hunksOf_eq_hunks_iff`).
-/

namespace EffortRank

open Text

/-! ## Headers that start lines -/

/-- A line of the text starts at the place. -/
def LineStart (text : List Char) (place : Nat) : Prop :=
  place = 0 ∨ text[place - 1]? = some '\n'

/-- Each header of the text starts within one that starts its line. -/
def HeadersStartLines (text : List Char) : Prop :=
  ∀ s : HeaderSpan, s.In text →
    ∃ t : HeaderSpan, t.In text ∧ LineStart text t.start ∧ t.start ≤ s.start ∧ s.start < t.stop

instance (text : List Char) (place : Nat) : Decidable (LineStart text place) :=
  inferInstanceAs (Decidable (_ ∨ _))

/-- All headers of a text, by the places where they start. -/
def headersIn (text : List Char) : List HeaderSpan :=
  (List.range text.length).filterMap fun place =>
    (completeHeader? (text.drop place)).map fun found => ⟨found.1, place, found.2⟩

theorem mem_headersIn_iff {text : List Char} {s : HeaderSpan} :
    s ∈ headersIn text ↔ s.In text := by
  rw [headersIn, List.mem_filterMap]
  constructor
  · rintro ⟨place, -, hplace⟩
    obtain ⟨found, hfound, rfl⟩ := Option.map_eq_some_iff.1 hplace
    exact HeaderSpan.in_iff.2 hfound
  · intro hs
    have hlength := hs.length_pos
    have hstop := hs.stop_le
    rw [HeaderSpan.stop] at hstop
    refine ⟨s.start, List.mem_range.2 (by omega), ?_⟩
    rw [HeaderSpan.in_iff.1 hs]
    rfl

instance (text : List Char) : Decidable (HeadersStartLines text) :=
  decidable_of_iff
    (∀ s ∈ headersIn text, ∃ t ∈ headersIn text,
      LineStart text t.start ∧ t.start ≤ s.start ∧ s.start < t.stop)
    (by simp only [mem_headersIn_iff, HeadersStartLines])

/-- The complete header at the start of a line. -/
def headerOfLine? (line : Line) : Option Header := (completeHeader? line).map Prod.fst

/-- Behind a first line, lines start at its end and where they did without it. -/
theorem lineStart_append_iff {line text : List Char} (hline : '\n' ∉ line) {place : Nat} :
    LineStart (line ++ '\n' :: text) place ↔
      place = 0 ∨ ∃ rest, place = line.length + 1 + rest ∧ LineStart text rest := by
  constructor
  · rintro (rfl | hfeed)
    · exact .inl rfl
    · rcases Nat.lt_or_ge (place - 1) line.length with hlt | hge
      · rw [List.getElem?_append_left hlt] at hfeed
        exact absurd (List.mem_of_getElem? hfeed) hline
      · rcases Nat.eq_zero_or_pos place with rfl | hpos
        · exact .inl rfl
        · refine .inr ⟨place - (line.length + 1), by omega, ?_⟩
          rw [List.getElem?_append_right hge] at hfeed
          by_cases hfirst : place = line.length + 1
          · exact .inl (by omega)
          · have hplace : place - 1 - line.length = place - (line.length + 1) - 1 + 1 := by omega
            rw [hplace, List.getElem?_cons_succ] at hfeed
            exact .inr hfeed
  · rintro (rfl | ⟨rest, rfl, rfl | hfeed⟩)
    · exact .inl rfl
    · exact .inr (by simp)
    · right
      have hplace : line.length + 1 + rest - 1 = line.length + rest := by omega
      rw [hplace, List.getElem?_append_right (Nat.le_add_right _ _), Nat.add_sub_cancel_left]
      cases rest with
      | zero => rfl
      | succ n => simpa using hfeed

/-- The header stands behind `n` more characters. -/
def HeaderSpan.behind (n : Nat) (s : HeaderSpan) : HeaderSpan := { s with start := n + s.start }

theorem HeaderSpan.in_behind_iff {s : HeaderSpan} {before text : List Char} :
    (s.behind before.length).In (before ++ text) ↔ s.In text := by
  rw [in_iff, in_iff, behind]
  dsimp only
  rw [List.drop_length_add_append]

/-! ## Line by line -/

theorem looksLikeHeader_of_completeHeader? {cs : List Char} {h : Header} {n : Nat}
    (hfound : completeHeader? cs = some (h, n)) : ['@', '@'] <+: cs := by
  obtain ⟨_, rest, rfl, ⟨line, -, -, -, -, -, rfl⟩, -⟩ := completeHeader?_eq_some_iff.1 hfound
  exact ⟨_, rfl⟩

theorem looksLikeHeader_of_append {line : Line} {rest : List Char}
    (h : ['@', '@'] <+: line ++ rest) (hrest : rest.head? ≠ some '@') : LooksLikeHeader line := by
  cases line with
  | nil =>
    obtain ⟨after, hafter⟩ := h
    exact absurd (congrArg List.head? hafter).symm hrest
  | cons c line =>
    rw [List.cons_append, List.cons_prefix_cons] at h
    obtain ⟨hc, h⟩ := h
    cases line with
    | nil =>
      obtain ⟨after, hafter⟩ := h
      exact absurd (congrArg List.head? hafter).symm hrest
    | cons d line =>
      rw [List.cons_append, List.cons_prefix_cons] at h
      rw [← hc, ← h.1]
      exact ⟨line, rfl⟩

/-- A line starts with the same header whatever comes behind it, unless it only starts like one. -/
theorem completeHeader?_append {line : Line} {rest : List Char} (hrest : rest.head? ≠ some '@')
    (hline : LooksLikeHeader line → (completeHeader? line).isSome = true) :
    completeHeader? (line ++ rest) = completeHeader? line := by
  cases hfound : completeHeader? line with
  | some found =>
    obtain ⟨cs, after, rfl, hspelled, hlength⟩ := completeHeader?_eq_some_iff.1 hfound
    exact completeHeader?_eq_some_iff.2
      ⟨cs, after ++ rest, List.append_assoc cs after rest, hspelled, hlength⟩
  | none =>
    cases hbehind : completeHeader? (line ++ rest) with
    | none => rfl
    | some found =>
      have hsome := hline
        (looksLikeHeader_of_append (looksLikeHeader_of_completeHeader? hbehind) hrest)
      rw [hfound] at hsome
      cases hsome

/-- The complete header at the start of a text. -/
def firstHeader? (text : List Char) : Option HeaderSpan :=
  (completeHeader? text).map fun found => ⟨found.1, 0, found.2⟩

theorem firstHeader?_eq_some_iff {text : List Char} {s : HeaderSpan} :
    firstHeader? text = some s ↔ s.In text ∧ s.start = 0 := by
  rw [firstHeader?, Option.map_eq_some_iff]
  constructor
  · rintro ⟨⟨h, n⟩, hfound, rfl⟩
    exact ⟨HeaderSpan.in_iff.2 hfound, rfl⟩
  · rintro ⟨hin, hstart⟩
    rw [HeaderSpan.in_iff, hstart, List.drop_zero] at hin
    exact ⟨_, hin, by rw [← hstart]⟩

/-- The headers that start lines of the text, in their order. -/
structure ListsLineStarts (text : List Char) (own : List HeaderSpan) : Prop where
  ordered : own.Pairwise fun s t => s.stop ≤ t.start
  mem_iff : ∀ s : HeaderSpan, s ∈ own ↔ s.In text ∧ LineStart text s.start

/-- One more line in front. -/
theorem ListsLineStarts.cons {line text : List Char} {own : List HeaderSpan}
    (h : ListsLineStarts text own) (hline : '\n' ∉ line)
    (hfirst : ∀ s ∈ firstHeader? (line ++ '\n' :: text), s.stop ≤ line.length) :
    ListsLineStarts (line ++ '\n' :: text)
      ((firstHeader? (line ++ '\n' :: text)).toList ++
        own.map (HeaderSpan.behind (line.length + 1))) where
  ordered := by
    refine List.pairwise_append.2 ⟨?_, ?_, ?_⟩
    · cases firstHeader? (line ++ '\n' :: text) with
      | none => exact .nil
      | some s => exact List.pairwise_singleton _ s
    · refine List.pairwise_map.2 (h.ordered.imp fun {s t} hst => ?_)
      rw [HeaderSpan.stop] at hst ⊢
      dsimp only [HeaderSpan.behind]
      omega
    · intro s hs t ht
      have hstop := hfirst s (Option.mem_toList.1 hs)
      obtain ⟨u, -, rfl⟩ := List.mem_map.1 ht
      dsimp only [HeaderSpan.behind]
      omega
  mem_iff s := by
    have hin (t : HeaderSpan) :
        (t.behind (line.length + 1)).In (line ++ '\n' :: text) ↔ t.In text := by
      have hbehind : (t.behind (line ++ ['\n']).length).In (line ++ ['\n'] ++ text) ↔ t.In text :=
        HeaderSpan.in_behind_iff
      rwa [List.length_append, List.length_singleton, List.append_assoc, List.singleton_append]
        at hbehind
    rw [List.mem_append, Option.mem_toList, firstHeader?_eq_some_iff, List.mem_map,
      lineStart_append_iff hline]
    constructor
    · rintro (⟨hs, hstart⟩ | ⟨t, ht, rfl⟩)
      · exact ⟨hs, .inl hstart⟩
      · obtain ⟨htext, hstart⟩ := (h.mem_iff t).1 ht
        exact ⟨(hin t).2 htext, .inr ⟨t.start, rfl, hstart⟩⟩
    · rintro ⟨hs, hstart | ⟨place, hplace, hstart⟩⟩
      · exact .inl ⟨hs, hstart⟩
      · have hbehind : HeaderSpan.behind (line.length + 1) { s with start := place } = s := by
          rw [HeaderSpan.behind, ← hplace]
        rw [← hbehind, hin] at hs
        exact .inr ⟨_, (h.mem_iff _).2 ⟨hs, hstart⟩, hbehind⟩

theorem map_header_firstHeader? (line : Line) :
    (firstHeader? line).toList.map HeaderSpan.header = (headerOfLine? line).toList := by
  rw [firstHeader?, headerOfLine?]
  cases completeHeader? line <;> rfl

/-- One more line with its ending in front. The line feed, or the carriage return in front of it,
cannot go on with a header. -/
theorem ListsLineStarts.exists_cons {line : Line} (ending : Line) {ls : List Line}
    {text : List Char} {own : List HeaderSpan} (hown : ListsLineStarts text own)
    (hheaders : own.map HeaderSpan.header = ls.filterMap headerOfLine?)
    (hfeed : '\n' ∉ line ++ ending) (hending : (ending ++ '\n' :: text).head? ≠ some '@')
    (hline : LooksLikeHeader line → (completeHeader? line).isSome = true) :
    ∃ own, ListsLineStarts (line ++ ending ++ '\n' :: text) own ∧
      own.map HeaderSpan.header = (line :: ls).filterMap headerOfLine? := by
  have hfirst : firstHeader? (line ++ ending ++ '\n' :: text) = firstHeader? line := by
    rw [firstHeader?, firstHeader?, List.append_assoc, completeHeader?_append hending hline]
  refine ⟨_, hown.cons hfeed fun s hs => ?_, ?_⟩
  · rw [hfirst] at hs
    have hstop := (firstHeader?_eq_some_iff.1 hs).1.stop_le
    rw [List.length_append]
    omega
  · have hbehind : HeaderSpan.header ∘ HeaderSpan.behind ((line ++ ending).length + 1) =
        HeaderSpan.header := rfl
    rw [hfirst, List.map_append, map_header_firstHeader?, List.map_map, hbehind, hheaders,
      List.filterMap_cons]
    cases headerOfLine? line <;> rfl

/-- **The headers that start lines** are those of the lines, if each line that starts like a header
has one. -/
theorem exists_lineSpans {ls : List Line} {text : List Char} (h : Spells ls text)
    (hls : ∀ line ∈ ls, LooksLikeHeader line → (completeHeader? line).isSome = true) :
    ∃ own, ListsLineStarts text own ∧
      own.map HeaderSpan.header = ls.filterMap headerOfLine? := by
  induction h with
  | nil =>
    refine ⟨[], ⟨.nil, fun s => ?_⟩, rfl⟩
    rw [HeaderSpan.in_iff, List.drop_nil]
    constructor
    · intro hs
      cases hs
    · rintro ⟨hs, -⟩
      cases hs
  | @last l hfeed hne =>
    refine ⟨(firstHeader? l).toList, ⟨?_, fun s => ?_⟩, ?_⟩
    · cases firstHeader? l with
      | none => exact .nil
      | some s => exact List.pairwise_singleton _ s
    · rw [Option.mem_toList, firstHeader?_eq_some_iff]
      have hnot : l[s.start - 1]? ≠ some '\n' := fun h => hfeed (List.mem_of_getElem? h)
      rw [LineStart, or_iff_left hnot]
    · rw [map_header_firstHeader?, List.filterMap_cons, List.filterMap_nil]
      cases headerOfLine? l <;> rfl
  | @feed line ls text hfeed hreturn hrest ih =>
    rw [List.forall_mem_cons] at hls
    obtain ⟨own, hown, hheaders⟩ := ih hls.2
    have hnext := hown.exists_cons [] hheaders (by simpa using hfeed) (by simp) hls.1
    rwa [List.append_nil] at hnext
  | @returnFeed line ls text hfeed hrest ih =>
    rw [List.forall_mem_cons] at hls
    obtain ⟨own, hown, hheaders⟩ := ih hls.2
    have hnext := hown.exists_cons ['\r'] hheaders (by simpa using hfeed) (by simp) hls.1
    rwa [List.append_assoc, List.singleton_append] at hnext

/-! ## The headers of a diff -/

theorem headerOfLine?_eq_none {line : Line} (h : ¬ LooksLikeHeader line) :
    headerOfLine? line = none := by
  rw [headerOfLine?]
  cases hfound : completeHeader? line with
  | none => rfl
  | some found => exact absurd (looksLikeHeader_of_completeHeader? hfound) h

namespace HunkText.WellFormed

variable {h : HunkText}

theorem headerOfLine?_header (hh : h.WellFormed) (hcomplete : h.header.header.isComplete = true) :
    headerOfLine? h.header.text = some h.header.header := by
  obtain ⟨hdigits, -⟩ := Header.hunk?_eq_some hh.announced
  have hfound := completeHeader?_eq_some_iff.2 ⟨_, h.header.heading, h.header.text_eq_append,
    ⟨{ h.header with heading := [] }, hh.blanks, hdigits, hcomplete, rfl, rfl, rfl⟩, rfl⟩
  rw [headerOfLine?, hfound]
  rfl

/-- Only the first line of a hunk starts like a header. -/
theorem not_looksLikeHeader (hh : h.WellFormed) :
    ∀ line ∈ (h.body.flatMap fun b => b.line :: b.markers) ++ h.trailer,
      ¬ LooksLikeHeader line := by
  intro line hline
  rcases List.mem_append.1 hline with hbody | htrailer
  · obtain ⟨b, hb, hline⟩ := List.mem_flatMap.1 hbody
    obtain ⟨hmarks, hmarkers⟩ := hh.body b hb
    rcases List.mem_cons.1 hline with rfl | hmarker
    · exact hmarks.not_looksLikeHeader
    · exact PatchWalk.not_looksLikeHeader_of_marker (hmarkers line hmarker)
  · exact hh.trailer line htrailer

/-- What a hunk takes out is among the old lines that it shows. -/
theorem deletions_within (hh : h.WellFormed) :
    ∀ r ∈ h.change.deletions, h.hunk.oldRange.first ≤ r.first ∧ r.last ≤ h.hunk.oldRange.last := by
  intro r hr
  obtain ⟨hfirst, hne, hlast⟩ := h.placed_change.deletions_within r hr
  obtain ⟨-, hstart, hlength, -, -, hfits⟩ := Header.hunk?_eq_some hh.announced
  have hcount := hh.oldLength
  rw [Hunk.fits, Bool.and_eq_true, decide_eq_true_eq] at hfits
  rw [HunkText.linesAfter, HunkText.linesBefore] at hlast
  rw [HunkText.linesBefore] at hfirst
  rw [Hunk.oldRange, (Hunk.covers_lastLine hlength hstart hfits.1).last]
  dsimp only
  split at hlast <;> split at hfirst <;> omega

end HunkText.WellFormed

theorem mem_deletions_changeOfHunks {hs : List HunkText} {r : LineRange}
    (hr : r ∈ (changeOfHunks hs).deletions) : ∃ h ∈ hs, r ∈ h.change.deletions := by
  induction hs with
  | nil => cases hr
  | cons h hs ih =>
    rw [changeOfHunks, FileDiff.deletions_append, List.mem_append] at hr
    rcases hr with hr | hr
    · exact ⟨h, List.mem_cons_self, hr⟩
    · obtain ⟨g, hg, hr⟩ := ih hr
      exact ⟨g, List.mem_cons_of_mem h hg, hr⟩

namespace PatchText.WellFormed

variable {p : PatchText}

/-- The headers at the starts of lines are those of the hunks. -/
theorem filterMap_headerOfLine? (hp : p.WellFormed)
    (hcomplete : ∀ h ∈ p.hunks, h.header.header.isComplete = true) :
    p.lines.filterMap headerOfLine? = p.hunks.map fun h => h.header.header := by
  have hnone {ls : List Line} (hls : ∀ line ∈ ls, ¬ LooksLikeHeader line) :
      ls.filterMap headerOfLine? = [] :=
    List.filterMap_eq_nil_iff.2 fun line hline => headerOfLine?_eq_none (hls line hline)
  have hhunks := hp.hunks
  rw [PatchText.lines, List.filterMap_append, hnone hp.preamble, List.nil_append]
  generalize p.hunks = hs at hcomplete hhunks
  induction hs with
  | nil => rfl
  | cons h hs ih =>
    rw [List.forall_mem_cons] at hcomplete hhunks
    rw [List.flatMap_cons, List.filterMap_append, ih hcomplete.2 hhunks.2, HunkText.lines,
      List.filterMap_cons, hhunks.1.headerOfLine?_header hcomplete.1,
      hnone hhunks.1.not_looksLikeHeader]
    rfl

/-- A line that starts like a header is that of a hunk. -/
theorem isSome_completeHeader? (hp : p.WellFormed)
    (hcomplete : ∀ h ∈ p.hunks, h.header.header.isComplete = true) :
    ∀ line ∈ p.lines, LooksLikeHeader line → (completeHeader? line).isSome = true := by
  intro line hline hlooks
  rcases List.mem_append.1 hline with hpreamble | hhunks
  · exact absurd hlooks (hp.preamble line hpreamble)
  · obtain ⟨h, hh, hline⟩ := List.mem_flatMap.1 hhunks
    rcases List.mem_cons.1 hline with rfl | hbody
    · have hheader := (hp.hunks h hh).headerOfLine?_header (hcomplete h hh)
      rw [headerOfLine?] at hheader
      rw [← Option.isSome_map (f := Prod.fst), hheader]
      rfl
    · exact absurd hlooks ((hp.hunks h hh).not_looksLikeHeader line hbody)

/-- If no header is hidden, the headers that are taken are those of the hunks. -/
theorem headers_of_leftmost (hp : p.WellFormed)
    (hcomplete : ∀ h ∈ p.hunks, h.header.header.isComplete = true) {text : List Char}
    (htext : Spells p.lines text) (hstart : HeadersStartLines text) {spans : List HeaderSpan}
    (hspans : LeftmostSpans text 0 spans) :
    (∀ s ∈ spans, LineStart text s.start) ∧
      spans.map HeaderSpan.header = p.hunks.map fun h => h.header.header := by
  obtain ⟨own, hown, hheaders⟩ := exists_lineSpans htext (hp.isSome_completeHeader? hcomplete)
  have htaken : LeftmostSpans text 0 own := by
    refine .of_over hown.ordered (fun s hs => ((hown.mem_iff s).1 hs).1)
      (fun s _ => Nat.zero_le _) fun s hs _ => ?_
    obtain ⟨t, ht, hline, hover⟩ := hstart s hs
    exact ⟨t, (hown.mem_iff t).2 ⟨ht, hline⟩, hover⟩
  obtain rfl := htaken.unique hspans
  exact ⟨fun s hs => ((hown.mem_iff s).1 hs).2,
    hheaders.trans (hp.filterMap_headerOfLine? hcomplete)⟩

/-- **Headers found and headers read**: in a well formed diff whose headers give both lengths, all
headers that are found start lines if and only if no header is hidden in a line. If so, the headers
found are those of the hunks, the hunks found are the hunks of the diff, and each deletion of the
change that is read lies within one of their ranges. -/
theorem hunksOf_eq_hunks_iff (hp : p.WellFormed)
    (hcomplete : ∀ h ∈ p.hunks, h.header.header.isComplete = true) {text : List Char}
    (htext : Spells p.lines text) :
    ∃ spans, LeftmostSpans text 0 spans ∧
      hunksOf text = spans.filterMap (fun s => s.header.hunk?) ∧
      ((∀ s ∈ spans, LineStart text s.start) ↔ HeadersStartLines text) ∧
      (HeadersStartLines text →
        spans.map HeaderSpan.header = (p.hunks.map fun h => h.header.header) ∧
        hunksOf text = p.hunks.map HunkText.hunk ∧
        ∃ d, readPatch? text = some d ∧
          ∀ r ∈ d.deletions, ∃ i ∈ hunkRanges text, i.first ≤ r.first ∧ r.last ≤ i.last) := by
  obtain ⟨spans, hspans, hheaders⟩ := exists_leftmost 0 [] text
  rw [List.nil_append, List.length_nil] at hspans
  have hfound : hunksOf text = (spans.map HeaderSpan.header).filterMap Header.hunk? := by
    rw [hunksOf, hheaders]
  refine ⟨spans, hspans, by rw [hfound, List.filterMap_map]; rfl, ⟨fun hlines s hs => ?_,
    fun hstart => (hp.headers_of_leftmost hcomplete htext hstart hspans).1⟩, fun hstart => ?_⟩
  · obtain ⟨t, ht, hover⟩ := hspans.exists_over hs (Nat.zero_le _)
    exact ⟨t, hspans.in_text t ht, hlines t ht, hover⟩
  · obtain ⟨-, hmap⟩ := hp.headers_of_leftmost hcomplete htext hstart hspans
    have hhunks : hunksOf text = p.hunks.map HunkText.hunk := by
      rw [hfound, hmap, List.filterMap_map, ← List.filterMap_eq_map]
      exact List.filterMap_congr fun h hh => (hp.hunks h hh).announced
    refine ⟨hmap, hhunks, p.change, hp.readPatch?_eq htext, fun r hr => ?_⟩
    obtain ⟨h, hh, hr⟩ := mem_deletions_changeOfHunks hr
    refine ⟨h.hunk.oldRange, ?_, (hp.hunks h hh).deletions_within r hr⟩
    rw [hunkRanges, hhunks, List.map_map]
    exact List.mem_map_of_mem hh

end PatchText.WellFormed

/-- A line is put in, and further down one is taken out. The lines around the one that is put in,
and what stands behind the first header, are of no matter to the change. -/
def PatchText.insertAndDelete (heading added : Line) : PatchText where
  preamble := []
  hunks :=
    [ { header := ⟨⟨['1'], some ['1'], ['1'], some ['2']⟩, [' '], [' '], [' '], heading⟩
        hunk := ⟨1, 1, 1, 2⟩
        body := [⟨.keep, " a".toList, []⟩, ⟨.add, added, []⟩]
        trailer := [] },
      { header := ⟨⟨['5'], some ['1'], ['6'], some ['0']⟩, [' '], [' '], [' '], []⟩
        hunk := ⟨5, 1, 6, 0⟩
        body := [⟨.delete, "-x".toList, []⟩]
        trailer := [] } ]

/-- The first header closes with a mark that could open another one, and the line that is put in
shows a header without its last length. -/
theorem PatchText.WellFormed.hunksOf_eq_hunks_iff_overlapping :
    let p := PatchText.insertAndDelete " -7,7 +7,7 @@".toList "+@@ -1,2 +3 @@".toList
    let text := p.lines.flatMap (· ++ ['\n'])
    p.WellFormed ∧ (∀ h ∈ p.hunks, h.header.header.isComplete = true) ∧ Spells p.lines text ∧
      HeadersStartLines text ∧ (headersIn text).length = 3 ∧
      hunksOf text = [⟨1, 1, 1, 2⟩, ⟨5, 1, 6, 0⟩] ∧
      ∃ d, readPatch? text = some d ∧
        ∀ r ∈ d.deletions, ∃ i ∈ hunkRanges text, i.first ≤ r.first ∧ r.last ≤ i.last := by
  intro p text
  have hp : p.WellFormed := by
    refine ⟨by decide, ?_, by decide⟩
    simp only [p, PatchText.insertAndDelete, List.forall_mem_cons]
    refine ⟨?_, ?_, List.forall_mem_nil _⟩ <;> constructor <;> decide
  have hcomplete : ∀ h ∈ p.hunks, h.header.header.isComplete = true := by decide
  have htext : Spells p.lines text := spells_feeds (by decide)
  have hstart : HeadersStartLines text := by decide +kernel
  obtain ⟨spans, -, -, -, hlisted⟩ := hp.hunksOf_eq_hunks_iff hcomplete htext
  obtain ⟨-, hhunks, hdeletions⟩ := hlisted hstart
  exact ⟨hp, hcomplete, htext, hstart, by decide +kernel, hhunks, hdeletions⟩

/-- The line that is put in starts a header, and the mark of the next hunk ends it. The header of
that hunk is not found, and its deletion lies in no range. -/
theorem hunksOf_of_hidden_header :
    let p := PatchText.insertAndDelete [] "+@@ -1,2 +3,4".toList
    let text := p.lines.flatMap (· ++ ['\n'])
    p.WellFormed ∧ (∀ h ∈ p.hunks, h.header.header.isComplete = true) ∧ Spells p.lines text ∧
      hunksOf text = [⟨1, 1, 1, 2⟩, ⟨1, 2, 3, 4⟩] ∧ hunksOf text ≠ p.hunks.map HunkText.hunk ∧
      readPatch? text = some ⟨[⟨1, 1⟩], [⟨5, 5⟩]⟩ ∧
      ¬ ∃ i ∈ hunkRanges text, i.first ≤ 5 ∧ 5 ≤ i.last := by
  intro p text
  have hp : p.WellFormed := by
    refine ⟨by decide, ?_, by decide⟩
    simp only [p, PatchText.insertAndDelete, List.forall_mem_cons]
    refine ⟨?_, ?_, List.forall_mem_nil _⟩ <;> constructor <;> decide
  exact ⟨hp, by decide, spells_feeds (by decide), by decide +kernel, by decide +kernel,
    by decide +kernel, by decide +kernel⟩

end EffortRank
