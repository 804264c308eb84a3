import EffortRank.Proofs.Patch.HeaderText

/-!
# Finding headers

A header may stand anywhere in a text, in the middle of a line or across several lines. A
`HeaderSpan` is a stretch of the text that spells a header with both of its lengths, and nothing
else. The spans are searched from left to right: `LeftmostSpans` takes the one that starts first,
then the one that starts first behind it, and so on, whether or not their numbers are line numbers.

`hunksOf` finds just the hunks of these spans (`hunksOf_eq_leftmost`). Each header of the text is
one of them, or starts within one.
-/

namespace EffortRank

open Text

/-! ## Headers in a text -/

/-- The characters spell a header with both lengths, and nothing else. -/
def Header.Spelled (h : Header) (cs : List Char) : Prop :=
  ∃ line : HeaderLine, line.Blanks ∧ line.header.InDigits ∧ line.header.isComplete = true ∧
    line.header = h ∧ line.heading = [] ∧ line.text = cs

/-- A header at a place in a text, with its number of characters. -/
structure HeaderSpan where
  header : Header
  start : Nat
  length : Nat
deriving DecidableEq

namespace HeaderSpan

/-- The place behind the header. -/
def stop (s : HeaderSpan) : Nat := s.start + s.length

/-- The header stands in the text. -/
def In (s : HeaderSpan) (text : List Char) : Prop :=
  ∃ before cs after, text = before ++ (cs ++ after) ∧ s.header.Spelled cs ∧
    s.start = before.length ∧ s.length = cs.length

end HeaderSpan

/-- The headers that a search from left to right takes from a place on: the one that starts first,
and then those from the place behind it on. -/
inductive LeftmostSpans (text : List Char) : Nat → List HeaderSpan → Prop where
  | done {place : Nat} : (∀ s : HeaderSpan, s.In text → s.start < place) →
      LeftmostSpans text place []
  | next {place : Nat} {s : HeaderSpan} {rest : List HeaderSpan} : s.In text → place ≤ s.start →
      (∀ t : HeaderSpan, t.In text → place ≤ t.start → s.start ≤ t.start) →
      LeftmostSpans text s.stop rest → LeftmostSpans text place (s :: rest)

theorem HeaderLine.text_eq_append (line : HeaderLine) :
    line.text = { line with heading := [] }.text ++ line.heading := by
  simp [text]

/-- A text starts with a complete header if some of its first characters spell one. -/
theorem completeHeader?_eq_some_iff {cs : List Char} {h : Header} {n : Nat} :
    completeHeader? cs = some (h, n) ↔
      ∃ spelled rest, cs = spelled ++ rest ∧ h.Spelled spelled ∧ n = spelled.length := by
  constructor
  · intro hfound
    unfold completeHeader? at hfound
    split at hfound
    · rename_i h' rest hread
      split at hfound
      · rename_i hcomplete
        cases hfound
        obtain ⟨line, hblanks, hdigits, rfl, rfl, rfl⟩ := Header.exists_text_of_read? hread
        refine ⟨_, line.heading, line.text_eq_append,
          ⟨{ line with heading := [] }, hblanks, hdigits, hcomplete, rfl, rfl, rfl⟩, ?_⟩
        rw [line.text_eq_append, List.length_append, Nat.add_sub_cancel]
      · cases hfound
    · cases hfound
  · rintro ⟨spelled, rest, rfl, ⟨line, hblanks, hdigits, hcomplete, rfl, hheading, rfl⟩, rfl⟩
    have hspelled : { line with heading := [] } = line := by rw [← hheading]
    have htext : line.text ++ rest = { line with heading := rest }.text := by
      rw [HeaderLine.text_eq_append { line with heading := rest }]
      dsimp only
      rw [hspelled]
    have hread := HeaderLine.read?_text (h := { line with heading := rest }) hblanks hdigits
    rw [htext, completeHeader?, hread]
    dsimp only
    rw [if_pos hcomplete, ← htext, List.length_append, Nat.add_sub_cancel]

namespace HeaderSpan

variable {s t : HeaderSpan} {text : List Char}

/-- The text from the start on begins with the header. -/
theorem in_iff : s.In text ↔ completeHeader? (text.drop s.start) = some (s.header, s.length) := by
  rw [completeHeader?_eq_some_iff]
  constructor
  · rintro ⟨before, cs, after, rfl, hspelled, hstart, hlength⟩
    rw [hstart, List.drop_left]
    exact ⟨cs, after, rfl, hspelled, hlength⟩
  · rintro ⟨cs, after, hdrop, hspelled, hlength⟩
    have hne : text.drop s.start ≠ [] := by
      obtain ⟨line, -, -, -, -, -, rfl⟩ := hspelled
      rw [hdrop]
      simp [HeaderLine.text]
    have hle : s.start ≤ text.length := by
      by_contra hlt
      exact hne (List.drop_eq_nil_of_le (by omega))
    refine ⟨text.take s.start, cs, after, ?_, hspelled, ?_, hlength⟩
    · rw [← hdrop, List.take_append_drop]
    · rw [List.length_take, Nat.min_eq_left hle]

theorem in_append_iff {before cs : List Char} (hstart : s.start = before.length) :
    s.In (before ++ cs) ↔ completeHeader? cs = some (s.header, s.length) := by
  rw [in_iff, hstart, List.drop_left]

theorem In.length_pos (h : s.In text) : 0 < s.length := by
  obtain ⟨-, cs, -, -, ⟨line, -, -, -, -, -, rfl⟩, -, hlength⟩ := h
  rw [hlength, HeaderLine.text]
  exact Nat.succ_pos _

theorem In.stop_le (h : s.In text) : s.stop ≤ text.length := by
  obtain ⟨before, cs, after, rfl, -, hstart, hlength⟩ := h
  rw [stop, hstart, hlength, List.length_append, List.length_append]
  omega

/-- At one place there is one header. -/
theorem In.eq_of_start_eq (hs : s.In text) (ht : t.In text) (hstart : s.start = t.start) :
    s = t := by
  obtain ⟨header, start, length⟩ := s
  obtain ⟨header', start', length'⟩ := t
  obtain rfl : start = start' := hstart
  rw [in_iff] at hs ht
  cases hs.symm.trans ht
  rfl

end HeaderSpan

/-! ## The search -/

namespace LeftmostSpans

variable {text : List Char} {place : Nat} {spans others : List HeaderSpan}

theorem in_text (h : LeftmostSpans text place spans) : ∀ s ∈ spans, s.In text := by
  induction h with
  | done => exact List.forall_mem_nil _
  | next hin _ _ _ ih => exact List.forall_mem_cons.2 ⟨hin, ih⟩

theorem place_le_start (h : LeftmostSpans text place spans) : ∀ s ∈ spans, place ≤ s.start := by
  induction h with
  | done => exact List.forall_mem_nil _
  | next hin hplace _ _ ih =>
    refine List.forall_mem_cons.2 ⟨hplace, fun t ht => ?_⟩
    have hbehind := ih t ht
    rw [HeaderSpan.stop] at hbehind
    omega

/-- The headers that are taken follow each other, and no two of them share a character. -/
theorem pairwise (h : LeftmostSpans text place spans) :
    spans.Pairwise fun s t => s.stop ≤ t.start := by
  induction h with
  | done => exact .nil
  | next _ _ _ hrest ih => exact List.pairwise_cons.2 ⟨hrest.place_le_start, ih⟩

/-- A header that is not taken starts within one that is. -/
theorem exists_over (h : LeftmostSpans text place spans) {s : HeaderSpan} (hs : s.In text)
    (hplace : place ≤ s.start) : ∃ t ∈ spans, t.start ≤ s.start ∧ s.start < t.stop := by
  induction h with
  | done hnone => exact absurd (hnone s hs) (Nat.not_lt.2 hplace)
  | @next place t rest _ _ hfirst _ ih =>
    by_cases hstop : s.start < t.stop
    · exact ⟨t, List.mem_cons_self, hfirst s hs hplace, hstop⟩
    · obtain ⟨u, hu, hover⟩ := ih (Nat.not_lt.1 hstop)
      exact ⟨u, List.mem_cons_of_mem t hu, hover⟩

theorem unique (h : LeftmostSpans text place spans) (h' : LeftmostSpans text place others) :
    others = spans := by
  induction h generalizing others with
  | done hnone =>
    cases h' with
    | done => rfl
    | next hin hplace => exact absurd (hnone _ hin) (Nat.not_lt.2 hplace)
  | next hin hplace hfirst _ ih =>
    cases h' with
    | done hnone => exact absurd (hnone _ hin) (Nat.not_lt.2 hplace)
    | next hin' hplace' hfirst' hrest' =>
      obtain rfl := hin.eq_of_start_eq hin'
        (Nat.le_antisymm (hfirst _ hin' hplace') (hfirst' _ hin hplace))
      rw [ih hrest']

/-- Where no header starts, the search goes on to the next character. -/
theorem of_succ (h : LeftmostSpans text (place + 1) spans)
    (hnone : ∀ s : HeaderSpan, s.In text → s.start ≠ place) : LeftmostSpans text place spans := by
  cases h with
  | done hdone =>
    refine .done fun s hs => ?_
    have hlt := hdone s hs
    have hne := hnone s hs
    omega
  | next hin hplace hfirst hrest =>
    refine .next hin (Nat.le_of_succ_le hplace) (fun t ht hplace' => hfirst t ht ?_) hrest
    have hne := hnone t ht
    omega

/-- Headers that follow each other are the ones that the search takes if all others start within
them. -/
theorem of_over {own : List HeaderSpan}
    (hordered : own.Pairwise fun s t => s.stop ≤ t.start) (hin : ∀ s ∈ own, s.In text)
    (hplace : ∀ s ∈ own, place ≤ s.start)
    (hover : ∀ s : HeaderSpan, s.In text → place ≤ s.start →
      ∃ t ∈ own, t.start ≤ s.start ∧ s.start < t.stop) : LeftmostSpans text place own := by
  induction own generalizing place with
  | nil =>
    refine .done fun s hs => ?_
    by_contra hge
    obtain ⟨t, ht, -⟩ := hover s hs (Nat.not_lt.1 hge)
    cases ht
  | cons s own ih =>
    rw [List.pairwise_cons] at hordered
    rw [List.forall_mem_cons] at hin hplace
    have hbehind : ∀ t ∈ own, s.start ≤ t.start := by
      intro t ht
      have hstop := hordered.1 t ht
      rw [HeaderSpan.stop] at hstop
      omega
    refine .next hin.1 hplace.1 (fun t ht htplace => ?_)
      (ih hordered.2 hin.2 hordered.1 fun t ht htplace => ?_)
    · obtain ⟨u, hu, hle, -⟩ := hover t ht htplace
      rcases List.mem_cons.1 hu with rfl | hu
      · exact hle
      · exact Nat.le_trans (hbehind u hu) hle
    · rw [HeaderSpan.stop] at htplace
      obtain ⟨u, hu, hle, hlt⟩ := hover t ht (by omega)
      rcases List.mem_cons.1 hu with rfl | hu
      · rw [HeaderSpan.stop] at hlt
        omega
      · exact ⟨u, hu, hle, hlt⟩

end LeftmostSpans

/-- **Searching a text** character by character takes its headers from left to right. -/
theorem exists_leftmost (skip : Nat) (before cs : List Char) :
    ∃ spans, LeftmostSpans (before ++ cs) (before.length + skip) spans ∧
      headersFrom skip cs = spans.map HeaderSpan.header := by
  -- The characters in front of the place only count, so they are not fixed.
  fun_induction headersFrom skip cs generalizing before with
  | case1 skip =>
    refine ⟨[], .done fun s hs => ?_, rfl⟩
    have hlength := hs.length_pos
    have hstop := hs.stop_le
    rw [HeaderSpan.stop, List.append_nil] at hstop
    omega
  | case2 skip c cs ih =>
    have hspans := ih (before ++ [c])
    rwa [List.append_assoc, List.singleton_append, List.length_append, List.length_singleton,
      Nat.add_assoc, Nat.add_comm 1] at hspans
  | case3 c cs h n hfound ih =>
    let s : HeaderSpan := ⟨h, before.length, n⟩
    have hin : s.In (before ++ c :: cs) := (HeaderSpan.in_append_iff rfl).2 hfound
    have hpos : 0 < n := hin.length_pos
    obtain ⟨spans, hspans, hheaders⟩ := ih (before ++ [c])
    have hstop : (before ++ [c]).length + (n - 1) = s.stop := by
      rw [HeaderSpan.stop, List.length_append, List.length_singleton]
      dsimp only [s]
      omega
    rw [hstop, List.append_assoc, List.singleton_append] at hspans
    exact ⟨s :: spans, .next hin (Nat.le_refl _) (fun t _ hplace => hplace) hspans,
      by rw [hheaders, List.map_cons]⟩
  | case4 c cs hnone ih =>
    obtain ⟨spans, hspans, hheaders⟩ := ih (before ++ [c])
    rw [List.append_assoc, List.singleton_append, List.length_append, List.length_singleton]
      at hspans
    refine ⟨spans, hspans.of_succ fun s hs hstart => ?_, hheaders⟩
    rw [HeaderSpan.in_append_iff hstart, hnone] at hs
    cases hs

/-! ## What a header announces -/

/-- The numbers of a header with both lengths are written in ASCII digits, and they are the numbers
of the hunk: neither of its sides comes so close to the last line number that it could not be
walked over. -/
def Header.Announces (h : Header) (hunk : Hunk) : Prop :=
  ∃ a b c d : List Char, h = ⟨a, some b, c, some d⟩ ∧
    (∀ x ∈ a ++ b ++ c ++ d, x.isDigit = true) ∧
    hunk = ⟨digitsValue a, digitsValue b, digitsValue c, digitsValue d⟩ ∧
    hunk.oldStart + hunk.oldLength + 1 ≤ maxLineNumber ∧
    hunk.newStart + hunk.newLength + 1 ≤ maxLineNumber

theorem lineNumber?_eq_some_iff {ds : List Char} (hne : ds ≠ []) {n : Int} :
    Header.lineNumber? ds = some n ↔
      (∀ c ∈ ds, c.isDigit = true) ∧ (digitsValue ds : Int) = n ∧ n ≤ maxLineNumber := by
  unfold Header.lineNumber? asciiNumber?
  rw [List.isEmpty_eq_false_iff.2 hne, Bool.not_false, Bool.true_and]
  constructor
  · intro h
    split at h
    · rename_i m hm
      split at hm
      · rename_i hdigits
        cases hm
        split at h
        · rename_i hle
          cases h
          exact ⟨List.all_eq_true.1 hdigits, rfl, hle⟩
        · cases h
      · cases hm
    · cases h
  · rintro ⟨hdigits, rfl, hle⟩
    rw [if_pos (List.all_eq_true.2 hdigits)]
    exact if_pos hle

/-- The numbers of a hunk that fits are line numbers themselves. -/
theorem Header.hunk?_eq_some_iff {h : Header} (hdigits : h.InDigits)
    (hcomplete : h.isComplete = true) {hunk : Hunk} :
    h.hunk? = some hunk ↔ h.Announces hunk := by
  obtain ⟨a, b, c, d⟩ := h
  rw [isComplete, Bool.and_eq_true, Option.isSome_iff_exists, Option.isSome_iff_exists] at hcomplete
  obtain ⟨⟨b, rfl⟩, d, rfl⟩ := hcomplete
  have ha := hdigits.oldStart.1
  have hb := (hdigits.oldLength b rfl).1
  have hc := hdigits.newStart.1
  have hd := (hdigits.newLength d rfl).1
  dsimp only at ha hc
  simp only [hunk?, lengthValue?, Option.bind_eq_bind, Option.bind_eq_some_iff,
    lineNumber?_eq_some_iff ha, lineNumber?_eq_some_iff hb, lineNumber?_eq_some_iff hc,
    lineNumber?_eq_some_iff hd, Announces, List.mem_append]
  constructor
  · rintro ⟨_, ⟨ha, rfl, -⟩, _, ⟨hb, rfl, -⟩, _, ⟨hc, rfl, -⟩, _, ⟨hd, rfl, -⟩, hfits⟩
    split at hfits
    · rename_i h
      cases hfits
      rw [Hunk.fits, Bool.and_eq_true, decide_eq_true_eq, decide_eq_true_eq] at h
      refine ⟨a, b, c, d, rfl, ?_, rfl, h⟩
      rintro x (((hx | hx) | hx) | hx)
      · exact ha x hx
      · exact hb x hx
      · exact hc x hx
      · exact hd x hx
    · cases hfits
  · rintro ⟨_, _, _, _, heq, hall, rfl, hold, hnew⟩
    cases heq
    dsimp only at hold hnew
    refine ⟨_, ⟨fun x hx => hall x (.inl (.inl (.inl hx))), rfl, by omega⟩,
      _, ⟨fun x hx => hall x (.inl (.inl (.inr hx))), rfl, by omega⟩,
      _, ⟨fun x hx => hall x (.inl (.inr hx)), rfl, by omega⟩,
      _, ⟨fun x hx => hall x (.inr hx), rfl, by omega⟩, ?_⟩
    refine if_pos ?_
    rw [Hunk.fits, Bool.and_eq_true, decide_eq_true_eq, decide_eq_true_eq]
    exact ⟨hold, hnew⟩

/-- The range holds the given number of lines from `start` on, and its length is that number. -/
structure LineRange.Covers (r : LineRange) (start length : Int) : Prop where
  last : r.last = start + length - 1
  lines : ∀ line, r.contains line = true ↔ start ≤ line ∧ line < start + length
  length : (r.length : Int) = length

theorem Hunk.covers_lastLine {start length : Int} (hlength : 0 ≤ length) (hstart : 0 ≤ start)
    (hfits : start + length + 1 ≤ maxLineNumber) :
    LineRange.Covers ⟨start, lastLine start length⟩ start length := by
  have hlast : lastLine start length = start + length - 1 := by
    rw [lastLine, Int.min_eq_left (by omega)]
  rw [hlast]
  refine ⟨rfl, fun line => ?_, ?_⟩
  · rw [LineRange.contains_iff]
    dsimp only
    omega
  · rw [maxLineNumber] at hfits
    rw [LineRange.length, maxCount]
    dsimp only
    omega

/-- The hunks that are found show as many lines of both versions as their headers say. -/
theorem covers_of_mem_hunksOf {text : List Char} {hunk : Hunk} (h : hunk ∈ hunksOf text) :
    hunk.oldRange.Covers hunk.oldStart hunk.oldLength ∧
      hunk.newRange.Covers hunk.newStart hunk.newLength := by
  obtain ⟨header, -, hhunk⟩ := List.mem_filterMap.1 h
  obtain ⟨-, hos, hol, hns, hnl, hfits⟩ := Header.hunk?_eq_some hhunk
  rw [Hunk.fits, Bool.and_eq_true, decide_eq_true_eq, decide_eq_true_eq] at hfits
  exact ⟨Hunk.covers_lastLine hol hos hfits.1, Hunk.covers_lastLine hnl hns hfits.2⟩

theorem HeaderSpan.In.hunk?_eq_some_iff {s : HeaderSpan} {text : List Char} (h : s.In text)
    {hunk : Hunk} : s.header.hunk? = some hunk ↔ s.header.Announces hunk := by
  obtain ⟨-, -, -, -, ⟨line, -, hdigits, hcomplete, hheader, -, -⟩, -, -⟩ := h
  rw [hheader] at hdigits hcomplete
  exact Header.hunk?_eq_some_iff hdigits hcomplete

/-- **The hunks of a text are those of its headers, taken from left to right.** There is one way to
take the headers. They follow each other without sharing a character, and each header of the text
starts within one of them. One whose numbers are no line numbers is taken and announces nothing; the
others announce just the hunks that are found, in the same order, and these hunks show as many lines
as they say. -/
theorem hunksOf_eq_leftmost (text : List Char) :
    ∃ spans, LeftmostSpans text 0 spans ∧
      (∀ others, LeftmostSpans text 0 others → others = spans) ∧
      spans.Pairwise (fun s t => s.stop ≤ t.start) ∧
      (∀ s : HeaderSpan, s.In text → ∃ t ∈ spans, t.start ≤ s.start ∧ s.start < t.stop) ∧
      hunksOf text = spans.filterMap (fun s => s.header.hunk?) ∧
      (∀ s ∈ spans, ∀ hunk, s.header.hunk? = some hunk ↔ s.header.Announces hunk) ∧
      ∀ hunk ∈ hunksOf text, hunk.oldRange.Covers hunk.oldStart hunk.oldLength ∧
        hunk.newRange.Covers hunk.newStart hunk.newLength := by
  obtain ⟨spans, hspans, hheaders⟩ := exists_leftmost 0 [] text
  rw [List.nil_append, List.length_nil] at hspans
  refine ⟨spans, hspans, fun _ => hspans.unique, hspans.pairwise,
    fun s hs => hspans.exists_over hs (Nat.zero_le _), ?_,
    fun s hs _ => (hspans.in_text s hs).hunk?_eq_some_iff, fun _ => covers_of_mem_hunksOf⟩
  rw [hunksOf, hheaders, List.filterMap_map]
  rfl

/-- The mark that closes a header opens another one, in which the next header starts. -/
example : hunksOf "@@ -1,1 +1,1 @@ -2,2 +2,2 @@\n@@@ -3,0 +4,2 @@".toList =
    [⟨1, 1, 1, 1⟩, ⟨3, 0, 4, 2⟩] := by decide +kernel

end EffortRank
