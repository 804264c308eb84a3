import EffortRank.Patch.Header
import Mathlib.Data.List.Basic

/-!
# Headers as they are written

`HeaderLine` is a line that starts with a hunk header: its four numbers (a length may be left out),
the blanks at the three places where blanks may stand, and what follows the second mark.
`Header.read?` reads its header back (`HeaderLine.read?_text`), and reads a header from no other
text (`Header.exists_text_of_read?`).
-/

namespace EffortRank

open Text

/-- A line that starts with a header. -/
structure HeaderLine where
  header : Header
  gap₁ : List Char
  gap₂ : List Char
  gap₃ : List Char
  heading : List Char
deriving DecidableEq

namespace HeaderLine

/-- A length with its comma; a length that is left out is not written. -/
def lengthText : Option (List Char) → List Char
  | some ds => ',' :: ds
  | none => []

def text (h : HeaderLine) : List Char :=
  '@' :: '@' :: (h.gap₁ ++ '-' :: (h.header.oldStart ++ (lengthText h.header.oldLength ++
    (h.gap₂ ++ '+' :: (h.header.newStart ++ (lengthText h.header.newLength ++
      (h.gap₃ ++ '@' :: '@' :: h.heading)))))))

def Blanks (h : HeaderLine) : Prop :=
  (∀ c ∈ h.gap₁, isBlank c = true) ∧ (∀ c ∈ h.gap₂, isBlank c = true) ∧
    ∀ c ∈ h.gap₃, isBlank c = true

instance (h : HeaderLine) : Decidable h.Blanks :=
  decidable_of_iff (h.gap₁.all isBlank ∧ h.gap₂.all isBlank ∧ h.gap₃.all isBlank)
    (by simp only [Blanks, List.all_eq_true])

end HeaderLine

/-! ## Classes of characters -/

/-- The text does not start with a character of the class. -/
def StartsOutside (p : Char → Bool) (cs : List Char) : Prop := ∀ c ∈ cs.head?, p c = false

theorem startsOutside_cons {p : Char → Bool} {c : Char} {cs : List Char} (h : p c = false) :
    StartsOutside p (c :: cs) := by
  intro d hd
  rw [List.head?_cons, Option.mem_some_iff] at hd
  rw [← hd, h]

/-- What starts a list of characters starts it with the list in front. -/
theorem startsOutside_append {p : Char → Bool} {cs rest : List Char} (hcs : ∀ c ∈ cs, p c = false)
    (hrest : StartsOutside p rest) : StartsOutside p (cs ++ rest) := by
  cases cs with
  | nil => exact hrest
  | cons c cs => exact startsOutside_cons (hcs c List.mem_cons_self)

theorem takeWhile_of_startsOutside {p : Char → Bool} {cs rest : List Char}
    (hcs : ∀ c ∈ cs, p c = true) (hrest : StartsOutside p rest) :
    (cs ++ rest).takeWhile p = cs := by
  rw [List.takeWhile_append_of_pos hcs]
  cases rest with
  | nil => simp
  | cons c rest =>
    have hc : p c = false := hrest c rfl
    simp [hc]

theorem dropWhile_of_startsOutside {p : Char → Bool} {cs rest : List Char}
    (hcs : ∀ c ∈ cs, p c = true) (hrest : StartsOutside p rest) :
    (cs ++ rest).dropWhile p = rest := by
  rw [List.dropWhile_append_of_pos hcs]
  cases rest with
  | nil => simp
  | cons c rest =>
    have hc : p c = false := hrest c rfl
    simp [hc]

theorem isDecimalDigit_of_isDigit {c : Char} (h : c.isDigit = true) : isDecimalDigit c = true := by
  rw [isDecimalDigit, h, Bool.true_or]

theorem isDecimalDigit_of_isBlank {c : Char} (h : isBlank c = true) : isDecimalDigit c = false := by
  simp only [isBlank, CharRange.has, blankRanges, List.any_cons, List.any_nil, Bool.or_false,
    Bool.or_eq_true, Bool.and_eq_true, decide_eq_true_eq] at h
  rw [isDecimalDigit, Bool.or_eq_false_iff]
  constructor
  · rw [Bool.eq_false_iff, ne_eq, Char.isDigit_iff_toNat]
    have hlow : '0'.toNat = 48 := rfl
    have hhigh : '9'.toNat = 57 := rfl
    omega
  · simp only [CharRange.has, decimalDigitRanges, List.any_cons, List.any_nil, Bool.or_false,
      Bool.and_eq_false_iff, Bool.or_eq_false_iff, decide_eq_false_iff_not]
    omega

theorem startsOutside_blanks {p : Char → Bool} {gap rest : List Char} {mark : Char}
    (hgap : ∀ c ∈ gap, isBlank c = true) (hblank : ∀ c, isBlank c = true → p c = false)
    (hmark : p mark = false) : StartsOutside p (gap ++ mark :: rest) :=
  startsOutside_append (fun c hc => hblank c (hgap c hc)) (startsOutside_cons hmark)

/-! ## Reading back -/

namespace Header

def Digits (ds : List Char) : Prop := ds ≠ [] ∧ ∀ c ∈ ds, isDecimalDigit c = true

structure InDigits (h : Header) : Prop where
  oldStart : Digits h.oldStart
  oldLength : ∀ ds ∈ h.oldLength, Digits ds
  newStart : Digits h.newStart
  newLength : ∀ ds ∈ h.newLength, Digits ds

theorem digits?_append {ds rest : List Char} (hds : Digits ds)
    (hrest : StartsOutside isDecimalDigit rest) : digits? (ds ++ rest) = some (ds, rest) := by
  rw [digits?, takeWhile_of_startsOutside hds.2 hrest, dropWhile_of_startsOutside hds.2 hrest]
  cases ds with
  | nil => exact absurd rfl hds.1
  | cons d ds => rfl

theorem length?_append {length : Option (List Char)} {rest : List Char}
    (hlength : ∀ ds ∈ length, Digits ds) (hrest : StartsOutside isDecimalDigit rest)
    (hcomma : StartsOutside (· == ',') rest) :
    length? (HeaderLine.lengthText length ++ rest) = (length, rest) := by
  cases length with
  | some ds =>
    rw [HeaderLine.lengthText, List.cons_append]
    simp only [length?, digits?_append (hlength ds rfl) hrest]
  | none =>
    rw [HeaderLine.lengthText, List.nil_append]
    cases rest with
    | nil => rfl
    | cons c rest =>
      have hc : c ≠ ',' := by
        have := hcomma c rfl
        simpa using this
      unfold length?
      split
      · rename_i h
        rw [List.cons.injEq] at h
        exact absurd h.1 hc
      · rfl

theorem lineNumber?_eq_some {ds : List Char} {n : Int} (h : lineNumber? ds = some n) :
    Digits ds ∧ 0 ≤ n := by
  unfold lineNumber? asciiNumber? at h
  split at h
  · rename_i m hm
    split at hm
    · rename_i hdigits
      rw [Bool.and_eq_true, Bool.not_eq_true', List.isEmpty_eq_false_iff, List.all_eq_true]
        at hdigits
      split at h
      · rw [Option.some.injEq] at h
        exact ⟨⟨hdigits.1, fun c hc => isDecimalDigit_of_isDigit (hdigits.2 c hc)⟩, by omega⟩
      · cases h
    · cases hm
  · cases h

theorem lengthValue?_eq_some {length : Option (List Char)} {n : Int}
    (h : lengthValue? length = some n) : (∀ ds ∈ length, Digits ds) ∧ 0 ≤ n := by
  cases length with
  | none =>
    rw [lengthValue?, Option.some.injEq] at h
    exact ⟨by simp, by omega⟩
  | some ds =>
    have hds := lineNumber?_eq_some h
    refine ⟨fun es hes => ?_, hds.2⟩
    rw [Option.mem_some_iff] at hes
    rw [← hes]
    exact hds.1

/-- A header that announces a hunk is written in digits, and the numbers of the hunk fit. -/
theorem hunk?_eq_some {h : Header} {hunk : Hunk} (heq : h.hunk? = some hunk) :
    h.InDigits ∧ 0 ≤ hunk.oldStart ∧ 0 ≤ hunk.oldLength ∧ 0 ≤ hunk.newStart ∧
      0 ≤ hunk.newLength ∧ hunk.fits = true := by
  simp only [hunk?, Option.bind_eq_bind, Option.bind_eq_some_iff] at heq
  obtain ⟨oldStart, hos, oldLength, hol, newStart, hns, newLength, hnl, heq⟩ := heq
  split at heq
  · rename_i hfits
    rw [Option.some.injEq] at heq
    subst heq
    have h₁ := lineNumber?_eq_some hos
    have h₂ := lengthValue?_eq_some hol
    have h₃ := lineNumber?_eq_some hns
    have h₄ := lengthValue?_eq_some hnl
    exact ⟨⟨h₁.1, h₂.1, h₃.1, h₄.1⟩, h₁.2, h₂.2, h₃.2, h₄.2, hfits⟩
  · cases heq

end Header

/-- **Reading a header back**: the header of a line is read as it is written, and what follows its
second mark is left. -/
theorem HeaderLine.read?_text {h : HeaderLine} (hblanks : h.Blanks) (hdigits : h.header.InDigits) :
    Header.read? h.text = some (h.header, h.heading) := by
  obtain ⟨⟨oldStart, oldLength, newStart, newLength⟩, gap₁, gap₂, gap₃, heading⟩ := h
  obtain ⟨hgap₁, hgap₂, hgap₃⟩ := hblanks
  obtain ⟨hos, hol, hns, hnl⟩ := hdigits
  dsimp only at hgap₁ hgap₂ hgap₃ hos hol hns hnl
  have hcomma : ∀ c, isBlank c = true → (c == ',') = false := by
    intro c hc
    rw [Bool.eq_false_iff, ne_eq, beq_iff_eq]
    rintro rfl
    exact absurd hc (by decide)
  have hdigit : ∀ c, isBlank c = true → isDecimalDigit c = false :=
    fun c hc => isDecimalDigit_of_isBlank hc
  have hplus {rest : List Char} : StartsOutside isDecimalDigit (gap₂ ++ '+' :: rest) :=
    startsOutside_blanks hgap₂ hdigit (by decide)
  have hplus' {rest : List Char} : StartsOutside (· == ',') (gap₂ ++ '+' :: rest) :=
    startsOutside_blanks hgap₂ hcomma (by decide)
  have hat {rest : List Char} : StartsOutside isDecimalDigit (gap₃ ++ '@' :: rest) :=
    startsOutside_blanks hgap₃ hdigit (by decide)
  have hat' {rest : List Char} : StartsOutside (· == ',') (gap₃ ++ '@' :: rest) :=
    startsOutside_blanks hgap₃ hcomma (by decide)
  have hlength {length : Option (List Char)} {rest : List Char}
      (hrest : StartsOutside isDecimalDigit rest) :
      StartsOutside isDecimalDigit (lengthText length ++ rest) := by
    cases length with
    | none => exact hrest
    | some ds => exact startsOutside_cons (by decide)
  have hskip {gap rest : List Char} {mark : Char} (hgap : ∀ c ∈ gap, isBlank c = true)
      (hmark : isBlank mark = false) :
      (gap ++ mark :: rest).dropWhile isBlank = mark :: rest :=
    dropWhile_of_startsOutside hgap (startsOutside_cons hmark)
  simp only [Header.read?, text, Header.expect?, if_true, Option.bind_eq_bind, Option.bind_some,
    hskip hgap₁ (by decide : isBlank '-' = false), hskip hgap₂ (by decide : isBlank '+' = false),
    hskip hgap₃ (by decide : isBlank '@' = false), Header.digits?_append hos (hlength hplus),
    Header.length?_append hol hplus hplus', Header.digits?_append hns (hlength hat),
    Header.length?_append hnl hat hat', Option.pure_def]

/-! ## What is read -/

namespace Header

theorem expect?_eq_some {ps cs rest : List Char} (h : expect? ps cs = some rest) :
    cs = ps ++ rest := by
  induction ps generalizing cs with
  | nil => exact Option.some.inj h
  | cons p ps ih =>
    cases cs with
    | nil => cases h
    | cons c cs =>
      rw [expect?] at h
      split at h
      · rename_i hpc
        rw [hpc, ih h, List.cons_append]
      · cases h

theorem digits?_eq_some {cs ds rest : List Char} (h : digits? cs = some (ds, rest)) :
    Digits ds ∧ cs = ds ++ rest := by
  unfold digits? at h
  split at h
  · cases h
  · rename_i hne
    rw [Option.some.injEq, Prod.mk.injEq] at h
    obtain ⟨rfl, rfl⟩ := h
    exact ⟨⟨hne, fun c hc => List.all_eq_true.1 List.all_takeWhile c hc⟩,
      List.takeWhile_append_dropWhile.symm⟩

theorem lengthText_append_length? (cs : List Char) :
    (∀ ds ∈ (length? cs).1, Digits ds) ∧
      HeaderLine.lengthText (length? cs).1 ++ (length? cs).2 = cs := by
  unfold length?
  split
  · split
    · rename_i hdigits
      obtain ⟨hds, hrest⟩ := digits?_eq_some hdigits
      refine ⟨fun es hes => ?_, congrArg (',' :: ·) hrest.symm⟩
      rw [← Option.mem_some_iff.1 hes]
      exact hds
    · exact ⟨by simp, rfl⟩
  · exact ⟨by simp, rfl⟩

/-- A text from which a header is read starts with that header. -/
theorem exists_text_of_read? {cs rest : List Char} {h : Header}
    (hread : read? cs = some (h, rest)) :
    ∃ line : HeaderLine, line.Blanks ∧ line.header.InDigits ∧ line.header = h ∧
      line.heading = rest ∧ line.text = cs := by
  simp only [read?, Option.bind_eq_bind, Option.bind_eq_some_iff] at hread
  obtain ⟨cs₁, hmark, cs₂, hminus, ⟨oldStart, cs₃⟩, hos, cs₄, hplus, ⟨newStart, cs₅⟩, hns, cs₆,
    hclose, hread⟩ := hread
  dsimp only at hplus hns hclose hread
  cases hread
  obtain ⟨hosDigits, rfl⟩ := digits?_eq_some hos
  obtain ⟨holDigits, hol⟩ := lengthText_append_length? cs₃
  obtain ⟨hnsDigits, rfl⟩ := digits?_eq_some hns
  obtain ⟨hnlDigits, hnl⟩ := lengthText_append_length? cs₅
  have hblank {cs : List Char} : ∀ c ∈ cs.takeWhile isBlank, isBlank c = true :=
    List.all_eq_true.1 List.all_takeWhile
  have hgap {cs mark rest : List Char} (h : expect? mark (cs.dropWhile isBlank) = some rest) :
      cs.takeWhile isBlank ++ (mark ++ rest) = cs := by
    rw [← expect?_eq_some h, List.takeWhile_append_dropWhile]
  refine ⟨⟨⟨oldStart, (length? cs₃).1, newStart, (length? cs₅).1⟩, cs₁.takeWhile isBlank,
    (length? cs₃).2.takeWhile isBlank, (length? cs₅).2.takeWhile isBlank, rest⟩,
    ⟨hblank, hblank, hblank⟩, ⟨hosDigits, holDigits, hnsDigits, hnlDigits⟩, rfl, rfl, ?_⟩
  have h₃ := hgap hclose
  have h₂ := hgap hplus
  have h₁ := hgap hminus
  simp only [List.cons_append, List.nil_append] at h₁ h₂ h₃
  rw [HeaderLine.text]
  dsimp only
  rw [h₃, hnl, h₂, hol, h₁, expect?_eq_some hmark]
  rfl

end Header

end EffortRank
