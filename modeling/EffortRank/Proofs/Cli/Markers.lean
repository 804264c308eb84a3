import EffortRank.Cli.Failure
import EffortRank.Proofs.Text.Digits
import Mathlib.Data.List.Infix

/-!
# Markers in texts of several parts

A text mentions a marker if it has it, in small letters (`Mentions`). A message is put together from
words of its own, numbers, and texts from outside. If its words have no part in some markers, and
keep its other parts apart (`Framed`), then it has just those of the markers that the texts from
outside have (`Framed.infix_iff`).
-/

namespace EffortRank

namespace Cli

/-! ## Searching -/

theorem startsWith_iff {marker cs : List Char} : startsWith marker cs = true ↔ marker <+: cs := by
  induction marker generalizing cs with
  | nil => simp [startsWith]
  | cons p ps ih =>
    cases cs with
    | nil => simp [startsWith]
    | cons c cs => rw [startsWith, Bool.and_eq_true, beq_iff_eq, ih, List.cons_prefix_cons]

theorem occursIn_iff {marker cs : List Char} : occursIn marker cs = true ↔ marker <:+: cs := by
  induction cs with
  | nil => rw [occursIn, List.isEmpty_iff, List.infix_nil]
  | cons c cs ih => rw [occursIn, Bool.or_eq_true, startsWith_iff, ih, List.infix_cons_iff]

/-- The letters of a text as small letters. -/
def smallLetters (text : String) : List Char := text.toList.map smallLetter

/-- The text has the marker, in small letters. -/
def Mentions (text marker : String) : Prop := marker.toList <:+: smallLetters text

instance (text marker : String) : Decidable (Mentions text marker) :=
  decidable_of_iff _ occursIn_iff

/-! ## Where two parts meet -/

/-- A marker in two texts in a row is in one of them, or starts in the first and goes on in the
second. -/
theorem infix_append_cases {α : Type} {marker front back : List α} (h : marker <:+: front ++ back) :
    marker <:+: front ∨ marker <:+: back ∨
      ∃ n, 0 < n ∧ n < marker.length ∧ marker.take n <:+ front ∧ marker.drop n <+: back := by
  obtain ⟨before, behind, h⟩ := h
  obtain ⟨rest, hfront, -⟩ | ⟨rest, hmarker, hback⟩ := List.append_eq_append_iff.1 h
  · exact .inl ⟨before, rest, hfront.symm⟩
  obtain ⟨start, hfront, rfl⟩ | ⟨gap, -, hrest⟩ := List.append_eq_append_iff.1 hmarker
  · cases start with
    | nil => exact .inr (.inl ⟨[], behind, hback.symm⟩)
    | cons a start =>
      cases rest with
      | nil => exact .inl ⟨before, [], by rw [hfront, List.append_nil, List.append_nil]⟩
      | cons b rest =>
        refine .inr (.inr ⟨(a :: start).length, by simp, by simp, ⟨before, ?_⟩, behind, ?_⟩)
        · rw [List.take_left, hfront]
        · rw [List.drop_left, hback]
  · exact .inr (.inl ⟨gap, behind, by rw [hback, hrest]⟩)

/-- None of the markers is in the words, and the words do not end in the middle of one. -/
def Unmarked (markers : List String) (words : String) : Prop :=
  ∀ marker ∈ markers, ¬ Mentions words marker ∧
    ∀ n < marker.toList.length, 0 < n → ¬ marker.toList.take n <:+ smallLetters words

/-- The words do not start in the middle of one of the markers, whatever comes behind them. -/
def Parting (markers : List String) (words : String) : Prop :=
  ∀ marker ∈ markers, ∀ n < marker.toList.length, 0 < n →
    ¬ marker.toList.drop n <+: smallLetters words ∧ ¬ smallLetters words <+: marker.toList.drop n

instance (markers : List String) (words : String) : Decidable (Unmarked markers words) :=
  inferInstanceAs (Decidable (∀ marker ∈ markers, _ ∧ ∀ n < _, 0 < n → _))

instance (markers : List String) (words : String) : Decidable (Parting markers words) :=
  inferInstanceAs (Decidable (∀ marker ∈ markers, ∀ n < _, 0 < n → _))

section

variable {markers : List String} {marker words : String} {front behind : List Char}

theorem Unmarked.infix_append_iff (h : Unmarked markers words) (hmarker : marker ∈ markers) :
    marker.toList <:+: smallLetters words ++ behind ↔ marker.toList <:+: behind := by
  obtain ⟨hclean, hends⟩ := h marker hmarker
  refine ⟨fun hin => ?_, List.infix_append_of_infix_right⟩
  obtain hfront | hback | ⟨n, hpos, hlt, hfront, -⟩ := infix_append_cases hin
  · exact absurd hfront hclean
  · exact hback
  · exact absurd hfront (hends n hlt hpos)

theorem Parting.infix_append_iff (h : Parting markers words) (hmarker : marker ∈ markers) :
    marker.toList <:+: front ++ (smallLetters words ++ behind) ↔
      marker.toList <:+: front ∨ marker.toList <:+: smallLetters words ++ behind := by
  constructor
  · intro hin
    obtain hfront | hback | ⟨n, hpos, hlt, -, hback⟩ := infix_append_cases hin
    · exact .inl hfront
    · exact .inr hback
    · -- the rest of the marker and the words both start what comes behind
      obtain ⟨hstart, hover⟩ := h marker hmarker n hlt hpos
      obtain hprefix | hprefix :=
        List.prefix_or_prefix_of_prefix hback (List.prefix_append (smallLetters words) behind)
      · exact absurd hprefix hstart
      · exact absurd hprefix hover
  · rintro (hfront | hbehind)
    · exact List.infix_append_of_infix_left hfront
    · exact List.infix_append_of_infix_right hbehind

end

/-! ## Parts -/

/-- A part of a text: words of its own, a number, or a text from outside. -/
inductive Part where
  | words (text : String)
  | number (text : String)
  | outside (text : String)

def Part.text : Part → String
  | .words text | .number text | .outside text => text

/-- The text of some parts, in small letters. -/
def partLetters (parts : List Part) : List Char := parts.flatMap fun part => smallLetters part.text

@[simp] theorem smallLetters_append (s t : String) :
    smallLetters (s ++ t) = smallLetters s ++ smallLetters t := by
  rw [smallLetters, String.toList_append, List.map_append]
  rfl

@[simp] theorem smallLetters_toString (s : String) : smallLetters (toString s) = smallLetters s :=
  rfl

@[simp] theorem partLetters_nil : partLetters [] = [] := rfl

@[simp] theorem partLetters_cons (part : Part) (rest : List Part) :
    partLetters (part :: rest) = smallLetters part.text ++ partLetters rest := rfl

@[simp] theorem partLetters_append (parts rest : List Part) :
    partLetters (parts ++ rest) = partLetters parts ++ partLetters rest := List.flatMap_append

/-- The texts from outside. -/
def outsideTexts (parts : List Part) : List String :=
  parts.filterMap fun
    | .outside text => some text
    | _ => none

/-- The part has no marker, as far as it is not from outside. -/
def Part.IsClean (markers : List String) : Part → Prop
  | .words text | .number text => ∀ marker ∈ markers, ¬ Mentions text marker
  | .outside _ => True

/-- The parts of a text are clean, and no marker runs over from one into another: words do not end
in the middle of one, or those behind them do not start there. -/
inductive Framed (markers : List String) : List Part → Prop
  | nil : Framed markers []
  | words {text rest} (h : Unmarked markers text) (hrest : Framed markers rest) :
      Framed markers (.words text :: rest)
  | last {part} (h : part.IsClean markers) : Framed markers [part]
  | parted {part text rest} (hclean : part.IsClean markers) (hparting : Parting markers text)
      (hrest : Framed markers (.words text :: rest)) :
      Framed markers (part :: .words text :: rest)

section

variable {markers : List String} {marker : String} {parts : List Part}

theorem Framed.divide {part : Part} {text : String} {rest : List Part}
    (hclean : part.IsClean markers) (htext : Unmarked markers text ∧ Parting markers text)
    (hrest : Framed markers rest) : Framed markers (part :: .words text :: rest) :=
  .parted hclean htext.2 (.words htext.1 hrest)

theorem Framed.append {text : String} {rest : List Part} (h : Framed markers parts)
    (htext : Unmarked markers text ∧ Parting markers text) (hrest : Framed markers rest) :
    Framed markers (parts ++ .words text :: rest) := by
  induction h with
  | nil => exact .words htext.1 hrest
  | words hwords _ ih => exact .words hwords ih
  | last hclean => exact .divide hclean htext hrest
  | parted hclean hnext _ ih => exact .parted hclean hnext ih

/-- A marker in one part is in the whole text. -/
theorem infix_partLetters {part : Part} (hpart : part ∈ parts) (h : Mentions part.text marker) :
    marker.toList <:+: partLetters parts :=
  h.trans (List.infix_of_mem_flatten (List.mem_map_of_mem hpart))

theorem Part.IsClean.mentions_iff {part : Part} (h : part.IsClean markers)
    (hmarker : marker ∈ markers) (rest : List Part) :
    (∃ text ∈ outsideTexts (part :: rest), Mentions text marker) ↔
      Mentions part.text marker ∨ ∃ text ∈ outsideTexts rest, Mentions text marker := by
  cases part with
  | words text => exact (or_iff_right (h marker hmarker)).symm
  | number text => exact (or_iff_right (h marker hmarker)).symm
  | outside text => exact List.exists_mem_cons_iff _ _ _

/-- **Only texts from outside have markers** in a framed text. -/
theorem Framed.infix_iff (h : Framed markers parts) (hmarker : marker ∈ markers)
    (hne : marker ≠ "") :
    marker.toList <:+: partLetters parts ↔ ∃ text ∈ outsideTexts parts, Mentions text marker := by
  induction h with
  | nil => simp [outsideTexts, hne]
  | words hwords _ ih => exact (hwords.infix_append_iff hmarker).trans ih
  | last hclean =>
    rw [hclean.mentions_iff hmarker, partLetters_cons, partLetters_nil, List.append_nil]
    simp [outsideTexts, Mentions]
  | parted hclean hparting _ ih =>
    rw [hclean.mentions_iff hmarker]
    exact (hparting.infix_append_iff hmarker).trans (or_congr_right ih)

end

end Cli

end EffortRank
