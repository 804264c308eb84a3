import EffortRank.Proofs.Cli.Messages
import Mathlib.Data.List.Find
import Mathlib.Data.List.TakeWhile

/-!
# Exit codes and kinds of failures

Each kind of failure has an exit code of its own (`FailureKind.exitCode`), and the words of its
messages have a marker of that code. The codes are tried in order, so a failure has the code of its
kind unless a text from outside has a marker of a code that is tried before
(`Failure.exitCode_eq`). Main statements: `Failure.exitCode_eq_iff` and `Failure.exitCode_congr`.
-/

namespace EffortRank

namespace Cli

/-! ## Kinds -/

/-- The kinds of failures that have exit codes of their own, and all others. -/
inductive FailureKind where
  | unreadable
  | malformed
  | inconsistent
  | configuration
  | other
deriving DecidableEq, Repr

def FailureKind.exitCode : FailureKind → UInt8
  | .unreadable => 3
  | .malformed => 4
  | .inconsistent => 5
  | .configuration => 2
  | .other => 1

/-- The kind of a failure: an input that cannot be read, one that is malformed or out of order, a
graph with unknown functions or commits, or a configuration that is missing or makes no sense. -/
def Failure.kind : Failure → FailureKind
  | .unreadableInput _ | .unreadable .. => .unreadable
  | .malformed .. | .graph _ (.malformed _) | .order .. | .replay (.order _) => .malformed
  | .graph _ (.badlyLinked _) | .replay (.graph _) => .inconsistent
  | .config .. | .filter _ => .configuration
  | .unwritable .. | .labels _ => .other

/-- The texts from outside that a failure repeats. -/
def Failure.outsideTexts (f : Failure) : List String := Cli.outsideTexts f.parts

/-- The markers of the codes that are tried before a code; all markers if it has none itself. -/
def markersBefore (code : UInt8) : List String :=
  (exitMarkers.takeWhile fun e => e.1 != code).flatMap (·.2)

/-! ## Words of messages -/

section

variable {code : UInt8}

theorem isFigure_messageNumber (x : Float) :
    (∀ c ∈ (messageNumber x).toList, isFigure c = true) ∨
      messageNumber x ∈ ["NaN", "-inf", "inf"] := by
  rw [messageNumber]
  cases shortest? .up x with
  | some d =>
    refine .inl fun c hc => isFigure_positional d c ?_
    simpa using hc
  | none =>
    right
    dsimp only
    rw [nonFiniteText]
    split
    · decide
    · split <;> decide

theorem exists_letter_of_mem_markersBefore {marker : String} (h : marker ∈ markersBefore code) :
    ∃ c ∈ marker.toList, isFigure c = false := by
  have hall : ∀ e ∈ exitMarkers, ∀ marker ∈ e.2, marker.toList.any (!isFigure ·) = true := by
    decide +kernel
  obtain ⟨e, he, hmarker⟩ := List.mem_flatMap.1 h
  simpa using hall e (List.takeWhile_subset _ he) marker hmarker

theorem isClean_nat (n : Nat) : Part.IsClean (markersBefore code) (.number (toString n)) :=
  fun _ hmarker => not_mentions_of_isFigure (isFigure_nat n)
    (exists_letter_of_mem_markersBefore hmarker)

theorem isClean_int (n : Int) : Part.IsClean (markersBefore code) (.number (toString n)) :=
  fun _ hmarker => not_mentions_of_isFigure (isFigure_int n)
    (exists_letter_of_mem_markersBefore hmarker)

theorem isClean_messageNumber (x : Float) :
    Part.IsClean (markersBefore 2) (.number (messageNumber x)) := by
  intro marker hmarker
  obtain hfigures | hwords := isFigure_messageNumber x
  · exact not_mentions_of_isFigure hfigures (exists_letter_of_mem_markersBefore hmarker)
  · have hnone : ∀ text ∈ ["NaN", "-inf", "inf"], ∀ marker ∈ markersBefore 2,
        ¬ Mentions text marker := by decide +kernel
    exact hnone _ hwords marker hmarker

end

theorem FileError.framed (e : FileError) : Framed (markersBefore 1) e.parts := by
  have hwords : ∀ e ∈ [FileError.missing, .notDirectory, .directory, .nameTooLong, .noSpace],
      Unmarked (markersBefore 1) e.message := by decide +kernel
  cases e with
  | other reason => exact .last trivial
  | _ => exact .words (hwords _ (by simp)) .nil

end Cli

open Cli (Framed Unmarked Parting markersBefore isClean_nat isClean_int isClean_messageNumber)

theorem GraphError.framed (e : GraphError) : Framed (markersBefore 5) e.parts := by
  have hwords : ∀ words ∈ ["Unknown node: ", "Unknown commit: ", noCurrentCommit.message],
      Unmarked (markersBefore 5) words := by decide +kernel
  cases e with
  | unknownNode name => exact .words (hwords _ (by simp)) (.last trivial)
  | noCurrentCommit => exact .words (hwords _ (by simp)) .nil
  | unknownCommit hash => exact .words (hwords _ (by simp)) (.last trivial)

theorem OrderError.framed (e : OrderError) : Framed (markersBefore 4) e.parts := by
  have hlisting : ∀ listing : Listing, Unmarked (markersBefore 4) (listing.text ++ " #") := by
    intro listing
    cases listing <;> decide +kernel
  have hwords : ∀ words ∈ [" starts at line ", ", before the previous one at line ", " [", ", ",
      "] overlaps the previous one [", "]"],
      Unmarked (markersBefore 4) words ∧ Parting (markersBefore 4) words := by decide +kernel
  cases e with
  | unsorted listing index start previous =>
    exact .words (hlisting listing) (.divide (isClean_nat index) (hwords _ (by simp))
      (.divide (isClean_int start) (hwords _ (by simp)) (.last (isClean_int previous))))
  | overlapping listing index previous current =>
    exact .words (hlisting listing) (.divide (isClean_nat index) (hwords _ (by simp))
      (.divide (isClean_int current.first) (hwords _ (by simp))
        (.divide (isClean_int current.last) (hwords _ (by simp))
          (.divide (isClean_int previous.first) (hwords _ (by simp))
            (.divide (isClean_int previous.last) (hwords _ (by simp)) .nil)))))

theorem LabelError.framed (e : LabelError) : Framed (markersBefore 1) e.parts := by
  have hcommit : Unmarked (markersBefore 1) "Commit " := by decide +kernel
  have hwords : ∀ words ∈ [" has ", " label probabilities, expected "],
      Unmarked (markersBefore 1) words ∧ Parting (markersBefore 1) words := by decide +kernel
  have hend : (∀ marker ∈ markersBefore 1, ¬ Cli.Mentions " has no label probabilities" marker) ∧
      Parting (markersBefore 1) " has no label probabilities" := by decide +kernel
  cases e with
  | missing hash => exact .words hcommit (.parted trivial hend.2 (.last hend.1))
  | arity hash expected found =>
    exact .words hcommit (.divide trivial (hwords _ (by simp))
      (.divide (isClean_nat found) (hwords _ (by simp)) (.last (isClean_nat expected))))

theorem PatternError.framed (e : PatternError) : Framed (markersBefore 2) e.parts := by
  have hfault : ∀ fault : GlobFault, Unmarked (markersBefore 2) (": " ++ fault.message) ∧
      Parting (markersBefore 2) (": " ++ fault.message) := by
    intro fault
    cases fault <;> decide +kernel
  have hwords : Unmarked (markersBefore 2) "bad glob pattern " := by decide +kernel
  have hposition : Unmarked (markersBefore 2) ": Pattern syntax error near position " ∧
      Parting (markersBefore 2) ": Pattern syntax error near position " := by decide +kernel
  exact .words hwords (.divide trivial hposition
    (.divide (isClean_nat e.error.position) (hfault e.error.fault) .nil))

theorem InvalidConfig.framed (e : InvalidConfig) : Framed (markersBefore 2) e.parts := by
  have hwords : ∀ words ∈ ["centrality.alpha must be within [0, 1], got ",
      "centrality.epsilon must be positive, got ", maxRounds.message, complexity.message],
      Unmarked (markersBefore 2) words := by decide +kernel
  cases e with
  | alpha x => exact .words (hwords _ (by simp)) (.last (isClean_messageNumber x))
  | epsilon x => exact .words (hwords _ (by simp)) (.last (isClean_messageNumber x))
  | maxRounds => exact .words (hwords _ (by simp)) .nil
  | complexity => exact .words (hwords _ (by simp)) .nil
  | pattern e => exact e.framed

theorem ConfigError.framed (e : ConfigError) : Framed (markersBefore 2) e.parts := by
  have hwords : ∀ words ∈ ["Config file not found: ", "Parse error: ", "Invalid config: "],
      Unmarked (markersBefore 2) words := by decide +kernel
  cases e with
  | notFound path => exact .words (hwords _ (by simp)) (.last trivial)
  | unreadable reason => exact .words (hwords _ (by simp)) (.last trivial)
  | invalid e => exact .words (hwords _ (by simp)) e.framed

namespace Cli

/-- **The words of a failure have no marker of a code that is tried before that of its kind.** -/
theorem Failure.framed {f : Failure} (h : f.kind ≠ .unreadable) :
    Framed (markersBefore f.kind.exitCode) f.parts := by
  have hopening : ∀ e ∈ [(1, "Cannot write "), (4, "Invalid JSON in "), (2, "Cannot load config "),
      (2, "Invalid config filter: "), (2, "Invalid config: "), (4, "Cannot load graph "),
      (5, "Cannot load graph "), (4, "Serialization error: "), (5, "Graph error: "),
      (4, "Diff error in "), (4, "Diff error: ")], Unmarked (markersBefore e.1) e.2 := by
    decide +kernel
  have hcolon : ∀ code ∈ [1, 2, 4, 5], Unmarked (markersBefore code) ": " ∧
      Parting (markersBefore code) ": " := by decide +kernel
  cases f with
  | unreadableInput e => exact absurd rfl h
  | unreadable path e => exact absurd rfl h
  | unwritable path e =>
    exact .words (hopening (1, _) (by simp)) (.divide trivial (hcolon 1 (by simp)) e.framed)
  | malformed path reason =>
    exact .words (hopening (4, _) (by simp))
      (.divide trivial (hcolon 4 (by simp)) (.last trivial))
  | config path e =>
    exact .words (hopening (2, _) (by simp)) (.divide trivial (hcolon 2 (by simp)) e.framed)
  | filter e =>
    exact .words (hopening (2, _) (by simp)) (.words (hopening (2, _) (by simp)) e.framed)
  | graph path e =>
    cases e with
    | malformed reason =>
      exact .words (hopening (4, _) (by simp)) (.divide trivial (hcolon 4 (by simp))
        (.words (hopening (4, _) (by simp)) (.divide trivial (hcolon 4 (by simp))
          (.last trivial))))
    | badlyLinked e =>
      exact .words (hopening (5, _) (by simp)) (.divide trivial (hcolon 5 (by simp))
        (.words (hopening (5, _) (by simp)) (e.framed.append (hcolon 5 (by simp)) e.framed)))
  | order path e =>
    exact .words (hopening (4, _) (by simp)) (.divide trivial (hcolon 4 (by simp)) e.framed)
  | replay e =>
    cases e with
    | order e =>
      exact .words (hopening (4, _) (by simp)) (e.framed.append (hcolon 4 (by simp)) e.framed)
    | graph e =>
      exact .words (hopening (5, _) (by simp)) (e.framed.append (hcolon 5 (by simp)) e.framed)
  | labels e => exact e.framed

/-! ## Codes of failures -/

section

variable {f g : Failure} {marker : String}

/-- A text from outside that the failure repeats has the marker. -/
def Failure.Repeats (f : Failure) (marker : String) : Prop :=
  ∃ text ∈ f.outsideTexts, Mentions text marker

instance (f : Failure) : DecidablePred f.Repeats :=
  fun marker => inferInstanceAs (Decidable (∃ text ∈ f.outsideTexts, Mentions text marker))

theorem Failure.mentions_message_iff (h : marker ∈ markersBefore f.kind.exitCode) :
    Mentions f.message marker ↔ f.Repeats marker := by
  have hkind : f.kind ≠ .unreadable := by
    intro hkind
    rw [hkind] at h
    exact absurd h List.not_mem_nil
  have hne : marker ≠ "" := by
    obtain ⟨c, hc, -⟩ := exists_letter_of_mem_markersBefore h
    rintro rfl
    exact absurd hc List.not_mem_nil
  rw [Mentions, ← f.partLetters_parts]
  exact (Failure.framed hkind).infix_iff h hne

theorem Failure.mentions_of_words {words : String} (hwords : .words words ∈ f.parts)
    (h : Mentions words marker) : Mentions f.message marker := by
  rw [Mentions, ← f.partLetters_parts]
  exact infix_partLetters hwords h

/-- The words of a failure have a marker of its kind. -/
theorem Failure.exists_words (h : f.kind ≠ .other) :
    ∃ words, .words words ∈ f.parts ∧
      ∃ e ∈ exitMarkers, e.1 = f.kind.exitCode ∧ ∃ marker ∈ e.2, Mentions words marker := by
  have hmarked : ∀ e ∈ [(3, "Cannot read stdin: "), (3, "Cannot read "), (4, "Invalid JSON in "),
      (2, "Cannot load config "), (2, "Invalid config filter: "), (4, "Serialization error: "),
      (5, "Graph error: "), (4, "Diff error in "), (4, "Diff error: ")],
      ∃ group ∈ exitMarkers, group.1 = e.1 ∧ ∃ marker ∈ group.2, Mentions e.2 marker := by
    decide +kernel
  cases f with
  | unreadableInput e => exact ⟨_, by simp [parts], hmarked (3, "Cannot read stdin: ") (by simp)⟩
  | unreadable path e => exact ⟨_, by simp [parts], hmarked (3, "Cannot read ") (by simp)⟩
  | unwritable path e => exact absurd rfl h
  | malformed path reason =>
    exact ⟨_, by simp [parts], hmarked (4, "Invalid JSON in ") (by simp)⟩
  | config path e => exact ⟨_, by simp [parts], hmarked (2, "Cannot load config ") (by simp)⟩
  | filter e => exact ⟨_, by simp [parts], hmarked (2, "Invalid config filter: ") (by simp)⟩
  | graph path e =>
    cases e with
    | malformed reason =>
      exact ⟨_, by simp [parts, GraphTextError.parts],
        hmarked (4, "Serialization error: ") (by simp)⟩
    | badlyLinked e =>
      exact ⟨_, by simp [parts, GraphTextError.parts], hmarked (5, "Graph error: ") (by simp)⟩
  | order path e => exact ⟨_, by simp [parts], hmarked (4, "Diff error in ") (by simp)⟩
  | replay e =>
    cases e with
    | order e => exact ⟨_, by simp [parts], hmarked (4, "Diff error: ") (by simp)⟩
    | graph e => exact ⟨_, by simp [parts], hmarked (5, "Graph error: ") (by simp)⟩
  | labels e => exact absurd rfl h

/-- The code of a kind stands for one group of markers, which the message of a failure has. -/
theorem Failure.any_mentions {group : UInt8 × List String} (hgroup : group ∈ exitMarkers)
    (hcode : group.1 = f.kind.exitCode) :
    group.2.any (fun marker => occursIn marker.toList (smallLetters f.message)) = true := by
  have hunique : ∀ e ∈ exitMarkers, ∀ e' ∈ exitMarkers, e.1 = e'.1 → e = e' := by decide
  have hother : ∀ e ∈ exitMarkers, e.1 ≠ FailureKind.other.exitCode := by decide
  have hkind : f.kind ≠ .other := by
    intro hkind
    rw [hkind] at hcode
    exact hother group hgroup hcode
  obtain ⟨words, hwords, e, he, he', marker, hmarker, hmentions⟩ := Failure.exists_words hkind
  obtain rfl := hunique group hgroup e he (hcode.trans he'.symm)
  exact List.any_eq_true.2 ⟨marker, hmarker,
    occursIn_iff.2 (Failure.mentions_of_words hwords hmentions)⟩

/-- Two searches end alike if they agree up to an element that both take. -/
theorem find?_congr_of_takeWhile {α : Type} {l : List α} {p q r : α → Bool}
    (hbefore : ∀ a ∈ l.takeWhile (fun a => !r a), p a = q a)
    (hboth : ∀ a ∈ l, r a = true → p a = true ∧ q a = true) : l.find? p = l.find? q := by
  induction l with
  | nil => rfl
  | cons a l ih =>
    rw [List.forall_mem_cons] at hboth
    cases ha : r a with
    | true =>
      obtain ⟨hp, hq⟩ := hboth.1 ha
      rw [List.find?_cons_of_pos hp, List.find?_cons_of_pos hq]
    | false =>
      rw [List.takeWhile_cons_of_pos (by rw [ha]; rfl), List.forall_mem_cons] at hbefore
      rw [List.find?_cons, List.find?_cons, hbefore.1, ih hbefore.2 hboth.2]

/-- A search ends among the first elements if one of these is taken. -/
theorem exists_find?_of_mem_takeWhile {α : Type} {l : List α} {p q : α → Bool} {a : α}
    (ha : a ∈ l.takeWhile q) (hp : p a = true) : ∃ b ∈ l.takeWhile q, l.find? p = some b := by
  obtain ⟨b, hb⟩ := Option.isSome_iff_exists.1 (List.find?_isSome.2 ⟨a, ha, hp⟩)
  refine ⟨b, List.mem_of_find?_eq_some hb, ?_⟩
  rw [← List.takeWhile_append_dropWhile (p := q) (l := l), List.find?_append, hb, Option.some_or]

/-- The first code that is the given one or has one of some markers; one if there is none. -/
def firstCode (code : UInt8) (has : String → Bool) : UInt8 :=
  ((exitMarkers.find? fun e => e.1 == code || e.2.any has).map Prod.fst).getD 1

theorem firstCode_congr {code : UInt8} {p q : String → Bool}
    (h : ∀ marker ∈ markersBefore code, p marker = q marker) :
    firstCode code p = firstCode code q := by
  have hfind : exitMarkers.find? (fun e => e.1 == code || e.2.any p) =
      exitMarkers.find? fun e => e.1 == code || e.2.any q := by
    refine find?_congr_of_takeWhile (r := fun e => e.1 == code) (fun e he => ?_)
      fun e _ hcode => by rw [hcode]; exact ⟨rfl, rfl⟩
    have hany : e.2.any p = e.2.any q := by
      rw [Bool.eq_iff_iff, List.any_eq_true, List.any_eq_true]
      refine exists_congr fun marker => and_congr_right fun hmarker => ?_
      rw [h marker (List.mem_flatMap.2 ⟨e, he, hmarker⟩)]
    rw [hany]
  rw [firstCode, firstCode, hfind]

theorem firstCode_eq_iff {kind : FailureKind} {has : String → Bool} :
    firstCode kind.exitCode has = kind.exitCode ↔
      ∀ marker ∈ markersBefore kind.exitCode, has marker = false := by
  constructor
  · intro hcode marker hmarker
    by_contra hhas
    obtain ⟨e, he, hmarker⟩ := List.mem_flatMap.1 hmarker
    have htaken : (e.1 == kind.exitCode || e.2.any has) = true :=
      Bool.or_eq_true_iff.2 (.inr (List.any_eq_true.2 ⟨marker, hmarker, by simpa using hhas⟩))
    -- the search ends in front of the code of the kind, at another one
    obtain ⟨found, hfound, hfind⟩ :=
      exists_find?_of_mem_takeWhile (p := fun e => e.1 == kind.exitCode || e.2.any has) he htaken
    have hother : (found.1 != kind.exitCode) = true :=
      List.mem_takeWhile_imp (p := fun e : UInt8 × List String => e.1 != kind.exitCode) hfound
    rw [firstCode, hfind] at hcode
    exact bne_iff_ne.1 hother hcode
  · intro h
    rw [firstCode_congr (q := fun _ => false) h]
    cases kind <;> rfl

theorem exitCodeOf_eq (message : String) :
    exitCodeOf message = ((exitMarkers.find? fun e =>
      e.2.any fun marker => occursIn marker.toList (smallLetters message)).map
        Prod.fst).getD 1 := by
  unfold exitCodeOf smallLetters
  dsimp only
  cases exitMarkers.find? fun e =>
    e.2.any fun marker => occursIn marker.toList (message.toList.map smallLetter) <;> rfl

/-- **The code of a failure** is the first that is the one of its kind or has a marker in a text
from outside. -/
theorem Failure.exitCode_eq (f : Failure) :
    f.exitCode = firstCode f.kind.exitCode fun marker => f.Repeats marker := by
  have hown : exitMarkers.find? (fun e =>
      e.2.any fun marker => occursIn marker.toList (smallLetters f.message)) =
        exitMarkers.find? fun e => e.1 == f.kind.exitCode ||
          e.2.any fun marker => occursIn marker.toList (smallLetters f.message) := by
    refine List.find?_congr fun e he => ?_
    cases hcode : e.1 == f.kind.exitCode with
    | true => rw [Failure.any_mentions he (beq_iff_eq.1 hcode), Bool.or_true]
    | false => rw [Bool.false_or]
  rw [Failure.exitCode, exitCodeOf_eq, hown]
  refine firstCode_congr fun marker hmarker => ?_
  rw [Bool.eq_iff_iff, occursIn_iff, decide_eq_true_eq]
  exact Failure.mentions_message_iff hmarker

/-- **A failure has the code of its kind** if and only if no text from outside has a marker of a
code that is tried before. -/
theorem Failure.exitCode_eq_iff :
    f.exitCode = f.kind.exitCode ↔
      ∀ marker ∈ markersBefore f.kind.exitCode, ¬ f.Repeats marker := by
  rw [f.exitCode_eq, firstCode_eq_iff]
  simp only [decide_eq_false_iff_not]

/-- Failures of one kind have one code if the texts from outside have the same markers, as far as
these are tried before the markers of the kind. -/
theorem Failure.exitCode_congr (hkind : f.kind = g.kind)
    (h : ∀ marker ∈ markersBefore f.kind.exitCode, f.Repeats marker ↔ g.Repeats marker) :
    f.exitCode = g.exitCode := by
  rw [f.exitCode_eq, g.exitCode_eq, ← hkind]
  exact firstCode_congr fun marker hmarker => decide_eq_decide.2 (h marker hmarker)

end

end Cli

end EffortRank
