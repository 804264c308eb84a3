import EffortRank.Proofs.Cli.Markers

/-!
# The parts of messages

What each error says, in parts: its own words, the numbers in it, and the texts that it repeats from
outside.
-/

namespace EffortRank

open Cli (Part smallLetters partLetters)

namespace Cli

/-! ## Numbers -/

/-- A character of a number that is written out. -/
def isFigure (c : Char) : Bool := c.isDigit || c == '-' || c == '.'

theorem smallLetter_of_isFigure {c : Char} (h : isFigure c = true) : smallLetter c = c := by
  have hbound : c.val ≤ 57 := by
    simp only [isFigure, Char.isDigit, Bool.or_eq_true, Bool.and_eq_true, decide_eq_true_eq,
      beq_iff_eq] at h
    obtain ((⟨-, h⟩ | rfl) | rfl) := h
    · exact h
    · decide
    · decide
  have hkelvin : c ≠ '\u212a' := by
    rintro rfl
    exact absurd hbound (by decide)
  have hcapital : ¬ (65 ≤ c.val ∧ c.val ≤ 90) := by
    rintro ⟨hle, -⟩
    exact absurd (UInt32.le_trans hle hbound) (by decide)
  rw [smallLetter, if_neg hkelvin]
  exact dif_neg hcapital

/-- Figures have no marker, as a marker has letters. -/
theorem not_mentions_of_isFigure {text marker : String} (h : ∀ c ∈ text.toList, isFigure c = true)
    (hmarker : ∃ c ∈ marker.toList, isFigure c = false) : ¬ Mentions text marker := by
  rintro hmentions
  obtain ⟨c, hc, hletter⟩ := hmarker
  obtain ⟨d, hd, rfl⟩ := List.mem_map.1 (hmentions.subset hc)
  rw [smallLetter_of_isFigure (h d hd), h d hd] at hletter
  cases hletter

theorem isFigure_of_isDigit {c : Char} (h : c.isDigit = true) : isFigure c = true := by
  rw [isFigure, h]
  rfl

theorem isFigure_nat (n : Nat) : ∀ c ∈ (toString n).toList, isFigure c = true := by
  intro c hc
  exact isFigure_of_isDigit ((Text.isNumber_toDigits n).digits c (by simpa using hc))

theorem isFigure_int (n : Int) : ∀ c ∈ (toString n).toList, isFigure c = true := by
  rw [Int.toString_eq_repr, Int.repr_eq_if]
  split
  · exact isFigure_nat n.toNat
  · intro c hc
    rw [String.toList_append, List.mem_append] at hc
    obtain hc | hc := hc
    · rw [List.mem_singleton.1 hc]
      rfl
    · exact isFigure_nat _ c hc

theorem isFigure_positional (x : Decimal) : ∀ c ∈ x.positional [], isFigure c = true := by
  have hsign : ∀ c ∈ x.sign, isFigure c = true := by
    rw [Decimal.sign]
    split <;> simp [isFigure]
  have hzeros : ∀ n, ∀ c ∈ Decimal.zeros n, isFigure c = true := by
    intro n c hc
    rw [(List.mem_replicate.1 hc).2]
    rfl
  have hdigits : ∀ c ∈ Decimal.digitText x.digits, isFigure c = true := fun c hc =>
    isFigure_of_isDigit ((Text.isNumber_toDigits x.digits).digits c hc)
  intro c hc
  rw [Decimal.positional] at hc
  split at hc
  · simp only [List.mem_append, List.not_mem_nil, or_false] at hc
    obtain (hc | hc) | hc := hc
    · exact hsign c hc
    · exact hdigits c hc
    · exact hzeros _ c hc
  · split at hc
    · simp only [List.mem_append, List.mem_singleton] at hc
      obtain ((hc | hc) | rfl) | hc := hc
      · exact hsign c hc
      · exact hdigits c (List.mem_of_mem_take hc)
      · rfl
      · exact hdigits c (List.mem_of_mem_drop hc)
    · simp only [List.mem_append, List.mem_cons, List.not_mem_nil, or_false] at hc
      obtain ((hc | rfl | rfl) | hc) | hc := hc
      · exact hsign c hc
      · rfl
      · rfl
      · exact hzeros _ c hc
      · exact hdigits c hc

end Cli

/-! ## Errors -/

def Cli.FileError.parts : Cli.FileError → List Part
  | .other reason => [.outside reason]
  | e => [.words e.message]

def GraphError.parts : GraphError → List Part
  | .unknownNode name => [.words "Unknown node: ", .outside name]
  | .noCurrentCommit => [.words GraphError.noCurrentCommit.message]
  | .unknownCommit hash => [.words "Unknown commit: ", .outside hash]

def LineRange.parts (r : LineRange) : List Part :=
  [.number (toString r.first), .words ", ", .number (toString r.last)]

def OrderError.parts : OrderError → List Part
  | .unsorted listing index start previous =>
    [.words (listing.text ++ " #"), .number (toString index), .words " starts at line ",
      .number (toString start), .words ", before the previous one at line ",
      .number (toString previous)]
  | .overlapping listing index previous current =>
    [.words (listing.text ++ " #"), .number (toString index), .words " ["] ++ current.parts ++
      [.words "] overlaps the previous one ["] ++ previous.parts ++ [.words "]"]

def LabelError.parts : LabelError → List Part
  | .missing hash => [.words "Commit ", .outside hash, .words " has no label probabilities"]
  | .arity hash expected found =>
    [.words "Commit ", .outside hash, .words " has ", .number (toString found),
      .words " label probabilities, expected ", .number (toString expected)]

def PatternError.parts (e : PatternError) : List Part :=
  [.words "bad glob pattern ", .outside (Text.quoted e.pattern),
    .words ": Pattern syntax error near position ", .number (toString e.error.position),
    .words (": " ++ e.error.fault.message)]

def InvalidConfig.parts : InvalidConfig → List Part
  | .alpha x => [.words "centrality.alpha must be within [0, 1], got ", .number (messageNumber x)]
  | .epsilon x => [.words "centrality.epsilon must be positive, got ", .number (messageNumber x)]
  | .pattern e => e.parts
  | e => [.words e.message]

def ConfigError.parts : ConfigError → List Part
  | .notFound path => [.words "Config file not found: ", .outside path]
  | .unreadable reason => [.words "Parse error: ", .outside reason]
  | .invalid e => .words "Invalid config: " :: e.parts

def GraphTextError.parts : GraphTextError → List Part
  | .malformed reason =>
    [.words "Serialization error: ", .outside reason, .words ": ", .outside reason]
  | .badlyLinked e => .words "Graph error: " :: e.parts ++ .words ": " :: e.parts

/-- What a failure says, in parts. -/
def Cli.Failure.parts : Cli.Failure → List Part
  | .unreadableInput e => .words "Cannot read stdin: " :: e.parts
  | .unreadable path e => .words "Cannot read " :: .outside path :: .words ": " :: e.parts
  | .unwritable path e => .words "Cannot write " :: .outside path :: .words ": " :: e.parts
  | .malformed path reason =>
    [.words "Invalid JSON in ", .outside path, .words ": ", .outside reason]
  | .config path e => .words "Cannot load config " :: .outside path :: .words ": " :: e.parts
  | .filter e =>
    .words "Invalid config filter: " :: (ConfigError.invalid (.pattern e)).parts
  | .graph path e => .words "Cannot load graph " :: .outside path :: .words ": " :: e.parts
  | .order path e => .words "Diff error in " :: .outside path :: .words ": " :: e.parts
  | .replay (.order e) => .words "Diff error: " :: e.parts ++ .words ": " :: e.parts
  | .replay (.graph e) => .words "Graph error: " :: e.parts ++ .words ": " :: e.parts
  | .labels e => e.parts

/-! ## Parts of messages -/

@[simp] theorem Cli.FileError.partLetters_parts (e : Cli.FileError) :
    partLetters e.parts = smallLetters e.message := by
  cases e <;> exact List.append_nil _

@[simp] theorem GraphError.partLetters_parts (e : GraphError) :
    partLetters e.parts = smallLetters e.message := by
  cases e <;> simp [GraphError.parts, GraphError.message, Part.text]

@[simp] theorem OrderError.partLetters_parts (e : OrderError) :
    partLetters e.parts = smallLetters e.message := by
  have hopens : smallLetters " [" = smallLetters " " ++ smallLetters "[" := rfl
  have hmeets : smallLetters "] overlaps the previous one [" =
    smallLetters "]" ++ smallLetters " overlaps the previous one " ++ smallLetters "[" := rfl
  cases e <;>
    simp [OrderError.parts, OrderError.message, LineRange.parts, LineRange.text, Part.text, hopens,
      hmeets]

@[simp] theorem LabelError.partLetters_parts (e : LabelError) :
    partLetters e.parts = smallLetters e.message := by
  cases e <;> simp [LabelError.parts, LabelError.message, Part.text]

@[simp] theorem PatternError.partLetters_parts (e : PatternError) :
    partLetters e.parts = smallLetters e.message := by
  have hmessage : e.message = "bad glob pattern " ++ Text.quoted e.pattern ++ ": " ++
      ("Pattern syntax error near position " ++ toString e.error.position ++ ": " ++
        e.error.fault.message) := rfl
  have hcolon : smallLetters ": Pattern syntax error near position " =
    smallLetters ": " ++ smallLetters "Pattern syntax error near position " := rfl
  rw [hmessage]
  simp [PatternError.parts, Part.text, hcolon]

@[simp] theorem InvalidConfig.partLetters_parts (e : InvalidConfig) :
    partLetters e.parts = smallLetters e.message := by
  unfold InvalidConfig.parts InvalidConfig.message
  cases e <;> simp [Part.text]

@[simp] theorem ConfigError.partLetters_parts (e : ConfigError) :
    partLetters e.parts = smallLetters e.message := by
  unfold ConfigError.parts ConfigError.message
  cases e <;> simp [Part.text]

@[simp] theorem GraphTextError.partLetters_parts (e : GraphTextError) :
    partLetters e.parts = match e with
      | .malformed reason => smallLetters ("Serialization error: " ++ reason ++ ": " ++ reason)
      | .badlyLinked e => smallLetters ("Graph error: " ++ e.message ++ ": " ++ e.message) := by
  cases e <;> simp [GraphTextError.parts, Part.text]

/-- **A message is its parts.** -/
theorem Cli.Failure.partLetters_parts (f : Cli.Failure) :
    partLetters f.parts = smallLetters f.message := by
  have hchain : ∀ whole cause : String,
      ": ".intercalate [whole, cause] = whole ++ ": " ++ cause := fun _ _ => rfl
  have hchain₃ : ∀ whole cause source : String,
      ": ".intercalate [whole, cause, source] = whole ++ ": " ++ cause ++ ": " ++ source :=
    fun _ _ _ => rfl
  unfold Cli.Failure.message Cli.Failure.parts Cli.Failure.chain
  cases f with
  | graph path e => cases e <;> simp [Part.text, hchain₃]
  | replay e => cases e <;> simp [Part.text, ReplayError.message, hchain]
  | labels e => exact e.partLetters_parts
  | _ => simp [Part.text, hchain]

end EffortRank
