import EffortRank.Reading.Basic

/-!
# Faults of TOML documents

A place in a document is the text from there on. A fault has a place and a problem: the document is
no TOML there, or says something twice, or holds something else than what is read from it.
`Fault.text` shows the line of the place above the problem.
-/

namespace EffortRank

namespace Toml

/-- A place in a document: the text from there on. -/
abbrev Place := List Char

/-- A key that says something twice. The last one is the part of a key with dots that stands for a
value already. -/
inductive KeyClash where
  | repeated (key : String)
  | repeatedIn (key : String) (table : List String)
  | extended (path : List String) (kind : String)
deriving DecidableEq, Repr

/-- What is wrong with a document. -/
inductive DocumentProblem where
  | malformed (reason : String)
  | entry (clash : KeyClash)
  | header (clash : KeyClash)
  | record (problem : Problem)
deriving DecidableEq, Repr

/-- A problem with its place. -/
structure Fault where
  place : Place
  problem : DocumentProblem
deriving DecidableEq, Repr

/-- What is read from a place of a document, and the place behind it. -/
abbrev Scan (α : Type) := Except Fault (α × Place)

def stuck {α : Type} (place : Place) (reason : String) : Except Fault α :=
  .error ⟨place, .malformed reason⟩

/-! ## Texts -/

def KeyClash.message : KeyClash → String
  | .repeated key => s!"duplicate key `{key}`"
  | .repeatedIn key [] => s!"duplicate key `{key}` in document root"
  | .repeatedIn key table =>
    let path := ".".intercalate table
    s!"duplicate key `{key}` in table `{path}`"
  | .extended path kind =>
    let key := ".".intercalate path
    s!"dotted key `{key}` attempted to extend non-table type ({kind})"

def DocumentProblem.message : DocumentProblem → String
  | .malformed reason => reason
  | .entry clash => clash.message
  | .header clash => "invalid table header\n" ++ clash.message
  | .record problem => problem.message

/-- A place in a document as its line, the number of characters before it in the line, and the
number of lines before that line. A line feed belongs to the line that it ends, and the end of the
document to the last line. -/
structure Mark where
  above : Nat
  column : Nat
  line : String

def Mark.of (document : String) (place : Place) : Mark :=
  let chars := document.toList
  let index := chars.length - place.length
  let last := min index (chars.length - 1)
  let before := chars.take last
  let start := (before.reverse.takeWhile (· != '\n')).reverse
  { above := before.count '\n'
    column := start.length + (index - last)
    line := String.ofList (start ++ (chars.drop last).takeWhile (· != '\n')) }

def spaces (n : Nat) : String := String.ofList (List.replicate n ' ')

def Fault.text (document : String) (fault : Fault) : String :=
  let mark := Mark.of document fault.place
  let number := toString (mark.above + 1)
  let margin := spaces (number.length + 1) ++ "|"
  let heading := s!"TOML parse error at line {number}, column {mark.column + 1}\n"
  heading ++ margin ++ "\n" ++ s!"{number} | {mark.line}\n" ++ margin ++ spaces (mark.column + 1) ++
    "^\n" ++ fault.problem.message ++ "\n"

end Toml

end EffortRank
