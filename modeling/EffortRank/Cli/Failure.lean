import EffortRank.Cli.Host
import EffortRank.Record.Replay
import EffortRank.Report
import EffortRank.Score

/-!
# Failures of commands

Why a command fails, the text that it then prints, and its exit code. The text goes from the whole
to the cause, and a cause that is part of the text of its effect is said again. The exit code is
found by markers in that text, in small letters.
-/

namespace EffortRank

namespace Cli

/-- Why a command fails. -/
inductive Failure where
  | unreadableInput (cause : FileError)
  | unreadable (path : String) (cause : FileError)
  | unwritable (path : String) (cause : FileError)
  | malformed (path : String) (reason : String)
  | config (path : String) (cause : ConfigError)
  | filter (cause : PatternError)
  | graph (path : String) (cause : GraphTextError)
  | order (path : String) (cause : OrderError)
  | replay (cause : ReplayError)
  | labels (cause : LabelError)

namespace Failure

/-- The texts of a failure and its causes, from the whole to the cause. -/
def chain : Failure → List String
  | .unreadableInput e => ["Cannot read stdin", e.message]
  | .unreadable path e => [s!"Cannot read {path}", e.message]
  | .unwritable path e => [s!"Cannot write {path}", e.message]
  | .malformed path reason => [s!"Invalid JSON in {path}", reason]
  | .config path e => [s!"Cannot load config {path}", e.message]
  | .filter e => ["Invalid config filter", (ConfigError.invalid (.pattern e)).message]
  | .graph path (.malformed reason) =>
    [s!"Cannot load graph {path}", s!"Serialization error: {reason}", reason]
  | .graph path (.badlyLinked e) =>
    [s!"Cannot load graph {path}", s!"Graph error: {e.message}", e.message]
  | .order path e => [s!"Diff error in {path}", e.message]
  | .replay (.order e) => [(ReplayError.order e).message, e.message]
  | .replay (.graph e) => [(ReplayError.graph e).message, e.message]
  | .labels e => [e.message]

/-- The text that is printed. -/
def message (f : Failure) : String := ": ".intercalate f.chain

end Failure

/-! ## Exit codes -/

/-- A letter as a small letter, as far as the markers can tell: the capital letters of ASCII, and
the sign for kelvin. -/
def smallLetter (c : Char) : Char := if c = '\u212a' then 'k' else c.toLower

def startsWith : List Char → List Char → Bool
  | [], _ => true
  | _ :: _, [] => false
  | p :: ps, c :: cs => p == c && startsWith ps cs

def occursIn (marker : List Char) : List Char → Bool
  | [] => marker.isEmpty
  | c :: cs => startsWith marker (c :: cs) || occursIn marker cs

/-- The markers of each exit code, in the order in which they are tried. -/
def exitMarkers : List (UInt8 × List String) :=
  [(3, ["cannot read"]),
    (4, ["invalid json", "serialization error", "diff error", "overlaps the previous",
      "before the previous"]),
    (5, ["graph error", "unknown node", "unknown commit"]),
    (2, ["cannot load config", "invalid config", "configuration error"])]

/-- The exit code of a failure with the given text; one is for failures without a marker. -/
def exitCodeOf (message : String) : UInt8 :=
  let small := message.toList.map smallLetter
  match exitMarkers.find? fun e => e.2.any fun marker => occursIn marker.toList small with
  | some (code, _) => code
  | none => 1

def Failure.exitCode (f : Failure) : UInt8 := exitCodeOf f.message

end Cli

end EffortRank
