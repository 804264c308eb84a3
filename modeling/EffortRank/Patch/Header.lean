import EffortRank.Diff.Basic
import EffortRank.Text.Basic

/-!
# Hunk headers

A hunk of a unified diff is headed by `@@ -a,b +c,d @@`: the hunk shows `b` lines of the old file
from line `a` on, and `d` lines of the new one from line `c` on. Blanks may stand after the first
mark, between the two sides and before the second mark. `Header.read?` reads one header at the
start of a text; `hunksOf` finds the complete ones anywhere in it.
-/

namespace EffortRank

open Text

/-- The lines of both versions that a hunk shows. -/
structure Hunk where
  oldStart : Int
  oldLength : Int
  newStart : Int
  newLength : Int
deriving DecidableEq, Repr, Inhabited

namespace Hunk

/-- The last of `length` lines from `start` on. -/
def lastLine (start length : Int) : Int := min (start + length) maxLineNumber - 1

/-- The lines of the old version that the hunk shows. -/
def oldRange (h : Hunk) : LineRange := ⟨h.oldStart, lastLine h.oldStart h.oldLength⟩

/-- The lines of the new version that the hunk shows. -/
def newRange (h : Hunk) : LineRange := ⟨h.newStart, lastLine h.newStart h.newLength⟩

def fits (h : Hunk) : Bool :=
  h.oldStart + h.oldLength + 1 ≤ maxLineNumber && h.newStart + h.newLength + 1 ≤ maxLineNumber

end Hunk

/-! ## Reading a header -/

/-- The four numbers of a header as they are written; a length that is left out is `none`. -/
structure Header where
  oldStart : List Char
  oldLength : Option (List Char)
  newStart : List Char
  newLength : Option (List Char)
deriving DecidableEq, Repr

namespace Header

def expect? : List Char → List Char → Option (List Char)
  | [], cs => some cs
  | p :: ps, c :: cs => if p = c then expect? ps cs else none
  | _ :: _, [] => none

def digits? (cs : List Char) : Option (List Char × List Char) :=
  match cs.takeWhile isDecimalDigit with
  | [] => none
  | ds => some (ds, cs.dropWhile isDecimalDigit)

/-- Reads a comma and a number, or nothing. A comma without a number is left unread. -/
def length? (cs : List Char) : Option (List Char) × List Char :=
  match cs with
  | ',' :: rest =>
    match digits? rest with
    | some (ds, rest) => (some ds, rest)
    | none => (none, cs)
  | _ => (none, cs)

def read? (cs : List Char) : Option (Header × List Char) := do
  let cs ← expect? ['@', '@'] cs
  let cs ← expect? ['-'] (cs.dropWhile isBlank)
  let (oldStart, cs) ← digits? cs
  let (oldLength, cs) := length? cs
  let cs ← expect? ['+'] (cs.dropWhile isBlank)
  let (newStart, cs) ← digits? cs
  let (newLength, cs) := length? cs
  let cs ← expect? ['@', '@'] (cs.dropWhile isBlank)
  return (⟨oldStart, oldLength, newStart, newLength⟩, cs)

def isComplete (h : Header) : Bool := h.oldLength.isSome && h.newLength.isSome

/-- The line number written by the digits; `none` if it is too large or not in ASCII digits. -/
def lineNumber? (ds : List Char) : Option Int :=
  match asciiNumber? ds with
  | some n => if (n : Int) ≤ maxLineNumber then some n else none
  | none => none

/-- A length that is left out is one. -/
def lengthValue? : Option (List Char) → Option Int
  | none => some 1
  | some ds => lineNumber? ds

/-- The hunk that a header announces; `none` if one of its numbers is no line number. -/
def hunk? (h : Header) : Option Hunk := do
  let oldStart ← lineNumber? h.oldStart
  let oldLength ← lengthValue? h.oldLength
  let newStart ← lineNumber? h.newStart
  let newLength ← lengthValue? h.newLength
  let hunk : Hunk := ⟨oldStart, oldLength, newStart, newLength⟩
  if hunk.fits then some hunk else none

end Header

/-! ## Finding headers -/

/-- The complete header at the start of a text, with its number of characters. -/
def completeHeader? (cs : List Char) : Option (Header × Nat) :=
  match Header.read? cs with
  | some (h, rest) => if h.isComplete then some (h, cs.length - rest.length) else none
  | none => none

/-- The complete headers of a text after its first `skip` characters, from left to right. The
search goes on behind the header that it found last. -/
def headersFrom : Nat → List Char → List Header
  | _, [] => []
  | skip + 1, _ :: cs => headersFrom skip cs
  | 0, c :: cs =>
    match completeHeader? (c :: cs) with
    | some (h, n) => h :: headersFrom (n - 1) cs
    | none => headersFrom 0 cs

/-- The hunks of the complete headers in a text, wherever they stand; a header whose numbers are
no line numbers is passed over. -/
def hunksOf (text : List Char) : List Hunk := (headersFrom 0 text).filterMap Header.hunk?

/-- The old lines that the hunks of a text show. -/
def hunkRanges (text : List Char) : List LineRange := (hunksOf text).map Hunk.oldRange

end EffortRank
