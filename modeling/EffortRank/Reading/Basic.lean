import EffortRank.Text.Quoted

/-!
# Reading records

The parts of a record are read one by one, and each may be faulty. Of several faults the one that
counts is that of the part that comes first in the text, whatever the order in which the parts are
asked for. `Parts` keeps the index of the faulty part for that, so that a record is read as
`make <$> first <*> second`.

A text that should hold a record may hold something else in its place, or in the place of a field,
or be no text of its format at all. `Problem` is what is wrong, `Problem.message` how that is said.
A text that stands in the wrong place is quoted, the name of a choice that is unknown is not.
-/

namespace EffortRank

/-! ## Parts -/

/-- What some parts of a record give: a value, or a fault with the index of its part. -/
inductive Parts (ε α : Type) where
  | read (value : α)
  | faulty (index : Nat) (fault : ε)

namespace Parts

variable {ε α β : Type}

/-- Puts parts together. The fault of the earlier part counts, of two in one part the left one. -/
def join : Parts ε (α → β) → Parts ε α → Parts ε β
  | .read f, .read a => .read (f a)
  | .read _, .faulty i e => .faulty i e
  | .faulty i e, .read _ => .faulty i e
  | .faulty i e, .faulty j e' => if j < i then .faulty j e' else .faulty i e

instance : Applicative (Parts ε) where
  pure := .read
  seq f x := join f (x ())

/-- A part that was read for itself. -/
def ofPart (index : Nat) : Except ε α → Parts ε α
  | .ok a => .read a
  | .error e => .faulty index e

/-- The record, or the fault that comes first. -/
def result : Parts ε α → Except ε α
  | .read a => .ok a
  | .faulty _ e => .error e

end Parts

/-! ## Problems -/

/-- What stands where something else was expected. -/
inductive Found where
  | text (s : String)
  | integer (n : Int)
  | fraction (written : String)
  | truth (b : Bool)
  | nothing
  | list
  | record
deriving DecidableEq, Repr

/-- How the thing that was found is named. -/
def Found.message : Found → String
  | .text s => "string " ++ Text.quoted s
  | .integer n => s!"integer `{n}`"
  | .fraction written => s!"floating point `{written}`"
  | .truth b => s!"boolean `{b}`"
  | .nothing => "null"
  | .list => "sequence"
  | .record => "map"

/-- What is wrong with a record or a part of it. -/
inductive Problem where
  | mismatch (found : Found) (expected : String)
  | outOfRange (n : Int) (expected : String)
  | missing (name : String)
  | repeated (name : String)
  | unknownChoice (name : String) (choices : List String)
  | tooLong (expected : String)
  | malformed (reason : String)
deriving DecidableEq, Repr

def Problem.message : Problem → String
  | .mismatch found expected => s!"invalid type: {found.message}, expected {expected}"
  | .outOfRange n expected => s!"invalid value: integer `{n}`, expected {expected}"
  | .missing name => s!"missing field `{name}`"
  | .repeated name => s!"duplicate field `{name}`"
  | .unknownChoice name choices =>
    let known := ", ".intercalate (choices.map fun choice => s!"`{choice}`")
    s!"unknown variant `{name}`, expected one of {known}"
  | .tooLong expected => s!"invalid length, expected {expected}"
  | .malformed reason => reason

end EffortRank
