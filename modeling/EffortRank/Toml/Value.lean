import EffortRank.Toml.Scalar

/-!
# Keys and values of TOML

Reading keys and values. Arrays and inline tables are nested at most `maxDepth` deep, and a key has
no more parts than that.
-/

namespace EffortRank

namespace Toml

/-- The deepest nesting of arrays and inline tables, and the greatest number of parts of a key. -/
def maxDepth : Nat := 79

/-! ## Blanks -/

def dropBlanks (cs : List Char) : List Char := cs.dropWhile fun c => c == ' ' || c == '\t'

/-- Drops a comment, if there is one. -/
def dropComment : List Char → List Char
  | '#' :: rest => rest.dropWhile isPrintable
  | cs => cs

/-- Reads the end of a line: blanks, a comment and the line end, or the end of the document. -/
def lineEnd (cs : List Char) : Except Fault Place :=
  match dropComment (dropBlanks cs) with
  | [] => .ok []
  | '\n' :: rest => .ok rest
  | '\r' :: '\n' :: rest => .ok rest
  | rest => stuck rest "expected newline, `#`"

/-- Drops blanks, comments and line ends; the text may start within a comment. Where a line end is
missing behind a comment or a carriage return, that place is the error. -/
def dropSpace (comment : Bool) : List Char → Except Place Place
  | [] => if comment then .error [] else .ok []
  | '\r' :: '\n' :: rest => dropSpace false rest
  | '\n' :: rest => dropSpace false rest
  | c :: rest =>
    if comment then (if isPrintable c then dropSpace true rest else .error (c :: rest))
    else if c = ' ' ∨ c = '\t' then dropSpace false rest
    else if c = '#' then dropSpace true rest
    else if c = '\r' then .error (c :: rest)
    else .ok (c :: rest)

/-! ## Keys -/

/-- A character of a key that has no quotes. -/
def isKeyChar (c : Char) : Bool := c.isAlphanum || c == '_' || c == '-'

/-- Reads one part of a key, if one starts here. -/
def keyPart (cs : List Char) : Except Fault (Option (Key × Place)) := do
  match cs with
  | '"' :: rest =>
    let (name, rest) ← basic rest
    return some (⟨String.ofList name, cs⟩, rest)
  | '\'' :: rest =>
    let (name, rest) ← literal rest
    return some (⟨String.ofList name, cs⟩, rest)
  | _ =>
    match cs.takeWhile isKeyChar with
    | [] => return none
    | name => return some (⟨String.ofList name, cs⟩, cs.dropWhile isKeyChar)

/-- Reads the parts of a key that are left, at most `fuel` of them, behind a part and its blanks:
each behind a dot, with blanks around it. A dot without a part behind it does not belong to the
key. -/
def keyParts : Nat → List Char → Except Fault (List Key × Place)
  | 0, cs => .ok ([], cs)
  | fuel + 1, cs =>
    match cs with
    | '.' :: more => do
      match ← keyPart (dropBlanks more) with
      | none => return ([], cs)
      | some (key, rest) =>
        let (keys, rest) ← keyParts fuel (dropBlanks rest)
        return (key :: keys, rest)
    | _ => .ok ([], cs)

/-- A dotted key: the path to its table, and its last part. -/
structure DottedKey where
  path : List Key
  last : Key

def DottedKey.ofParts (first : Key) (others : List Key) : DottedKey :=
  match others.getLast? with
  | some last => ⟨first :: others.dropLast, last⟩
  | none => ⟨[], first⟩

/-- Reads a dotted key, if one starts here. One with too many parts does not count. -/
def dottedKey (cs : List Char) : Except Fault (Option (DottedKey × Place)) := do
  match ← keyPart (dropBlanks cs) with
  | none => return none
  | some (first, rest) =>
    let (others, rest) ← keyParts maxDepth (dropBlanks rest)
    if others.length < maxDepth then return some (.ofParts first others, rest) else return none

/-- Reads a dotted key that must be there. -/
def expectKey (cs : List Char) : Except Fault (DottedKey × Place) := do
  match ← dottedKey cs with
  | some found => return found
  | none => stuck (dropBlanks cs) "invalid key"

/-- Reads a character that must be there. -/
def expectChar (c : Char) (reason : String) (cs : List Char) : Except Fault Place :=
  match cs with
  | d :: rest => if c = d then .ok rest else stuck cs reason
  | [] => stuck [] reason

/-! ## Values -/

/-- The item of a text that starts at a place. -/
def textItem (start : Place) (text : Scan (List Char)) : Scan Item :=
  text.map fun r => (.scalar start (.str (String.ofList r.1)), r.2)

def scalar (cs : List Char) : Scan Item :=
  match cs with
  | '"' :: '"' :: '"' :: rest => textItem cs (longBasic false (dropLineEnd rest))
  | '"' :: rest => textItem cs (basic rest)
  | '\'' :: '\'' :: '\'' :: rest => textItem cs (longLiteral (dropLineEnd rest))
  | '\'' :: rest => textItem cs (literal rest)
  | _ => bare cs

/-- A field of an inline table. -/
structure InlineField where
  key : DottedKey
  value : Item

def inlineFields (fields : List InlineField) : Except KeyClash Fields :=
  fields.foldlM (fun done f => putDotted none .inline [] f.key.last.name f.value f.key.path done) []

/-- Closes an inline table that starts at a place, behind its last field. -/
def closeInline (start : Place) (fields : List InlineField) (cs : List Char) :
    Except Fault (Item × Place) :=
  match inlineFields fields with
  | .error clash => .error ⟨start, .entry clash⟩
  | .ok table => do
    let rest ← expectChar '\x7d' "invalid inline table\nexpected a closing brace" cs
    return (.table start .inline table, rest)

mutual

/-- Reads a value, inside `depth` more containers at most. -/
def value (fuel depth : Nat) (cs : List Char) : Scan Item :=
  match fuel with
  | 0 => stuck cs "invalid value"
  | fuel + 1 =>
    match cs, depth with
    | '[' :: rest, depth + 1 => items fuel depth cs [] rest
    | '\x7b' :: rest, depth + 1 => fields fuel depth cs [] (dropBlanks rest) (dropBlanks rest)
    | '[' :: _, 0 => stuck cs "recursion limit exceeded"
    | '\x7b' :: _, 0 => stuck cs "recursion limit exceeded"
    | _, _ => scalar cs

/-- Reads the items that are left of an array that starts at a place, and its closing bracket. The
items that were read are in reverse. An item with a line end missing behind it is none. -/
def items (fuel depth : Nat) (start : Place) (done : List Item) (cs : List Char) :
    Except Fault (Item × Place) :=
  match fuel with
  | 0 => stuck cs "invalid array"
  | fuel + 1 =>
    match dropSpace false cs with
    | .error place => stuck place "invalid array"
    | .ok (']' :: rest) => .ok (.arr start done.reverse, rest)
    | .ok cs => do
      let (item, rest) ← value fuel depth cs
      match dropSpace false rest with
      | .error _ => stuck cs "invalid array\nexpected `]`"
      | .ok (',' :: rest) => items fuel depth start (item :: done) rest
      | .ok (']' :: rest) => return (.arr start (item :: done).reverse, rest)
      | .ok rest => stuck rest "invalid array\nexpected `]`"

/-- Reads the fields that are left of an inline table that starts at a place, and its closing brace.
The fields that were read are in reverse; `before` is the place of the comma in front of the next
one. -/
def fields (fuel depth : Nat) (start : Place) (done : List InlineField) (before cs : List Char) :
    Except Fault (Item × Place) :=
  match fuel with
  | 0 => stuck cs "invalid inline table"
  | fuel + 1 => do
    match ← dottedKey cs with
    | none => closeInline start done.reverse before
    | some (key, rest) =>
      let rest ← expectChar '=' "expected `.`, `=`" rest
      let (item, rest) ← value fuel depth (dropBlanks rest)
      let done := ⟨key, item⟩ :: done
      match dropBlanks rest with
      | ',' :: rest => fields fuel depth start done (',' :: rest) rest
      | rest => closeInline start done.reverse rest

end

end Toml

end EffortRank
