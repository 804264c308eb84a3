import EffortRank.Toml.Value

/-!
# TOML documents

`Toml.parse` reads a document into its table, line by line. The entries under a header are gathered
in a table that is put into the document when the section ends; a clash of keys is found at the line
that makes it.
-/

namespace EffortRank

namespace Toml

/-- The section that entries go to: the document itself, a table, or a new element of a list of
tables. The latter two have a header. -/
inductive Target where
  | root
  | table (start : Place) (key : DottedKey)
  | element (start : Place) (key : DottedKey)

/-- A document that is being read: the sections before, and the one that is open with its
entries. -/
structure Draft where
  doc : Fields
  target : Target
  entries : Fields

def DottedKey.names (key : DottedKey) : List String := (key.path ++ [key.last]).map (·.name)

def Target.path : Target → List String
  | .root => []
  | .table _ key => key.names
  | .element _ key => key.names

def keyChar (c : Char) : List Char :=
  if c = '"' then ['\\', '"']
  else if c = '\\' then ['\\', '\\']
  else if c = '\n' then ['\\', 'n']
  else if c = '\r' then ['\\', 'r']
  else if c = '\t' then ['\\', 't']
  else if c.toNat = 8 then ['\\', 'b']
  else if c.toNat = 12 then ['\\', 'f']
  else if isPrintable c then [c]
  else ['\\', 'u', '0', '0'] ++ (if c.toNat < 16 then ['0'] else []) ++
    (Nat.toDigits 16 c.toNat).map Char.toUpper

/-- A part of a key as it is written: with quotes if it needs them. -/
def keyText (name : String) : String :=
  let cs := name.toList
  if !cs.isEmpty && cs.all isKeyChar then name
  else String.ofList (['"'] ++ cs.flatMap keyChar ++ ['"'])

def headerClash (key : DottedKey) : KeyClash :=
  .repeatedIn (keyText key.last.name) (key.path.map (·.name))

namespace Draft

def empty : Draft := ⟨[], .root, []⟩

def close (d : Draft) : Except KeyClash Fields :=
  match d.target with
  | .root => .ok (d.doc ++ d.entries)
  | .table start key =>
    let put (fields : Fields) : Except KeyClash (Fields × Unit) :=
      if (fields.get? key.last.name).isSome then .error (headerClash key)
      else .ok (fields ++ [(key.last.name, .table start .header d.entries)], ())
    (changeAt put [] key.path d.doc).map (·.1)
  | .element start key =>
    let put (fields : Fields) : Except KeyClash (Fields × Unit) :=
      match fields.get? key.last.name with
      | some (.tables first elements) =>
        .ok (fields.set key.last.name (.tables first (elements ++ [(start, d.entries)])), ())
      | _ => .error (headerClash key)
    (changeAt put [] key.path d.doc).map (·.1)

/-- Opens the table of a header. It may have been implied before; then it goes on with what it
holds, behind the items that its parent got since. -/
def openTable (start : Place) (key : DottedKey) (d : Draft) : Except KeyClash Draft := do
  let take (fields : Fields) : Except KeyClash (Fields × Fields) :=
    match fields.get? key.last.name with
    | none => .ok (fields, [])
    | some (.table _ .implied inner) => .ok (fields.remove key.last.name, inner)
    | some _ => .error (headerClash key)
  let (doc, entries) ← changeAt take [] key.path (← d.close)
  return ⟨doc, .table start key, entries.getD []⟩

def openElement (start : Place) (key : DottedKey) (d : Draft) : Except KeyClash Draft := do
  let find (fields : Fields) : Except KeyClash (Fields × Unit) :=
    match fields.get? key.last.name with
    | none => .ok (fields ++ [(key.last.name, .tables start [])], ())
    | some (.tables _ _) => .ok (fields, ())
    | some _ => .error (headerClash key)
  let (doc, _) ← changeAt find [] key.path (← d.close)
  return ⟨doc, .element start key, []⟩

def addEntry (key : DottedKey) (value : Item) (d : Draft) : Except KeyClash Draft := do
  let entries ←
    putDotted (some d.target.path) .header [] key.last.name value key.path d.entries
  return { d with entries := entries }

/-- Reads a header behind its opening brackets, and the end of its line. -/
def header (closing : Nat) (cs : List Char) : Except Fault (DottedKey × Place) := do
  let (key, rest) ← expectKey cs
  let rest ← (List.replicate closing ']').foldlM
    (fun rest c => expectChar c "invalid table header\nexpected `.`, `]`" rest) rest
  return (key, ← lineEnd rest)

/-- Reads a line that is not empty, and takes it into the document. The value of an entry may have
as many parts as `fuel`. -/
def line (fuel : Nat) (d : Draft) (cs : List Char) : Except Fault (Draft × Place) := do
  match cs with
  | '#' :: _ => return (d, ← lineEnd cs)
  | '\n' :: rest => return (d, rest)
  | '\r' :: _ => return (d, ← lineEnd cs)
  | '[' :: '[' :: rest =>
    let (key, rest) ← header 2 rest
    let d ← (d.openElement cs key).mapError fun clash => ⟨cs, .header clash⟩
    return (d, rest)
  | '[' :: rest =>
    let (key, rest) ← header 1 rest
    let d ← (d.openTable cs key).mapError fun clash => ⟨cs, .header clash⟩
    return (d, rest)
  | _ =>
    let (key, rest) ← expectKey cs
    let rest ← expectChar '=' "expected `.`, `=`" rest
    let (item, rest) ← value fuel maxDepth (dropBlanks rest)
    let rest ← lineEnd rest
    let d ← (d.addEntry key item).mapError fun clash => ⟨cs, .entry clash⟩
    return (d, rest)

/-- Reads the lines that are left, of at most `fuel` characters. -/
def lines : Nat → Draft → List Char → Except Fault Draft
  | 0, d, _ => .ok d
  | fuel + 1, d, cs =>
    match dropBlanks cs with
    | [] => .ok d
    | cs => do
      let (d, rest) ← line (fuel + 1) d cs
      lines fuel d rest

end Draft

/-- The table of a document. A byte order mark may come first. -/
def parse (text : String) : Except Fault Fields := do
  let cs := match text.toList with
    | '\ufeff' :: rest => rest
    | cs => cs
  let d ← Draft.lines (cs.length + 1) .empty cs
  d.close.mapError fun clash => ⟨[], .header clash⟩

end Toml

end EffortRank
