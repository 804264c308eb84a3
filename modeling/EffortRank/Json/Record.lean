import EffortRank.Bounds
import EffortRank.Json.Parser
import EffortRank.NameMap.Basic
import EffortRank.Reading.Basic

/-!
# Reading records

A record is written as an object or, shorter, as a list of its fields in their declared order.
Fields that the record does not know are passed over; a known field may occur once. Each field is
required, or has a value that stands for a missing one. Of several faults the one that stands first
in the text is told.
-/

namespace EffortRank

namespace Json

/-! ## Scalars -/

def asText : Node → Except Fault String
  | .str s => .ok s
  | v => v.refuse "a string"

def asBool : Node → Except Fault Bool
  | .bool b => .ok b
  | v => v.refuse "a boolean"

/-- A line number: an integer of 64 bits with a sign. -/
def asLine : Node → Except Fault Int
  | .int n => if lineFits n then .ok n else .error ⟨[], .outOfRange n "i64"⟩
  | v => v.refuse "i64"

/-- A count: an integer of 64 bits without a sign. -/
def asCount : Node → Except Fault Nat
  | .int n => if 0 ≤ n ∧ n ≤ maxCount then .ok n.toNat else .error ⟨[], .outOfRange n "u64"⟩
  | v => v.refuse "u64"

/-- A number as a double, which `read?` finds for a numeral. -/
def asDouble (read? : Numeral → Option Float) (v : Node) : Except Fault Float :=
  let found (x : Numeral) : Except Fault Float :=
    match read? x with
    | some d => .ok d
    | none => .error ⟨[], .malformed "number out of range"⟩
  match v with
  | .int n => found (.ofInt n)
  | .real x => found x
  | v => v.refuse "f64"

/-! ## Containers -/

/-- Reads the items of a list, the first of which has the given index. -/
def readItems {α : Type} (read : Node → Except Fault α) (index : Nat) :
    List Node → Except Fault (List α)
  | [] => .ok []
  | v :: vs => do
    let x ← (read v).mapError (·.inside (.item index))
    let xs ← readItems read (index + 1) vs
    return x :: xs

def asList {α : Type} (read : Node → Except Fault α) : Node → Except Fault (List α)
  | .arr items => readItems read 0 items
  | v => v.refuse "a sequence"

/-- The name of a field, which should be a text. -/
def readName (index : Nat) : Option String × Node → Except Fault String
  | (some name, _) => .ok name
  | (none, .broken reason) => .error ⟨[.name index], .malformed reason⟩
  | (none, _) => .error ⟨[.name index], .malformed "half of a surrogate pair"⟩

/-- Reads the fields of an object, the first of which has the given index. -/
def readFields {α : Type} (read : Node → Except Fault α) (index : Nat) :
    List (Option String × Node) → Except Fault (List (String × α))
  | [] => .ok []
  | (name, v) :: rest => do
    let name ← readName index (name, v)
    let x ← (read v).mapError (·.inside (.value index))
    let xs ← readFields read (index + 1) rest
    return (name, x) :: xs

/-- An object whose field names are data; of equal names the last one counts. -/
def asMap {α : Type} (read : Node → Except Fault α) : Node → Except Fault (NameMap α)
  | .obj fields => (readFields read 0 fields).map NameMap.ofList
  | v => v.refuse "a map"

/-! ## Records -/

/-- A part of a record: its index among the parts, the step that leads to it, and what it holds. -/
structure RecordPart where
  index : Nat
  step : Step
  node : Node

/-- The parts of a record under the names of its fields, and how many there are. -/
structure RecordParts where
  part? : String → Option RecordPart
  size : Nat

namespace RecordParts

variable {α : Type}

def readPart (read : Node → Except Fault α) (part : RecordPart) : Parts Fault α :=
  .ofPart part.index ((read part.node).mapError (·.inside part.step))

/-- A field that must be there. -/
def required (r : RecordParts) (name : String) (read : Node → Except Fault α) : Parts Fault α :=
  match r.part? name with
  | some part => readPart read part
  | none => .faulty r.size ⟨[], .missing name⟩

/-- A field with a value that stands for a missing one. -/
def defaulted (r : RecordParts) (name : String) (missing : α) (read : Node → Except Fault α) :
    Parts Fault α :=
  match r.part? name with
  | some part => readPart read part
  | none => .read missing

/-- Null, or a value. -/
def readNullable (read : Node → Except Fault α) : Node → Except Fault (Option α)
  | .null => .ok none
  | v => (read v).map some

/-- A field that may be missing or null. -/
def optional (r : RecordParts) (name : String) (read : Node → Except Fault α) :
    Parts Fault (Option α) :=
  r.defaulted name none (readNullable read)

def ofItems (names : List String) (items : List Node) : RecordParts where
  part? name := do
    let index ← names.idxOf? name
    let node ← items[index]?
    return ⟨index, .item index, node⟩
  size := items.length

def ofFields (fields : List (Option String × Node)) : RecordParts where
  part? name := do
    let index ← fields.findIdx? fun field => field.1 == some name
    let field ← fields[index]?
    return ⟨index, .value index, field.2⟩
  size := fields.length

end RecordParts

/-- Looks at the fields that hold no part of the record, the first of which has the given index: a
known field must not occur again, an unknown one must be sound. -/
def checkFields (names seen : List String) (index : Nat) :
    List (Option String × Node) → Parts Fault Unit
  | [] => .read ()
  | (name, v) :: rest =>
    match readName index (name, v) with
    | .error fault => .faulty index fault
    | .ok name =>
      if names.contains name then
        if seen.contains name then .faulty index ⟨[.name index], .repeated name⟩
        else checkFields names (name :: seen) (index + 1) rest
      else
        match v.break? with
        | some fault => .faulty index (fault.inside (.value index))
        | none => checkFields names seen (index + 1) rest

def checkItems (names : List String) (items : List Node) : Parts Fault Unit :=
  match items[names.length]? with
  | none => .read ()
  | some v =>
    match v with
    | .broken reason => .faulty names.length ⟨[.item names.length], .malformed reason⟩
    | _ => .faulty names.length ⟨[.item names.length], .tooLong s!"{names.length} elements"⟩

def readRecord {α : Type} (names : List String) (read : RecordParts → Parts Fault α) :
    Node → Except Fault α
  | .obj fields =>
    ((fun x _ => x) <$> read (.ofFields fields) <*> checkFields names [] 0 fields).result
  | .arr items =>
    ((fun x _ => x) <$> read (.ofItems names items) <*> checkItems names items).result
  | v => v.refuse "a record"

end Json

end EffortRank
