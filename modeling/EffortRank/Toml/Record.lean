import EffortRank.Decimal.Basic
import EffortRank.Reading.Basic
import EffortRank.Toml.Document

/-!
# Reading TOML records

A table of a document is read as a record. Unknown keys mean nothing, and every field has a value
that stands for a missing one. An array may stand for a record: it gives the fields in their order.
Of several faults the one that comes first in the table is told.
-/

namespace EffortRank

namespace Toml

/-! ## Scalars -/

/-- What an item is, in a place where something else is expected. -/
def Item.found : Item → Found
  | .scalar _ (.str s) => .text s
  | .scalar _ (.int n) => .integer n
  | .scalar _ (.float x) => .fraction (messageNumber x.toFloat)
  | .scalar _ (.bool b) => .truth b
  | .scalar _ .moment => .record
  | .arr _ _ => .list
  | .table _ _ _ => .record
  | .tables _ _ => .list

/-- The fault of an item in a place where something else is expected. -/
def Item.refuse {α : Type} (item : Item) (expected : String) : Except Fault α :=
  .error ⟨item.start, .record (.mismatch item.found expected)⟩

def asDouble : Item → Except Fault Double
  | .scalar _ (.float x) => .ok x
  | .scalar start (.int n) =>
    match Decimal.float? ⟨n < 0, n.natAbs, 0⟩ with
    | some x => .ok (.number x)
    | none => .error ⟨start, .record (.outOfRange n "f64")⟩
  | item => item.refuse "f64"

/-- A double of which the sign of a NaN does not matter. -/
def asFloat (item : Item) : Except Fault Float := (asDouble item).map Double.toFloat

/-- A count: an integer of 32 bits without a sign. -/
def asCount : Item → Except Fault Nat
  | .scalar start (.int n) =>
    if 0 ≤ n ∧ n < 4294967296 then .ok n.toNat else .error ⟨start, .record (.outOfRange n "u32")⟩
  | item => item.refuse "u32"

def asBool : Item → Except Fault Bool
  | .scalar _ (.bool b) => .ok b
  | item => item.refuse "a boolean"

def asText : Item → Except Fault String
  | .scalar _ (.str s) => .ok s
  | item => item.refuse "a string"

/-! ## Containers -/

def elementItems (elements : List (Place × Fields)) : List Item :=
  elements.map fun e => .table e.1 .header e.2

def asList {α : Type} (read : Item → Except Fault α) : Item → Except Fault (List α)
  | .arr _ items => items.mapM read
  | .tables _ elements => (elementItems elements).mapM read
  | item => item.refuse "a sequence"

/-- The parts of a record under the names of its fields, each with its index. -/
structure RecordParts where
  part? : String → Option (Nat × Item)

namespace RecordParts

/-- A field with a value that stands for a missing one. -/
def defaulted {α : Type} (r : RecordParts) (name : String) (missing : α)
    (read : Item → Except Fault α) : Parts Fault α :=
  match r.part? name with
  | some (index, item) => .ofPart index (read item)
  | none => .read missing

def ofFields (fields : Fields) : RecordParts where
  part? name := do
    let index ← fields.findIdx? fun field => field.1 == name
    let field ← fields[index]?
    return (index, field.2)

def ofItems (names : List String) (items : List Item) : RecordParts where
  part? name := do
    let index ← names.idxOf? name
    let item ← items[index]?
    return (index, item)

end RecordParts

/-- Reads a record with the given fields. A date or time has none of them. -/
def readRecord {α : Type} (names : List String) (read : RecordParts → Parts Fault α)
    (item : Item) : Except Fault α :=
  match item with
  | .table _ _ fields => (read (.ofFields fields)).result
  | .arr _ items => (read (.ofItems names items)).result
  | .tables _ elements => (read (.ofItems names (elementItems elements))).result
  | .scalar _ .moment => (read (.ofFields [])).result
  | item => item.refuse "a table"

end Toml

end EffortRank
