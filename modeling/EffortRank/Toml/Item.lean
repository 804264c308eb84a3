import EffortRank.Decimal.Double
import EffortRank.Toml.Fault

/-!
# TOML items

A TOML document is a table of named items. While a document is read, a table remembers how it came
about, since that decides who may still add to it: under a header of its own, on the way to a
deeper header, or on the way to a dotted key. An inline table is closed. Every item remembers where
it starts in the document.
-/

namespace EffortRank

namespace Toml

/-- How a table came about. -/
inductive TableOrigin where
  | header
  | implied
  | dotted
  | inline
deriving DecidableEq, Repr

/-- A value without parts. A `moment` is a date, a time or both; nothing here looks inside it. -/
inductive Scalar where
  | str (s : String)
  | int (n : Int)
  | float (x : Double)
  | bool (b : Bool)
  | moment

/-- An item of a document. A table under a header starts with the header, one without a header with
the key that made it, and a list of tables with its first header. -/
inductive Item where
  | scalar (start : Place) (value : Scalar)
  | arr (start : Place) (items : List Item)
  | table (start : Place) (origin : TableOrigin) (fields : List (String × Item))
  | tables (start : Place) (elements : List (Place × List (String × Item)))
deriving Inhabited

/-- The fields of a table. -/
abbrev Fields := List (String × Item)

/-- A part of a dotted key, with its place. -/
structure Key where
  name : String
  start : Place

namespace Item

def start : Item → Place
  | .scalar start _ => start
  | .arr start _ => start
  | .table start _ _ => start
  | .tables start _ => start

def kind : Item → String
  | .scalar _ (.str _) => "string"
  | .scalar _ (.int _) => "integer"
  | .scalar _ (.float _) => "float"
  | .scalar _ (.bool _) => "boolean"
  | .scalar _ .moment => "datetime"
  | .arr _ _ => "array"
  | .table _ .inline _ => "inline table"
  | .table _ _ _ => "table"
  | .tables _ _ => "array of tables"

end Item

/-! ## Fields -/

def Fields.get? (fields : Fields) (key : String) : Option Item :=
  (fields.find? fun e => e.1 == key).map (·.2)

/-- Puts an item under a key, behind the others if the key is new. -/
def Fields.set (key : String) (item : Item) : Fields → Fields
  | [] => [(key, item)]
  | e :: rest => if e.1 = key then (key, item) :: rest else e :: Fields.set key item rest

def Fields.remove (fields : Fields) (key : String) : Fields := fields.filter fun e => e.1 != key

def changeLast {α : Type} (change : Fields → Except KeyClash (Fields × α)) :
    List (Place × Fields) → Except KeyClash (List (Place × Fields) × Option α)
  | [] => .ok ([], none)
  | [(start, last)] => do
    let (last, x) ← change last
    return ([(start, last)], some x)
  | first :: rest => do
    let (rest, x) ← changeLast change rest
    return (first :: rest, x)

/-! ## Dotted keys -/

/-- Puts a value under a key. The tables of dotted keys, and no others, are open to keys with
dots. -/
def putLast (home : Option (List String)) (origin : TableOrigin) (dotted : Bool) (key : String)
    (value : Item) (fields : Fields) : Except KeyClash Fields :=
  if dotted != (origin == .dotted) then .error (.repeated key)
  else if (fields.get? key).isSome then
    .error (match home with
      | some table => .repeatedIn key table
      | none => .repeated key)
  else .ok (fields ++ [(key, value)])

/-- Puts a value under a dotted key, into a table of the given origin. The tables on the way may not
have headers of their own, and the last one must stem from dotted keys. `home` is the section of the
document to which the table belongs; an inline table has none. -/
def putDotted (home : Option (List String)) (origin : TableOrigin) (walked : List String)
    (key : String) (value : Item) : List Key → Fields → Except KeyClash Fields
  | [], fields => putLast home origin (!walked.isEmpty) key value fields
  | name :: path, fields => do
    let walked := walked ++ [name.name]
    match fields.get? name.name with
    | none =>
      let inner ← putDotted home .dotted walked key value path []
      return fields.set name.name (.table name.start .dotted inner)
    | some (.table start origin inner) =>
      if origin = .header ∨ (origin = .inline ∧ home.isNone) then throw (.repeated name.name)
      if origin = .inline then throw (.extended walked "inline table")
      let inner ← putDotted home origin walked key value path inner
      return fields.set name.name (.table start origin inner)
    | some (.tables start elements) =>
      let put (fields : Fields) : Except KeyClash (Fields × Unit) := do
        return (← putDotted home .header walked key value path fields, ())
      let (elements, _) ← changeLast put elements
      return fields.set name.name (.tables start elements)
    | some item => throw (.extended walked item.kind)

/-! ## Headers -/

/-- Changes the table to which the path of a header leads. Tables on the way that are missing are
implied. -/
def changeAt {α : Type} (change : Fields → Except KeyClash (Fields × α)) (walked : List String) :
    List Key → Fields → Except KeyClash (Fields × Option α)
  | [], fields => do
    let (fields, x) ← change fields
    return (fields, some x)
  | name :: path, fields => do
    let walked := walked ++ [name.name]
    match fields.get? name.name with
    | none =>
      let (inner, x) ← changeAt change walked path []
      return (fields.set name.name (.table name.start .implied inner), x)
    | some (.table start origin inner) =>
      if origin = .inline then throw (.extended walked "inline table")
      let (inner, x) ← changeAt change walked path inner
      return (fields.set name.name (.table start origin inner), x)
    | some (.tables start elements) =>
      let (elements, x) ← changeLast (changeAt change walked path) elements
      return (fields.set name.name (.tables start elements), x.join)
    | some item => throw (.extended walked item.kind)

end Toml

end EffortRank
