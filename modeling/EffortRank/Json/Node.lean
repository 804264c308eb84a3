import EffortRank.Json.Numeral
import EffortRank.Reading.Basic

/-!
# JSON as it is found in a text

A node is what a text holds, sound or not. The name of a field, or a text, may be half of a
surrogate pair, which stands for no text. Where the text is no JSON any more, the node is `broken`,
and nothing comes behind it. So the sound part of a text can be read, and its faults are found in
the order in which they stand in the text.

A fault in a node is told with the path that leads to it. The `Layout` of a node tells where in the
text the end of a path is.
-/

namespace EffortRank

namespace Json

/-- What a text holds. -/
inductive Node where
  | null
  | bool (b : Bool)
  | int (n : Int)
  | real (x : Numeral)
  | str (s : String)
  | unpaired
  | arr (items : List Node)
  | obj (fields : List (Option String × Node))
  | broken (reason : String)
deriving Inhabited

/-! ## Faults -/

/-- A step into a container: to an item of a list, or to the name or the value of a field. -/
inductive Step where
  | item (index : Nat)
  | name (index : Nat)
  | value (index : Nat)
deriving DecidableEq, Repr

/-- A fault, and the path to it. -/
structure Fault where
  path : List Step
  problem : Problem
deriving DecidableEq, Repr

def Fault.inside (step : Step) (fault : Fault) : Fault := { fault with path := step :: fault.path }

namespace Node

/-- What is wrong with a node in a place where something else is expected. -/
def problem (expected : String) : Node → Problem
  | .null => .mismatch .nothing expected
  | .bool b => .mismatch (.truth b) expected
  | .int n => .mismatch (.integer n) expected
  | .real x => .mismatch (.fraction x.text) expected
  | .str s => .mismatch (.text s) expected
  | .unpaired => .malformed "half of a surrogate pair"
  | .arr _ => .mismatch .list expected
  | .obj _ => .mismatch .record expected
  | .broken reason => .malformed reason

/-- The fault of a node in a place where something else is expected. -/
def refuse {α : Type} (v : Node) (expected : String) : Except Fault α :=
  .error ⟨[], v.problem expected⟩

mutual

/-- The place where a node breaks off, if it does. -/
def break? : Node → Option Fault
  | .broken reason => some ⟨[], .malformed reason⟩
  | .arr items => breakOfItems? 0 items
  | .obj fields => breakOfFields? 0 fields
  | _ => none

/-- The place where one of the items breaks off. -/
def breakOfItems? (index : Nat) : List Node → Option Fault
  | [] => none
  | v :: vs =>
    match break? v with
    | some fault => some (fault.inside (.item index))
    | none => breakOfItems? (index + 1) vs

/-- The place where one of the values breaks off. -/
def breakOfFields? (index : Nat) : List (Option String × Node) → Option Fault
  | [] => none
  | (_, v) :: rest =>
    match break? v with
    | some fault => some (fault.inside (.value index))
    | none => breakOfFields? (index + 1) rest

end

end Node

/-! ## Places -/

/-- Where a node stands in its text, in characters from the start: the end of a scalar, or the start
of a container with the layouts of what it holds; a field has the end of its name as well. -/
inductive Layout where
  | scalar (stop : Nat)
  | list (start : Nat) (items : List Layout)
  | record (start : Nat) (fields : List (Nat × Layout))
deriving Inhabited

def Layout.place : Layout → List Step → Nat
  | .scalar stop, _ => stop
  | .list start items, .item i :: path =>
    match items[i]? with
    | some layout => layout.place path
    | none => start
  | .record start fields, .name i :: _ => ((fields[i]?).map (·.1)).getD start
  | .record start fields, .value i :: path =>
    match fields[i]? with
    | some (_, layout) => layout.place path
    | none => start
  | .list start _, _ => start
  | .record start _, _ => start

end Json

end EffortRank
