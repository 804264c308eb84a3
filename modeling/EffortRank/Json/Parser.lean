import EffortRank.Bounds
import EffortRank.Json.Token

/-!
# Reading JSON

`Document.ofText` reads a JSON text into the node that it holds. The reader keeps a stack of the
containers that are open, and takes the tokens one by one. Where a token does not fit, the node
breaks off: the containers that are open hold what was read of them, and the break at their end.
-/

namespace EffortRank

namespace Json

/-- A node with its layout. -/
structure PlacedNode where
  node : Node
  layout : Layout

/-- A field with its layout. -/
structure PlacedField where
  name : Option String
  nameStop : Nat
  value : PlacedNode

/-- A container that is still open, with the place of its bracket: its items in reverse, or its
fields in reverse with the name of the field that comes next. -/
inductive Frame where
  | items (start : Nat) (done : List PlacedNode)
  | fields (start : Nat) (done : List PlacedField) (name : Option String) (nameStop : Nat)

/-- What the reader waits for. `firstItem` and `firstField` come right behind an opening bracket,
which may close again. -/
inductive Expected where
  | value
  | firstItem
  | firstField (start : Nat)
  | field (start : Nat) (done : List PlacedField)
  | colon
  | next (value : PlacedNode)

/-- The reader: the open containers, innermost first, and what it waits for. -/
structure Reader where
  frames : List Frame
  expected : Expected

def PlacedNode.ofItems (start : Nat) (done : List PlacedNode) : PlacedNode where
  node := .arr (done.reverse.map (·.node))
  layout := .list start (done.reverse.map (·.layout))

def PlacedNode.ofFields (start : Nat) (done : List PlacedField) : PlacedNode where
  node := .obj (done.reverse.map fun f => (f.name, f.value.node))
  layout := .record start (done.reverse.map fun f => (f.nameStop, f.value.layout))

namespace Reader

/-! ## Breaks -/

def breakAt (reason : String) (place : Nat) : PlacedNode := ⟨.broken reason, .scalar place⟩

def closeFrame (last : PlacedNode) : Frame → PlacedNode
  | .items start done => .ofItems start (last :: done)
  | .fields start done name nameStop => .ofFields start (⟨name, nameStop, last⟩ :: done)

def closeAll (last : PlacedNode) (frames : List Frame) : PlacedNode := frames.foldl closeFrame last

/-- What was read when the text breaks off. A break behind a value is one of the container that
should go on there. -/
def broken (r : Reader) (reason : String) (place : Nat) : PlacedNode :=
  let last := breakAt reason place
  match r.expected with
  | .firstField start => closeAll (.ofFields start [⟨none, place, last⟩]) r.frames
  | .field start done => closeAll (.ofFields start (⟨none, place, last⟩ :: done)) r.frames
  | .next v =>
    match r.frames with
    | .items start done :: frames => closeAll (.ofItems start (last :: v :: done)) frames
    | .fields start done name nameStop :: frames =>
      closeAll (.ofFields start (⟨none, place, last⟩ :: ⟨name, nameStop, v⟩ :: done)) frames
    | [] => v
  | _ => closeAll last r.frames

/-! ## Steps -/

def put (frames : List Frame) (value : PlacedNode) : Reader := ⟨frames, .next value⟩

/-- Takes a token where a value must come. -/
def value (frames : List Frame) (t : PlacedToken) : Except String Reader :=
  match t.token with
  | .scalar v => .ok (put frames ⟨v, .scalar t.stop⟩)
  | .openItems => .ok ⟨.items (t.stop - 1) [] :: frames, .firstItem⟩
  | .openFields => .ok ⟨frames, .firstField (t.stop - 1)⟩
  | .broken reason => .error reason
  | _ => .error "expected value"

/-- Takes a token where the name of a field must come. -/
def name (frames : List Frame) (start : Nat) (done : List PlacedField) (t : PlacedToken) :
    Except String Reader :=
  match t.token with
  | .scalar (.str s) => .ok ⟨.fields start done (some s) t.stop :: frames, .colon⟩
  | .scalar .unpaired => .ok ⟨.fields start done none t.stop :: frames, .colon⟩
  | .broken reason => .error reason
  | _ => .error "key must be a string"

/-- Takes one token, or says why it does not fit. -/
def step (r : Reader) (t : PlacedToken) : Except String Reader :=
  match r.expected with
  | .value => value r.frames t
  | .firstItem =>
    match t.token, r.frames with
    | .closeItems, .items start done :: frames => .ok (put frames (.ofItems start done))
    | _, _ => value r.frames t
  | .firstField start =>
    match t.token with
    | .closeFields => .ok (put r.frames (.ofFields start []))
    | _ => name r.frames start [] t
  | .field start done => name r.frames start done t
  | .colon =>
    match t.token with
    | .colon => .ok ⟨r.frames, .value⟩
    | .broken reason => .error reason
    | _ => .error "expected `:`"
  | .next v =>
    match r.frames, t.token with
    | .items start done :: frames, .comma => .ok ⟨.items start (v :: done) :: frames, .value⟩
    | .items start done :: frames, .closeItems => .ok (put frames (.ofItems start (v :: done)))
    | .fields start done name nameStop :: frames, .comma =>
      .ok ⟨frames, .field start (⟨name, nameStop, v⟩ :: done)⟩
    | .fields start done name nameStop :: frames, .closeFields =>
      .ok (put frames (.ofFields start (⟨name, nameStop, v⟩ :: done)))
    | _, .broken reason => .error reason
    | _, _ => .error "expected a comma or a closing bracket"

end Reader

/-! ## Documents -/

/-- What a JSON text holds: its node, and the place of anything that stands behind it. -/
structure Document where
  root : PlacedNode
  trailing : Option Nat

/-- Takes the tokens that are left. -/
def Reader.run (r : Reader) (place : Nat) : List PlacedToken → Document
  | [] =>
    match r.frames, r.expected with
    | [], .next v => ⟨v, none⟩
    | _, _ => ⟨r.broken "EOF while parsing a value" place, none⟩
  | t :: ts =>
    match r.frames, r.expected with
    | [], .next v => ⟨v, some t.stop⟩
    | _, _ =>
      match r.step t with
      | .ok next => next.run t.stop ts
      | .error reason => ⟨r.broken reason t.stop, none⟩

def Document.ofText (text : String) : Document := Reader.run ⟨[], .value⟩ 0 (tokens text.toList)

/-- The line and the column of a place, both from one; the column counts the bytes before it. -/
def lineAndColumn (text : String) (place : Nat) : Nat × Nat :=
  let before := text.toList.take place
  let line := before.reverse.takeWhile (· != '\n')
  (before.count '\n' + 1, total (line.map Char.utf8Size))

/-- Reads a JSON text into a value, or tells the first thing that is wrong with it. -/
def decodeText {α : Type} (read : Node → Except Fault α) (text : String) : Except String α :=
  let document := Document.ofText text
  let located (message : String) (place : Nat) : String :=
    let (line, column) := lineAndColumn text place
    s!"{message} at line {line} column {column}"
  match read document.root.node with
  | .error fault =>
    .error (located fault.problem.message (document.root.layout.place fault.path))
  | .ok x =>
    match document.trailing with
    | some place => .error (located "trailing characters" place)
    | none => .ok x

end Json

end EffortRank
