import EffortRank.Rank.Scalar

/-!
# Transition matrices

A digraph has nodes `0, 1, …` and a list of edges, parallel ones included. Its transition matrix
says how likely a walker at one node is to step to another, in proportion to the weights of the
nodes it may step to. A node without a way out, or whose ways out weigh nothing, has no steps.

The matrix is kept by rows: row `r` holds the entries with the indices from `rowOffsets[r]` up to
`rowOffsets[r + 1]`, in ascending order of their columns. Reading the weight of a node that has
none makes the whole result `none`.
-/

namespace EffortRank

/-- A directed graph with `size` nodes. -/
structure Digraph where
  size : Nat
  edges : List (Nat × Nat)
deriving DecidableEq, Repr

namespace Digraph

/-- The nodes that each node has an edge to, that of the latest edge first. -/
def targets (g : Digraph) : Array (List Nat) :=
  g.edges.foldl (fun out e => out.modify e.1 (e.2 :: ·)) (Array.replicate g.size [])

end Digraph

/-- An entry of a matrix: the probability of a step from `column` to `row`. -/
structure MatrixEntry (α : Type) where
  row : Nat
  column : Nat
  value : α
deriving Repr

/-- A square matrix kept by rows. -/
structure TransitionMatrix (α : Type) where
  size : Nat
  rowOffsets : Array Nat
  columns : Array Nat
  values : Array α
deriving Repr

namespace TransitionMatrix

variable {α : Type} [Scalar α]

/-- The entries of one column, for a node with the given targets. -/
@[specialize]
def columnEntries? (weights : Array α) (column : Nat) (targets : List Nat) :
    Option (List (MatrixEntry α)) := do
  let found ← targets.mapM fun row => (weights[row]?).map fun w => (row, w)
  let total := Scalar.sum (found.map (·.2))
  if Scalar.le total Scalar.zero then return []
  else return found.map fun e => ⟨e.1, column, e.2 / total⟩

/-- The entries of all columns from `column` on. -/
@[specialize]
def entriesFrom? (weights : Array α) (column : Nat) :
    List (List Nat) → Option (List (MatrixEntry α))
  | [] => some []
  | targets :: rest => do
    let first ← columnEntries? weights column targets
    let others ← entriesFrom? weights (column + 1) rest
    return first ++ others

/-- An entry stands before another: in an earlier row, or in the same row not behind it. -/
def entryLE {β : Type} (a b : MatrixEntry β) : Bool :=
  a.row < b.row || (a.row == b.row && a.column ≤ b.column)

def rowCounts {β : Type} (size : Nat) (entries : List (MatrixEntry β)) : Array Nat :=
  entries.foldl (fun counts e => counts.modify e.row (· + 1)) (Array.replicate size 0)

/-- The sums of the first `0, 1, …` counts. -/
def offsets (counts : Array Nat) : Array Nat :=
  counts.foldl (fun sums n => sums.push (sums.back?.getD 0 + n)) #[0]

def ofEntries {β : Type} (size : Nat) (entries : List (MatrixEntry β)) : TransitionMatrix β :=
  let sorted := entries.mergeSort entryLE
  { size
    rowOffsets := offsets (rowCounts size sorted)
    columns := (sorted.map MatrixEntry.column).toArray
    values := (sorted.map MatrixEntry.value).toArray }

@[specialize]
def ofDigraph? (g : Digraph) (weights : Array α) : Option (TransitionMatrix α) :=
  (entriesFrom? weights 0 g.targets.toList).map (ofEntries g.size)

def entryCount {β : Type} (m : TransitionMatrix β) : Nat := m.values.size

def row {β : Type} (m : TransitionMatrix β) (r : Nat) : Array (Nat × β) :=
  let start := m.rowOffsets[r]?.getD 0
  let stop := m.rowOffsets[r + 1]?.getD 0
  (m.columns.extract start stop).zip (m.values.extract start stop)

@[specialize]
def rowProduct? (m : TransitionMatrix α) (v : Array α) (r : Nat) : Option α :=
  (m.row r).foldlM (fun sum e => (v[e.1]?).map fun x => sum + e.2 * x) Scalar.sumStart

/-- The product of the matrix with a vector, times a factor. -/
@[specialize]
def scaledProduct? (m : TransitionMatrix α) (v : Array α) (factor : α) : Option (Array α) :=
  (Array.range m.size).mapM fun r => (m.rowProduct? v r).map fun x => factor * x

end TransitionMatrix

end EffortRank
