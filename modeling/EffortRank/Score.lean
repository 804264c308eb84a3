import EffortRank.NameMap.Basic
import EffortRank.Rank.Scalar

/-!
# Scores of commits

A classifier gives each commit the probabilities of some labels, and each label has a weight. The
overall score of a commit is its rank times the weight of its labels, as a share of the total.
`top` lists the best scores.
-/

namespace EffortRank

/-- Why commits cannot be scored: one has no labels, or not as many as there are weights. -/
inductive LabelError where
  | missing (hash : String)
  | arity (hash : String) (expected found : Nat)
deriving DecidableEq, Repr

def LabelError.message : LabelError → String
  | .missing hash => s!"Commit {hash} has no label probabilities"
  | .arity hash expected found =>
    s!"Commit {hash} has {found} label probabilities, expected {expected}"

variable {α : Type} [Scalar α]

/-- Scales scores so that they sum to one; scores that sum to zero become zero. -/
def normalize (scores : NameMap α) : NameMap α :=
  let total := Scalar.sum scores.values
  scores.map fun v => if Scalar.eq total Scalar.zero then Scalar.zero else v / total

/-- The index of the greatest number, of equal ones the first, given the best so far. -/
def argmaxFrom (best : Nat × α) (i : Nat) : List α → Nat
  | [] => best.1
  | x :: xs => argmaxFrom (if Scalar.le x best.2 then best else (i, x)) (i + 1) xs

/-- The index of the greatest number, of equal ones the first. -/
def argmax? : List α → Option Nat
  | [] => none
  | x :: xs => some (argmaxFrom (0, x) 1 xs)

/-- The weight of the labels of a commit: that of the likeliest label if `topOne`, otherwise the
mean weight. -/
def labelValue (probabilities weights : List α) (topOne : Bool) : α :=
  if topOne then
    ((argmax? probabilities).bind fun i => weights[i]?).getD Scalar.zero
  else Scalar.sum (List.zipWith (fun p w => p * w) probabilities weights)

def rawScore (labels : NameMap (List α)) (weights : List α) (topOne : Bool) (hash : String)
    (rank : α) : Except LabelError α :=
  match labels.get? hash with
  | none => .error (.missing hash)
  | some probabilities =>
    if probabilities.length = weights.length then
      .ok (labelValue probabilities weights topOne * rank)
    else .error (.arity hash weights.length probabilities.length)

def overallScores (ranks : NameMap α) (labels : NameMap (List α)) (weights : List α)
    (topOne : Bool) : Except LabelError (NameMap α) := do
  let raw ← ranks.entries.mapM fun e =>
    (rawScore labels weights topOne e.1 e.2).map fun score => (e.1, score)
  return normalize (.ofList raw)

/-! ## The best scores -/

/-- The highest scores, best first; equal ones stay in the order of their names. -/
def top (scores : NameMap Double) (limit : Nat) : List (String × Double) :=
  (scores.entries.mergeSort fun a b => b.2.place ≤ a.2.place).take limit

end EffortRank
