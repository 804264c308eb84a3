import EffortRank.Rank.Transition

/-!
# Ranks by iteration

A walker follows the steps of a transition matrix and now and then jumps to a node chosen by a
teleport distribution. The rank of a node is how often the walker is there. `powerIterate?` starts
with all nodes alike and lets the walker move until the ranks hardly change.

`pagerank?` gives all nodes the same weight. `weightedRank?` takes weights, for the steps and for
the jumps.
-/

namespace EffortRank

/-- When to stop, and how often to follow the steps rather than jump. -/
structure RankConfig (α : Type) where
  alpha : α
  epsilon : α
  maxRounds : Nat
deriving Repr, Inhabited

/-- Where an iteration ended: the ranks, the number of rounds, and whether the last round changed
less than `epsilon`. -/
structure RankOutcome (α : Type) where
  ranks : Array α
  rounds : Nat
  converged : Bool
deriving Repr

variable {α : Type} [Scalar α]

@[specialize]
def absoluteSum (v : Array α) : α := Scalar.arraySum (v.map Scalar.abs)

/-- Adds a multiple of the teleport distribution, as far as it goes. -/
@[specialize]
def addTeleport (v : Array α) (mass : α) (teleport : Array α) : Array α :=
  v.mapIdx fun i x =>
    match teleport[i]? with
    | some p => x + mass * p
    | none => x

/-- One round: a step, and a jump with the mass that the step lost. -/
@[specialize]
def rankRound? (m : TransitionMatrix α) (teleport : Array α) (alpha : α) (v : Array α) :
    Option (Array α) := do
  let stepped ← m.scaledProduct? v alpha
  return addTeleport stepped (absoluteSum v - absoluteSum stepped) teleport

@[specialize]
def rankChange (next v : Array α) : α :=
  Scalar.arraySum (Array.zipWith (fun x y => Scalar.abs (x - y)) next v)

/-- Goes on from the ranks `v` after `done` rounds, for at most `left` rounds more. -/
@[specialize]
def iterateFrom? (m : TransitionMatrix α) (teleport : Array α) (config : RankConfig α)
    (done : Nat) (v : Array α) : Nat → Option (RankOutcome α)
  | 0 => some ⟨v, done, false⟩
  | left + 1 =>
    match rankRound? m teleport config.alpha v with
    | none => none
    | some next =>
      if Scalar.lt (rankChange next v) config.epsilon then some ⟨next, done + 1, true⟩
      else iterateFrom? m teleport config (done + 1) next left

/-- The same number for each of `n` nodes, with sum one. -/
@[specialize]
def uniform (n : Nat) : Array α := Array.replicate n (Scalar.one / Scalar.ofNat n)

/-- Iterates from the uniform ranks. Without nodes there is nothing to do. -/
@[specialize]
def powerIterate? (m : TransitionMatrix α) (teleport : Array α) (config : RankConfig α) :
    Option (RankOutcome α) :=
  if m.size = 0 then some ⟨#[], 0, true⟩
  else iterateFrom? m teleport config 0 (uniform m.size) config.maxRounds

/-- The ranks of the nodes of a digraph, all weighing the same. -/
@[specialize]
def pagerank? (g : Digraph) (config : RankConfig α) : Option (Array α) := do
  let m ← TransitionMatrix.ofDigraph? g (Array.replicate g.size Scalar.one)
  let outcome ← powerIterate? m (uniform g.size) config
  return outcome.ranks

/-- The share of each weight in their sum; without weight all nodes have the same share. -/
@[specialize]
def teleportOf (n : Nat) (weights : Array α) : Array α :=
  let total := Scalar.arraySum weights
  if Scalar.lt Scalar.zero total then weights.map fun w => w / total else uniform n

@[specialize]
def weightedRank? (g : Digraph) (weights : Array α) (config : RankConfig α) :
    Option (Array α) :=
  if g.size = 0 then some #[]
  else do
    let m ← TransitionMatrix.ofDigraph? g weights
    let outcome ← powerIterate? m (teleportOf g.size weights) config
    return outcome.ranks

end EffortRank
