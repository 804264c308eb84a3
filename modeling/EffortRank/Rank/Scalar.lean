import EffortRank.Decimal.Double

/-!
# Scalars

Ranks are computed with the operations of a `Scalar`: doubles when the program runs, exact
rational numbers when one reasons about it. The order of the operations is fixed, since doubles
are rounded after each. Where NaNs may come up and are sorted, the doubles are those whose NaNs
have signs.
-/

namespace EffortRank

/-- The operations that ranks are computed with. A sum starts at `sumStart`, which is the double
negative zero: the one that leaves every double unchanged when it is added to it. -/
class Scalar (α : Type) extends Add α, Sub α, Mul α, Div α where
  ofNat : Nat → α
  sumStart : α
  abs : α → α
  lt : α → α → Bool
  le : α → α → Bool

namespace Scalar

variable {α : Type} [Scalar α]

def zero : α := ofNat 0

def one : α := ofNat 1

/-- Two scalars neither of which is greater. -/
@[specialize]
def eq (x y : α) : Bool := le x y && le y x

/-- The sum of a list, from left to right. -/
@[specialize]
def sum (xs : List α) : α := xs.foldl (· + ·) sumStart

/-- The sum of an array, from left to right. -/
@[specialize]
def arraySum (xs : Array α) : α := xs.foldl (· + ·) sumStart

end Scalar

instance : Scalar Float where
  ofNat := Float.ofNat
  sumStart := -0.0
  abs := Float.abs
  lt x y := x < y
  le x y := x ≤ y

instance : Scalar Double where
  ofNat n := .number (Float.ofNat n)
  sumStart := .number (-0.0)
  abs := Double.abs
  lt := Double.compares fun x y => x < y
  le := Double.compares fun x y => x ≤ y

instance : Scalar Rat where
  ofNat n := n
  sumStart := 0
  abs x := if x < 0 then -x else x
  lt x y := x < y
  le x y := x ≤ y

end EffortRank
