/-!
# Doubles

A NaN has a sign, which decides where it stands in the order of all doubles: a positive NaN above
every number, a negative one below. `Double` keeps that sign. An operation on a NaN gives that NaN,
of two the left one. An operation on numbers that has no result gives a negative NaN.

A finite double is `mantissa · 2 ^ exponent` with a sign. `Binary64.ofFloat` takes a double apart,
and `nearestBits` finds the bits of the double nearest to a quotient of natural numbers. `roundDiv`
rounds such a quotient to the nearest natural number; where it lies in the middle between two of
them, `Tie` says which one it goes to.
-/

namespace EffortRank

/-! ## Signed NaNs -/

/-- A double: a number, which may be infinite, or a NaN with its sign. -/
inductive Double where
  | number (x : Float)
  | nan (negative : Bool)
deriving Repr, Inhabited

namespace Double

/-- A double that was computed. -/
def ofFloat (x : Float) : Double := if x.isNaN then .nan true else .number x

def toFloat : Double → Float
  | .number x => x
  | .nan _ => 0.0 / 0.0

@[inline]
def lift (f : Float → Float → Float) : Double → Double → Double
  | .nan negative, _ => .nan negative
  | .number _, .nan negative => .nan negative
  | .number x, .number y => ofFloat (f x y)

instance : Add Double := ⟨lift (· + ·)⟩

instance : Sub Double := ⟨lift (· - ·)⟩

instance : Mul Double := ⟨lift (· * ·)⟩

instance : Div Double := ⟨lift (· / ·)⟩

def abs : Double → Double
  | .number x => .number x.abs
  | .nan _ => .nan false

/-- A comparison of two doubles, which fails for a NaN. -/
@[inline]
def compares (holds : Float → Float → Bool) : Double → Double → Bool
  | .number x, .number y => holds x y
  | _, _ => false

/-- The place of a double in the order of all doubles: negative zero comes below zero. -/
def place : Double → Int
  | .nan negative => if negative then -18446744073709551616 else 18446744073709551616
  | .number x =>
    let bits := x.toBits.toNat
    if bits < 9223372036854775808 then bits else 9223372036854775807 - bits

end Double

/-! ## Doubles as exact numbers -/

/-- Where a quotient in the middle between two numbers goes. -/
inductive Tie where
  | toEven
  | up
deriving DecidableEq, Repr

/-- A quotient in the middle above `n` goes up. -/
def Tie.goesUp (tie : Tie) (n : Nat) : Bool :=
  match tie with
  | .toEven => n % 2 == 1
  | .up => true

/-- The natural number nearest to `num / den`. -/
def roundDiv (tie : Tie) (num den : Nat) : Nat :=
  let n := num / den
  let twice := 2 * (num % den)
  if den < twice ∨ (twice = den ∧ tie.goesUp n = true) then n + 1 else n

/-- A double taken apart. -/
inductive Binary64 where
  | nan
  | infinite (negative : Bool)
  | finite (negative : Bool) (mantissa : Nat) (exponent : Int)
deriving DecidableEq, Repr

namespace Binary64

def hiddenBit : Nat := Nat.pow 2 52

def minExponent : Int := -1074

def infinityBits : Nat := 2047 * Nat.pow 2 52

def signBit : Nat := Nat.pow 2 63

def ofBits (bits : Nat) : Binary64 :=
  let negative := decide (signBit ≤ bits)
  let fraction := bits % hiddenBit
  let field := bits / hiddenBit % 2048
  if field = 2047 then (if fraction = 0 then .infinite negative else .nan)
  else if field = 0 then .finite negative fraction minExponent
  else .finite negative (hiddenBit + fraction) (minExponent + field - 1)

def ofFloat (x : Float) : Binary64 := ofBits x.toBits.toNat

end Binary64

/-- The numerator and denominator of `m · b ^ e`. -/
def powerFraction (b m : Nat) (e : Int) : Nat × Nat :=
  if 0 ≤ e then (m * Nat.pow b e.toNat, 1) else (m, Nat.pow b (-e).toNat)

/-- The greatest `k` with `2 ^ k ≤ num / den`, for positive arguments. -/
def binaryExponent (num den : Nat) : Int :=
  let k : Int := (num.log2 : Int) - (den.log2 : Int)
  let (n, d) := powerFraction 2 1 k
  if num * d < n * den then k - 1 else k

/-- The bits of the positive double nearest to `num / den`, an even mantissa winning a tie. Too
large a quotient gives at least the bits of infinity. -/
def nearestBits (num den : Nat) : Nat :=
  if num = 0 then 0
  else
    let q := max (binaryExponent num den - 52) Binary64.minExponent
    let (n, d) := powerFraction 2 1 q
    roundDiv .toEven (num * d) (den * n) + (q - Binary64.minExponent).toNat * Binary64.hiddenBit

end EffortRank
