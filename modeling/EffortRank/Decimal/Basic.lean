import EffortRank.Decimal.Double

/-!
# Decimal numbers

A decimal number is `± digits · 10 ^ exponent`, as it is read from a text or written to one.
`Decimal.float?` is the nearest double. The two texts of a number are `Decimal.positional`, with
all its digits in place, and `Decimal.scientific`, with a power of ten.

The digits of a double are the fewest that read back as the same double; of several such decimals
the nearest to the double is taken. The search goes through grids of decimals, each ten times finer
than the one before: on each only the two neighbours of the double can be the nearest. The first
grid is that of the power of ten above the double, and seventeen digits always read back.

There are three texts of a double. `reportNumber?` is for reports: positional from `10 ^ -5` to
`10 ^ 16`, with a power of ten elsewhere, and with a fraction always. `messageNumber` is for
messages: positional always, a whole number without a fraction. `fixedNumber` has a given number
of decimal places, rounded from the exact value with a tie going to the even digit.
-/

namespace EffortRank

/-- The number `± digits · 10 ^ exponent`. -/
structure Decimal where
  negative : Bool
  digits : Nat
  exponent : Int
deriving DecidableEq, Repr, Inhabited

namespace Decimal

def digitText (n : Nat) : List Char := Nat.toDigits 10 n

def digitCount (n : Nat) : Nat := (digitText n).length

/-- The power of ten below which the number stays: it is less than `10 ^ magnitude`. -/
def magnitude (x : Decimal) : Int := x.exponent + digitCount x.digits

/-- A number of at least `10 ^ 310` is beyond every double. -/
def maxMagnitude : Int := 310

/-- A number below `10 ^ -330` is nearer to zero than to any other double. -/
def minMagnitude : Int := -330

/-- The bits of the nearest double, without the sign; `none` beyond the range of doubles. -/
def bits? (x : Decimal) : Option Nat :=
  if x.digits = 0 ∨ x.magnitude < minMagnitude then some 0
  else if maxMagnitude < x.magnitude then none
  else
    let (num, den) := powerFraction 10 x.digits x.exponent
    let bits := nearestBits num den
    if bits < Binary64.infinityBits then some bits else none

/-- The nearest double; `none` beyond the range of doubles. -/
def float? (x : Decimal) : Option Float :=
  x.bits?.map fun bits =>
    Float.ofBits (UInt64.ofNat (if x.negative then Binary64.signBit + bits else bits))

/-! ## Texts -/

def sign (x : Decimal) : List Char := if x.negative then ['-'] else []

def zeros (n : Nat) : List Char := List.replicate n '0'

/-- The number with all its digits in place; `tail` follows one that has no fraction. -/
def positional (x : Decimal) (tail : List Char) : List Char :=
  let ds := digitText x.digits
  if 0 ≤ x.exponent then x.sign ++ ds ++ zeros x.exponent.toNat ++ tail
  else if 0 < x.magnitude then
    x.sign ++ ds.take x.magnitude.toNat ++ ['.'] ++ ds.drop x.magnitude.toNat
  else x.sign ++ ['0', '.'] ++ zeros (-x.magnitude).toNat ++ ds

def exponentText (e : Int) : List Char :=
  if e < 0 then ['e', '-'] ++ digitText e.natAbs else ['e', '+'] ++ digitText e.natAbs

def scientific (x : Decimal) : List Char :=
  let fraction := match (digitText x.digits).drop 1 with
    | [] => []
    | ds => '.' :: ds
  x.sign ++ (digitText x.digits).take 1 ++ fraction ++ exponentText (x.magnitude - 1)

end Decimal

/-! ## Shortest digits -/

open Decimal (digitCount digitText zeros)

/-- The greatest `k` with `10 ^ k ≤ num / den`, for positive arguments. -/
def decimalExponent (num den : Nat) : Int :=
  if den ≤ num then (digitCount (num / den) : Int) - 1
  else -(digitCount ((den + num - 1) / num - 1) : Int)

/-- The numbers that round to a double, as quotients by `den` of natural numbers. The double itself
is `value / den`; the ends belong to them only if `closed`. -/
structure RoundingInterval where
  low : Nat
  value : Nat
  high : Nat
  den : Nat
  closed : Bool
deriving Repr

namespace RoundingInterval

/-- The numbers that round to `m · 2 ^ q`. Below a power of two the doubles lie closer. -/
def of (m : Nat) (q : Int) : RoundingInterval :=
  let below := if m = Binary64.hiddenBit ∧ Binary64.minExponent < q then 1 else 2
  let (scale, den) := powerFraction 2 1 (q - 2)
  ⟨(4 * m - below) * scale, 4 * m * scale, (4 * m + 2) * scale, den, m % 2 == 0⟩

/-- The number `c · 10 ^ e` rounds to the double. -/
def contains (i : RoundingInterval) (c : Nat) (e : Int) : Bool :=
  let (n, d) := powerFraction 10 c e
  if i.closed then i.low * d ≤ n * i.den && n * i.den ≤ i.high * d
  else i.low * d < n * i.den && n * i.den < i.high * d

/-- The decimal with step `10 ^ e` that reads back, if there is one. -/
def onGrid? (i : RoundingInterval) (tie : Tie) (e : Int) : Option Nat :=
  let (n, d) := powerFraction 10 1 e
  let num := i.value * d
  let den := i.den * n
  let c := num / den
  match i.contains c e, i.contains (c + 1) e with
  | true, true => some (roundDiv tie num den)
  | true, false => some c
  | false, true => some (c + 1)
  | false, false => none

/-- Tries the steps `10 ^ e`, `10 ^ (e - 1)`, and so on. -/
def search (i : RoundingInterval) (tie : Tie) (e : Int) : Nat → Nat × Int
  | 0 => (i.value, 0)
  | fuel + 1 =>
    match i.onGrid? tie e with
    | some c => (c, e)
    | none => i.search tie (e - 1) fuel

end RoundingInterval

/-- The fewest digits that read back as `± m · 2 ^ q`. -/
def shortestOf (tie : Tie) (negative : Bool) (m : Nat) (q : Int) : Decimal :=
  if m = 0 then ⟨negative, 0, 0⟩
  else
    let i := RoundingInterval.of m q
    let (c, e) := i.search tie (decimalExponent i.value i.den + 1) 18
    ⟨negative, c, e⟩

/-- The fewest digits that read back as the double; `none` if it is not finite. -/
def shortest? (tie : Tie) (x : Float) : Option Decimal :=
  match Binary64.ofFloat x with
  | .finite negative m q => some (shortestOf tie negative m q)
  | _ => none

/-! ## Texts of doubles -/

def Decimal.reportText (x : Decimal) : List Char :=
  if x.digits = 0 ∨ (-5 < x.magnitude ∧ x.magnitude ≤ 16) then x.positional ['.', '0']
  else x.scientific

/-- A double in a report; `none` if it is not finite. -/
def reportNumber? (x : Float) : Option Decimal := shortest? .toEven x

/-- The words for doubles that are not finite. -/
def nonFiniteText (x : Float) : String :=
  if x.isNaN then "NaN" else if x < 0 then "-inf" else "inf"

def messageNumber (x : Float) : String :=
  match shortest? .up x with
  | some d => String.ofList (d.positional [])
  | none => nonFiniteText x

/-- A whole number of units of `10 ^ -places`, written with the point in its place. -/
def placeText (negative : Bool) (units places : Nat) : List Char :=
  let ds := digitText units
  let ds := zeros (places + 1 - ds.length) ++ ds
  let whole := ds.take (ds.length - places)
  let fraction := if places = 0 then [] else '.' :: ds.drop (ds.length - places)
  (if negative then ['-'] else []) ++ whole ++ fraction

def fixedNumber (places : Nat) (x : Float) : String :=
  match Binary64.ofFloat x with
  | .finite negative m q =>
    let (num, den) := powerFraction 2 m q
    String.ofList (placeText negative (roundDiv .toEven (num * Nat.pow 10 places) den) places)
  | _ => nonFiniteText x

def padLeft (width : Nat) (s : String) : String :=
  String.ofList (List.replicate (width - s.length) ' ') ++ s

end EffortRank
