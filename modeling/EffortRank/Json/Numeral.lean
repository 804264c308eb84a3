import EffortRank.Bounds
import EffortRank.Decimal.Basic
import EffortRank.Text.Basic

/-!
# Numbers of JSON

`Numeral` is a number as it is written: its digits before and behind the point, and its power of
ten. It has two values as a double. `Numeral.nearest?` is the nearest one. `Numeral.scaled?` is
found with one multiplication or division: the digits that fit into 64 bits, times a power of ten,
so that it may be a unit off.
-/

namespace EffortRank

namespace Json

open Text

/-- A number as it is written. -/
structure Numeral where
  negative : Bool
  whole : List Char
  fraction : List Char
  exponent : Option Int
deriving DecidableEq, Repr, Inhabited

namespace Numeral

/-! ## Reading -/

def exponent? : List Char → Option Int
  | '+' :: ds => (asciiNumber? ds).map fun n => (n : Int)
  | '-' :: ds => (asciiNumber? ds).map fun n => -(n : Int)
  | ds => (asciiNumber? ds).map fun n => (n : Int)

/-- Digits before the point: one at least, and no zero in front of others. -/
def isWhole : List Char → Bool
  | [] => false
  | ['0'] => true
  | c :: _ => c != '0'

/-- Takes a number apart, or finds that it is none. -/
def read? (cs : List Char) : Option Numeral :=
  let (negative, cs) := match cs with
    | '-' :: rest => (true, rest)
    | _ => (false, cs)
  let whole := cs.takeWhile Char.isDigit
  let rest := cs.dropWhile Char.isDigit
  if !isWhole whole then none
  else
    let (fraction?, rest) := match rest with
      | '.' :: more => (some (more.takeWhile Char.isDigit), more.dropWhile Char.isDigit)
      | _ => (none, rest)
    if fraction? = some [] then none
    else
      match rest with
      | [] => some ⟨negative, whole, fraction?.getD [], none⟩
      | c :: ds =>
        if c = 'e' ∨ c = 'E' then
          (exponent? ds).map fun e => ⟨negative, whole, fraction?.getD [], some e⟩
        else none

def ofInt (n : Int) : Numeral := ⟨n < 0, Decimal.digitText n.natAbs, [], none⟩

/-- The integer that is written; a number with a fraction or an exponent is none, nor is negative
zero. -/
def int? (x : Numeral) : Option Int :=
  let n : Int := digitsValue x.whole
  if x.fraction.isEmpty && x.exponent.isNone && !(x.negative && n == 0) then
    some (if x.negative then -n else n)
  else none

/-- The decimal number that is written. -/
def decimal (x : Numeral) : Decimal :=
  ⟨x.negative, digitsValue (x.whole ++ x.fraction), x.exponent.getD 0 - x.fraction.length⟩

/-! ## Doubles -/

/-- The nearest double; `none` beyond the range of doubles. -/
def nearest? (x : Numeral) : Option Float := x.decimal.float?

/-- Appends digits to a number for as long as it has 64 bits; with the number of digits
that were appended. -/
def appendDigits (m : Nat) : List Char → Nat × Nat
  | [] => (m, 0)
  | c :: cs =>
    let next := 10 * m + (c.toNat - 48)
    if countFits next then
      let (m, count) := appendDigits next cs
      (m, count + 1)
    else (m, 0)

/-- The number by its first digits: as many before the point as fit into 64 bits, then as many
behind it, with the power of ten that the others leave. -/
def leading (x : Numeral) : Nat × Int :=
  let (m, before) := appendDigits 0 x.whole
  let (m, behind) := appendDigits m x.fraction
  (m, (x.whole.length : Int) - before - behind + x.exponent.getD 0)

/-- The greatest power of ten that is a double. -/
def maxPower : Nat := 308

def powerOfTen (n : Nat) : Float := (Decimal.float? ⟨false, 1, n⟩).getD 0.0

/-- Multiplies by a power of ten; a power beyond the range of doubles is taken away in steps. -/
def scale? (x : Float) (e : Int) : Option Float :=
  if e.natAbs ≤ maxPower then
    if 0 ≤ e then
      let product := x * powerOfTen e.natAbs
      if product.isInf then none else some product
    else some (x / powerOfTen e.natAbs)
  else if x == 0.0 then some x
  else if 0 ≤ e then none
  else scale? (x / powerOfTen maxPower) (e + maxPower)
termination_by e.natAbs
decreasing_by simp [maxPower] at *; omega

/-- The double of the first digits, scaled; `none` beyond the range of doubles. -/
def scaled? (x : Numeral) : Option Float := do
  let (m, e) := x.leading
  let significand ← Decimal.float? ⟨false, m, 0⟩
  let size ← scale? significand e
  return if x.negative then -size else size

/-! ## Texts -/

def text (x : Numeral) : String :=
  let sign := if x.negative then ['-'] else []
  let fraction := if x.fraction.isEmpty then [] else '.' :: x.fraction
  let exponent := match x.exponent with
    | some e => 'e' :: (toString e).toList
    | none => []
  String.ofList (sign ++ x.whole ++ fraction ++ exponent)

end Numeral

end Json

end EffortRank
