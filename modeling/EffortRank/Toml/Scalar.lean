import EffortRank.Bounds
import EffortRank.Decimal.Basic
import EffortRank.Text.Basic
import EffortRank.Toml.Item
import EffortRank.Toml.Text

/-!
# TOML scalars

Reading the numbers, truth values, dates and times of a TOML document.
-/

namespace EffortRank

namespace Toml

open Text

/-! ## Numbers -/

/-- The digits of a number without its underscores, each of which must stand between two digits. -/
def digits? (isDigit : Char → Bool) : List Char → Option (List Char)
  | [] => none
  | [c] => if isDigit c then some [c] else none
  | c :: '_' :: rest => if isDigit c then (digits? isDigit rest).map (c :: ·) else none
  | c :: rest => if isDigit c then (digits? isDigit rest).map (c :: ·) else none

def baseValue? (base : Nat) (cs : List Char) : Option Nat := do
  let values ← cs.mapM hexDigit?
  return values.foldl (fun n d => base * n + d) 0

def int64? (n : Int) : Option Scalar := if lineFits n then some (.int n) else none

def isBaseDigit (base : Nat) (c : Char) : Bool :=
  match hexDigit? c with
  | some d => d < base
  | none => false

/-- Reads a number to another base, behind its mark. -/
def based? (base : Nat) (cs : List Char) : Option Scalar := do
  let ds ← digits? (isBaseDigit base) cs
  let n ← baseValue? base ds
  int64? n

/-- The digits of a whole number, which has no leading zeros. -/
def whole? (cs : List Char) : Option (List Char) :=
  match digits? Char.isDigit cs with
  | some ['0'] => some ['0']
  | some ('0' :: _) => none
  | found => found

/-- A decimal number as a scalar. Too large a number is refused, too small a one below zero is
negative infinity. -/
def floatScalar? (x : Decimal) : Option Scalar :=
  match x.float? with
  | some v => some (.float (.number v))
  | none => if x.negative then some (.float (.number (-1.0 / 0.0))) else none

def signed : List Char → Bool × List Char
  | '-' :: rest => (true, rest)
  | '+' :: rest => (false, rest)
  | cs => (false, cs)

def exponent? (cs : List Char) : Option Int := do
  let (negative, rest) := signed cs
  let ds ← digits? Char.isDigit rest
  let n : Int := digitsValue ds
  return if negative then -n else n

def isNumeral (c : Char) : Bool := c.isDigit || c == '_'

def scaled? (negative : Bool) (whole fraction : List Char) : List Char → Option Scalar
  | [] => floatScalar? ⟨negative, digitsValue (whole ++ fraction), -fraction.length⟩
  | c :: rest =>
    if c = 'e' ∨ c = 'E' then do
      let e ← exponent? rest
      floatScalar? ⟨negative, digitsValue (whole ++ fraction), e - fraction.length⟩
    else none

def decimal? (cs : List Char) : Option Scalar := do
  let (negative, rest) := signed cs
  if rest = ['i', 'n', 'f'] then
    return .float (.number (if negative then -1.0 / 0.0 else 1.0 / 0.0))
  if rest = ['n', 'a', 'n'] then return .float (.nan negative)
  let whole ← whole? (rest.takeWhile isNumeral)
  match rest.dropWhile isNumeral with
  | [] =>
    let n : Int := digitsValue whole
    int64? (if negative then -n else n)
  | '.' :: more =>
    let fraction ← digits? Char.isDigit (more.takeWhile isNumeral)
    scaled? negative whole fraction (more.dropWhile isNumeral)
  | more => scaled? negative whole [] more

/-! ## Dates and times -/

/-- Reads a number of exactly the given number of digits, not above a limit. -/
def fixed? (width low high : Nat) (cs : List Char) : Option (Nat × List Char) :=
  let ds := cs.take width
  if ds.length = width ∧ ds.all Char.isDigit ∧ low ≤ digitsValue ds ∧ digitsValue ds ≤ high then
    some (digitsValue ds, cs.drop width)
  else none

def expect? (c : Char) : List Char → Option (List Char)
  | d :: rest => if c = d then some rest else none
  | [] => none

def daysInMonth (year month : Nat) : Nat :=
  if month = 2 then
    if year % 4 = 0 ∧ (year % 100 ≠ 0 ∨ year % 400 = 0) then 29 else 28
  else if month = 4 ∨ month = 6 ∨ month = 9 ∨ month = 11 then 30
  else 31

def date? (cs : List Char) : Option (List Char) := do
  let (year, cs) ← fixed? 4 0 9999 cs
  let (month, cs) ← fixed? 2 1 12 (← expect? '-' cs)
  let (_, cs) ← fixed? 2 1 (daysInMonth year month) (← expect? '-' cs)
  return cs

def time? (cs : List Char) : Option (List Char) := do
  let (_, cs) ← fixed? 2 0 23 cs
  let (_, cs) ← fixed? 2 0 59 (← expect? ':' cs)
  let (_, cs) ← fixed? 2 0 60 (← expect? ':' cs)
  match cs with
  | '.' :: rest =>
    if (rest.takeWhile Char.isDigit).isEmpty then none else some (rest.dropWhile Char.isDigit)
  | _ => some cs

/-- Reads an offset, if there is one. -/
def offset? (cs : List Char) : Option (List Char) :=
  match cs with
  | [] => some []
  | c :: rest =>
    if c = 'Z' ∨ c = 'z' then some rest
    else if c = '+' ∨ c = '-' then do
      let (_, rest) ← fixed? 2 0 23 rest
      let (_, rest) ← fixed? 2 0 59 (← expect? ':' rest)
      return rest
    else some cs

def isTimeWithOffset (cs : List Char) : Bool := ((time? cs).bind offset?) == some []

/-- The text is a date, a time of day, or both with a `T` between. -/
def isMoment (cs : List Char) : Bool :=
  time? cs == some [] ||
    match date? cs with
    | some [] => true
    | some (c :: rest) => (c == 'T' || c == 't') && isTimeWithOffset rest
    | none => false

def isDate (cs : List Char) : Bool := date? cs == some []

/-! ## Words without quotes -/

/-- A character of a scalar that has no quotes. -/
def isScalarChar (c : Char) : Bool :=
  c.isAlphanum || c == '_' || c == '-' || c == '+' || c == '.' || c == ':'

/-- The value of a scalar that has no quotes. -/
def word? (cs : List Char) : Option Scalar :=
  match cs with
  | ['t', 'r', 'u', 'e'] => some (.bool true)
  | ['f', 'a', 'l', 's', 'e'] => some (.bool false)
  | '0' :: 'x' :: rest => based? 16 rest
  | '0' :: 'o' :: rest => based? 8 rest
  | '0' :: 'b' :: rest => based? 2 rest
  | _ => if isMoment cs then some .moment else decimal? cs

/-- Reads a scalar that has no quotes. A date may be followed by a space and a time. -/
def bare (cs : List Char) : Scan Item :=
  let token := cs.takeWhile isScalarChar
  let rest := cs.dropWhile isScalarChar
  let found (value : Option Scalar) (rest : Place) : Scan Item :=
    match value with
    | some value => .ok (.scalar cs value, rest)
    | none => stuck cs "invalid value"
  match isDate token, rest with
  | true, ' ' :: c :: more =>
    if c.isDigit then
      let time := (c :: more).takeWhile isScalarChar
      found (if isTimeWithOffset time then some .moment else none)
        ((c :: more).dropWhile isScalarChar)
    else found (some .moment) rest
  | _, _ => found (word? token) rest

end Toml

end EffortRank
