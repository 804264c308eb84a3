import EffortRank.Json.Node

/-!
# JSON tokens

`Json.tokens` cuts a JSON text into tokens, each with the place of its end. It walks over the
characters with a small state, so that each character is looked at once; a character that ends a
number or a word starts the next token. Where no token can be read, the last token says why.
-/

namespace EffortRank

namespace Json

/-- A token of a JSON text. -/
inductive Token where
  | openItems
  | closeItems
  | openFields
  | closeFields
  | colon
  | comma
  | scalar (value : Node)
  | broken (reason : String)
deriving Inhabited

/-- A token with the place of its end, in characters from the start of the text. -/
structure PlacedToken where
  token : Token
  stop : Nat

def hexValue? (c : Char) : Option Nat :=
  if c.isDigit then some (c.toNat - 48)
  else if 'a' ≤ c ∧ c ≤ 'f' then some (c.toNat - 87)
  else if 'A' ≤ c ∧ c ≤ 'F' then some (c.toNat - 55)
  else none

/-- The characters that a number may hold. -/
def isNumberChar (c : Char) : Bool :=
  c.isDigit || c == '-' || c == '+' || c == '.' || c == 'e' || c == 'E'

def isWordLetter (c : Char) : Bool := 'a' ≤ c && c ≤ 'z'

/-! ## Texts -/

/-- A text that is being read: its characters in reverse, the first half of a surrogate pair that
waits for the second, and whether no half was left alone. -/
structure OpenText where
  chars : List Char
  high : Option Nat
  paired : Bool

namespace OpenText

def settle (t : OpenText) : OpenText :=
  match t.high with
  | some _ => { t with high := none, paired := false }
  | none => t

def push (t : OpenText) (c : Char) : OpenText :=
  let t := t.settle
  { t with chars := c :: t.chars }

def pushUnit (t : OpenText) (u : Nat) : OpenText :=
  if 0xD800 ≤ u ∧ u < 0xDC00 then { t.settle with high := some u }
  else if 0xDC00 ≤ u ∧ u < 0xE000 then
    match t.high with
    | some h =>
      let c := Char.ofNat (0x10000 + (h - 0xD800) * 0x400 + (u - 0xDC00))
      { t with chars := c :: t.chars, high := none }
    | none => { t with paired := false }
  else t.push (Char.ofNat u)

def node (t : OpenText) : Node :=
  let t := t.settle
  if t.paired then .str (String.ofList t.chars.reverse) else .unpaired

end OpenText

/-! ## The walk -/

/-- What the walk is in the middle of. -/
inductive Mode where
  | between
  | number (chars : List Char)
  | word (chars : List Char)
  | text (t : OpenText)
  | escape (t : OpenText)
  | unit (t : OpenText) (value left : Nat)

/-- The walk: its mode, its place in the text, and the tokens so far, in reverse. -/
structure Walk where
  mode : Mode
  place : Nat
  done : List PlacedToken

/-- The token of a finished number, from its characters in reverse. -/
def numberToken (chars : List Char) : Except String Token :=
  match Numeral.read? chars.reverse with
  | some x =>
    match x.int? with
    | some n => .ok (.scalar (.int n))
    | none => .ok (.scalar (.real x))
  | none => .error "invalid number"

/-- The token of a finished word, from its letters in reverse. -/
def wordToken (chars : List Char) : Except String Token :=
  let s := String.ofList chars.reverse
  if s = "null" then .ok (.scalar .null)
  else if s = "true" then .ok (.scalar (.bool true))
  else if s = "false" then .ok (.scalar (.bool false))
  else .error "expected ident"

namespace Walk

def into (w : Walk) (mode : Mode) : Walk := { w with mode := mode, place := w.place + 1 }

/-- Adds a token that ends with the next character. -/
def close (w : Walk) (token : Token) : Walk :=
  ⟨.between, w.place + 1, ⟨token, w.place + 1⟩ :: w.done⟩

/-- Adds a token that ends before the next character. -/
def settle (w : Walk) (token : Token) : Walk := ⟨.between, w.place, ⟨token, w.place⟩ :: w.done⟩

/-- Takes a character that stands between tokens. -/
def start (w : Walk) (c : Char) : Except String Walk :=
  if c = ' ' ∨ c = '\n' ∨ c = '\t' ∨ c = '\r' then .ok (w.into .between)
  else if c = '[' then .ok (w.close .openItems)
  else if c = ']' then .ok (w.close .closeItems)
  else if c = '\x7b' then .ok (w.close .openFields)
  else if c = '\x7d' then .ok (w.close .closeFields)
  else if c = ':' then .ok (w.close .colon)
  else if c = ',' then .ok (w.close .comma)
  else if c = '"' then .ok (w.into (.text ⟨[], none, true⟩))
  else if c.isDigit ∨ c = '-' then .ok (w.into (.number [c]))
  else if isWordLetter c then .ok (w.into (.word [c]))
  else .error "expected value"

def escaped (w : Walk) (t : OpenText) (c : Char) : Except String Walk :=
  if c = '"' ∨ c = '\\' ∨ c = '/' then .ok (w.into (.text (t.push c)))
  else if c = 'b' then .ok (w.into (.text (t.push (Char.ofNat 8))))
  else if c = 'f' then .ok (w.into (.text (t.push (Char.ofNat 12))))
  else if c = 'n' then .ok (w.into (.text (t.push '\n')))
  else if c = 'r' then .ok (w.into (.text (t.push '\r')))
  else if c = 't' then .ok (w.into (.text (t.push '\t')))
  else if c = 'u' then .ok (w.into (.unit t 0 4))
  else .error "invalid escape"

/-- Takes one character, or says why it cannot stand there. -/
def step (w : Walk) (c : Char) : Except String Walk :=
  match w.mode with
  | .between => w.start c
  | .number cs =>
    if isNumberChar c then .ok (w.into (.number (c :: cs)))
    else do (w.settle (← numberToken cs)).start c
  | .word cs =>
    if isWordLetter c then .ok (w.into (.word (c :: cs)))
    else do (w.settle (← wordToken cs)).start c
  | .text t =>
    if c = '"' then .ok (w.close (.scalar t.node))
    else if c = '\\' then .ok (w.into (.escape t))
    else if c.toNat < 0x20 then .error "control character in a string"
    else .ok (w.into (.text (t.push c)))
  | .escape t => w.escaped t c
  | .unit t value left =>
    match hexValue? c with
    | none => .error "invalid escape"
    | some d =>
      let value := 16 * value + d
      if left ≤ 1 then .ok (w.into (.text (t.pushUnit value)))
      else .ok (w.into (.unit t value (left - 1)))

def finish (w : Walk) : Except String Walk :=
  match w.mode with
  | .between => .ok w
  | .number cs => (numberToken cs).map w.settle
  | .word cs => (wordToken cs).map w.settle
  | _ => .error "EOF while parsing a string"

/-- The tokens so far, with the break behind them if there is one. -/
def tokens (w : Walk) : Except String Walk → List PlacedToken
  | .ok next => next.done.reverse
  | .error reason => (⟨.broken reason, w.place⟩ :: w.done).reverse

/-- Walks over the characters that are left. -/
def run (w : Walk) : List Char → List PlacedToken
  | [] => w.tokens w.finish
  | c :: cs =>
    match w.step c with
    | .ok next => next.run cs
    | .error reason => w.tokens (.error reason)

end Walk

/-- The tokens of a JSON text, up to its end or to its first break. -/
def tokens (text : List Char) : List PlacedToken := Walk.run ⟨.between, 0, []⟩ text

end Json

end EffortRank
