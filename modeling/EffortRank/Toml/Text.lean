import EffortRank.Toml.Fault

/-!
# Texts of TOML

Reading the four kinds of texts of a TOML document, each behind its opening quotes. A text that is
not closed, or that holds what it may not hold, is stuck there; an escape that means nothing is
stuck behind its letter.
-/

namespace EffortRank

namespace Toml

/-- A character that may stand in a comment or a text: no control character but the tab. -/
def isPrintable (c : Char) : Bool := c == '\t' || (0x20 ≤ c.toNat && c.toNat != 0x7F)

def hexDigit? (c : Char) : Option Nat :=
  if c.isDigit then some (c.toNat - 48)
  else if 'a' ≤ c ∧ c ≤ 'f' then some (c.toNat - 87)
  else if 'A' ≤ c ∧ c ≤ 'F' then some (c.toNat - 55)
  else none

/-- The character with the code point that hexadecimal digits write. -/
def codePoint? (digits : List Char) : Option Char := do
  let values ← digits.mapM hexDigit?
  let n := values.foldl (fun n d => 16 * n + d) 0
  if n < 0xD800 ∨ (0xE000 ≤ n ∧ n < 0x110000) then some (Char.ofNat n) else none

/-- The character that stands behind a backslash for another one. -/
def escape? (c : Char) : Option Char :=
  if c = 'b' then some (Char.ofNat 8)
  else if c = 't' then some '\t'
  else if c = 'n' then some '\n'
  else if c = 'f' then some (Char.ofNat 12)
  else if c = 'r' then some '\r'
  else if c = '"' then some '"'
  else if c = '\\' then some '\\'
  else none

/-- Puts a character in front of a text, or is stuck where there is none. -/
def consEscaped (place : Place) (c : Option Char) (rest : Scan (List Char)) : Scan (List Char) :=
  match c with
  | some c => rest.map fun r => (c :: r.1, r.2)
  | none => stuck place "invalid escape sequence"

def consChar (c : Char) (rest : Scan (List Char)) : Scan (List Char) :=
  rest.map fun r => (c :: r.1, r.2)

def basic : List Char → Scan (List Char)
  | [] => stuck [] "invalid basic string"
  | '"' :: rest => .ok ([], rest)
  | '\\' :: 'u' :: a :: b :: c :: d :: rest =>
    consEscaped (a :: b :: c :: d :: rest) (codePoint? [a, b, c, d]) (basic rest)
  | '\\' :: 'U' :: a :: b :: c :: d :: e :: f :: g :: h :: rest =>
    consEscaped (a :: b :: c :: d :: e :: f :: g :: h :: rest)
      (codePoint? [a, b, c, d, e, f, g, h]) (basic rest)
  | '\\' :: c :: rest => consEscaped rest (escape? c) (basic rest)
  | c :: rest =>
    if isPrintable c then consChar c (basic rest) else stuck (c :: rest) "invalid basic string"

def literal : List Char → Scan (List Char)
  | [] => stuck [] "invalid literal string"
  | '\'' :: rest => .ok ([], rest)
  | c :: rest =>
    if isPrintable c then consChar c (literal rest) else stuck (c :: rest) "invalid literal string"

def endsLine : List Char → Bool
  | '\n' :: _ => true
  | '\r' :: '\n' :: _ => true
  | ' ' :: rest => endsLine rest
  | '\t' :: rest => endsLine rest
  | _ => false

/-- Reads a text in three double quotes. While `skipping`, blanks and line ends are left out: a
backslash at the end of a line does that. Up to two quotes may stand before the closing ones. -/
def longBasic (skipping : Bool) : List Char → Scan (List Char)
  | [] => stuck [] "invalid multiline basic string"
  | '"' :: '"' :: '"' :: '"' :: '"' :: rest => .ok (['"', '"'], rest)
  | '"' :: '"' :: '"' :: '"' :: rest => .ok (['"'], rest)
  | '"' :: '"' :: '"' :: rest => .ok ([], rest)
  | '\\' :: 'u' :: a :: b :: c :: d :: rest =>
    consEscaped (a :: b :: c :: d :: rest) (codePoint? [a, b, c, d]) (longBasic false rest)
  | '\\' :: 'U' :: a :: b :: c :: d :: e :: f :: g :: h :: rest =>
    consEscaped (a :: b :: c :: d :: e :: f :: g :: h :: rest)
      (codePoint? [a, b, c, d, e, f, g, h]) (longBasic false rest)
  | '\\' :: c :: rest =>
    if endsLine (c :: rest) then longBasic true rest
    else consEscaped rest (escape? c) (longBasic false rest)
  | '\r' :: '\n' :: rest =>
    if skipping then longBasic true rest else consChar '\n' (longBasic false rest)
  | '\n' :: rest => if skipping then longBasic true rest else consChar '\n' (longBasic false rest)
  | c :: rest =>
    if skipping && (c == ' ' || c == '\t') then longBasic true rest
    else if isPrintable c then consChar c (longBasic false rest)
    else stuck (c :: rest) "invalid multiline basic string"

def longLiteral : List Char → Scan (List Char)
  | [] => stuck [] "invalid multiline literal string"
  | '\'' :: '\'' :: '\'' :: '\'' :: '\'' :: rest => .ok (['\'', '\''], rest)
  | '\'' :: '\'' :: '\'' :: '\'' :: rest => .ok (['\''], rest)
  | '\'' :: '\'' :: '\'' :: rest => .ok ([], rest)
  | '\r' :: '\n' :: rest => consChar '\n' (longLiteral rest)
  | '\n' :: rest => consChar '\n' (longLiteral rest)
  | c :: rest =>
    if isPrintable c then consChar c (longLiteral rest)
    else stuck (c :: rest) "invalid multiline literal string"

def dropLineEnd : List Char → List Char
  | '\n' :: rest => rest
  | '\r' :: '\n' :: rest => rest
  | cs => cs

end Toml

end EffortRank
