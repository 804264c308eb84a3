import EffortRank.Text.Quoted

/-!
# File filters

A filter takes the files that one of its include patterns matches, or all files if it has none, and
leaves out those that one of its exclude patterns matches. Patterns are matched against paths from
the root of the repository.

A glob pattern describes the texts that it matches as a whole: `?` is any one character, `*` any
run of characters, `[ab]` and `[a-z]` a character of a set and `[!a-z]` one outside it, and any
other character stands for itself. `**` must fill a place between slashes; it stands for nothing or
for anything that ends in a slash, and at the end of the pattern for anything at all. `Glob.parse`
reads a pattern. `Glob.covers` follows it with the set of the rests of the text that are still to be
matched.
-/

namespace EffortRank

/-! ## Patterns -/

/-- One part of a pattern. -/
inductive GlobToken where
  | char (c : Char)
  | anyChar
  | anyRun
  | anyPath
  | oneOf (ranges : List (Char × Char))
  | noneOf (ranges : List (Char × Char))
deriving DecidableEq, Repr

/-- What is wrong with a pattern. -/
inductive GlobFault where
  | manyStars
  | starsInName
  | badSet
deriving DecidableEq, Repr

def GlobFault.message : GlobFault → String
  | .manyStars => "wildcards are either regular `*` or recursive `**`"
  | .starsInName => "recursive wildcards must form a single path component"
  | .badSet => "invalid range pattern"

/-- A fault of a pattern and its place, counted in characters. -/
structure GlobError where
  position : Nat
  fault : GlobFault
deriving DecidableEq, Repr

def GlobError.message (e : GlobError) : String :=
  s!"Pattern syntax error near position {e.position}: {e.fault.message}"

/-- A pattern. -/
abbrev Glob := List GlobToken

namespace Glob

/-! ## Reading -/

/-- The characters before the first closing bracket, and those behind it. -/
def untilBracket? : List Char → Option (List Char × List Char)
  | [] => none
  | c :: cs =>
    if c = ']' then some ([], cs)
    else (untilBracket? cs).map fun r => (c :: r.1, r.2)

theorem length_lt_of_untilBracket? {cs body rest : List Char}
    (h : untilBracket? cs = some (body, rest)) : rest.length < cs.length := by
  induction cs generalizing body with
  | nil => simp [untilBracket?] at h
  | cons c cs ih =>
    unfold untilBracket? at h
    split at h
    · simp only [Option.some.injEq, Prod.mk.injEq] at h
      simp [← h.2]
    · obtain ⟨r, hr, he⟩ := Option.map_eq_some_iff.1 h
      simp only [Prod.mk.injEq] at he
      have hr : untilBracket? cs = some (r.1, rest) := by rw [hr, ← he.2]
      have := ih hr
      simp only [List.length_cons]
      omega

/-- The ranges of a set: `a-z`, or single characters. -/
def setRanges : List Char → List (Char × Char)
  | a :: '-' :: b :: rest => (a, b) :: setRanges rest
  | a :: rest => (a, a) :: setRanges rest
  | [] => []

/-- Reads a set behind its opening bracket. Its first character may be a closing bracket. -/
def set? : List Char → Option (GlobToken × List Char)
  | '!' :: c :: cs => (untilBracket? cs).map fun r => (.noneOf (setRanges (c :: r.1)), r.2)
  | '!' :: [] => none
  | c :: cs => (untilBracket? cs).map fun r => (.oneOf (setRanges (c :: r.1)), r.2)
  | [] => none

theorem length_lt_of_set? {cs rest : List Char} {t : GlobToken} (h : set? cs = some (t, rest)) :
    rest.length < cs.length := by
  unfold set? at h
  split at h
  · obtain ⟨r, hr, he⟩ := Option.map_eq_some_iff.1 h
    have := length_lt_of_untilBracket? hr
    simp only [Prod.mk.injEq] at he
    simp only [← he.2, List.length_cons]
    omega
  · simp at h
  · obtain ⟨r, hr, he⟩ := Option.map_eq_some_iff.1 h
    have := length_lt_of_untilBracket? hr
    simp only [Prod.mk.injEq] at he
    simp only [← he.2, List.length_cons]
    omega
  · simp at h

/-- Reads the part of a pattern from position `i` on, behind the character `before`. -/
def parseFrom (i : Nat) (before : Option Char) (pattern : List Char) : Except GlobError Glob :=
  match pattern with
  | [] => .ok []
  | '?' :: cs => (parseFrom (i + 1) (some '?') cs).map (.anyChar :: ·)
  | '*' :: '*' :: '*' :: _ => .error ⟨i + 2, .manyStars⟩
  | '*' :: '*' :: cs =>
    if before.all (· = '/') then
      match cs with
      | [] => .ok [.anyPath]
      | '/' :: rest => (parseFrom (i + 3) (some '/') rest).map (.anyPath :: ·)
      | _ => .error ⟨i + 2, .starsInName⟩
    else .error ⟨i - 1, .starsInName⟩
  | '*' :: cs => (parseFrom (i + 1) (some '*') cs).map (.anyRun :: ·)
  | '[' :: cs =>
    match h : set? cs with
    | some (t, rest) =>
      have := length_lt_of_set? h
      (parseFrom (i + 1 + (cs.length - rest.length)) (some ']') rest).map (t :: ·)
    | none => .error ⟨i, .badSet⟩
  | c :: cs => (parseFrom (i + 1) (some c) cs).map (.char c :: ·)
termination_by pattern.length
decreasing_by all_goals (simp only [List.length_cons]; omega)

def parse (pattern : String) : Except GlobError Glob := parseFrom 0 none pattern.toList

/-! ## Matching -/

def inRanges (ranges : List (Char × Char)) (c : Char) : Bool :=
  ranges.any fun r => r.1 ≤ c && c ≤ r.2

/-- A part that stands for one character stands for this one. -/
def fits (t : GlobToken) (c : Char) : Bool :=
  match t with
  | .char d => c == d
  | .anyChar => true
  | .oneOf ranges => inRanges ranges c
  | .noneOf ranges => !inRanges ranges c
  | .anyRun => false
  | .anyPath => false

/-- A text and all its rests, longest first. -/
def rests : List Char → List (List Char)
  | [] => [[]]
  | c :: cs => (c :: cs) :: rests cs

/-- The rests behind the slashes of a text, longest first, and the empty one. -/
def restsBehindSlashes : List Char → List (List Char)
  | [] => [[]]
  | c :: cs => if c = '/' ∧ cs ≠ [] then cs :: restsBehindSlashes cs else restsBehindSlashes cs

/-- The rests of one text that are in either of two lists, longest first. -/
def joinRests : List (List Char) → List (List Char) → List (List Char)
  | [], ys => ys
  | xs, [] => xs
  | x :: xs, y :: ys =>
    if x.length = y.length then x :: joinRests xs ys
    else if y.length < x.length then x :: joinRests xs (y :: ys)
    else y :: joinRests (x :: xs) ys
termination_by xs ys => xs.length + ys.length

def advance (t : GlobToken) (reached : List (List Char)) : List (List Char) :=
  match t with
  | .anyRun =>
    match reached with
    | [] => []
    | longest :: _ => rests longest
  | .anyPath =>
    match reached with
    | [] => []
    | longest :: _ => joinRests reached (restsBehindSlashes longest)
  | t =>
    reached.filterMap fun
      | [] => none
      | c :: cs => if fits t c then some cs else none

def covers (pattern : Glob) (text : String) : Bool :=
  (pattern.foldl (fun reached t => advance t reached) [text.toList]).any List.isEmpty

end Glob

/-! ## Filters -/

/-- The patterns of a filter as they are configured. -/
structure FilterConfig where
  includes : List String
  excludes : List String
deriving DecidableEq, Repr

/-- The patterns for want of others: the usual source files, without the folders of dependencies
and build products. -/
def FilterConfig.default : FilterConfig where
  includes := ["**/*.c", "**/*.h", "**/*.cc", "**/*.cpp", "**/*.hpp", "**/*.go", "**/*.java",
    "**/*.js", "**/*.rs"]
  excludes := ["**/node_modules/**", "**/vendor/**", "**/dist/**", "**/build/**", "**/.git/**"]

/-- A filter. -/
structure FileFilter where
  includes : List Glob
  excludes : List Glob
deriving DecidableEq, Repr

/-- A pattern that is none, and what is wrong with it. -/
structure PatternError where
  pattern : String
  error : GlobError
deriving DecidableEq, Repr

def PatternError.message (e : PatternError) : String :=
  s!"bad glob pattern {Text.quoted e.pattern}: {e.error.message}"

namespace FileFilter

/-- The filter that takes every file. -/
def all : FileFilter := ⟨[], []⟩

/-- Reads patterns up to the first that is none. -/
def patterns (ps : List String) : Except PatternError (List Glob) :=
  ps.mapM fun p =>
    match Glob.parse p with
    | .ok g => .ok g
    | .error e => .error ⟨p, e⟩

def ofConfig (config : FilterConfig) : Except PatternError FileFilter := do
  let includes ← patterns config.includes
  let excludes ← patterns config.excludes
  return ⟨includes, excludes⟩

def accepts (f : FileFilter) (path : String) : Bool :=
  (f.includes.isEmpty || f.includes.any fun p => p.covers path) &&
    !f.excludes.any fun p => p.covers path

end FileFilter

end EffortRank
