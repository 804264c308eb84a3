import EffortRank.Bounds

/-!
# Command line arguments

A command line names a command with its files and options. `parseArguments` reads it from left to
right and stops at the first thing that is wrong with it, or that asks for help or the version. An
option with a long name takes its value behind an equals sign or as the next argument, one with a
short name also right behind the letter. Short flags may share a dash. Behind `--` everything is a
file, and one file is all that a command takes.
-/

namespace EffortRank

namespace Cli

/-- The formats of an analysis. -/
inductive Format where
  | json
  | text
deriving DecidableEq, Repr

/-- A command with its arguments. -/
inductive Command where
  | hunks (patch : String) (full : Bool)
  | parse (patch : String)
  | invert (input : String) (patch : Bool)
  | attribution (patch functions : String) (stats : Bool) (sources : Option (String × String))
  | replay (history : String) (output graph config : Option String) (allFiles : Bool)
  | analyze (graph : String) (format : Format) (config labels : Option String) (top : Nat)
deriving DecidableEq, Repr

/-- Why no command is run: the command line is not understood, or it asks for something else. -/
inductive Stop where
  | usage
  | help
  | version
deriving DecidableEq, Repr

/-! ## Options -/

/-- The options of a command, by their long names: those that are flags and those with a value.
`output` tells whether `-o` is the short name of one. -/
structure OptionSet where
  flags : List String
  values : List String
  output : Bool

/-- What was read so far: flags, values under their options, and the file. -/
structure Arguments where
  flags : List String
  values : List (String × String)
  file? : Option String

namespace Arguments

def empty : Arguments := ⟨[], [], none⟩

def hasFlag (a : Arguments) (name : String) : Bool := a.flags.contains name

def value? (a : Arguments) (name : String) : Option String :=
  (a.values.find? fun e => e.1 == name).map (·.2)

end Arguments

/-- A number of rows: digits, perhaps behind a plus sign, of at most 64 bits. -/
def rowCount? (s : String) : Option Nat :=
  let ds := match s.toList with
    | '+' :: rest => rest
    | cs => cs
  if ds.isEmpty || !ds.all Char.isDigit then none
  else
    let n := ds.foldl (fun n c => 10 * n + (c.toNat - 48)) 0
    fitting (countFits n) n

/-- The value fits the option. A file has a name that is not empty. -/
def isValueOf (name value : String) : Bool :=
  if name = "top" then (rowCount? value).isSome
  else if name = "format" then value = "json" || value = "text"
  else value != ""

/-- Adds a flag, which may be given once; only verbosity may be given more often. -/
def Arguments.addFlag (a : Arguments) (name : String) : Except Stop Arguments :=
  if name = "verbose" then .ok a
  else if a.hasFlag name then .error .usage
  else .ok { a with flags := name :: a.flags }

/-- Adds a value, which may be given once. -/
def Arguments.addValue (a : Arguments) (name value : String) : Except Stop Arguments :=
  if (a.value? name).isSome || !isValueOf name value then .error .usage
  else .ok { a with values := (name, value) :: a.values }

/-- Adds the file, of which every command takes one. -/
def Arguments.addFile (a : Arguments) (file : String) : Except Stop Arguments :=
  if file = "" || a.file?.isSome then .error .usage else .ok { a with file? := some file }

/-- The argument is an option rather than a value. A dash alone is a value. -/
def isOption (arg : String) : Bool :=
  match arg.toList with
  | '-' :: _ :: _ => true
  | _ => false

/-- What an argument says. -/
inductive Reading where
  | done (a : Arguments)
  | awaits (option : String) (a : Arguments)

def readLetters (set : OptionSet) (top : Bool) (a : Arguments) : List Char → Except Stop Reading
  | [] => .ok (.done a)
  | c :: rest =>
    if c = 'v' then readLetters set top a rest
    else if c = 'q' then
      match a.addFlag "quiet" with
      | .ok a => readLetters set top a rest
      | .error stop => .error stop
    else if c = 'h' then .error .help
    else if c = 'V' ∧ top then .error .version
    else if c = 'o' ∧ set.output then
      match rest with
      | [] => .ok (.awaits "output" a)
      | '=' :: value => (a.addValue "output" (String.ofList value)).map .done
      | value => (a.addValue "output" (String.ofList value)).map .done
    else .error .usage

/-- Reads the name behind two dashes, with the value behind an equals sign if there is one. -/
def readName (set : OptionSet) (top : Bool) (a : Arguments) (cs : List Char) :
    Except Stop Reading :=
  let name := String.ofList (cs.takeWhile (· != '='))
  match cs.dropWhile (· != '=') with
  | _ :: value =>
    if set.values.contains name then (a.addValue name (String.ofList value)).map .done
    else .error .usage
  | [] =>
    if name = "help" then .error .help
    else if name = "version" ∧ top then .error .version
    else if set.values.contains name then .ok (.awaits name a)
    else if name = "verbose" ∨ name = "quiet" ∨ set.flags.contains name then
      (a.addFlag name).map .done
    else .error .usage

def readArgument (set : OptionSet) (top : Bool) (a : Arguments) (arg : String) :
    Except Stop Reading :=
  match arg.toList with
  | '-' :: '-' :: cs => readName set top a cs
  | '-' :: c :: cs => readLetters set top a (c :: cs)
  | _ => (a.addFile arg).map .done

def readArguments (set : OptionSet) (a : Arguments) : List String → Except Stop Arguments
  | [] => .ok a
  | "--" :: rest => rest.foldlM Arguments.addFile a
  | arg :: rest =>
    match readArgument set false a arg with
    | .error stop => .error stop
    | .ok (.done a) => readArguments set a rest
    | .ok (.awaits option a) =>
      match rest with
      | [] => .error .usage
      | value :: rest =>
        if isOption value then .error .usage
        else
          match a.addValue option value with
          | .error stop => .error stop
          | .ok a => readArguments set a rest

/-! ## Commands -/

def optionsOf? (name : String) : Option OptionSet :=
  if name = "hunks" then some ⟨["full"], [], false⟩
  else if name = "parse" then some ⟨[], [], false⟩
  else if name = "invert" then some ⟨["patch"], [], false⟩
  else if name = "attribute" then
    some ⟨["stats"], ["functions", "old-source", "new-source"], false⟩
  else if name = "replay" then some ⟨["all-files"], ["output", "graph", "config"], true⟩
  else if name = "analyze" then some ⟨[], ["format", "config", "labels", "top"], false⟩
  else none

/-- The variable of the environment that names the configuration for want of an option. -/
def configVariable : String := "DEVRANK_CONFIG"

/-- The configuration that is named by an option or by the environment. -/
def configPath (a : Arguments) (environment : Option String) : Except Stop (Option String) :=
  match a.value? "config", environment with
  | some path, _ => .ok (some path)
  | none, some path => if path = "" then .error .usage else .ok (some path)
  | none, none => .ok none

/-- The command with a name and its arguments. The sources of an attribution come in pairs. -/
def commandOf (name : String) (a : Arguments) (environment : Option String) :
    Except Stop Command := do
  let some file := a.file? | .error .usage
  if name = "hunks" then return .hunks file (a.hasFlag "full")
  else if name = "parse" then return .parse file
  else if name = "invert" then return .invert file (a.hasFlag "patch")
  else if name = "attribute" then
    match a.value? "functions", a.value? "old-source", a.value? "new-source" with
    | some functions, some old, some new =>
      return .attribution file functions (a.hasFlag "stats") (some (old, new))
    | some functions, none, none => return .attribution file functions (a.hasFlag "stats") none
    | _, _, _ => .error .usage
  else if name = "replay" then
    let config ← configPath a environment
    return .replay file (a.value? "output") (a.value? "graph") config (a.hasFlag "all-files")
  else if name = "analyze" then
    let config ← configPath a environment
    let format := if a.value? "format" = some "text" then Format.text else Format.json
    let top := ((a.value? "top").bind rowCount?).getD 10
    return .analyze file format config (a.value? "labels") top
  else .error .usage

/-- What the arguments behind `help` ask for: help on a command. -/
def helpOn : List String → Stop
  | [] => .help
  | [name] => if name = "help" ∨ (optionsOf? name).isSome then .help else .usage
  | _ => .usage

/-- Reads a command line, given the variable of the environment that names a configuration. -/
def parseArguments (environment : Option String) (a : Arguments) :
    List String → Except Stop Command
  | [] => .error .usage
  | arg :: rest =>
    if arg = "--" then .error .usage
    else if isOption arg then
      match readArgument ⟨[], [], false⟩ true a arg with
      | .ok (.done a) => parseArguments environment a rest
      | .ok (.awaits _ _) => .error .usage
      | .error stop => .error stop
    else if arg = "help" then .error (helpOn rest)
    else
      match optionsOf? arg with
      | none => .error .usage
      | some set => do
        let a ← readArguments set .empty rest
        commandOf arg a environment

end Cli

end EffortRank
