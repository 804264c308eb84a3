import EffortRank.Cli.Arguments
import EffortRank.Cli.Failure
import EffortRank.Cli.Host
import EffortRank.Patch.Body
import EffortRank.Replay.Store

/-!
# Running commands

Each command reads its files, computes, and says what to print. Nothing is printed by a command
that fails.
-/

namespace EffortRank

namespace Cli

/-- What a command prints, to the standard output and to the standard error. -/
structure Printed where
  output : String
  errors : String

/-- What a run of the program leaves: its exit code and what it printed. -/
structure Outcome where
  exitCode : UInt8
  printed : Printed

variable {m : Type → Type} [Monad m]

/-- A command on a host, which may fail or be given up. -/
abbrev Task (m : Type → Type) (α : Type) := ExceptT (Halt Failure) m α

def fail {α : Type} (failure : Failure) : Task m α := throw (.refused failure)

/-- A result that may be missing, with the failure that a refusal stands for. -/
def orHalt {ε α : Type} (failure : ε → Failure) : Except (Halt ε) α → Task m α
  | .ok x => return x
  | .error halt => throw (halt.map failure)

/-- A result that may be refused, with the failure that the refusal stands for. -/
def orFail {ε α : Type} (failure : ε → Failure) (result : Except ε α) : Task m α :=
  orHalt failure (Halt.ofChecked result)

/-- A result that is missing only where numbers do not fit. -/
def orOverflow {α : Type} (result : Option α) : Task m α := orHalt id (Halt.ofFitting result)

/-! ## Reading -/

/-- Reads a file as a whole; a dash stands for the standard input. -/
def readText (host : Host m) (path : String) : Task m String := do
  if (PathName.ofText path).isDash then
    match ← host.readInput with
    | .ok text => return text
    | .error e => fail (.unreadableInput e)
  else
    match ← host.readFile path with
    | .ok text => return text
    | .error e => fail (.unreadable path e)

def readJson {α : Type} (host : Host m) (decode : Json.Node → Except Json.Fault α)
    (path : String) : Task m α := do
  let text ← readText host path
  match Json.decodeText decode text with
  | .ok x => return x
  | .error reason => fail (.malformed path reason)

def configFileName : String := ".devrank.toml"

def readConfig (host : Host m) (path : String) : Task m Config := do
  match ← host.readFile path with
  | .error .missing => fail (.config path (.notFound path))
  | .error e => fail (.config path (.unreadable s!"{path}: {e.message}"))
  | .ok text =>
    match Config.ofText text with
    | .ok c => return c
    | .error e => fail (.config path e)

/-- The configuration: the one that is named, else the one in the working directory, else the
defaults. -/
def loadConfig (host : Host m) (named : Option String) : Task m Config := do
  match named with
  | some path => readConfig host path
  | none =>
    if ← host.fileExists configFileName then readConfig host configFileName
    else return .default

def readGraph (host : Host m) (path : String) : Task m GraphStore := do
  let text ← readText host path
  orHalt (.graph path) (GraphStore.ofText text)

/-- The graph that a replay starts with: the one that is named, or the empty one. -/
def readStart (host : Host m) (graph : Option String) : Task m GraphStore :=
  match graph with
  | some path => readGraph host path
  | none => return .empty

/-! ## Printing -/

def printJson (v : Json) : Printed := ⟨v.pretty ++ "\n", ""⟩

def printLines (lines : List String) : Printed :=
  ⟨String.join (lines.map fun line => line ++ "\n"), ""⟩

def measureText : HistoryMode → String
  | .logicalUnits => "LogicalUnits"
  | .lines => "Lines"

def rankingLines (title : String) (scores : NameMap Double) (limit : Nat) : List String :=
  ["", s!"{title}:"] ++ (top scores limit).map fun e =>
    "  " ++ padLeft 8 (fixedNumber 4 e.2.toFloat) ++ "  " ++ e.1

def reportLines (r : Report) (overall : Option (NameMap Double)) (limit : Nat) : List String :=
  let ranking (title : String) (scores : NameMap Float) : List String :=
    rankingLines title (scores.map .ofFloat) limit
  let measure := measureText r.historyMode
  [s!"Graph: {r.nodes} functions, {r.edges} calls, {r.commits} commits ({measure})",
    "Complexity: " ++ fixedNumber 2 r.complexity] ++
    ranking "Centrality" r.centrality ++
    ranking "Function DevRank" r.functionRanks ++
    ranking "Commit DevRank" r.commitRanks ++
    ranking "Developer DevRank" r.developerRanks ++
    match overall with
    | some scores => rankingLines "Overall commit score" scores limit
    | none => []

/-! ## Commands -/

def runHunks (host : Host m) (patch : String) (full : Bool) : Task m Printed := do
  let text ← readText host patch
  if full then return printJson (Json.list Hunk.encode (hunksOf text.toList))
  else return printJson (Json.list LineRange.encode (hunkRanges text.toList))

/-- Shows the change that a patch describes. -/
def runParse (host : Host m) (patch : String) : Task m Printed := do
  let text ← readText host patch
  let d ← orOverflow (readPatch? text.toList)
  return printJson d.encode

def runInvert (host : Host m) (input : String) (patch : Bool) : Task m Printed := do
  let d ← if patch then do
      let text ← readText host input
      orOverflow (readPatch? text.toList)
    else readJson host FileDiff.decode input
  orFail (.order input) d.check
  let inverse ← orOverflow d.inverse?
  return printJson inverse.encode

def runAttribution (host : Host m) (patch functions : String) (stats : Bool)
    (sources : Option (String × String)) : Task m Printed := do
  let text ← readText host patch
  let d ← orOverflow (readPatch? text.toList)
  let ranges ← readJson host (Json.asList FunctionRange.decode) functions
  orFail (.order patch) d.check
  orFail (.order functions) (checkFunctions ranges)
  match sources with
  | some (old, new) =>
    let old ← readText host old
    let new ← readText host new
    let found ← orOverflow (changedStats? ranges d (some ⟨old, new⟩))
    return printJson (found.encode ChangeStats.encode)
  | none =>
    if stats then
      let found ← orOverflow (changedStats? ranges d none)
      return printJson (found.encode ChangeStats.encode)
    else
      let found ← orOverflow (changedLines? ranges d)
      return printJson (found.encode Json.nat)

/-- The filter of a configuration, or the one that takes every file. -/
def filterOf (config : Config) (allFiles : Bool) : Task m FileFilter :=
  if allFiles then return .all else orFail .filter (FileFilter.ofConfig config.filter)

def runReplay (host : Host m) (history : String) (output graph config : Option String)
    (allFiles : Bool) : Task m Printed := do
  let config ← loadConfig host config
  let commits ← readJson host (Json.asList CommitStep.decode) history
  let filter ← filterOf config allFiles
  let start ← readStart host graph
  let (stats, s) ← orHalt .replay ((GraphStore.replay filter commits).outcome start)
  match output with
  | none => return printJson s.graph.toData.encode
  | some path =>
    match ← host.writeFile path s.graph.toText with
    | .error e => fail (.unwritable path e)
    | .ok () =>
      let files := s!"{stats.filesApplied} files, {stats.filesSkipped} skipped"
      let size := s!"{s.nodes.size} functions, {s.calls.length} calls"
      return ⟨"", s!"Replayed {stats.commits} commits ({files}) into {size}\n"⟩

/-- Reads labels: the probabilities of each label under the hash of a commit. -/
def readLabels (host : Host m) (path : String) : Task m (NameMap (List Float)) :=
  readJson host (Json.asMap (Json.asList (Json.asDouble Json.Numeral.scaled?))) path

def runAnalysis (host : Host m) (graph : String) (format : Format) (config labels : Option String)
    (limit : Nat) : Task m Printed := do
  let config ← loadConfig host config
  let s ← readGraph host graph
  let r ← orOverflow (s.graph.report? config)
  let overall ← match labels with
    | none => pure none
    | some path => do
      let labels ← readLabels host path
      let scores ← orFail .labels (r.overallScores labels config.scoring)
      pure (some scores)
  match format with
  | .text => return printLines (reportLines r overall limit)
  | .json =>
    let scores := match overall with
      | some scores => [("overall_scores", (scores.map Double.toFloat).encode Json.float)]
      | none => []
    return printJson (.obj (r.fields Json.float ++ scores))

def runCommand (host : Host m) : Command → Task m Printed
  | .hunks patch full => runHunks host patch full
  | .parse patch => runParse host patch
  | .invert input patch => runInvert host input patch
  | .attribution patch functions stats sources => runAttribution host patch functions stats sources
  | .replay history output graph config allFiles =>
    runReplay host history output graph config allFiles
  | .analyze graph format config labels limit => runAnalysis host graph format config labels limit

/-! ## The program -/

def versionText : String := "devrank 0.2.0\n"

/-- The text for a command line that asks for help. -/
def helpText : String :=
  "Attribute commit churn to functions and rank them by development effort\n\n" ++
    "Usage: devrank [OPTIONS] <COMMAND>\n\n" ++
    "Commands:\n" ++
    "  hunks      List the old-file line interval of every hunk header in a patch\n" ++
    "  parse      Parse a single-file patch into additions and deletions\n" ++
    "  invert     Invert a per-file diff into new-file coordinates\n" ++
    "  attribute  Attribute a patch's changed lines to the functions they touch\n" ++
    "  replay     Replay a commit history into a call-commit graph\n" ++
    "  analyze    Compute complexity, centrality and DevRank of a graph\n" ++
    "  help       Print this message or the help of the given subcommand(s)\n\n" ++
    "Options:\n" ++
    "  -v, --verbose...  Increase verbosity (-v, -vv, -vvv)\n" ++
    "  -q, --quiet       Suppress non-error output\n" ++
    "  -h, --help        Print help\n" ++
    "  -V, --version     Print version\n"

/-- The text for a command line that is not understood. -/
def usageText : String := "Usage: devrank [OPTIONS] <COMMAND>\n"

/-- The text for a command that is given up. -/
def overflowText : String := "A number does not fit in 64 bits\n"

def run (host : Host m) (args : List String) : m Outcome := do
  match parseArguments (← host.lookupVariable configVariable) .empty args with
  | .error .usage => return ⟨2, ⟨"", usageText⟩⟩
  | .error .help => return ⟨0, ⟨helpText, ""⟩⟩
  | .error .version => return ⟨0, ⟨versionText, ""⟩⟩
  | .ok command =>
    match ← (runCommand host command).run with
    | .ok printed => return ⟨0, printed⟩
    | .error (.refused failure) =>
      return ⟨failure.exitCode, ⟨"", s!"Error: {failure.message}\n"⟩⟩
    | .error .overflow => return ⟨101, ⟨"", overflowText⟩⟩

end Cli

end EffortRank
