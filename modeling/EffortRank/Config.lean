import EffortRank.Decimal.Basic
import EffortRank.Filter.Basic
import EffortRank.Graph.Effort
import EffortRank.Rank.Iteration
import EffortRank.Toml.Record

/-!
# Configuration

A configuration is a TOML document with a section for each concern. What a section leaves out has a
value of its own, unknown keys mean nothing, and a whole number may stand for a double. A section
may also be written as an array of its values in order. `Config.check` says which values make no
sense.
-/

namespace EffortRank

/-- The weights of functions and calls in the complexity of a graph. -/
structure ComplexityConfig where
  perNode : Float
  perEdge : Float

/-- How commits are scored: the weight of each label, and whether only the likeliest counts. -/
structure ScoringConfig where
  labelWeights : List Double
  topOne : Bool

/-- The configuration of an analysis. -/
structure Config where
  complexity : ComplexityConfig
  centrality : RankConfig Float
  blacklist : Blacklist
  filter : FilterConfig
  scoring : ScoringConfig

/-- A value that makes no sense. -/
inductive InvalidConfig where
  | alpha (x : Float)
  | epsilon (x : Float)
  | maxRounds
  | complexity
  | pattern (error : PatternError)

def InvalidConfig.message : InvalidConfig → String
  | .alpha x => s!"centrality.alpha must be within [0, 1], got {messageNumber x}"
  | .epsilon x => s!"centrality.epsilon must be positive, got {messageNumber x}"
  | .maxRounds => "centrality.max_iters must be at least 1"
  | .complexity => "complexity.r_n and complexity.r_e must be finite"
  | .pattern e => e.message

/-- Why there is no configuration: no file, no readable document, or a value that makes no
sense. -/
inductive ConfigError where
  | notFound (path : String)
  | unreadable (reason : String)
  | invalid (error : InvalidConfig)

def ConfigError.message : ConfigError → String
  | .notFound path => s!"Config file not found: {path}"
  | .unreadable reason => s!"Parse error: {reason}"
  | .invalid e => s!"Invalid config: {e.message}"

namespace Config

open Toml

def default : Config where
  complexity := ⟨0.0, 0.0⟩
  centrality := ⟨0.85, 1e-5, 300⟩
  blacklist := []
  filter := .default
  scoring := ⟨List.replicate 4 (.number 1.0), false⟩

def readComplexity : Item → Except Fault ComplexityConfig :=
  readRecord ["r_n", "r_e"] fun r =>
    ComplexityConfig.mk <$> r.defaulted "r_n" default.complexity.perNode asFloat <*>
      r.defaulted "r_e" default.complexity.perEdge asFloat

def readCentrality : Item → Except Fault (RankConfig Float) :=
  readRecord ["alpha", "epsilon", "max_iters"] fun r =>
    RankConfig.mk <$> r.defaulted "alpha" default.centrality.alpha asFloat <*>
      r.defaulted "epsilon" default.centrality.epsilon asFloat <*>
      r.defaulted "max_iters" default.centrality.maxRounds asCount

def readHistory : Item → Except Fault Blacklist :=
  readRecord ["blacklist"] fun r => r.defaulted "blacklist" default.blacklist (asList asText)

def readFilter : Item → Except Fault FilterConfig :=
  readRecord ["include_patterns", "exclude_patterns"] fun r =>
    FilterConfig.mk <$> r.defaulted "include_patterns" default.filter.includes (asList asText) <*>
      r.defaulted "exclude_patterns" default.filter.excludes (asList asText)

def readScoring : Item → Except Fault ScoringConfig :=
  readRecord ["label_weights", "top_one"] fun r =>
    ScoringConfig.mk <$>
      r.defaulted "label_weights" default.scoring.labelWeights (asList asDouble) <*>
      r.defaulted "top_one" default.scoring.topOne asBool

/-- The configuration that a document describes. -/
def ofDocument (doc : Fields) : Except Fault Config :=
  let r := RecordParts.ofFields doc
  (Config.mk <$> r.defaulted "complexity" default.complexity readComplexity <*>
    r.defaulted "centrality" default.centrality readCentrality <*>
    r.defaulted "history" default.blacklist readHistory <*>
    r.defaulted "filter" default.filter readFilter <*>
    r.defaulted "scoring" default.scoring readScoring).result

/-- Finds the first value that makes no sense. -/
def check (c : Config) : Except InvalidConfig Unit := do
  if !(0.0 ≤ c.centrality.alpha && c.centrality.alpha ≤ 1.0) then
    throw (.alpha c.centrality.alpha)
  if c.centrality.epsilon.isNaN || c.centrality.epsilon ≤ 0.0 then
    throw (.epsilon c.centrality.epsilon)
  if c.centrality.maxRounds = 0 then throw .maxRounds
  if !c.complexity.perNode.isFinite || !c.complexity.perEdge.isFinite then throw .complexity
  match FileFilter.ofConfig c.filter with
  | .ok _ => return ()
  | .error e => throw (.pattern e)

def ofText (text : String) : Except ConfigError Config :=
  match parse text >>= ofDocument with
  | .error fault => .error (.unreadable (fault.text text))
  | .ok c =>
    match c.check with
    | .ok () => .ok c
    | .error e => .error (.invalid e)

end Config

end EffortRank
