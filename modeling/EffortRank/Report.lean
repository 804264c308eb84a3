import EffortRank.Config
import EffortRank.Rank.Effort
import EffortRank.Record.Graph
import EffortRank.Score

/-!
# Reports

All measures of a graph under one configuration.
-/

namespace EffortRank

/-- The measures of a graph. -/
structure Report where
  nodes : Nat
  edges : Nat
  commits : Nat
  historyMode : HistoryMode
  complexity : Float
  centrality : NameMap Float
  functionRanks : NameMap Float
  commitRanks : NameMap Float
  developerRanks : NameMap Float

def HistoryMode.name : HistoryMode → String
  | .logicalUnits => "logical_units"
  | .lines => "lines"

def CallGraph.report (g : CallGraph) (config : Config) : Report :=
  let mode := HistoryMode.resolve g
  let ranks := g.effortRanks config.centrality config.blacklist
  { nodes := g.nodes.length
    edges := g.edges.length
    commits := g.commits.length
    historyMode := mode
    complexity := g.complexity config.complexity.perNode config.complexity.perEdge
      config.blacklist mode
    centrality := g.centrality config.centrality
    functionRanks := ranks.functions
    commitRanks := ranks.commits
    developerRanks := ranks.developers }

/-- The report on a graph, if all counts in it fit. -/
def CallGraph.report? (g : CallGraph) (config : Config) : Option Report :=
  let mode := HistoryMode.resolve g
  fitting (g.churnFits mode config.blacklist && g.effortsFit config.blacklist) (g.report config)

def Report.overallScores (r : Report) (labels : NameMap (List Float)) (scoring : ScoringConfig) :
    Except LabelError (NameMap Double) :=
  EffortRank.overallScores (r.commitRanks.map .ofFloat)
    (labels.map fun probabilities => probabilities.map .ofFloat) scoring.labelWeights
    scoring.topOne

/-- The fields of a report, with a way to write doubles. -/
def Report.fields (number : Float → Json) (r : Report) : List (String × Json) :=
  [("nodes", .nat r.nodes), ("edges", .nat r.edges), ("commits", .nat r.commits),
    ("history_mode", .str r.historyMode.name), ("complexity", number r.complexity),
    ("centrality", r.centrality.encode number),
    ("function_devranks", r.functionRanks.encode number),
    ("commit_devranks", r.commitRanks.encode number),
    ("developer_devranks", r.developerRanks.encode number)]

end EffortRank
