import EffortRank.Bounds
import EffortRank.Churn.Attribution
import EffortRank.Churn.Stats
import EffortRank.Cli.Arguments
import EffortRank.Cli.Directory
import EffortRank.Cli.Failure
import EffortRank.Cli.FileTree
import EffortRank.Cli.Host
import EffortRank.Cli.Run
import EffortRank.Config
import EffortRank.Decimal.Basic
import EffortRank.Decimal.Double
import EffortRank.Diff.Basic
import EffortRank.Filter.Basic
import EffortRank.Graph.Basic
import EffortRank.Graph.Effort
import EffortRank.Graph.Request
import EffortRank.Graph.Store
import EffortRank.Json.Node
import EffortRank.Json.Numeral
import EffortRank.Json.Parser
import EffortRank.Json.Printer
import EffortRank.Json.Record
import EffortRank.Json.Token
import EffortRank.Main
import EffortRank.NameMap.Basic
import EffortRank.NameMap.Lemmas
import EffortRank.NameMap.Sums
import EffortRank.Patch.Body
import EffortRank.Patch.Header
import EffortRank.Proofs.Churn.Agreement
import EffortRank.Proofs.Churn.Bounded
import EffortRank.Proofs.Churn.ChangedLines
import EffortRank.Proofs.Churn.Coverage
import EffortRank.Proofs.Churn.Merging
import EffortRank.Proofs.Churn.Scan
import EffortRank.Proofs.Churn.Shares
import EffortRank.Proofs.Churn.Totals
import EffortRank.Proofs.Churn.UnitSums
import EffortRank.Proofs.Churn.Units
import EffortRank.Proofs.Churn.WordCounts
import EffortRank.Proofs.Churn.Words
import EffortRank.Proofs.Cli.ExitCodes
import EffortRank.Proofs.Cli.Markers
import EffortRank.Proofs.Cli.Messages
import EffortRank.Proofs.Cli.Reading
import EffortRank.Proofs.Cli.Stopping
import EffortRank.Proofs.Diff.Application
import EffortRank.Proofs.Diff.Conservation
import EffortRank.Proofs.Diff.Disorder
import EffortRank.Proofs.Diff.Inversion
import EffortRank.Proofs.Diff.Involution
import EffortRank.Proofs.Diff.NewVersion
import EffortRank.Proofs.Diff.Order
import EffortRank.Proofs.Diff.Placement
import EffortRank.Proofs.Diff.Records
import EffortRank.Proofs.Diff.Regularity
import EffortRank.Proofs.Diff.Restoration
import EffortRank.Proofs.Graph.Blacklist
import EffortRank.Proofs.Graph.Efforts
import EffortRank.Proofs.Graph.Fitting
import EffortRank.Proofs.Graph.Growth
import EffortRank.Proofs.Graph.Lookup
import EffortRank.Proofs.Graph.Normalizing
import EffortRank.Proofs.Graph.Registration
import EffortRank.Proofs.Graph.Reloading
import EffortRank.Proofs.Graph.Requests
import EffortRank.Proofs.Graph.Store
import EffortRank.Proofs.Graph.WellFormed
import EffortRank.Proofs.Json.Fields
import EffortRank.Proofs.Json.Reading
import EffortRank.Proofs.Json.Scalars
import EffortRank.Proofs.Json.Tokens
import EffortRank.Proofs.Patch.HeaderSearch
import EffortRank.Proofs.Patch.HeaderText
import EffortRank.Proofs.Patch.HiddenHeaders
import EffortRank.Proofs.Patch.Hunks
import EffortRank.Proofs.Patch.Inverting
import EffortRank.Proofs.Patch.Numbering
import EffortRank.Proofs.Patch.Reading
import EffortRank.Proofs.Patch.Versions
import EffortRank.Proofs.Patch.WellFormed
import EffortRank.Proofs.Rank.Convergence
import EffortRank.Proofs.Rank.Digraph
import EffortRank.Proofs.Rank.Distribution
import EffortRank.Proofs.Rank.Entries
import EffortRank.Proofs.Rank.Keys
import EffortRank.Proofs.Rank.OrderedScalars
import EffortRank.Proofs.Rank.Product
import EffortRank.Proofs.Rank.Rearranging
import EffortRank.Proofs.Rank.RelativeWeights
import EffortRank.Proofs.Rank.Renumbering
import EffortRank.Proofs.Rank.Rounds
import EffortRank.Proofs.Rank.Rows
import EffortRank.Proofs.Rank.Scores
import EffortRank.Proofs.Rank.Shares
import EffortRank.Proofs.Rank.SparseProduct
import EffortRank.Proofs.Rank.Steps
import EffortRank.Proofs.Rank.Walks
import EffortRank.Proofs.Record.Decoding
import EffortRank.Proofs.Record.Texts
import EffortRank.Proofs.Replay.BothVersions
import EffortRank.Proofs.Replay.Calls
import EffortRank.Proofs.Replay.Coherence
import EffortRank.Proofs.Replay.Counting
import EffortRank.Proofs.Replay.Fitting
import EffortRank.Proofs.Replay.History
import EffortRank.Proofs.Replay.NewFunctions
import EffortRank.Proofs.Replay.Refusal
import EffortRank.Proofs.Replay.Resumption
import EffortRank.Proofs.Replay.Store
import EffortRank.Proofs.Sketch.Replaying
import EffortRank.Proofs.Sketch.Script
import EffortRank.Proofs.Text.Digits
import EffortRank.Proofs.Text.Lines
import EffortRank.Proofs.Time.Calendar
import EffortRank.Proofs.Time.InstantText
import EffortRank.Rank.Effort
import EffortRank.Rank.Iteration
import EffortRank.Rank.Scalar
import EffortRank.Rank.Transition
import EffortRank.Reading.Basic
import EffortRank.Record.Diff
import EffortRank.Record.Graph
import EffortRank.Record.Replay
import EffortRank.Replay.Change
import EffortRank.Replay.Run
import EffortRank.Replay.Store
import EffortRank.Report
import EffortRank.Score
import EffortRank.Sketch.History
import EffortRank.Sketch.UnifiedDiff
import EffortRank.Text.Basic
import EffortRank.Text.Quoted
import EffortRank.Text.Word
import EffortRank.Time.Instant
import EffortRank.Toml.Document
import EffortRank.Toml.Fault
import EffortRank.Toml.Item
import EffortRank.Toml.Record
import EffortRank.Toml.Scalar
import EffortRank.Toml.Text
import EffortRank.Toml.Value
