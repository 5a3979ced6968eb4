import StepFlow.Agent
import StepFlow.Attempt
import StepFlow.CommandLine
import StepFlow.CommandLine.Options
import StepFlow.Effective
import StepFlow.Flow.Basic
import StepFlow.Flow.Check
import StepFlow.Flow.Load
import StepFlow.Flow.Merge
import StepFlow.Flow.Print
import StepFlow.Flow.Read
import StepFlow.Graph
import StepFlow.Graph.Order
import StepFlow.Job
import StepFlow.Job.Lifecycle
import StepFlow.Job.Run
import StepFlow.Job.Timeline
import StepFlow.Json
import StepFlow.Machine
import StepFlow.Main
import StepFlow.Number.Binary64
import StepFlow.Number.Shortest
import StepFlow.Path
import StepFlow.Proofs.Graph.Wiring
import StepFlow.Proofs.Tree.Arena
import StepFlow.Proofs.Tree.Declaration
import StepFlow.Proofs.Tree.Names
import StepFlow.Report
import StepFlow.Schedule
import StepFlow.Session
import StepFlow.Settings
import StepFlow.Table
import StepFlow.Text.Blank
import StepFlow.Text.Hidden
import StepFlow.Text.Quoted
import StepFlow.Text.Style
import StepFlow.Timestamp
import StepFlow.Tree
import StepFlow.Tree.Arena
import StepFlow.Tree.Print
import StepFlow.Walk
import StepFlow.Yaml.Cursor
import StepFlow.Yaml.Decode
import StepFlow.Yaml.Event
import StepFlow.Yaml.Fault
import StepFlow.Yaml.Lexer
import StepFlow.Yaml.Node
import StepFlow.Yaml.Token
import StepFlow.Yaml.Value
import StepFlow.Proofs.Outcome
import StepFlow.Proofs.Table
import StepFlow.Proofs.Flow.Distinct
import StepFlow.Proofs.Merge.Union
import StepFlow.Proofs.Merge.Fields
import StepFlow.Proofs.Merge.Steps
import StepFlow.Proofs.Merge.Documents
import StepFlow.Proofs.Graph.Edges
import StepFlow.Proofs.Graph.Acyclic
import StepFlow.Proofs.Job.Records
import StepFlow.Proofs.Job.Untimed
import StepFlow.Proofs.Schedule.Countdown
import StepFlow.Proofs.Walk.Step
import StepFlow.Proofs.Walk.Places
import StepFlow.Proofs.Walk.Statuses
import StepFlow.Proofs.Walk.Skips
import StepFlow.Proofs.Walk.Story
import StepFlow.Proofs.Walk.Attempts
import StepFlow.Proofs.Walk.Ending
import StepFlow.Proofs.Walk.Accounts
import StepFlow.Proofs.Walk.Timelines
import StepFlow.Proofs.Walk.Orders
import StepFlow.Proofs.Machine.Chain
import StepFlow.Proofs.Schedule.Calls
import StepFlow.Proofs.Schedule.Progress
import StepFlow.Proofs.Graph.Cycles
import StepFlow.Proofs.Graph.Refusals
import StepFlow.Proofs.Job.Stages
import StepFlow.Proofs.Walk.Verdict
import StepFlow.Proofs.Walk.CutShort
import StepFlow.Proofs.Graph.Exits
import StepFlow.Proofs.Job.Agreement
import StepFlow.Proofs.Walk.Dependants
import StepFlow.Proofs.Walk.LeftBehind
import StepFlow.Proofs.Walk.Afterwards
import StepFlow.Proofs.Walk.StageOutcomes
import StepFlow.Proofs.Walk.Finishes
import StepFlow.Proofs.Flow.Paths
import StepFlow.Proofs.Flow.Keyed
import StepFlow.Proofs.Merge.Additive
import StepFlow.Proofs.Merge.Conflicts
import StepFlow.Proofs.Walk.Asks
import StepFlow.Proofs.Job.Moves
import StepFlow.Proofs.Walk.Dispatches
import StepFlow.Proofs.Flow.Sound
import StepFlow.Proofs.Merge.Sound
import StepFlow.Proofs.Tree.Chains
import StepFlow.Proofs.Effective.Limits
import StepFlow.Proofs.Effective.Isolation
import StepFlow.Proofs.Graph.Extension
import StepFlow.Proofs.Graph.Views
import StepFlow.Proofs.Graph.Earliest
import StepFlow.Proofs.Machine.Reuse
import StepFlow.Proofs.Walk.Completion
import StepFlow.Proofs.Walk.DryRuns
import StepFlow.Proofs.Yaml.Numbers
import StepFlow.Proofs.Yaml.Copies
import StepFlow.Proofs.Flow.Copies
import StepFlow.Proofs.Graph.Nearest
import StepFlow.Proofs.Merge.Repeated
import StepFlow.Proofs.Sorted
import StepFlow.Proofs.Path
import StepFlow.Proofs.Tree.Layout
import StepFlow.Proofs.Effective.Extension
import StepFlow.Proofs.Tree.Refusals
import StepFlow.Proofs.Walk.Retries
import StepFlow.Proofs.Walk.Slots
import StepFlow.Proofs.Machine.Hooks
import StepFlow.Proofs.Path.Operations
import StepFlow.Proofs.Flow.Rules
import StepFlow.Proofs.Graph.Keys
