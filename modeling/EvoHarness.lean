import EvoHarness.Library.Runs
import EvoHarness.Library.Acyclic
import EvoHarness.Library.Search
import EvoHarness.Library.Hoare
import EvoHarness.Library.Postorder
import EvoHarness.Library.PyText
import EvoHarness.Library.Spacing
import EvoHarness.Library.Finditer
import EvoHarness.Graph
import EvoHarness.Sketch
import EvoHarness.Store
import EvoHarness.Solver
import EvoHarness.Controller
import EvoHarness.StoreFrames
import EvoHarness.Ancestors
import EvoHarness.Propagate
import EvoHarness.Justified
import EvoHarness.NoFalseProved
import EvoHarness.Identity
import EvoHarness.Spelling
import EvoHarness.Renaming
import EvoHarness.Tokens
import EvoHarness.Merging
import EvoHarness.Propose
import EvoHarness.Assembly
import EvoHarness.AssemblyTree
import EvoHarness.Assemblable
import EvoHarness.Library.LeanDeclarations
import EvoHarness.DeclaredOnce
import EvoHarness.ConcurrentGraph
import EvoHarness.LeaseFrames
import EvoHarness.Leases
import EvoHarness.Policy
import EvoHarness.RunSolver
import EvoHarness.Grade
import EvoHarness.AxiomReport
import EvoHarness.Verify
import EvoHarness.Certify
import EvoHarness.Settled
import EvoHarness.Upkeep
import EvoHarness.Confluence
import EvoHarness.NoStale
import EvoHarness.SolveLoop
import EvoHarness.OpenGoals
import EvoHarness.Attempts
import EvoHarness.Inert
import EvoHarness.Scope
import EvoHarness.Cli
import EvoHarness.CliFrames
import EvoHarness.StaysPut
import EvoHarness.Reopens
import EvoHarness.Library.Brackets
import EvoHarness.Library.Weave
import EvoHarness.Core.Patch
import EvoHarness.Core.PatchFrame
import EvoHarness.Core.PatchLines
import EvoHarness.Core.PatchBlocks
import EvoHarness.Core.FileBlocks
import EvoHarness.Research.Reference
import EvoHarness.Evaluation.Evidence
import EvoHarness.Evaluation.Producer
import EvoHarness.Evaluation.Report
import EvoHarness.Evaluation.RoundTrip
import EvoHarness.Evaluation.Sink
import EvoHarness.Evaluation.Tampering
import EvoHarness.Research.Assessment
import EvoHarness.Research.Promotion
import EvoHarness.Research.Inbox
import EvoHarness.Research.DecisionCards
import EvoHarness.Research.CardTampering
import EvoHarness.Research.Gate
import EvoHarness.Research.Spending
import EvoHarness.Research.RunLedger
import EvoHarness.Research.AssessmentLog
import EvoHarness.Research.Routing
import EvoHarness.Research.Deeds
import EvoHarness.Research.RoutedTwice
import EvoHarness.Library.Json
import EvoHarness.Library.JsonMembers
import EvoHarness.Library.JsonNumbers
import EvoHarness.Library.JsonReading
import EvoHarness.Library.PyData
import EvoHarness.Library.Traversal
import EvoHarness.Core.Checkpoint
import EvoHarness.Research.Ledger
import EvoHarness.Research.Migration
import EvoHarness.Research.FreeFormEvidence
import EvoHarness.Research.MigrationReports
import EvoHarness.Research.Frozen
import EvoHarness.Core.Agent.Messages
import EvoHarness.Core.Agent.ReadState
import EvoHarness.Core.Agent.Runtime
import EvoHarness.Core.Agent.History
import EvoHarness.Core.Agent.Limits
import EvoHarness.Core.Agent.Heard
import EvoHarness.Core.Proposer
import EvoHarness.Core.SearchLoop
import EvoHarness.Core.LoopFrame
import EvoHarness.Core.Billing
import EvoHarness.Core.Agent.Queries
import EvoHarness.Core.Agent.Estimate
import EvoHarness.Core.Agent.Compaction
import EvoHarness.Core.Agent.Retention
import EvoHarness.Core.RepairRounds
import EvoHarness.Core.StopReason
import EvoHarness.Core.RunDirectory
import EvoHarness.Core.Selection
import EvoHarness.Core.IslandMigration
import EvoHarness.Core.ConcurrentProposing
import EvoHarness.Core.Inspirations
import EvoHarness.Core.Archive
import EvoHarness.Core.LineageVeto
import EvoHarness.Library.Lines
import EvoHarness.Rendering
import EvoHarness.Validator
import EvoHarness.Library.FirstSeen
import EvoHarness.Header
import EvoHarness.SplicedUnder
import EvoHarness.Library.LeanComments
import EvoHarness.Envelope
import EvoHarness.EnvelopeStore
import EvoHarness.PreambleSplit
import EvoHarness.BodyAgreement
import EvoHarness.Core.Agent.SchedulerRuns
import EvoHarness.Core.Agent.WorkspaceText
import EvoHarness.Core.GenomeEdits
import EvoHarness.Core.StoredCandidate
import EvoHarness.Core.Llm.Retries
import EvoHarness.Core.Llm.Parsers
import EvoHarness.Core.Llm.ParserErrors
import EvoHarness.Library.Delimited
import EvoHarness.Evoplus.Signatures
import EvoHarness.Evoplus.Directives
import EvoHarness.Guard.Budget
import EvoHarness.Library.Exits
import EvoHarness.Core.Remote
import EvoHarness.Core.RemoteWaiting
import EvoHarness.Core.RemoteErrors
import EvoHarness.Core.StoreQueries
import EvoHarness.Readout.Trajectory
import EvoHarness.Serve.Grading
import EvoHarness.Serve.Service
import EvoHarness.Serve.OneVerdict
import EvoHarness.Core.Agent.EventNumbers
import EvoHarness.Core.Agent.Dsh
import EvoHarness.Core.Agent.EventOrder
import EvoHarness.Core.Agent.DshEvents
import EvoHarness.Library.Fnmatch
import EvoHarness.Library.TreeWalk
import EvoHarness.Guard.Antihack
import EvoHarness.Core.Preflight
import EvoHarness.Core.ProposedCode
import EvoHarness.Evoplus.Copies
import EvoHarness.Evoplus.StateMerge
import EvoHarness.Evoplus.Islands
import EvoHarness.Library.JsonAscii
import EvoHarness.Evoplus.Experience
import EvoHarness.Library.PathTree
import EvoHarness.Core.Agent.WorkspaceSearch
import EvoHarness.Core.SharedBudget
import EvoHarness.Core.ProposalResources
import EvoHarness.Core.ResourceSteps
import EvoHarness.Core.NothingLeft
import EvoHarness.Library.JsonLines
import EvoHarness.Core.Metrics
import EvoHarness.Library.Shares
import EvoHarness.Evoplus.OperatorBandit
import EvoHarness.Evoplus.SoftPenalty
import EvoHarness.Evoplus.Inspiration
import EvoHarness.Research.Signing
import EvoHarness.Readout.Governance
import EvoHarness.Core.Llm.Wire
