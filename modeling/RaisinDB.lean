import RaisinDB.Access.AsyncEvaluator
import RaisinDB.Access.EvaluatorLimits
import RaisinDB.Access.LimitedRuns
import RaisinDB.Access.NodeConditions
import RaisinDB.Access.OneDecision
import RaisinDB.Access.PatternRegex
import RaisinDB.Access.PermissionPatterns
import RaisinDB.Access.RelEvaluator
import RaisinDB.Access.RowFilter
import RaisinDB.Agents.Authority
import RaisinDB.Agents.BudgetRefusals
import RaisinDB.Agents.Children
import RaisinDB.Agents.CommitsFollow
import RaisinDB.Agents.CommittedRuns
import RaisinDB.Agents.Controls
import RaisinDB.Agents.Domain
import RaisinDB.Agents.ExternalResults
import RaisinDB.Agents.Fencing
import RaisinDB.Agents.Follows
import RaisinDB.Agents.HaltedRuns
import RaisinDB.Agents.KeptPause
import RaisinDB.Agents.Ledger
import RaisinDB.Agents.LegalRuns
import RaisinDB.Agents.Lifecycle
import RaisinDB.Agents.MarkedTransitions
import RaisinDB.Agents.OwedEffects
import RaisinDB.Agents.ParkedEffects
import RaisinDB.Agents.QuietSteps
import RaisinDB.Agents.Record
import RaisinDB.Agents.SoundLedgers
import RaisinDB.Agents.SoundRecords
import RaisinDB.Agents.Store
import RaisinDB.Agents.ToldRecords
import RaisinDB.Agents.Tracks
import RaisinDB.Agents.Tx
import RaisinDB.Applicator.PathIndex
import RaisinDB.Applicator.PathRuns
import RaisinDB.Branches.BranchCopy
import RaisinDB.Branches.BranchKeys
import RaisinDB.Branches.ChangeWalks
import RaisinDB.Branches.ConflictOrder
import RaisinDB.Branches.Conflicts
import RaisinDB.Branches.Contents
import RaisinDB.Branches.Divergence
import RaisinDB.Branches.FailedMerges
import RaisinDB.Branches.ForkCopy
import RaisinDB.Branches.HeadRecord
import RaisinDB.Branches.Merge
import RaisinDB.Branches.MergeHistories
import RaisinDB.Branches.MergeRuns
import RaisinDB.Branches.MergedTree
import RaisinDB.Branches.Resolution
import RaisinDB.Branches.ResolvedConflicts
import RaisinDB.Branches.RevisionGraph
import RaisinDB.Branches.UnmergedCommits
import RaisinDB.Clock.ConcurrentTicks
import RaisinDB.Clock.HybridClock
import RaisinDB.Coordinator.PullRuns
import RaisinDB.Coordinator.Retry
import RaisinDB.Coordinator.Sync
import RaisinDB.Flows.DesignerFlow
import RaisinDB.Flows.ErrorStrategies
import RaisinDB.Flows.FlowDefinition
import RaisinDB.Flows.FlowExecutor
import RaisinDB.Flows.FlowGraph
import RaisinDB.Flows.StepOutputs
import RaisinDB.Foundation.Binary64
import RaisinDB.Foundation.Bytes
import RaisinDB.Foundation.CountDown
import RaisinDB.Foundation.CycleSearch
import RaisinDB.Foundation.DebugText
import RaisinDB.Foundation.DeltaIndex
import RaisinDB.Foundation.Fallible
import RaisinDB.Foundation.FirstFit
import RaisinDB.Foundation.FirstOccurrence
import RaisinDB.Foundation.GraphSearch
import RaisinDB.Foundation.HashGroups
import RaisinDB.Foundation.HexText
import RaisinDB.Foundation.IndexMap
import RaisinDB.Foundation.Joins
import RaisinDB.Foundation.Json
import RaisinDB.Foundation.JsonText
import RaisinDB.Foundation.Lexemes
import RaisinDB.Foundation.Machine
import RaisinDB.Foundation.MapSums
import RaisinDB.Foundation.OpenChunks
import RaisinDB.Foundation.OrderedStore
import RaisinDB.Foundation.ParallelRounds
import RaisinDB.Foundation.Relaxation
import RaisinDB.Foundation.SegmentPatterns
import RaisinDB.Foundation.SeparatedPaths
import RaisinDB.Foundation.Separator
import RaisinDB.Foundation.SliceSort
import RaisinDB.Foundation.SortOutcomes
import RaisinDB.Foundation.VersionedStore
import RaisinDB.Graphs.ParallelSearches
import RaisinDB.Graphs.Projection
import RaisinDB.Graphs.ShortestPaths
import RaisinDB.History.EntityKeys
import RaisinDB.History.KeyLocator
import RaisinDB.History.LocatedKeys
import RaisinDB.History.RetentionScan
import RaisinDB.History.RunCollapse
import RaisinDB.History.Survivors
import RaisinDB.Indexing.DeleteIndex
import RaisinDB.Indexing.OrderLabels
import RaisinDB.Indexing.PathReaders
import RaisinDB.Indexing.PropertyDelta
import RaisinDB.Indexing.PropertyEntries
import RaisinDB.Indexing.RevisionScan
import RaisinDB.Indexing.SeekedReads
import RaisinDB.Indexing.SortedKeys
import RaisinDB.Jobs.DeficitRoundRobin
import RaisinDB.Jobs.FairScheduler
import RaisinDB.Jobs.RoundRobinRatios
import RaisinDB.Jobs.RoundRobinRuns
import RaisinDB.Jobs.RoundRobinTurns
import RaisinDB.Jobs.ServedJobs
import RaisinDB.Locks.Exclusion
import RaisinDB.Locks.InProcess
import RaisinDB.NodeDev.WorkingRoots
import RaisinDB.Oplog.Capture
import RaisinDB.Oplog.CaptureRuns
import RaisinDB.Oplog.DecomposedDelivery
import RaisinDB.Oplog.Keys
import RaisinDB.Oplog.PushReceiver
import RaisinDB.Oplog.Recovery
import RaisinDB.Oplog.Repository
import RaisinDB.Oplog.Scans
import RaisinDB.Oplog.Storage
import RaisinDB.Packages.DependencyGraph
import RaisinDB.Packages.GlobPatterns
import RaisinDB.Packages.NamespaceEncoding
import RaisinDB.Packages.SyncFilters
import RaisinDB.Replication.CausalDelivery
import RaisinDB.Replication.CausalRuns
import RaisinDB.Replication.CausalSort
import RaisinDB.Replication.ConflictRegister
import RaisinDB.Replication.ConflictResolution
import RaisinDB.Replication.Crdt
import RaisinDB.Replication.DeadEntries
import RaisinDB.Replication.Decomposition
import RaisinDB.Replication.Operation
import RaisinDB.Replication.OplogGc
import RaisinDB.Replication.ReplayEngine
import RaisinDB.Replication.ReplayOrder
import RaisinDB.Replication.VectorClock
import RaisinDB.Sql.Comparisons
import RaisinDB.Sql.ConstantFold
import RaisinDB.Sql.Evaluator
import RaisinDB.Sql.Expressions
import RaisinDB.Sql.FoldedMeaning
import RaisinDB.Sql.HashKeys
import RaisinDB.Sql.HierarchyRewrite
import RaisinDB.Sql.JoinAgreement
import RaisinDB.Sql.JoinExecution
import RaisinDB.Sql.JoinKeys
import RaisinDB.Sql.JsonOps
import RaisinDB.Sql.KeyMatches
import RaisinDB.Sql.LiteralOrder
import RaisinDB.Sql.Literals
import RaisinDB.Sql.NodePaths
import RaisinDB.Sql.OwnResults
import RaisinDB.Sql.ParameterLexemes
import RaisinDB.Sql.Parameters
import RaisinDB.Sql.ResultColumns
import RaisinDB.Sql.ResultNames
import RaisinDB.Sql.RewrittenCalls
import RaisinDB.Sql.RewrittenFilters
import RaisinDB.Sql.SemiJoin
import RaisinDB.Sql.SqlLexemes
import RaisinDB.Sql.WindowFrames
