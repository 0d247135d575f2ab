import Takos.Foundation.QueueSearch
import Takos.Foundation.OrderedMap
import Takos.Git.Objects
import Takos.Git.Refs
import Takos.Git.CommitCounts
import Takos.Git.TreeChanges
import Takos.Git.MergeTrees
import Takos.PullRequests.MergeResolution
import Takos.Git.DefaultBranch
import Takos.Foundation.Asking
import Takos.Git.TreeSteps
import Takos.Git.CommitFile
import Takos.Git.CommitFileRuns
import Takos.Runs.RunCalls
import Takos.Runs.RunLifecycle
import Takos.Foundation.Bits
import Takos.Foundation.CanonicalCode
import Takos.Foundation.Deflate
import Takos.Packs.BitReading
import Takos.Packs.HuffmanTables
import Takos.Packs.InflateBlocks
import Takos.Packs.InflateStreams
import Takos.Packs.PackObjects
import Takos.Packs.PackReader
import Takos.Packs.PackFormat
import Takos.Packs.PackRoundTrip
import Takos.Packs.PackDeltas
import Takos.Foundation.RoleGraph
import Takos.Git.ReachableObjects
import Takos.Git.CollectedObjects
import Takos.Git.LiveObjects
import Takos.Git.ObjectReachability
import Takos.PullRequests.MergeCalls
import Takos.PullRequests.MergeRuns
import Takos.Source.ExternalImport
import Takos.Source.ImportFailures
import Takos.DurableObjects.RateLimiter
import Takos.Foundation.SlidingWindow
import Takos.DurableObjects.RateLimiterRuns
import Takos.DurableObjects.RateLimiterVerdicts
import Takos.Offload.RunEvents
import Takos.DurableObjects.RunNotifier
import Takos.DurableObjects.RunArchive
import Takos.DurableObjects.RunArchiveRuns
import Takos.Foundation.Json
import Takos.Runs.CompletedMessages
import Takos.Runs.ConversationHistory
import Takos.Runs.TranscriptAgreement
import Takos.Runs.CheckpointCalls
import Takos.Runs.CheckpointRuns
import Takos.Runs.CheckpointPointers
import Takos.Runs.QueuedRuns
import Takos.Foundation.Layers
import Takos.Sync.SnapshotAncestry
import Takos.DurableObjects.EventReplay
import Takos.DurableObjects.EventReplayRuns
import Takos.DurableObjects.UsageRuns
import Takos.DurableObjects.Routing
import Takos.DurableObjects.RoutingAlarms
import Takos.LocalPlatform.SequentialBatch
import Takos.Outboxes.OutboxDispatch
import Takos.Outboxes.OutboxRuns
import Takos.Indexer.IndexJob
import Takos.Indexer.IndexJobSteps
import Takos.Indexer.IndexJobRuns
import Takos.Indexer.IndexJobBacking
import Takos.LocalPlatform.TransactionGate
import Takos.LocalPlatform.TransactionStages
import Takos.LocalPlatform.TransactionRuns
import Takos.LocalPlatform.TransactionAnswers
import Takos.Threads.RetrievalIndex
import Takos.Threads.MessagePersistence
import Takos.Threads.MessageAgreement
import Takos.Foundation.LikePatterns
import Takos.Foundation.SlashPaths
import Takos.SpaceStorage.StoragePaths
import Takos.SpaceStorage.StorageTable
import Takos.SpaceStorage.StorageStatements
import Takos.SpaceStorage.StorageMoves
import Takos.SpaceStorage.StorageItems
import Takos.SpaceStorage.StorageSubtrees
import Takos.SpaceStorage.StorageCalls
import Takos.SpaceStorage.StorageRuns
import Takos.SpaceStorage.StorageTreeRuns
import Takos.SpaceStorage.StorageAgreement
import Takos.SpaceStorage.OrphanRuns
import Takos.SpaceStorage.OrphanCleanup
import Takos.HostnameRouting.RoutingRecords
import Takos.HostnameRouting.RoutingCalls
import Takos.HostnameRouting.RoutingStaleness
import Takos.HostnameRouting.RoutingBounds
import Takos.Foundation.Accounts
import Takos.LocalPlatform.WorkerQueues
import Takos.LocalPlatform.WorkerRuns
import Takos.LocalPlatform.WorkerAccounts
import Takos.McpTools.ToolPolicies
import Takos.Foundation.OwnedTables
import Takos.MemoryGraph.ClaimStore
import Takos.MemoryGraph.PathBuilder
import Takos.MemoryGraph.TenantIsolation
import Takos.DurableObjects.SessionStore
import Takos.DurableObjects.SessionRuns
import Takos.Spaces.Members
import Takos.Spaces.MemberRuns
import Takos.Forks.ForkSync
import Takos.Forks.ForkSyncRuns
import Takos.Delegations.AccountsDelegation
import Takos.Delegations.RefreshLeases
import Takos.Identity.SessionRotation
import Takos.DurableObjects.SessionHoldings
import Takos.Identity.SessionRevocation
import Takos.Migrations.MigrationRunner
import Takos.Migrations.MigrationRuns
import Takos.Packs.DeltaFormat
import Takos.Packs.BitReadingBack
import Takos.Packs.InflateAccepted
import Takos.Packs.InflateRules
import Takos.Packs.PackChecksums
import Takos.Foundation.Text
import Takos.Foundation.Utf8
import Takos.Git.CommitText
import Takos.Git.CommitRoundTrip
import Takos.Foundation.UnitOrder
import Takos.Git.TreeText
import Takos.AgentContainer.RegistryRuns
import Takos.Source.PreinstallJobs
import Takos.Source.PreinstallRuns
import Takos.Runs.CheckpointRetries
import Takos.Foundation.Base64
import Takos.Foundation.OffsetPages
import Takos.LocalPlatform.ObjectStores
import Takos.LocalPlatform.ObjectMaps
import Takos.LocalPlatform.FileObjects
import Takos.LocalPlatform.ObjectStoreAgreement
import Takos.Packs.PktLines
import Takos.Packs.PktLinesAccepted
import Takos.Git.RefNameRuns
import Takos.Runs.HistoryRetrieval
import Takos.Runs.HistoryReach
import Takos.ContainerHosts.ProxyTokenRuns
import Takos.DurableObjects.RoutingHistory
import Takos.Diffs.LineDiff
import Takos.Diffs.Blame
import Takos.Diffs.BlameRuns
import Takos.Foundation.UnifiedPatches
import Takos.Diffs.UnifiedDiff
import Takos.Git.CommitRows
import Takos.Git.CommitAgreement
import Takos.MemoryGraph.PathSearch
import Takos.MemoryGraph.PathExactness
import Takos.Foundation.Savepoints
import Takos.LocalPlatform.NestedTransactions
import Takos.LocalPlatform.NestedTransactionRuns
import Takos.Tools.ToolExecution
import Takos.Indexer.FileVectors
import Takos.Indexer.FileVectorRuns
import Takos.McpTools.ExposureNames
import Takos.McpTools.CatalogLoads
import Takos.Spaces.SpaceSettings
import Takos.AgentContainer.Redaction
import Takos.MemoryGraph.BuildRuns
import Takos.Egress.OutboundRequests
import Takos.Packs.UploadPack
