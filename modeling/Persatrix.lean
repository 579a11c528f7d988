import Persatrix.System
import Persatrix.Tasks
import Persatrix.EventLoop
import Persatrix.EventLoopChanges
import Persatrix.WalletHistory
import Persatrix.WalletLedger
import Persatrix.WalletBudgetCap
import Persatrix.WalletInteraction
import Persatrix.WalletInteractionCeiling
import Persatrix.Countdown
import Persatrix.DependencyChains
import Persatrix.Planner
import Persatrix.PlannerDAG
import Persatrix.PlannerLevels
import Persatrix.PlannerTemplate
import Persatrix.StageProgress
import Persatrix.StageIsolation
import Persatrix.RunScheduler
import Persatrix.RunLifecycle
import Persatrix.RunRemoval
import Persatrix.Recency
import Persatrix.ResponseCache
import Persatrix.RingBuffer
import Persatrix.Indexed
import Persatrix.RateLimiter
import Persatrix.RateLimiterRefinement
import Persatrix.RateLimiterAgreement
import Persatrix.Bytes
import Persatrix.Base64
import Persatrix.AgentToken
import Persatrix.AgentTokenRuns
import Persatrix.RedactPatterns
import Persatrix.RedactStruct
import Persatrix.Decimal
import Persatrix.Float64
import Persatrix.Utf8
import Persatrix.JsonStrings
import Persatrix.SortedEntries
import Persatrix.JsonValues
import Persatrix.Calendar
import Persatrix.Timestamps
import Persatrix.AuditEvent
import Persatrix.AuditCanonical
import Persatrix.AuditChain
import Persatrix.AuditAgreement
import Persatrix.AuditTamper
import Persatrix.AuditRecords
import Persatrix.AuditRecoveryRuns
import Persatrix.ChannelMessage
import Persatrix.EndVote
import Persatrix.EndVoteQuorum
import Persatrix.ReplyBudget
import Persatrix.FloorControl
import Persatrix.PrincipalAttribution
import Persatrix.LogDisk
import Persatrix.LogRing
import Persatrix.LogRestart
import Persatrix.InjectionGate
import Persatrix.InjectionReadUp
import Persatrix.InjectionUnseen
import Persatrix.FactPredicates
import Persatrix.Pointers
import Persatrix.FactChains
import Persatrix.FactLatest
import Persatrix.FactTasks
import Persatrix.LogSealCells
import Persatrix.LogSealFiles
import Persatrix.LogSealSections
import Persatrix.LogSealRuns
import Persatrix.LogSealClaimed
import Persatrix.LogSealOrder
import Persatrix.LogSealOwed
import Persatrix.LogSealOnce
import Persatrix.Transactions
import Persatrix.Approvals
import Persatrix.ApprovalQueue
import Persatrix.ApprovalLifecycle
import Persatrix.OrderedRows
import Persatrix.GraphStore
import Persatrix.GraphReplace
import Persatrix.GraphRuns
import Persatrix.LeaseBracket
import Persatrix.LeaseRequests
import Persatrix.LeaseCharges
import Persatrix.LeaseLedger
import Persatrix.EventLoopArrivals
import Persatrix.EventLoopStops
import Persatrix.EventLoopRuns
import Persatrix.MembershipTables
import Persatrix.MembershipStore
import Persatrix.MembershipLedger
import Persatrix.MembershipRuns
import Persatrix.InteractionTracker
import Persatrix.EpisodeRouting
import Persatrix.InteractionCloses
import Persatrix.EpisodeRoutingRuns
import Persatrix.InteractionRuns
import Persatrix.EpisodeSummaries
import Persatrix.EpisodeTable
import Persatrix.EpisodeProjections
import Persatrix.ReplayBoots
import Persatrix.ReplayOnce
import Persatrix.ConveneTimers
import Persatrix.ConveneRoundTrip
import Persatrix.DecisionPipeline
import Persatrix.DecisionChecks
import Persatrix.DecisionFailsClosed
import Persatrix.DecisionReturns
import Persatrix.CascadeChains
import Persatrix.TokenRenewal
import Persatrix.TokenRenewalRevocation
import Persatrix.PythonStrings
import Persatrix.PythonJson
import Persatrix.ContextBudget
import Persatrix.Terminated
import Persatrix.CacheKey
import Persatrix.Packager
import Persatrix.AgentTokenTable
import Persatrix.AgentEnrollment
import Persatrix.AgentEnrollmentRuns
import Persatrix.PublishAndAwait
import Persatrix.PublishAndAwaitRuns
import Persatrix.PythonBuiltins
import Persatrix.Delegation
import Persatrix.DelegationMerge
import Persatrix.DelegationSpawner
import Persatrix.DelegationEnvelope
import Persatrix.VoteClose
import Persatrix.VoteCloseRuns
import Persatrix.CatchUp
import Persatrix.WindowViews
import Persatrix.WindowTurns
import Persatrix.CatchUpRows
import Persatrix.CatchUpSweep
import Persatrix.CatchUpRuns
import Persatrix.CatchUpDerives
import Persatrix.AccountStore
import Persatrix.Callers
import Persatrix.BoundPosts
import Persatrix.AccountHistory
import Persatrix.BoundPostRuns
import Persatrix.PostEvidence
import Persatrix.SynthesisReserve
import Persatrix.ConvenerCadence
import Persatrix.ProcedureTags
import Persatrix.CircuitBreaker
import Persatrix.CircuitBreakerWindows
import Persatrix.LateSettles
import Persatrix.ReplyReservations
import Persatrix.AuditUnread
import Persatrix.EvictionSelection
import Persatrix.EvictionExact
import Persatrix.RedactStrings
import Persatrix.NetAddress
import Persatrix.ClientIP
import Persatrix.ExternalData
import Persatrix.MemoryBudget
import Persatrix.WorkingMemory
import Persatrix.Commitments
import Persatrix.TrackerCalls
import Persatrix.LogUsage
import Persatrix.Keyed
import Persatrix.RelationshipWrites
import Persatrix.ChannelConfig
import Persatrix.ConfigAgreement
import Persatrix.PythonText
import Persatrix.IdentityMerge
import Persatrix.TagPattern
import Persatrix.DeliberationPlan
import Persatrix.FloatRounding
import Persatrix.DispatchRetries
import Persatrix.DispatchBounds
import Persatrix.LogShipper
import Persatrix.PairEscape
import Persatrix.ConversationWindow
