import PersonalOS.Prog
import PersonalOS.Pool
import PersonalOS.JobSearch
import PersonalOS.Identifiers
import PersonalOS.ExecutionLedger
import PersonalOS.ToolExecutor
import PersonalOS.AtMostOnce
import PersonalOS.JobSearchGraph
import PersonalOS.ApprovedExecution
import PersonalOS.CheckpointAnswers
import PersonalOS.WorkflowCommands
import PersonalOS.ApprovalQueue
import PersonalOS.DecidedOnce
import PersonalOS.ExpirySweep
import PersonalOS.LeaseStore
import PersonalOS.LeaseExclusion
import PersonalOS.DurableRunner
import PersonalOS.RunExclusion
import PersonalOS.ResumePaths
import PersonalOS.OneAnswer
import PersonalOS.FinalDenials
import PersonalOS.CommandWorker
import PersonalOS.ParkedApprovals
import PersonalOS.PolicyEngine
import PersonalOS.PendingCheckpoints
import PersonalOS.CheckpointMonitor
import PersonalOS.FiredOnce
import PersonalOS.SweepReports
import PersonalOS.SweepIsolation
import PersonalOS.ApplicationLifecycle
import PersonalOS.LifecycleLog
import PersonalOS.LifecycleHistory
import PersonalOS.LifecycleCalls
import PersonalOS.QuietStalls
import PersonalOS.RequestedTransitions
import PersonalOS.LegalMoves
import PersonalOS.LedgerConsistency
import PersonalOS.RerunExecution
import PersonalOS.EventRouting
import PersonalOS.RoutedOnce
import PersonalOS.CommandHistory
import PersonalOS.AppliedOnce
import PersonalOS.Keyed
import PersonalOS.Lockstep
import PersonalOS.Instants
import PersonalOS.EventTransport
import PersonalOS.InMemoryTransport
import PersonalOS.EventOutbox
import PersonalOS.OutboxClaims
import PersonalOS.MirroredEvents
import PersonalOS.TransportCalls
import PersonalOS.SameTransport
import PersonalOS.WorkflowProgress
import PersonalOS.ProgressPages
import PersonalOS.EventInbox
import PersonalOS.ConsumedOnce
import PersonalOS.Texts
import PersonalOS.IdempotencyGuard
import PersonalOS.GuardExclusion
import PersonalOS.RetryRequests
import PersonalOS.RetryBudget
import PersonalOS.EvidenceStore
import PersonalOS.ArtifactDrafts
import PersonalOS.EvidenceSync
import PersonalOS.CitedEvidence
import PersonalOS.IngestedEvidence
import PersonalOS.Leases
import PersonalOS.DeliveryBudget
import PersonalOS.TransportBudgets
import PersonalOS.DispatchRetries
import PersonalOS.FileTree
import PersonalOS.PathSandbox
import PersonalOS.SandboxConfinement
import PersonalOS.SandboxTraversal
import PersonalOS.RuleChains
import PersonalOS.FilesServer
import PersonalOS.FileSteps
import PersonalOS.FileUpdates
import PersonalOS.RecruiterEvents
import PersonalOS.InterviewScheduling
import PersonalOS.ProviderCalendar
import PersonalOS.ScheduleReconciliation
import PersonalOS.CalendarWrites
import PersonalOS.ApprovedWrites
import PersonalOS.CalendarConvergence
import PersonalOS.InterviewReminders
import PersonalOS.RecruiterEventStore
import PersonalOS.RecordedMessages
import PersonalOS.RecorderCrashes
import PersonalOS.Redactor
import PersonalOS.FreeSlots
import PersonalOS.ActionKeys
import PersonalOS.RedactionWalk
import PersonalOS.JsonText
import PersonalOS.Fingerprints
import PersonalOS.JobPostings
import PersonalOS.JobMatching
import PersonalOS.HybridMatcher
import PersonalOS.GroundedClaims
import PersonalOS.ScoreLaws
import PersonalOS.MatchVerdicts
import PersonalOS.Selection
import PersonalOS.Shortlist
import PersonalOS.ShortlistTop
import PersonalOS.ShortlistOrder
import PersonalOS.ActionStatus
import PersonalOS.StatusLabels
import PersonalOS.Tokens
import PersonalOS.ResumeChunking
import PersonalOS.ResumeParts
import PersonalOS.ChunkLengths
import PersonalOS.ChunkWords
import PersonalOS.StringLiterals
import PersonalOS.StoredErrors
import PersonalOS.ErrorRoundTrips
import PersonalOS.WrittenArguments
import PersonalOS.TokenPatterns
import PersonalOS.DraftTerms
import PersonalOS.TracedDrafts
import PersonalOS.Dependencies
import PersonalOS.TaskGraph
import PersonalOS.PackedPieces
import PersonalOS.CredentialRefs
import PersonalOS.Correlations
import PersonalOS.CorrelationLaws
import PersonalOS.SecretLeaks
import PersonalOS.CheckpointSaver
import PersonalOS.CheckpointHistory
import PersonalOS.UniqueRows
import PersonalOS.PostingCatalog
import PersonalOS.ThreadRegistry
import PersonalOS.ProfileRows
import PersonalOS.SearchProfiles
import PersonalOS.OffsetPages
import PersonalOS.AuditTrail
import PersonalOS.AuditPages
import PersonalOS.AuditChains
import PersonalOS.AuditLinks
import PersonalOS.ApplicationBoard
import PersonalOS.BoardPages
import PersonalOS.BoardMoves
import PersonalOS.ShippedRules
import PersonalOS.ShippedClearance
