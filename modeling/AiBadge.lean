import AiBadge.System.World
import AiBadge.System.RequestEffect
import AiBadge.System.WorkerEffect
import AiBadge.System.Effect
import AiBadge.System.Leftover
import AiBadge.System.JobStep
import AiBadge.System.SessionStep
import AiBadge.Properties.StateMachine
import AiBadge.System.ArtifactStep
import AiBadge.System.Invariant
import AiBadge.Properties.PublicationGate
import AiBadge.Properties.Saga
import AiBadge.Properties.ReviewOrder
import AiBadge.Properties.Stranding
import AiBadge.Properties.Retry
import AiBadge.Properties.Exclusion
import AiBadge.System.HandlerFailure
import AiBadge.Properties.Isolation
import AiBadge.System.FileStep
import AiBadge.Properties.Erasure
import AiBadge.Properties.Completion
import AiBadge.Properties.ExactlyOnce
import AiBadge.Properties.Cancellation
import AiBadge.Properties.Consent
import AiBadge.Properties.Lifecycle
import AiBadge.Properties.TrustPolicy
import AiBadge.Lib.Encoding
import AiBadge.Orchestrator.Identity
import AiBadge.System.Ledger
import AiBadge.Properties.JobIdentity
import AiBadge.Lib.Agreement
import AiBadge.System.TwinDeletion
import AiBadge.Properties.TenantIntegrity
import AiBadge.Concurrency.Scripts
import AiBadge.Concurrency.Review
import AiBadge.Properties.ConcurrentReview
import AiBadge.Lib.StaleRead
import AiBadge.Concurrency.Interruption
import AiBadge.Concurrency.Change
import AiBadge.Properties.Serializability
import AiBadge.Properties.PipelineOrder
import AiBadge.Properties.AuditReplay
import AiBadge.Properties.HandlerGuards
import AiBadge.Properties.PublishTruth
import AiBadge.Orchestrator.Loop
import AiBadge.Properties.PollLoop
import AiBadge.Properties.JobHistory
import AiBadge.Properties.TransitionPaths
import AiBadge.Concurrency.Deletion
import AiBadge.Properties.CrashSafety
import AiBadge.Properties.DeletionRecovery
import AiBadge.Properties.Confluence
import AiBadge.Properties.Resubmission
import AiBadge.Properties.PublishTiming
import AiBadge.Properties.Slugs
import AiBadge.System.AccountStep
import AiBadge.Properties.Registration
import AiBadge.Properties.DeviceOwnership
import AiBadge.Migrations.DeviceNotNull
import AiBadge.Properties.Backfill
import AiBadge.Lib.PyJson
import AiBadge.Artifacts.Schemas
import AiBadge.Providers.OpenAiLlm
import AiBadge.Properties.SchemaConformance
import AiBadge.Lib.PyUuid
import AiBadge.Properties.Authentication
import AiBadge.Properties.AuditPaging
import AiBadge.Properties.ReviewReplay
import AiBadge.Lib.Reference
import AiBadge.Properties.ReferentialIntegrity
import AiBadge.Lib.Disk
import AiBadge.Storage.Local
import AiBadge.Properties.StoredAudio
import AiBadge.Lib.Projection
import AiBadge.Properties.SessionStore
import AiBadge.Properties.Provenance
import AiBadge.Properties.RequestRecords
import AiBadge.Lib.Charging
import AiBadge.Properties.Overtaking
import AiBadge.Lib.Failure
import AiBadge.Properties.EndpointFailures
import AiBadge.Properties.InternalErrors
import AiBadge.Lib.CommitOrder
import AiBadge.Lib.LockOrder
import AiBadge.Concurrency.Registration
import AiBadge.Properties.ConcurrentRegistration
import AiBadge.Properties.RequestProgress
