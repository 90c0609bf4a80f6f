import Mathlib.Tactic.Simps.Basic
import AiBadge.Model.Values

/-! # Rows

The rows of the nine tables, with the columns that some modelled function reads
or writes.
-/

namespace AiBadge

structure Organization where
  id : Uuid
  name : String
  slug : String

structure User where
  id : Uuid
  orgId : Uuid
  email : String
  passwordHash : String
  displayName : String
  role : String

structure Device where
  id : Uuid
  userId : Uuid
  name : String
  deviceKey : String
  deviceType : String
  status : String

structure Session where
  id : Uuid
  userId : Uuid
  deviceId : Uuid
  title : Option String
  status : SessionStatus
  consentGranted : Bool := false
  audioKey : Option AudioKey := none
  audioFormat : Option String := none
  audioSizeBytes : Option Nat := none
  deletedAt : Option Timestamp := none
  retractedBy : Option Uuid := none
  retractionReason : Option String := none

namespace Session

@[simps] def withStatus (status : SessionStatus) (s : Session) : Session := { s with status }

@[simps] def withConsent (consentGranted : Bool) (s : Session) : Session := { s with consentGranted }

@[simps] def withAudio (key : AudioKey) (size : Nat) (s : Session) : Session :=
  { s with audioKey := some key, audioFormat := some key.format, audioSizeBytes := some size }

/-- The tombstone columns of a retraction. -/
@[simps] def withTombstone (now : Timestamp) (userId : Uuid) (reason : String) (s : Session) :
    Session :=
  { s with
    status := .retracting, deletedAt := some now, retractedBy := some userId
    retractionReason := some reason }

end Session

/-- The dictionaries that the creators of jobs store in `input_payload`. -/
structure JobInput where
  artifactId : Option Uuid := none
  retryReason : Option String := none

structure Job where
  id : Uuid
  idempotencyKey : String
  sessionId : Option Uuid
  jobType : JobType
  status : JobStatus := .pending
  inputPayload : JobInput := {}
  outputPayload : Option Json := none
  errorMessage : Option String := none
  priority : Int := 0
  retryCount : Nat := 0
  maxRetries : Nat := 3
  nextRunAt : Option Timestamp := none
  startedAt : Option Timestamp := none
  completedAt : Option Timestamp := none
  createdAt : Timestamp

namespace Job

@[simps] def withRelease (j : Job) : Job := { j with status := .pending, startedAt := none }

@[simps] def withStart (now : Timestamp) (j : Job) : Job :=
  { j with status := .running, startedAt := some now }

@[simps] def withHeartbeat (now : Timestamp) (j : Job) : Job := { j with startedAt := some now }

@[simps] def withOutput (payload : Json) (j : Job) : Job :=
  { j with outputPayload := some payload, status := .completed }

end Job

structure Artifact where
  id : Uuid
  sessionId : Uuid
  jobId : Option Uuid
  artifactType : ArtifactType
  title : Option String
  content : Json
  summary : Option String
  status : ArtifactStatus := .draft
  reviewStatus : Option ArtifactStatus := none
  reviewComment : Option String := none
  publishedAt : Option Timestamp := none

namespace Artifact

@[simps] def withReview (status : ArtifactStatus) (comment : String) (a : Artifact) : Artifact :=
  { a with status, reviewStatus := some status, reviewComment := some comment }

@[simps] def withPublication (now : Timestamp) (a : Artifact) : Artifact :=
  { a with status := .published, publishedAt := some now }

end Artifact

inductive ResourceType where
  | job | session | artifact
  deriving DecidableEq

inductive EventType where
  | jobCreated
  | jobStatus (old new : JobStatus)
  | artifactApproved
  | artifactRejected
  | session (target : SessionStatus)
  deriving DecidableEq

structure WorkflowEvent where
  jobId : Option Uuid := none
  sessionId : Option Uuid := none
  artifactId : Option Uuid := none
  resourceType : ResourceType := .job
  resourceId : Option Uuid := none
  eventType : EventType
  eventData : Option String := none

inductive AuditAction where
  | consentGranted | consentRevoked | retractInitiated
  deriving DecidableEq

structure AuditLog where
  userId : Option Uuid
  action : AuditAction
  resourceType : ResourceType
  resourceId : Option Uuid
  sessionId : Option Uuid
  createdAt : Timestamp

/-- The dictionaries that `retract_session` stores in `cascade_targets`. -/
structure CascadeTargets where
  audioKey : Option AudioKey := none
  description : Option String := none

structure DeletionJob where
  id : Uuid
  sessionId : Option Uuid
  resourceType : DeletionType
  resourceId : Uuid
  status : JobStatus := .pending
  cascadeTargets : Option CascadeTargets
  errorMessage : Option String := none
  nextRunAt : Option Timestamp := none
  createdAt : Timestamp

@[simps] def DeletionJob.withStatus (status : JobStatus) (d : DeletionJob) : DeletionJob :=
  { d with status }

@[simps] def DeletionJob.withFailure (message : String) (d : DeletionJob) : DeletionJob :=
  { d with status := .failed, errorMessage := some message }

/-- A pipeline stage, as opposed to a publish job. -/
def JobType.isPipeline : JobType → Bool
  | .transcribe | .summarize | .extractArtifact => true
  | _ => false

/-- Waiting for a worker or in the hands of one. -/
def JobStatus.isOpen : JobStatus → Bool
  | .pending | .running => true
  | _ => false

end AiBadge
