import AiBadge.Sessions.Service

/-! # Artifact service

Review and publication of artifacts, with the session transitions they trigger.
-/

namespace AiBadge

open Lib Prog DbM SessionStatus

/-- The workflow event of a session transition. -/
def sessionEvent (sessionId : Uuid) (target : SessionStatus) : WorkflowEvent :=
  { resourceType := .session, resourceId := some sessionId, sessionId := some sessionId
    eventType := .session target, eventData := some s!"session_id={sessionId.str}" }

/-- Move a session along the state machine; illegal moves raise. -/
def transitionSession (sessionId : Uuid) (target : SessionStatus) : DbM Unit := do
  let session ← require (← read fun db => db.session? sessionId)
    (.valueError s!"Session {sessionId.str} not found")
  let verdict := canTransition session.status target
  ensure verdict.1 (.valueError (s!"Cannot transition session {sessionId.str} from " ++
    s!"{session.status.value} to {target.value}: {verdict.2}"))
  write fun db => db.setSession sessionId (Session.withStatus target)
  write fun db => db.addEvent (sessionEvent sessionId target)

/-- The workflow event of a review. -/
def reviewEvent (artifact : Artifact) (reviewerId : Uuid) (eventType : EventType) : WorkflowEvent :=
  { resourceType := .artifact, resourceId := some artifact.id, artifactId := some artifact.id
    sessionId := some artifact.sessionId, eventType
    eventData := some s!"reviewer={reviewerId.str}" }

def approveArtifact (artifact : Artifact) (reviewerId : Uuid) (comment : String) : DbM Unit := do
  textColumn "artifacts.review_comment" comment
  write fun db => db.setArtifact artifact.id (Artifact.withReview .approved comment)
  write fun db => db.addEvent (reviewEvent artifact reviewerId .artifactApproved)
  let remaining ← read fun db => db.artifacts.select fun a =>
    a.sessionId = artifact.sessionId && a.status ≠ .approved
  when remaining.isEmpty do
    let sess ← read fun db => db.session? artifact.sessionId
    when (sess.any fun s => s.status = needsReview) (transitionSession artifact.sessionId reviewing)
    transitionSession artifact.sessionId approved

/-- The two values drawn when a rejection queues a new extraction. -/
structure RetryIds where
  job : Uuid
  suffix : Uuid

/-- The key `f"{session_id}:extract_artifact:retry-{uuid4().hex[:8]}"`. -/
def retryKey (sessionId suffix : Uuid) : String :=
  s!"{sessionId.str}:extract_artifact:retry-{take suffix.hex 8}"

def retryJob (ids : RetryIds) (now : Timestamp) (artifact : Artifact) (comment : String) : Job :=
  { id := ids.job, idempotencyKey := retryKey artifact.sessionId ids.suffix
    sessionId := some artifact.sessionId, jobType := .extractArtifact
    inputPayload := { retryReason := some comment }, createdAt := now }

def rejectArtifact (ids : RetryIds) (now : Timestamp) (artifact : Artifact) (reviewerId : Uuid)
    (comment : String) : DbM Unit := do
  textColumn "artifacts.review_comment" comment
  write fun db => db.setArtifact artifact.id (Artifact.withReview .rejected comment)
  write fun db => db.addEvent (reviewEvent artifact reviewerId .artifactRejected)
  insertJob (retryJob ids now artifact comment)

/-- The key `f"{session_id}:publish:{artifact_id}"`. -/
def publishKey (sessionId artifactId : Uuid) : String :=
  s!"{sessionId.str}:publish:{artifactId.str}"

def publishJob (id : Uuid) (now : Timestamp) (artifact : Artifact) : Job :=
  { id, idempotencyKey := publishKey artifact.sessionId artifact.id
    sessionId := some artifact.sessionId, jobType := .publish
    inputPayload := { artifactId := some artifact.id }, createdAt := now }

def requestPublish (id : Uuid) (now : Timestamp) (artifact : Artifact) : DbM Unit := do
  ensure (artifact.status = .approved) (.valueError "Only approved artifacts can be published")
  insertJob (publishJob id now artifact)
  transitionSession artifact.sessionId publishing

/-- The flush of `mark_published`, before the session transition. -/
def markArtifact (now : Timestamp) (artifactId : Uuid) (db : Db) : Db :=
  db.setArtifact artifactId (Artifact.withPublication now)

@[simp] theorem markArtifact_artifacts (now : Timestamp) (artifactId : Uuid) (db : Db) :
    (markArtifact now artifactId db).artifacts =
      db.artifacts.update (fun a => a.id = artifactId) (Artifact.withPublication now) := rfl

def markPublished (now : Timestamp) (artifact : Artifact) : DbM Unit := do
  write (markArtifact now artifact.id)
  transitionSession artifact.sessionId published

end AiBadge
