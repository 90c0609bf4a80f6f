import AiBadge.Model.Database

/-! # Session service

The session state machine, and the retraction saga that soft-deletes a session
and queues its three deletion jobs.
-/

namespace AiBadge

open Lib Prog DbM

namespace SessionStatus

/-- The table `TRANSITIONS`. -/
def transitions : SessionStatus → List SessionStatus
  | idle => [capturing, cancelled]
  | capturing => [paused, processing, cancelled]
  | paused => [capturing, cancelled]
  | processing => [needsReview, processingFailed]
  | processingFailed => [processing]
  | needsReview => [reviewing]
  | reviewing => [approved]
  | approved => [publishing]
  | publishing => [published, publishFailed]
  | publishFailed => [publishing]
  | published => [retracting]
  | retracting => [retracted]
  | retracted => []
  | cancelled => []

def terminalStates : List SessionStatus := [cancelled, retracted]

/-- An edge of `TRANSITIONS`. -/
def Edge (a b : SessionStatus) : Prop := b ∈ a.transitions

instance (a b : SessionStatus) : Decidable (Edge a b) := inferInstanceAs (Decidable (_ ∈ _))

end SessionStatus

open SessionStatus

/-- Whether a status change is allowed, with the reason when it is not. -/
def canTransition (current target : SessionStatus) (consentGranted : Bool := false) :
    Bool × String :=
  if current = target then
    if current ∈ terminalStates then
      (false, s!"Session already in terminal state {current.value}")
    else (true, "")
  else if target = capturing ∧ consentGranted = false then (false, "Consent not granted")
  else if target ∈ current.transitions then (true, "")
  else (false, s!"Cannot transition from {current.value} to {target.value}")

theorem edge_of_canTransition {a b : SessionStatus} {c : Bool}
    (h : (canTransition a b c).1 = true) : a = b ∨ Edge a b := by
  unfold canTransition at h
  split at h
  · exact .inl ‹_›
  · split at h
    · cases h
    · split at h
      · exact .inr ‹_›
      · cases h

/-- The ids drawn for the three deletion jobs of a saga. -/
structure SagaIds where
  artifactRows : Uuid
  localAudio : Uuid
  feishuDocs : Uuid

def sagaJob (id : Uuid) (now : Timestamp) (sessionId : Uuid) (resourceType : DeletionType)
    (targets : CascadeTargets) : DeletionJob :=
  { id, resourceType, resourceId := sessionId, sessionId := some sessionId
    cascadeTargets := some targets, createdAt := now }

def retractSession (ids : SagaIds) (now : Timestamp) (sessionId userId : Uuid) (reason : String) :
    DbM Unit := do
  let session ← require (← read fun db => db.sessions.find? fun s =>
    s.id = sessionId && s.userId = userId) (.valueError s!"Session {sessionId.str} not found")
  let verdict := canTransition session.status retracting
  ensure verdict.1 (.valueError verdict.2)
  write fun db => db.setSession sessionId (Session.withTombstone now userId reason)
  insertDeletionJob (sagaJob ids.artifactRows now sessionId .deleteArtifactRows
    { description := some "Hard-delete all artifacts" })
  insertDeletionJob (sagaJob ids.localAudio now sessionId .deleteLocalAudio
    { audioKey := session.audioKey })
  insertDeletionJob (sagaJob ids.feishuDocs now sessionId .deleteFeishuDocs
    { description := some "Feishu stub" })

end AiBadge
