import AiBadge.Model.Database

/-! # Orchestrator service

Creation of the three pipeline jobs of a session, in one transaction, so that they
share their priority and their creation time; and the transition of a job, which
creates the next stage when it is missing.
-/

namespace AiBadge

open Lib Prog DbM

/-- The ids drawn for the three pipeline jobs. -/
structure PipelineIds where
  transcribe : Uuid
  summarize : Uuid
  extractArtifact : Uuid

/-- The key `f"{session_id}:{job_type}"` of a pipeline stage. -/
def stageKey (sessionId : Uuid) (jobType : JobType) : String := s!"{sessionId.str}:{jobType.value}"

/-- A pending stage of the pipeline, as its constructor call builds it. -/
def stageJob (id : Uuid) (now : Timestamp) (sessionId : Uuid) (jobType : JobType) : Job :=
  { id, idempotencyKey := stageKey sessionId jobType, sessionId := some sessionId, jobType
    createdAt := now }

def addJobCreated (id : Uuid) : DbM Unit :=
  write fun db => db.addEvent { jobId := some id, eventType := .jobCreated }

def createJobsForSession (ids : PipelineIds) (now : Timestamp) (sessionId : Uuid) : DbM Unit := do
  insertJob (stageJob ids.transcribe now sessionId .transcribe)
  insertJob (stageJob ids.summarize now sessionId .summarize)
  insertJob (stageJob ids.extractArtifact now sessionId .extractArtifact)
  addJobCreated ids.transcribe
  addJobCreated ids.summarize
  addJobCreated ids.extractArtifact

/-- The table `PIPELINE_NEXT`; a type without an entry has no next stage either. -/
def pipelineNext : JobType → Option JobType
  | .transcribe => some .summarize
  | .summarize => some .extractArtifact
  | _ => none

/-- The key `f"{session_id}:{job_type}"` for a `session_id` that may be `None`. -/
def nextKey (sessionId : Option Uuid) (jobType : JobType) : String :=
  match sessionId with
  | some sid => stageKey sid jobType
  | none => s!"None:{jobType.value}"

def nextJob (id : Uuid) (now : Timestamp) (sessionId : Option Uuid) (jobType : JobType) : Job :=
  { id, idempotencyKey := nextKey sessionId jobType, sessionId, jobType, createdAt := now }

def ensureNextJob (id : Uuid) (now : Timestamp) (sessionId : Option Uuid) (nextJobType : JobType) :
    DbM Unit := do
  let existing ← scalarOneOrNone (← read fun db => db.jobs.select fun j =>
    j.idempotencyKey = nextKey sessionId nextJobType)
  when existing.isNone do
    insertJob (nextJob id now sessionId nextJobType)
    addJobCreated id

/-- The columns that `transition_job` sets. -/
def Job.withTransition (now : Timestamp) (newStatus : JobStatus) (outputPayload : Option Json)
    (errorMessage : Option String) (j : Job) : Job :=
  match newStatus with
  | .pending => { j with status := .pending }
  | .running => { j with status := .running, startedAt := some now }
  | .completed =>
    { j with
      status := .completed, completedAt := some now
      outputPayload := outputPayload <|> j.outputPayload }
  | .failed =>
    if j.retryCount < j.maxRetries then
      { j with
        status := .failed, errorMessage := errorMessage <|> j.errorMessage
        nextRunAt := some now, retryCount := j.retryCount + 1 }
    else
      { j with
        status := .failed, errorMessage := errorMessage <|> j.errorMessage, nextRunAt := none }

@[simp] theorem Job.withTransition_id (now : Timestamp) (newStatus : JobStatus)
    (outputPayload : Option Json) (errorMessage : Option String) (j : Job) :
    (j.withTransition now newStatus outputPayload errorMessage).id = j.id := by
  unfold withTransition
  split
  · rfl
  · rfl
  · rfl
  · split <;> rfl

@[simp] theorem Job.withTransition_status (now : Timestamp) (newStatus : JobStatus)
    (outputPayload : Option Json) (errorMessage : Option String) (j : Job) :
    (j.withTransition now newStatus outputPayload errorMessage).status = newStatus := by
  cases newStatus with
  | failed =>
    simp only [withTransition]
    split <;> rfl
  | _ => rfl

@[simp] theorem Job.withTransition_maxRetries (now : Timestamp) (newStatus : JobStatus)
    (outputPayload : Option Json) (errorMessage : Option String) (j : Job) :
    (j.withTransition now newStatus outputPayload errorMessage).maxRetries = j.maxRetries := by
  cases newStatus with
  | failed =>
    simp only [withTransition]
    split <;> rfl
  | _ => rfl

theorem Job.withTransition_retryCount (now : Timestamp) (newStatus : JobStatus)
    (outputPayload : Option Json) (errorMessage : Option String) (j : Job) :
    (j.withTransition now newStatus outputPayload errorMessage).retryCount =
      if newStatus = .failed ∧ j.retryCount < j.maxRetries then j.retryCount + 1
      else j.retryCount := by
  cases newStatus with
  | failed =>
    simp only [withTransition, true_and]
    split <;> rfl
  | _ => rfl

theorem Job.withTransition_nextRunAt (now : Timestamp) (newStatus : JobStatus)
    (outputPayload : Option Json) (errorMessage : Option String) (j : Job) :
    (j.withTransition now newStatus outputPayload errorMessage).nextRunAt =
      if newStatus = .failed then if j.retryCount < j.maxRetries then some now else none
      else j.nextRunAt := by
  cases newStatus with
  | failed =>
    simp only [withTransition]
    split <;> rfl
  | _ => rfl

/-- `transition_job`, where `id` is drawn for the next stage. -/
def transitionJob (id : Uuid) (now : Timestamp) (job : Job) (newStatus : JobStatus)
    (outputPayload : Option Json) (errorMessage : Option String) : DbM Unit := do
  write fun db => db.setJob job.id (Job.withTransition now newStatus outputPayload errorMessage)
  write fun db => db.addEvent { jobId := some job.id, eventType := .jobStatus job.status newStatus }
  when (newStatus = .completed) do
    forSome (pipelineNext job.jobType) (ensureNextJob id now job.sessionId)

/-- `retry_job`, which the review of an artifact does not use. -/
def Orchestrator.retryJob (id : Uuid) (now : Timestamp) (job : Job) : DbM Unit :=
  transitionJob id now job .pending none none

end AiBadge
