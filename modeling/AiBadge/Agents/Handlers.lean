import AiBadge.Artifacts.Service

/-! # Job handlers

The four handlers of the job queue. Each works in the worker's session and ends
with its commit. The transcriber and the language model answer from outside.
-/

namespace AiBadge

open Lib Prog DbM

/-- The answer of a transcriber, with its segments as a JSON column holds them, if it does. -/
structure TranscriptResult where
  transcript : String
  segments : Option (List Json)
  language : String

/-- The dictionary that `handle_transcribe_job` stores, if its column takes it. -/
def TranscriptResult.toJson (r : TranscriptResult) : Option Json :=
  if fitsText r.transcript && fitsText r.language then
    r.segments.map fun segments => .obj [("transcript", .str r.transcript), ("segments", .arr segments),
      ("language", .str r.language)]
  else none

/-- The two prompts, by the values formatted into them; each comes with its output schema. -/
inductive Prompt where
  | summarize (transcript : Json)
  | extractArtifact (transcript : Json) (artifactType : ArtifactType) (title : Json)

/-- The two services. A value that the model answers with is given as a JSON column holds it, or as
`none` if no such column takes it. -/
structure Providers where
  transcribe : AudioKey → Except String TranscriptResult
  complete : Prompt → Except String (Option Json)

/-- What one handler call takes from outside the database. -/
structure HandlerInput where
  providers : Providers
  now : Timestamp
  artifactId : Uuid

/-- `payload.get(key, default)`, which only a dictionary has. -/
def pyGet (payload : Json) (key : String) (default : Json) : DbM Json := do
  ensure payload.isObj (.attributeError s!"'{payload.pyType}' object has no attribute 'get'")
  return (payload.get? key).getD default

/-- The payload of a row, with a stored JSON `null` read back as `None`. -/
def Job.payload? (j : Job) : Option Json :=
  match j.outputPayload with
  | some .null => none
  | p => p

/-- The completed jobs of one type in a session. -/
def completedJobs (db : Db) (sessionId : Option Uuid) (jobType : JobType) : List Job :=
  db.jobs.select fun j => j.sessionId = sessionId && j.jobType = jobType && j.status = .completed

def getTranscript (job : Job) : DbM Json := do
  let transcribeJob ← scalarOneOrNone (← read fun db => completedJobs db job.sessionId .transcribe)
  let payload ← require (transcribeJob.bind Job.payload?)
    (.valueError "No completed transcribe job found for this session")
  pyGet payload "transcript" (.str "")

/-- What the extraction falls back to without a completed summary. -/
def defaultSummary : Json :=
  .obj [("artifact_type", .str "meeting_minutes"), ("title", .str "Untitled"), ("summary", .str "")]

def getSummarizeResult (sessionId : Option Uuid) : DbM Json := do
  let summarizeJob ← scalarOneOrNone (← read fun db => completedJobs db sessionId .summarize)
  return (summarizeJob.bind Job.payload?).getD defaultSummary

def handleTranscribeJob (input : HandlerInput) (job : Job) : DbM Unit := do
  let sessionId ← require job.sessionId (.valueError "transcribe job has no session_id")
  let session ← require (← read fun db => db.session? sessionId)
    (.valueError s!"Session {sessionId.str} not found")
  let audioKey ← require session.audioKey (.valueError s!"Session {sessionId.str} has no audio_key")
  let result ← answer ((input.providers.transcribe audioKey).mapError .provider)
  let payload ← jsonColumn "jobs.output_payload" result.toJson
  write fun db => db.setJob job.id (Job.withOutput payload)
  commit

def handleSummarizeJob (input : HandlerInput) (job : Job) : DbM Unit := do
  let transcript ← getTranscript job
  let llmResult ← answer ((input.providers.complete (.summarize transcript)).mapError .provider)
  let payload ← jsonColumn "jobs.output_payload" llmResult
  write fun db => db.setJob job.id (Job.withOutput payload)
  commit
  -- the closing log line calls `llm_result.get`
  ensure payload.isObj (.attributeError s!"'{payload.pyType}' object has no attribute 'get'")

/-- `ARTIFACT_SCHEMAS.get(artifact_type)`, where unhashable values raise. -/
def schemaClass (artifactType : Json) : DbM ArtifactType :=
  match artifactType with
  | .str s => require (ArtifactType.schema? s) (.valueError s!"Unknown artifact_type: {s}")
  | .arr _ => throw (.typeError "unhashable type: 'list'")
  | .obj _ => throw (.typeError "unhashable type: 'dict'")
  | x => throw (.valueError s!"Unknown artifact_type: {x.pyStr}")

/-- A value bound to a nullable text column. -/
def textValue (column : String) : Json → DbM (Option String)
  | .str s => pure (some s)
  | .null => pure none
  | _ => throw (.dataError column)

def handleExtractArtifactJob (input : HandlerInput) (job : Job) : DbM Unit := do
  let transcript ← getTranscript job
  let summarizePayload ← getSummarizeResult job.sessionId
  let artifactType ← pyGet summarizePayload "artifact_type" (.str "meeting_minutes")
  let title ← pyGet summarizePayload "title" (.str "Untitled")
  let schema ← schemaClass artifactType
  let llmResult ← answer ((input.providers.complete
    (.extractArtifact transcript schema title)).mapError .provider)
  let summary ← pyGet summarizePayload "summary" (.str "")
  let titleText ← textValue "artifacts.title" title
  let content ← jsonColumn "artifacts.content" llmResult
  let summaryText ← textValue "artifacts.summary" summary
  let sessionId ← require job.sessionId (.integrityError "artifacts.session_id")
  insertArtifact
    { id := input.artifactId, sessionId, jobId := some job.id, artifactType := schema
      title := titleText, content, summary := summaryText, status := .pendingReview }
  write fun db => db.setSession sessionId (Session.withStatus .needsReview)
  write fun db => db.setJob job.id
    (Job.withOutput (.obj [("artifact_type", artifactType), ("title", title)]))
  commit

def feishuDocId (artifactId : Uuid) : String := s!"feishu-doc-{take artifactId.str 8}"

def handlePublishJob (input : HandlerInput) (job : Job) : DbM Unit := do
  let artifactId ← require job.inputPayload.artifactId
    (.valueError "publish job missing artifact_id in input_payload")
  forSome (← read fun db => db.artifact? artifactId) (markPublished input.now)
  write fun db => db.setJob job.id
    (Job.withOutput (.obj [("feishu_doc_id", .str (feishuDocId artifactId))]))
  commit

/-- The entries of `JOB_HANDLERS` for the job queue. -/
def jobHandler : JobType → Option (HandlerInput → Job → DbM Unit)
  | .transcribe => some handleTranscribeJob
  | .summarize => some handleSummarizeJob
  | .extractArtifact => some handleExtractArtifactJob
  | .publish => some handlePublishJob
  | .other _ => none

end AiBadge
