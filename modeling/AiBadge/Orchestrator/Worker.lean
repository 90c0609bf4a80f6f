import AiBadge.Agents.Deletion
import AiBadge.Agents.Handlers

/-! # The worker

Claiming, timeout release, failure marking and the deletion queue of one poll
cycle. A query with `LIMIT 1` may return any of the rows that tie for the first
place, and skips the rows that other transactions have locked.
-/

namespace AiBadge

open Lib Prog DbM

def pollInterval : Timestamp := seconds 1

def heartbeatInterval : Timestamp := seconds 30

def jobTimeout : Timestamp := seconds 120

/-- The filter of `_release_timed_out_jobs`. -/
def timedOut (now : Timestamp) (j : Job) : Bool :=
  j.status = .running && j.startedAt.any (· < now - jobTimeout)

@[simps] def releaseTimedOutJobs (now : Timestamp) (db : Db) : Db :=
  { db with jobs := db.jobs.update (timedOut now) Job.withRelease }

/-- The filter of `_claim_job`. -/
def claimable (now : Timestamp) (j : Job) : Bool :=
  j.status = .pending && j.nextRunAt.all (· ≤ now)

/-- `ORDER BY priority DESC, created_at ASC`: `a` may stand before `b`. -/
def ordersBefore (a b : Job) : Bool :=
  b.priority < a.priority || (a.priority = b.priority && a.createdAt ≤ b.createdAt)

/-- The rows `_claim_job` may return when the rows in `locked` are skipped. -/
def claimCandidates (locked : List Uuid) (now : Timestamp) (db : Db) : List Job :=
  let rows := db.jobs.select fun j => claimable now j && j.id ∉ locked
  rows.filter fun j => rows.all (ordersBefore j)

def markRunning (now : Timestamp) (id : Uuid) (db : Db) : Db :=
  db.setJob id (Job.withStart now)

/-- The failure marking of one row, which another status than `running` suppresses. -/
def recordFailure (now : Timestamp) (e : Exn) (j : Job) : Job :=
  if j.status = .running then
    if j.retryCount < j.maxRetries then
      { j with
        status := .failed, errorMessage := some e.str, nextRunAt := some now
        retryCount := j.retryCount + 1 }
    else { j with status := .failed, errorMessage := some e.str }
  else j

@[simp] theorem recordFailure_id (now : Timestamp) (e : Exn) (j : Job) :
    (recordFailure now e j).id = j.id := by
  unfold recordFailure
  split
  · split <;> rfl
  · rfl

def markFailed (now : Timestamp) (e : Exn) (id : Uuid) (db : Db) : Db :=
  db.setJob id (recordFailure now e)

/-- What `_execute_job` records for a job type without a handler. -/
@[simps] def Job.withUnknownType (now : Timestamp) (j : Job) : Job :=
  { j with
    status := .failed, completedAt := some now
    errorMessage := some s!"Unknown job_type: {j.jobType.value}" }

def markUnknown (now : Timestamp) (id : Uuid) (db : Db) : Db :=
  db.setJob id (Job.withUnknownType now)

/-- The update of one heartbeat. -/
@[simps] def sendHeartbeat (now : Timestamp) (id : Uuid) (db : Db) : Db :=
  { db with
    jobs := db.jobs.update (fun j => j.id = id && j.status = .running) (Job.withHeartbeat now) }

/-- The rows the deletion query may return when the rows in `locked` are skipped. -/
def deletionCandidates (locked : List Uuid) (now : Timestamp) (db : Db) : List DeletionJob :=
  let rows := db.deletionJobs.select fun d =>
    d.status = .pending && d.nextRunAt.all (· ≤ now) && d.id ∉ locked
  rows.filter fun d => rows.all fun r => d.createdAt ≤ r.createdAt

def failDeletion (id : Uuid) (message : String) : DbM Unit := do
  write fun db => db.setDeletionJob id (DeletionJob.withFailure message)
  commit

/-- `_process_deletion` for the row the query returned. -/
def processDeletion (remove : Remove) (d : DeletionJob) : DbM Unit := do
  write fun db => db.setDeletionJob d.id (DeletionJob.withStatus .running)
  match deletionHandler remove d.resourceType with
  | some handler => tryCatchThe Exn (handler d) fun e => failDeletion d.id e.str
  | none =>
    failDeletion d.id s!"Unknown deletion_job resource_type: {d.resourceType.value}"

/-- The row a query with `LIMIT 1` returns out of those that tie for the first place. -/
def limitOne {α : Type} (tie : Nat) (rows : List α) : Option α := rows[tie % rows.length]?

/-- What one poll cycle takes from outside its session. -/
structure Cycle where
  claimedAt : Timestamp
  locked : List Uuid
  tie : Nat
  beats : List Timestamp
  input : HandlerInput
  failedAt : Timestamp
  polledAt : Timestamp
  deletionLocked : List Uuid
  deletionTie : Nat
  remove : Remove

/-- The updates of the heartbeat thread while the handler runs. -/
def sendHeartbeats (beats : List Timestamp) (id : Uuid) (db : Db) : Db :=
  beats.foldl (fun db now => sendHeartbeat now id db) db

/-- The `try` block of `_execute_job` and its `except` branch. -/
def dispatch (c : Cycle) (job : Job) : DbM Unit :=
  match jobHandler job.jobType with
  | none => elsewhere (markUnknown c.input.now job.id)
  | some handler => tryCatchThe Exn (handler c.input job) fun e => do
    -- a failed flush expires `job`, so the log line of the `except` branch raises as well
    ensure (!e.abortsSession) e
    elsewhere (markFailed c.failedAt e job.id)

def executeJob (c : Cycle) (job : Job) : DbM Unit := do
  write (markRunning c.claimedAt job.id)
  commit
  -- no handler reads `started_at`, so its reads see the beats in any order
  elsewhere (sendHeartbeats c.beats job.id)
  dispatch c (job.withStart c.claimedAt)

/-- `_process_one`, without its answer. -/
def processOne (c : Cycle) : DbM Unit := do
  write (releaseTimedOutJobs c.claimedAt)
  let job ← read fun db => limitOne c.tie (claimCandidates c.locked c.claimedAt db)
  forSome job (executeJob c)

/-- `_process_deletion` with its query, without its answer. -/
def processNextDeletion (c : Cycle) : DbM Unit := do
  let deletionJob ← read fun db =>
    limitOne c.deletionTie (deletionCandidates c.deletionLocked c.polledAt db)
  forSome deletionJob (processDeletion c.remove)

/-- One round of `worker_loop`; what it leaves flushed is rolled back with its session. -/
def pollCycle (c : Cycle) : DbM Unit := do
  processOne c
  processNextDeletion c

end AiBadge
