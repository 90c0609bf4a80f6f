import AiBadge.Artifacts.Router
import AiBadge.Lib.Run
import AiBadge.Orchestrator.Worker

/-! # The whole system

The database, the audio directory, the clock and any number of workers, with one
step for every request transaction and for every commit point of a poll cycle.
Random ids are drawn fresh by the step that uses them.
-/

namespace AiBadge

open Lib Prog

/-- The mutating requests, each with the user its token names and the ids it draws. -/
inductive Request where
  | register (env : AuthEnv) (ids : RegisterIds) (body : RegisterRequest)
  | createSession (user : Uuid) (uuid4 : Uuid) (body : SessionCreateRequest)
  | updateConsent (user : Uuid) (session : PathId) (consent : Bool)
  | updateSessionStatus (user : Uuid) (ids : PipelineIds) (session : PathId) (status : String)
  | uploadAudio (user : Uuid) (uuid4 : Uuid) (session : PathId) (file : UploadFile)
  | cancelSession (user : Uuid) (session : PathId)
  | retractSession (user : Uuid) (ids : SagaIds) (session : PathId)
  | updateArtifact (user : Uuid) (artifact : PathId) (body : ArtifactUpdateRequest)
  | reviewArtifact (user : Uuid) (ids : RetryIds) (artifact : PathId) (body : ReviewRequest)
  | publishArtifact (user : Uuid) (uuid4 : Uuid) (artifact : PathId)

namespace Request

def draws : Request → List Uuid
  | register _ ids _ => [ids.org, ids.user, ids.device, ids.suffix]
  | createSession _ uuid4 _ => [uuid4]
  | updateConsent .. => []
  | updateSessionStatus _ ids _ _ => [ids.transcribe, ids.summarize, ids.extractArtifact]
  | uploadAudio _ uuid4 _ _ => [uuid4]
  | cancelSession .. => []
  | retractSession _ ids _ => [ids.artifactRows, ids.localAudio, ids.feishuDocs]
  | updateArtifact .. => []
  | reviewArtifact _ ids _ _ => [ids.job, ids.suffix]
  | publishArtifact _ uuid4 _ => [uuid4]

/-- The endpoint of a request, behind the authentication it depends on. -/
def run (now : Timestamp) : Request → DbM Unit
  | register env ids body => AiBadge.register env ids body
  | createSession user uuid4 body => do
    let u ← getCurrentUser user
    AiBadge.createSession uuid4 body u.id
  | updateConsent user session consent => do
    let u ← getCurrentUser user
    AiBadge.updateConsent now session consent u.id
  | updateSessionStatus user ids session status => do
    let u ← getCurrentUser user
    AiBadge.updateSessionStatus ids now session status u.id
  | uploadAudio user uuid4 session file => do
    let u ← getCurrentUser user
    AiBadge.uploadAudio uuid4 session file u.id
  | cancelSession user session => do
    let u ← getCurrentUser user
    AiBadge.cancelSession session u.id
  | retractSession user ids session => do
    let u ← getCurrentUser user
    retractSessionEndpoint ids now session u.id
  | updateArtifact user artifact body => do
    let _ ← getCurrentUser user
    AiBadge.updateArtifact artifact body
  | reviewArtifact user ids artifact body => do
    let u ← getCurrentUser user
    AiBadge.reviewArtifact ids now artifact body u.id
  | publishArtifact user uuid4 artifact => do
    let _ ← getCurrentUser user
    AiBadge.publishArtifact uuid4 now artifact

end Request

/-- Where a worker is in its poll cycle. Flushed writes of the cycle's session travel along. -/
inductive Phase where
  | idle
  | polling
  | handling (job : Uuid)
  | failed (job : Uuid) (e : Exn) (pending : List (Db → Db))
  | tail (pending : List (Db → Db))
  | crashed

/-- The job whose heartbeat thread runs in a phase. -/
def Phase.job? : Phase → Option Uuid
  | handling job => some job
  | failed job _ _ => some job
  | _ => none

/-- A worker process; `beat` is the time its live heartbeat thread last went to sleep. -/
structure Worker where
  phase : Phase := .idle
  shutdown : Bool := false
  beat : Option Timestamp := none

abbrev WorkerId := Nat

structure World where
  db : Db
  files : Files
  now : Timestamp
  workers : WorkerId → Worker
  issued : List Uuid

namespace World

/-- The empty database at time `now`, with every worker idle. -/
def init (now : Timestamp) : World where
  db := .empty
  files := []
  now := now
  workers := fun _ => {}
  issued := []

def setWorker (w : World) (k : WorkerId) (worker : Worker) : World :=
  { w with workers := Function.update w.workers k worker }

end World

inductive Action where
  | request (r : Request)
  | tick (d : Nat)
  | beginCycle (k : WorkerId)
  | claim (k : WorkerId) (job : Uuid) (locked : List Uuid)
  | claimNone (k : WorkerId) (locked : List Uuid)
  | runHandler (k : WorkerId) (providers : Providers) (artifactId : Uuid)
  | markFailed (k : WorkerId)
  | heartbeat (k : WorkerId)
  | signal (k : WorkerId)
  | processDeletion (k : WorkerId) (job : Uuid) (locked : List Uuid) (remove : Remove)
  | endCycle (k : WorkerId)
  | crash (k : WorkerId)
  | crashDeleting (k : WorkerId) (job : Uuid) (locked : List Uuid) (remove : Remove)

def Action.draws : Action → List Uuid
  | request r => r.draws
  | runHandler _ _ artifactId => [artifactId]
  | _ => []

namespace World

/-- A request transaction: commit on success, roll back on an exception. -/
def serve (w : World) (r : Request) : World :=
  match r.run w.now (Tx.start w.db w.files) with
  | (.ok _, t) => { w with db := t.commit.committed, files := t.outside }
  | (.error _, t) => { w with db := t.rollback.committed, files := t.outside }

/-- Release, claim and mark in one transaction; the heartbeat thread starts after its commit. -/
def claim (w : World) (k : WorkerId) (job : Uuid) : World :=
  let worker := w.workers k
  { w.setWorker k { worker with
      phase := .handling job, beat := if worker.shutdown then none else some w.now } with
    db := markRunning w.now job (releaseTimedOutJobs w.now w.db) }

/-- The handler call of `_execute_job`, up to the handler's return or exception. -/
def runHandler (w : World) (k : WorkerId) (providers : Providers) (artifactId : Uuid)
    (job : Job) : World :=
  let worker := w.workers k
  match jobHandler job.jobType with
  | none =>
    { w.setWorker k { worker with phase := .tail [], beat := none } with
      db := AiBadge.markUnknown w.now job.id w.db }
  | some handler =>
    match handler ⟨providers, w.now, artifactId⟩ job (Tx.start w.db w.files) with
    | (.ok _, t) =>
      { w.setWorker k { worker with phase := .tail t.pending, beat := none } with
        db := t.committed }
    | (.error e, t) =>
      -- a failed flush expires `job`, so the log line of the `except` branch raises as well
      let phase : Phase := if e.abortsSession then .idle else .failed job.id e t.pending
      { w.setWorker k { worker with phase, beat := if e.abortsSession then none else worker.beat }
        with db := t.committed }

/-- The session of a poll cycle that still carries the flushed writes `pending`. -/
def session (w : World) (pending : List (Db → Db)) : Tx Db Files :=
  { committed := w.db, pending, outside := w.files }

/-- The second half of a poll cycle, on the session that carries `pending`. -/
def deletionTx (w : World) (pending : List (Db → Db)) (d : DeletionJob) (remove : Remove) :
    Tx Db Files :=
  (AiBadge.processDeletion remove d (w.session pending)).2

/-- The deletion job with this id, if the query on the session's view may return it. -/
def deletionCandidate (w : World) (pending : List (Db → Db)) (job : Uuid) (locked : List Uuid) :
    Option DeletionJob :=
  (deletionCandidates locked w.now (w.session pending).view).find? (·.id = job)

/-- The effect of one action, where it is enabled. -/
def act (w : World) : Action → Option World
  | .request r => some (w.serve r)
  | .tick d => some { w with now := w.now + d }
  | .beginCycle k =>
    match (w.workers k).phase, (w.workers k).shutdown with
    | .idle, false => some (w.setWorker k { w.workers k with phase := .polling })
    | _, _ => none
  | .claim k job locked =>
    match (w.workers k).phase with
    | .polling =>
      if (claimCandidates locked w.now (releaseTimedOutJobs w.now w.db)).any (·.id = job) then
        some (w.claim k job)
      else none
    | _ => none
  | .claimNone k locked =>
    match (w.workers k).phase with
    | .polling =>
      if (claimCandidates locked w.now (releaseTimedOutJobs w.now w.db)).isEmpty then
        some (w.setWorker k { w.workers k with phase := .tail [releaseTimedOutJobs w.now] })
      else none
    | _ => none
  | .runHandler k providers artifactId =>
    match (w.workers k).phase with
    | .handling job => (w.db.job? job).map (w.runHandler k providers artifactId)
    | _ => none
  | .markFailed k =>
    match (w.workers k).phase with
    | .failed job e pending =>
      some { w.setWorker k { w.workers k with
          phase := .tail pending, beat := none } with
        db := AiBadge.markFailed w.now e job w.db }
    | _ => none
  | .heartbeat k =>
    match (w.workers k).beat, (w.workers k).phase.job? with
    | some _, some job =>
      some { w.setWorker k { w.workers k with
          beat := if (w.workers k).shutdown then none else some w.now } with
        db := sendHeartbeat w.now job w.db }
    | _, _ => none
  | .signal k => some (w.setWorker k { w.workers k with shutdown := true })
  | .processDeletion k job locked remove =>
    match (w.workers k).phase with
    | .tail pending =>
      (w.deletionCandidate pending job locked).map fun d =>
        let t := w.deletionTx pending d remove
        { w.setWorker k { w.workers k with phase := .idle } with
          db := t.committed, files := t.outside }
    | _ => none
  | .endCycle k =>
    match (w.workers k).phase with
    | .tail _ => some (w.setWorker k { w.workers k with phase := .idle })
    | _ => none
  | .crash k => some (w.setWorker k { w.workers k with phase := .crashed, beat := none })
  | .crashDeleting k job locked remove =>
    match (w.workers k).phase with
    | .tail pending =>
      (w.deletionCandidate pending job locked).map fun d =>
        { w.setWorker k { w.workers k with phase := .crashed, beat := none } with
          files := (w.deletionTx pending d remove).outside }
    | _ => none

/-- The ids an action draws are new and distinct. -/
def Fresh (w : World) (a : Action) : Prop := a.draws.Nodup ∧ ∀ u ∈ a.draws, u ∉ w.issued

instance (w : World) (a : Action) : Decidable (w.Fresh a) := inferInstanceAs (Decidable (_ ∧ _))

/-- One step of the system. -/
def step (w : World) (a : Action) : Option World :=
  if w.Fresh a then (w.act a).map fun w' => { w' with issued := w.issued ++ a.draws } else none

theorem step_eq_some {w w' : World} {a : Action} : w.step a = some w' ↔
    w.Fresh a ∧ ∃ w₁, w.act a = some w₁ ∧ w' = { w₁ with issued := w.issued ++ a.draws } := by
  unfold step
  split
  next h =>
    rw [Option.map_eq_some_iff]
    constructor
    · rintro ⟨w₁, hw, rfl⟩
      exact ⟨h, w₁, hw, rfl⟩
    · rintro ⟨-, w₁, hw, rfl⟩
      exact ⟨w₁, hw, rfl⟩
  next h =>
    constructor
    · intro hn
      cases hn
    · intro hn
      exact absurd hn.1 h

end World

/-- The runs of the system from the empty database. -/
abbrev SystemRun (now : Timestamp) (tr : List (Transition World Action)) (w : World) : Prop :=
  Run World.step (World.init now) tr w

/-! ## Inputs for replays -/

namespace Replay

def uuid (n : Nat) : Uuid := ⟨BitVec.ofNat 128 n⟩

def env : AuthEnv := ⟨id, fun c => c = ' ', .ok⟩

def summary : Json :=
  .obj [("summary", .str "s"), ("artifact_type", .str "faq_draft"), ("title", .str "t")]

def providers : Providers := ⟨fun _ => .ok ⟨"hello", some [], "en"⟩, fun _ => .ok (some summary)⟩

/-- Owner 2 registers. -/
def owner : Action := .request (.register env ⟨uuid 1, uuid 2, uuid 3, uuid 4⟩ ⟨"a@b", "pw", "A", "O"⟩)

/-- A status patch of session 5, with the ids from `n` on for its jobs. -/
def patch (target : SessionStatus) (n : Nat) : Action :=
  .request (.updateSessionStatus (uuid 2) ⟨uuid n, uuid (n + 1), uuid (n + 2)⟩ (some (uuid 5))
    target.value)

/-- Session 5 with consent, its audio 6, and the pipeline jobs 20, 21 and 22. -/
def recorded : List Action :=
  [owner, .request (.createSession (uuid 2) (uuid 5) ⟨none, none⟩),
    .request (.updateConsent (uuid 2) (some (uuid 5)) true), patch .capturing 10,
    .request (.uploadAudio (uuid 2) (uuid 6) (some (uuid 5)) ⟨some "x.wav", none, 10⟩),
    patch .processing 20]

/-- One poll cycle of worker 0 that runs job `n` and may create artifact `m`. -/
def cycle (n m : Nat) : List Action :=
  [.beginCycle 0, .claim 0 (uuid n) [], .runHandler 0 providers (uuid m), .endCycle 0]

/-- One poll cycle of worker 0 in which job `n` fails while both providers are down. -/
def failingCycle (n m : Nat) : List Action :=
  [.beginCycle 0, .claim 0 (uuid n) [],
    .runHandler 0 ⟨fun _ => .error "down", fun _ => .error "down"⟩ (uuid m), .markFailed 0,
    .endCycle 0]

/-- All three stages, which leave artifact 32. -/
def pipeline : List Action := recorded ++ cycle 20 30 ++ cycle 21 31 ++ cycle 22 32

def review (action : ReviewAction) (artifact n : Nat) : Action :=
  .request (.reviewArtifact (uuid 2) ⟨uuid n, uuid (n + 1)⟩ (some (uuid artifact)) ⟨action, ""⟩)

def publish (artifact n : Nat) : Action :=
  .request (.publishArtifact (uuid 2) (uuid n) (some (uuid artifact)))

def edit (artifact : Nat) (body : ArtifactUpdateRequest) : Action :=
  .request (.updateArtifact (uuid 2) (some (uuid artifact)) body)

/-- The retraction of session 5, with the deletion jobs `n`, `n + 1` and `n + 2`. -/
def retract (n : Nat) : Action :=
  .request (.retractSession (uuid 2) ⟨uuid n, uuid (n + 1), uuid (n + 2)⟩ (some (uuid 5)))

/-- One poll cycle of worker 0 that finds no job and processes the deletion job `n`. -/
def erase (n : Nat) : List Action :=
  [.beginCycle 0, .claimNone 0 [], .processDeletion 0 (uuid n) [] fun _ => .ok ()]

/-- Session 5 with the published artifact 32. -/
def published : List Action :=
  pipeline ++ [review .approve 32 40, publish 32 50] ++ cycle 50 60

/-- The first artifact is rejected, and the artifact 42 of the retry is approved with it. -/
def twoApproved : List Action :=
  pipeline ++ [review .reject 32 40] ++ cycle 40 42 ++ [review .approve 32 43, review .approve 42 45]

/-- A replay refutes what would hold of every run. -/
theorem refute {Q : List (Transition World Action) → World → Prop} [∀ tr w, Decidable (Q tr w)]
    (acts : List Action)
    (h : (execute World.step (World.init 0) acts).any (fun p => !decide (Q p.1 p.2)) = true) :
    ¬ ∀ now tr w, SystemRun now tr w → Q tr w := by
  intro hall
  obtain ⟨tr, w, hr, hn⟩ := exists_run (fun tr w => !decide (Q tr w)) h
  exact of_decide_eq_false ((Bool.not_eq_true' _).mp hn) (hall 0 tr w hr)

end Replay

end AiBadge
