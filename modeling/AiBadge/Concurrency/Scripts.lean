import AiBadge.Lib.Agreement
import AiBadge.Lib.ReadCommitted
import AiBadge.System.RequestEffect

/-! # Requests, cut at their statements

The endpoints of a session and the approval of an artifact as scripts. A row is read
once and kept by the session that loaded it; a flush updates the columns that differ
from the loaded ones. Run without interruption, a script does what its endpoint does.
-/

namespace AiBadge

open Lib Prog SessionStatus

/-- What a statement can lock: a row, or a unique value that it inserts. -/
inductive Lock where
  | session (id : Uuid)
  | artifact (id : Uuid)
  | jobId (id : Uuid)
  | jobKey (key : String)
  | deletionJob (id : Uuid)
  deriving DecidableEq

abbrev DbScript := Script Db Lock Exn

deriving instance DecidableEq for Session

/-- One column of an `UPDATE`, which sets a value only if it is not the loaded one. -/
def changed {α : Type} [DecidableEq α] (loaded new current : α) : α :=
  if new = loaded then current else new

@[simp] theorem changed_self {α : Type} [DecidableEq α] {a b : α} : changed a b a = b := by
  unfold changed
  split
  next h => exact h.symm
  next => rfl

@[simp] theorem changed_same {α : Type} [DecidableEq α] {a b : α} : changed a a b = b := if_pos rfl

/-- The `UPDATE` of a loaded row. -/
@[simps] def Session.save (loaded new current : Session) : Session :=
  { current with
    status := changed loaded.status new.status current.status
    consentGranted := changed loaded.consentGranted new.consentGranted current.consentGranted
    deletedAt := changed loaded.deletedAt new.deletedAt current.deletedAt
    retractedBy := changed loaded.retractedBy new.retractedBy current.retractedBy
    retractionReason :=
      changed loaded.retractionReason new.retractionReason current.retractionReason }

/-- The `UPDATE` of the review columns of a loaded row. -/
@[simps] def Artifact.save (loaded new current : Artifact) : Artifact :=
  { current with
    status := changed loaded.status new.status current.status
    reviewStatus := changed loaded.reviewStatus new.reviewStatus current.reviewStatus
    reviewComment := changed loaded.reviewComment new.reviewComment current.reviewComment }

namespace DbScript

def currentUser (subject : Uuid) (next : User → DbScript) : DbScript :=
  .fetch (fun db => db.users.find? fun u => u.id = subject) (.http 401 "User not found") next

def sessionOr404 (sessionId : PathId) (userId : Uuid) (next : Session → DbScript) : DbScript :=
  .require sessionId (.http 404 "Session not found") fun sid =>
    .fetch (fun db => db.sessions.find? fun s => s.id = sid && s.userId = userId)
      (.http 404 "Session not found") next

def artifactOr404 (artifactId : PathId) (next : Artifact → DbScript) : DbScript :=
  .require artifactId (.http 404 "Artifact not found") fun aid =>
    .fetch (fun db => db.artifacts.find? fun a => a.id = aid) (.http 404 "Artifact not found") next

/-- The flush of a session; nothing is sent when no column differs. -/
def saveSession (loaded new : Session) (next : DbScript) : DbScript :=
  .update (if new = loaded then [] else [.session loaded.id])
    (fun db => db.setSession loaded.id (Session.save loaded new)) next

def insertJob (j : Job) (next : DbScript) : DbScript :=
  .insert [.jobId j.id, .jobKey j.idempotencyKey]
    (fun db => !db.jobs.any fun r => r.id = j.id || r.idempotencyKey = j.idempotencyKey)
    (.integrityError "jobs_idempotency_key_key") (fun db => db.addJob j) next

def insertDeletionJob (d : DeletionJob) (next : DbScript) : DbScript :=
  .insert [.deletionJob d.id] (fun db => !db.deletionJobs.any fun r => r.id = d.id)
    (.integrityError "deletion_jobs_pkey") (fun db => db.addDeletionJob d) next

def addAudit (l : AuditLog) (next : DbScript) : DbScript := .update [] (fun db => db.addAudit l) next

def addEvent (e : WorkflowEvent) (next : DbScript) : DbScript :=
  .update [] (fun db => db.addEvent e) next

def createJobsForSession (ids : PipelineIds) (now : Timestamp) (sessionId : Uuid)
    (next : DbScript) : DbScript :=
  insertJob (stageJob ids.transcribe now sessionId .transcribe) <|
  insertJob (stageJob ids.summarize now sessionId .summarize) <|
  insertJob (stageJob ids.extractArtifact now sessionId .extractArtifact) <|
  addEvent { jobId := some ids.transcribe, eventType := .jobCreated } <|
  addEvent { jobId := some ids.summarize, eventType := .jobCreated } <|
  addEvent { jobId := some ids.extractArtifact, eventType := .jobCreated } next

/-- `update_consent` on the loaded row. -/
def consentPlan (now : Timestamp) (consent : Bool) (user : Uuid) (session : Session) : DbScript :=
  .ensure (session.status ∉ consentClosed) (.http 409 <|
    if consent then s!"Cannot grant consent in status {session.status.value}"
    else "Cannot revoke consent from terminal state") <|
  saveSession session (session.withConsent consent) <|
  addAudit (sessionAudit now (if consent then .consentGranted else .consentRevoked) session.id user)
    .done

/-- `update_session_status` on the loaded row. -/
def statusPlan (ids : PipelineIds) (now : Timestamp) (status : String) (session : Session) :
    DbScript :=
  .require (parse? status) (.http 400 s!"Invalid status: {status}") fun target =>
  let verdict := canTransition session.status target session.consentGranted
  .ensure verdict.1
    (if target = capturing ∧ session.consentGranted = false then .http 403 verdict.2
    else .http 409 verdict.2) <|
  saveSession session (session.withStatus target) <|
  .when (target = processing) (fun next =>
    .ensure session.audioKey.isSome
      (.http 400 "Audio must be uploaded before starting processing") <|
    createJobsForSession ids now session.id next) .done

/-- `cancel_session` on the loaded row. -/
def cancelPlan (session : Session) : DbScript :=
  let verdict := canTransition session.status cancelled
  .ensure verdict.1 (.http 409 verdict.2) <|
  saveSession session (session.withStatus cancelled) .done

/-- `retract_session`; its own query finds the row that the endpoint has loaded. -/
def retractPlan (ids : SagaIds) (now : Timestamp) (user : Uuid) (loaded : Session) : DbScript :=
  let result := redlinePublishedBeforeRetract loaded
  .ensure result.passed (.policyViolation result.reason result.level) <|
  .fetch (fun db => (db.sessions.find? fun s => s.id = loaded.id && s.userId = user).map fun _ => loaded)
    (.valueError s!"Session {loaded.id.str} not found") fun session =>
  let verdict := canTransition session.status retracting
  .ensure verdict.1 (.valueError verdict.2) <|
  saveSession session (session.withTombstone now user "") <|
  insertDeletionJob (sagaJob ids.artifactRows now session.id .deleteArtifactRows
    { description := some "Hard-delete all artifacts" }) <|
  insertDeletionJob (sagaJob ids.localAudio now session.id .deleteLocalAudio
    { audioKey := session.audioKey }) <|
  insertDeletionJob (sagaJob ids.feishuDocs now session.id .deleteFeishuDocs
    { description := some "Feishu stub" }) <|
  addAudit (sessionAudit now .retractInitiated session.id user) .done

end DbScript

/-- The requests on a session whose concurrency is in question. -/
inductive SessionCall where
  | consent (grant : Bool)
  | status (ids : PipelineIds) (text : String)
  | cancel
  | retract (ids : SagaIds)

/-- A request on a session, at the time it is served. -/
structure SessionRequest where
  user : Uuid
  now : Timestamp
  session : PathId
  call : SessionCall

namespace SessionRequest

def request (r : SessionRequest) : Request :=
  match r.call with
  | .consent grant => .updateConsent r.user r.session grant
  | .status ids text => .updateSessionStatus r.user ids r.session text
  | .cancel => .cancelSession r.user r.session
  | .retract ids => .retractSession r.user ids r.session

/-- The database after the request, served alone. -/
def serve (r : SessionRequest) (db : Db) : Db := (r.request.run r.now).serve db ([] : Files)

/-- What the request does with the row it has loaded. -/
def plan (r : SessionRequest) (loaded : Session) : DbScript :=
  match r.call with
  | .consent grant => DbScript.consentPlan r.now grant r.user loaded
  | .status ids text => DbScript.statusPlan ids r.now text loaded
  | .cancel => DbScript.cancelPlan loaded
  | .retract ids => DbScript.retractPlan ids r.now r.user loaded

def script (r : SessionRequest) : DbScript :=
  DbScript.currentUser r.user fun _ => DbScript.sessionOr404 r.session r.user r.plan

end SessionRequest

open DbScript

/-- Two sessions with the same store and the same view. -/
def SameView (t u : Tx Db Files) : Prop := t.view = u.view ∧ t.committed = u.committed

/-- Two such sessions that see the row `s`. -/
def SameRow (s : Session) (t u : Tx Db Files) : Prop := SameView t u ∧ s ∈ t.view.sessions

section Pieces

variable {R : Tx Db Files → Tx Db Files → Prop} {s : Session}

theorem run_currentUser {subject : Uuid} {next : User → DbScript} :
    (currentUser subject next).run (φ := Files) =
      getCurrentUser subject >>= fun u => (next u).run := run_fetch

theorem run_sessionOr404 {sessionId : PathId} {userId : Uuid} {next : Session → DbScript} :
    (sessionOr404 sessionId userId next).run (φ := Files) =
      getSessionOr404 sessionId userId >>= fun s => (next s).run := by
  cases sessionId with
  | none => rfl
  | some sid => exact run_fetch

theorem run_insertJob {j : Job} {next : DbScript} :
    (DbScript.insertJob j next).run (φ := Files) = DbM.insertJob j >>= fun _ => next.run := by
  rw [DbScript.insertJob, run_insert]
  funext t
  simp only [Bind.bind, Prog.read, DbM.insertJob]

theorem run_insertDeletionJob {d : DeletionJob} {next : DbScript} :
    (DbScript.insertDeletionJob d next).run (φ := Files) =
      DbM.insertDeletionJob d >>= fun _ => next.run := by
  rw [DbScript.insertDeletionJob, run_insert]
  funext t
  simp only [Bind.bind, Prog.read, DbM.insertDeletionJob]

theorem SameView.flush {t u : Tx Db Files} {w v : Db → Db} (h : SameView t u)
    (hw : w t.view = v t.view) : SameView (t.flush w) (u.flush v) := by
  refine ⟨?_, h.2⟩
  rw [Tx.view_flush, Tx.view_flush, ← h.1, hw]

theorem agree_sameWrite {w : Db → Db} :
    Agree SameView SameView (write w : DbM Unit) (write w) := agree_write fun _ _ h => h.flush rfl

theorem agree_insertJob {j : Job} :
    Agree SameView SameView (DbM.insertJob j) (DbM.insertJob j) :=
  (agree_read fun _ _ h => by rw [h.1]).seq fun _ => agree_ensure.seq fun _ => agree_sameWrite

theorem agree_insertDeletionJob {d : DeletionJob} :
    Agree SameView SameView (DbM.insertDeletionJob d) (DbM.insertDeletionJob d) :=
  (agree_read fun _ _ h => by rw [h.1]).seq fun _ => agree_ensure.seq fun _ => agree_sameWrite

/-- On the loaded row itself the `UPDATE` is the assignment. -/
theorem setSession_save {db : Db} {f : Session → Session} (hs : s ∈ db.sessions)
    (hf : ∀ s, (f s).id = s.id) (hsave : s.save (f s) s = f s) :
    db.setSession s.id (s.save (f s)) = db.setSession s.id f hf := by
  rw [Db.setSession, Db.setSession]
  congr 1
  apply Table.update_congr
  intro r hr hi
  obtain rfl := Table.eq_of_key_eq hr hs (by simpa using hi)
  exact hsave

theorem agree_saveSession {f : Session → Session} (hf : ∀ s, (f s).id = s.id)
    (hsave : s.save (f s) s = f s) {next : DbScript} {rest : DbM Unit}
    (h : Agree SameView SameView next.run rest) :
    Agree (SameRow s) SameView (saveSession s (f s) next).run
      (write (fun db => db.setSession s.id f hf) >>= fun _ => rest) := by
  rw [saveSession, run_update]
  refine Agree.bind (S := SameView) (agree_write fun t u ht => ?_) (fun _ _ => h) fun _ _ h => h
  exact ht.1.flush (setSession_save ht.2 hf hsave)

theorem agree_createJobs {ids : PipelineIds} {now : Timestamp} {sid : Uuid} :
    Agree SameView SameView (DbScript.createJobsForSession ids now sid .done).run
      (AiBadge.createJobsForSession ids now sid) := by
  simp only [DbScript.createJobsForSession, run_insertJob, DbScript.addEvent, run_update, bind_done]
  refine agree_insertJob.seq fun _ => agree_insertJob.seq fun _ => agree_insertJob.seq fun _ => ?_
  exact agree_sameWrite.seq fun _ => agree_sameWrite.seq fun _ => agree_sameWrite

theorem SameRow.sameView (t u : Tx Db Files) (h : SameRow s t u) : SameView t u := h.1

/-- Without interruption, `update_consent` does what its plan does. -/
theorem agree_consentPlan {now : Timestamp} {grant : Bool} {user : Uuid} :
    Agree (SameRow s) SameView (consentPlan now grant user s).run (do
      ensure (s.status ∉ consentClosed) (.http 409 <|
        if grant then s!"Cannot grant consent in status {s.status.value}"
        else "Cannot revoke consent from terminal state")
      write fun db => db.setSession s.id (Session.withConsent grant)
      write fun db => db.addAudit (sessionAudit now
        (if grant then .consentGranted else .consentRevoked) s.id user)) := by
  rw [consentPlan, run_ensure]
  refine agree_ensure.bind (fun _ _ => ?_) SameRow.sameView
  refine agree_saveSession (by intro; rfl) ?_ ?_
  · simp [Session.save, Session.withConsent, changed_self]
  · rw [DbScript.addAudit, run_update, bind_done]
    exact agree_sameWrite

theorem agree_statusPlan {ids : PipelineIds} {now : Timestamp} {text : String} :
    Agree (SameRow s) SameView (statusPlan ids now text s).run (do
      let target ← require (parse? text) (.http 400 s!"Invalid status: {text}")
      let verdict := canTransition s.status target s.consentGranted
      ensure verdict.1
        (if target = capturing ∧ s.consentGranted = false then .http 403 verdict.2
        else .http 409 verdict.2)
      write fun db => db.setSession s.id (Session.withStatus target)
      when (target = processing) do
        ensure s.audioKey.isSome (.http 400 "Audio must be uploaded before starting processing")
        AiBadge.createJobsForSession ids now s.id) := by
  rw [statusPlan, run_require]
  refine agree_require.bind (fun target _ => ?_) SameRow.sameView
  rw [run_ensure]
  refine agree_ensure.bind (fun _ _ => ?_) SameRow.sameView
  refine agree_saveSession (by intro; rfl) ?_ ?_
  · simp [Session.save, Session.withStatus, changed_self]
  · by_cases ht : target = processing
    · simp only [Script.when, Prog.when, ht, decide_true, if_true]
      rw [run_ensure]
      exact agree_ensure.seq fun _ => agree_createJobs
    · simp only [Script.when, Prog.when, ht, decide_false]
      exact agree_pure

theorem agree_cancelPlan : Agree (SameRow s) SameView (cancelPlan s).run (do
    let verdict := canTransition s.status cancelled
    ensure verdict.1 (.http 409 verdict.2)
    write fun db => db.setSession s.id (Session.withStatus cancelled)) := by
  rw [cancelPlan, run_ensure]
  refine agree_ensure.bind (fun _ _ => ?_) SameRow.sameView
  have hdone : Agree SameView SameView ((Script.done : DbScript).run (φ := Files)) (pure ()) :=
    agree_pure
  have h := agree_saveSession (s := s) (f := Session.withStatus cancelled) (by intro; rfl)
    (by simp [Session.save, Session.withStatus, changed_self]) hdone
  have he : (write fun db => db.setSession s.id (Session.withStatus cancelled) : DbM Unit) =
      write (fun db => db.setSession s.id (Session.withStatus cancelled)) >>= fun _ => pure () :=
    (bind_done (κ := Lock)).symm
  rwa [he]

theorem agree_retractPlan {ids : SagaIds} {now : Timestamp} {user : Uuid} (hu : s.userId = user) :
    Agree (SameRow s) SameView (retractPlan ids now user s).run (do
      checkRetract s
      AiBadge.retractSession ids now s.id user ""
      write fun db => db.addAudit (sessionAudit now .retractInitiated s.id user)) := by
  have found {t : Tx Db Files} (h : s ∈ t.view.sessions) :
      (t.view.sessions.find? fun r => r.id = s.id && r.userId = user) = some s :=
    Table.find?_of_mem h (by simp [hu]) (by simp +contextual)
  rw [retractPlan, run_ensure, checkRetract]
  refine agree_ensure.bind (fun _ _ => ?_) SameRow.sameView
  rw [run_fetch, AiBadge.retractSession]
  simp only [bind_assoc]
  refine Agree.kept keeps_read keeps_read (fun t u h => ?_) SameRow.sameView fun o => ?_
  · refine congrArg Except.ok ?_
    show Option.map (fun _ => s) (t.view.sessions.find? _) = u.view.sessions.find? _
    rw [found h.2, found (h.1.1 ▸ h.2)]
    rfl
  rintro t u ⟨h, hret⟩
  obtain rfl : o = some s := by
    rw [(returns_read.mp hret).1, found h.2]
    rfl
  refine (?_ : Agree (SameRow s) SameView _ _) t u h
  refine agree_require.bind (fun a ha => ?_) SameRow.sameView
  obtain ⟨_, _, _, -, ha⟩ := ha
  obtain rfl := Option.some.inj (returns_require.mp ha).1
  rw [run_ensure]
  refine agree_ensure.bind (fun _ _ => ?_) SameRow.sameView
  refine agree_saveSession (by intro; rfl) ?_ ?_
  · simp [Session.save, Session.withTombstone, changed_self]
  simp only [run_insertDeletionJob, DbScript.addAudit, run_update, bind_done]
  exact agree_insertDeletionJob.seq fun _ => agree_insertDeletionJob.seq fun _ =>
    agree_insertDeletionJob.seq fun _ => agree_sameWrite

theorem agree_getCurrentUser {user : Uuid} :
    Agree SameView SameView (getCurrentUser user) (getCurrentUser user) :=
  (agree_read fun _ _ h => by rw [h.1]).seq fun _ => agree_require

theorem agree_getSessionOr404 {session : PathId} {user : Uuid} :
    Agree SameView SameView (getSessionOr404 session user) (getSessionOr404 session user) :=
  agree_require.seq fun _ => (agree_read fun _ _ h => by rw [h.1]).seq fun _ => agree_require

/-- A request whose plan does what the rest of its endpoint does, does what the endpoint does. -/
theorem agree_script {r : SessionRequest} {rest : User → Session → DbM Unit}
    (h : ∀ u s, u.id = r.user → s.userId = r.user →
      Agree (SameRow s) SameView (r.plan s).run (rest u s)) :
    Agree SameView SameView r.script.run
      (getCurrentUser r.user >>= fun u => getSessionOr404 r.session u.id >>= rest u) := by
  rw [SessionRequest.script, run_currentUser]
  refine Agree.kept (keeps_read.bind fun _ => keeps_require) (keeps_read.bind fun _ => keeps_require)
    (fun t v ht => (agree_getCurrentUser t v ht).1) (fun _ _ h => h) fun u t v ht => ?_
  obtain ⟨⟨_, -, hw, rfl⟩, -⟩ := returns_getCurrentUser.mp ht.2
  rw [hw]
  refine (?_ : Agree SameView SameView _ _) t v ht.1
  rw [run_sessionOr404]
  refine Agree.kept keeps_getSessionOr404 keeps_getSessionOr404
    (fun t v ht => (agree_getSessionOr404 t v ht).1) (fun _ _ h => h) fun s t v ht => ?_
  obtain ⟨hs, -, hu, -⟩ := returns_getSessionOr404 ht.2
  exact h u s hw hu t v ⟨ht.1, hs⟩

theorem serve_of_agree {p q : DbM Unit} (h : Agree SameView SameView p q) (db : Db) (files : Files) :
    p.serve db files = q.serve db files := by
  obtain ⟨he, hv⟩ := h (Tx.start db files) (Tx.start db files) ⟨rfl, rfl⟩
  unfold Prog.serve
  rcases hp : p (Tx.start db files) with ⟨x, t⟩
  rcases hq : q (Tx.start db files) with ⟨y, u⟩
  rw [hp, hq] at he hv
  obtain rfl : x = y := he
  cases x with
  | ok => exact hv.1
  | error => exact hv.2

end Pieces

/-- Run without interruption, the script of a request leaves what its endpoint leaves. -/
theorem SessionRequest.result_script (r : SessionRequest) (db : Db) :
    Cursor.result db ⟨r.script, [], []⟩ = r.serve db := by
  rw [SessionRequest.serve, ← Script.serve_run _ db ([] : Files)]
  apply serve_of_agree
  obtain ⟨user, now, session, call⟩ := r
  cases call with
  | consent grant =>
    apply agree_script (r := ⟨user, now, session, .consent grant⟩)
    rintro u s rfl -
    exact agree_consentPlan
  | status ids text =>
    apply agree_script (r := ⟨user, now, session, .status ids text⟩)
    exact fun _ _ _ _ => agree_statusPlan
  | cancel =>
    apply agree_script (r := ⟨user, now, session, .cancel⟩)
    exact fun _ _ _ _ => agree_cancelPlan
  | retract ids =>
    apply agree_script (r := ⟨user, now, session, .retract ids⟩)
    rintro u s rfl hs
    exact agree_retractPlan hs

end AiBadge
