import AiBadge.System.World

/-! # What a request commits

One constructor for each way a request transaction can succeed, with its guards
and the database it leaves. Every invariant of the API is a case analysis on it.
-/

namespace AiBadge

open Lib Prog DbM SessionStatus

/-- The endpoint of the request returns, so its transaction commits. -/
def World.Accepts (w : World) (r : Request) : Prop :=
  ∃ t, (r.run w.now).Returns (Tx.start w.db w.files) () t

theorem World.accepts_iff {w : World} {r : Request} :
    w.Accepts r ↔ (r.run w.now (Tx.start w.db w.files)).1.isOk = true := by
  unfold World.Accepts Returns
  rcases r.run w.now (Tx.start w.db w.files) with ⟨_ | _, t⟩ <;> simp [Except.isOk, Except.toBool]

instance (w : World) (r : Request) : Decidable (w.Accepts r) :=
  decidable_of_iff _ World.accepts_iff.symm

/-- The transitions of `approve_artifact` once no artifact is left to approve. -/
def advanceSession (s : Session) (db : Db) : Db :=
  let reviewed :=
    if s.status = needsReview then
      (db.setSession s.id (Session.withStatus reviewing)).addEvent (sessionEvent s.id reviewing)
    else db
  (reviewed.setSession s.id (Session.withStatus approved)).addEvent (sessionEvent s.id approved)

@[simp] theorem advanceSession_sessions (s : Session) (db : Db) :
    (advanceSession s db).sessions =
      db.sessions.update (fun r => r.id = s.id) (Session.withStatus approved) := by
  unfold advanceSession
  split
  · simp only [Db.addEvent_sessions, Db.setSession_sessions]
    rw [Table.update_update (by simp)]
    congr
  · simp

@[simp] theorem advanceSession_jobs (s : Session) (db : Db) :
    (advanceSession s db).jobs = db.jobs := by
  unfold advanceSession
  split <;> rfl

@[simp] theorem advanceSession_artifacts (s : Session) (db : Db) :
    (advanceSession s db).artifacts = db.artifacts := by
  unfold advanceSession
  split <;> rfl

@[simp] theorem advanceSession_auditLogs (s : Session) (db : Db) :
    (advanceSession s db).auditLogs = db.auditLogs := by
  unfold advanceSession
  split <;> rfl

@[simp] theorem advanceSession_deletionJobs (s : Session) (db : Db) :
    (advanceSession s db).deletionJobs = db.deletionJobs := by
  unfold advanceSession
  split <;> rfl

/-- The three pipeline jobs of a session, added in order. -/
def addPipeline (ids : PipelineIds) (now : Timestamp) (sessionId : Uuid) (db : Db) : Db :=
  let db := db.addJob (stageJob ids.transcribe now sessionId .transcribe)
  let db := db.addJob (stageJob ids.summarize now sessionId .summarize)
  let db := db.addJob (stageJob ids.extractArtifact now sessionId .extractArtifact)
  let db := db.addEvent { jobId := some ids.transcribe, eventType := .jobCreated }
  let db := db.addEvent { jobId := some ids.summarize, eventType := .jobCreated }
  db.addEvent { jobId := some ids.extractArtifact, eventType := .jobCreated }

@[simp] theorem addPipeline_jobs (ids : PipelineIds) (now : Timestamp) (sessionId : Uuid) (db : Db) :
    (addPipeline ids now sessionId db).jobs =
      ((db.jobs.insert (stageJob ids.transcribe now sessionId .transcribe)).insert
        (stageJob ids.summarize now sessionId .summarize)).insert
          (stageJob ids.extractArtifact now sessionId .extractArtifact) := by
  simp [addPipeline]

@[simp] theorem addPipeline_sessions (ids : PipelineIds) (now : Timestamp) (sessionId : Uuid)
    (db : Db) : (addPipeline ids now sessionId db).sessions = db.sessions := by
  simp [addPipeline]

@[simp] theorem addPipeline_users (ids : PipelineIds) (now : Timestamp) (sessionId : Uuid)
    (db : Db) : (addPipeline ids now sessionId db).users = db.users := by
  simp [addPipeline]

@[simp] theorem addPipeline_artifacts (ids : PipelineIds) (now : Timestamp) (sessionId : Uuid)
    (db : Db) : (addPipeline ids now sessionId db).artifacts = db.artifacts := by
  simp [addPipeline]

@[simp] theorem addPipeline_deletionJobs (ids : PipelineIds) (now : Timestamp) (sessionId : Uuid)
    (db : Db) : (addPipeline ids now sessionId db).deletionJobs = db.deletionJobs := by
  simp [addPipeline]

@[simp] theorem addPipeline_auditLogs (ids : PipelineIds) (now : Timestamp) (sessionId : Uuid)
    (db : Db) : (addPipeline ids now sessionId db).auditLogs = db.auditLogs := by
  simp [addPipeline]

/-- The three deletion jobs of a saga, added in order. -/
def addSaga (ids : SagaIds) (now : Timestamp) (s : Session) (db : Db) : Db :=
  let db := db.addDeletionJob (sagaJob ids.artifactRows now s.id .deleteArtifactRows
    { description := some "Hard-delete all artifacts" })
  let db := db.addDeletionJob (sagaJob ids.localAudio now s.id .deleteLocalAudio
    { audioKey := s.audioKey })
  db.addDeletionJob (sagaJob ids.feishuDocs now s.id .deleteFeishuDocs
    { description := some "Feishu stub" })

/-- No row has the id or the key of the job. -/
def Db.KeyFree (db : Db) (j : Job) : Prop :=
  ∀ r ∈ db.jobs, r.id ≠ j.id ∧ r.idempotencyKey ≠ j.idempotencyKey

/-- The three pipeline jobs collide with no row and with none of each other. -/
structure Db.PipelineFree (db : Db) (ids : PipelineIds) (now : Timestamp) (sessionId : Uuid) :
    Prop where
  transcribe : db.KeyFree (stageJob ids.transcribe now sessionId .transcribe)
  summarize : db.KeyFree (stageJob ids.summarize now sessionId .summarize)
  extractArtifact : db.KeyFree (stageJob ids.extractArtifact now sessionId .extractArtifact)
  ne₁ : ids.transcribe ≠ ids.summarize
  ne₂ : ids.transcribe ≠ ids.extractArtifact
  ne₃ : ids.summarize ≠ ids.extractArtifact

theorem Db.PipelineFree.mem_addPipeline {db : Db} {ids : PipelineIds} {now : Timestamp} {sid : Uuid}
    {j : Job} (h : db.PipelineFree ids now sid) : j ∈ (addPipeline ids now sid db).jobs ↔
      j ∈ db.jobs ∨ j = stageJob ids.transcribe now sid .transcribe ∨
        j = stageJob ids.summarize now sid .summarize ∨
        j = stageJob ids.extractArtifact now sid .extractArtifact := by
  rw [addPipeline_jobs, Table.mem_insert_of_not_mem, Table.mem_insert_of_not_mem,
    Table.mem_insert_of_not_mem, or_assoc, or_assoc]
  · exact fun r hr => (h.transcribe r hr).1
  · intro r hr
    rcases Table.mem_of_mem_insert hr with hr | rfl
    · exact (h.summarize r hr).1
    · exact h.ne₁
  · intro r hr
    rcases Table.mem_of_mem_insert hr with hr | rfl
    · rcases Table.mem_of_mem_insert hr with hr | rfl
      · exact (h.extractArtifact r hr).1
      · exact h.ne₂
    · exact h.ne₃

/-- The ids of the three deletion jobs are new and distinct. -/
structure Db.SagaFree (db : Db) (ids : SagaIds) : Prop where
  artifactRows : ∀ d ∈ db.deletionJobs, d.id ≠ ids.artifactRows
  localAudio : ∀ d ∈ db.deletionJobs, d.id ≠ ids.localAudio
  feishuDocs : ∀ d ∈ db.deletionJobs, d.id ≠ ids.feishuDocs
  ne₁ : ids.artifactRows ≠ ids.localAudio
  ne₂ : ids.artifactRows ≠ ids.feishuDocs
  ne₃ : ids.localAudio ≠ ids.feishuDocs

inductive RequestEffect (w : World) : Request → Db → Prop where
  | register {env : AuthEnv} {ids : RegisterIds} {body : RegisterRequest} {db : Db} :
      db.sessions = w.db.sessions → db.jobs = w.db.jobs → db.artifacts = w.db.artifacts →
      db.auditLogs = w.db.auditLogs → db.deletionJobs = w.db.deletionJobs →
      RequestEffect w (.register env ids body) db
  | createSession {user uuid4 deviceId : Uuid} {body : SessionCreateRequest} :
      (∀ s ∈ w.db.sessions, s.id ≠ uuid4) →
      RequestEffect w (.createSession user uuid4 body) (w.db.addSession
        { id := uuid4, userId := user, deviceId, title := body.title.map clipTitle, status := idle })
  | updateConsent {user : Uuid} {s : Session} {consent : Bool} :
      s ∈ w.db.sessions → s.userId = user → s.status ∉ consentClosed →
      RequestEffect w (.updateConsent user (some s.id) consent)
        ((w.db.setSession s.id (Session.withConsent consent)).addAudit (sessionAudit w.now
          (if consent then .consentGranted else .consentRevoked) s.id user))
  | updateStatus {user : Uuid} {ids : PipelineIds} {s : Session} {text : String}
      {target : SessionStatus} :
      s ∈ w.db.sessions → s.userId = user → parse? text = some target →
      (canTransition s.status target s.consentGranted).1 = true → target ≠ processing →
      RequestEffect w (.updateSessionStatus user ids (some s.id) text)
        (w.db.setSession s.id (Session.withStatus target))
  | startProcessing {user : Uuid} {ids : PipelineIds} {s : Session} {text : String} :
      s ∈ w.db.sessions → s.userId = user → parse? text = some processing →
      (canTransition s.status processing s.consentGranted).1 = true → s.audioKey.isSome →
      w.db.PipelineFree ids w.now s.id →
      RequestEffect w (.updateSessionStatus user ids (some s.id) text)
        (addPipeline ids w.now s.id (w.db.setSession s.id (Session.withStatus processing)))
  | uploadAudio {user uuid4 : Uuid} {s : Session} {file : UploadFile} :
      s ∈ w.db.sessions → s.userId = user → file.size < 2 ^ 31 →
      RequestEffect w (.uploadAudio user uuid4 (some s.id) file)
        (w.db.setSession s.id (Session.withAudio
          ⟨uuid4, getAudioFormat file.filename file.contentType⟩ file.size))
  | cancelSession {user : Uuid} {s : Session} :
      s ∈ w.db.sessions → s.userId = user → (canTransition s.status cancelled).1 = true →
      RequestEffect w (.cancelSession user (some s.id))
        (w.db.setSession s.id (Session.withStatus cancelled))
  | retractSession {user : Uuid} {ids : SagaIds} {s : Session} :
      s ∈ w.db.sessions → s.userId = user → s.status = published → w.db.SagaFree ids →
      RequestEffect w (.retractSession user ids (some s.id))
        ((addSaga ids w.now s (w.db.setSession s.id (Session.withTombstone w.now user ""))).addAudit
          (sessionAudit w.now .retractInitiated s.id user))
  | updateArtifact {user : Uuid} {a : Artifact} {body : ArtifactUpdateRequest} :
      a ∈ w.db.artifacts →
      RequestEffect w (.updateArtifact user (some a.id) body) (w.db.setArtifact a.id body.apply)
  | approve {user : Uuid} {ids : RetryIds} {a : Artifact} {comment : String} :
      a ∈ w.db.artifacts →
      (∃ b ∈ w.db.artifacts, b.sessionId = a.sessionId ∧ b.id ≠ a.id ∧ b.status ≠ .approved) →
      RequestEffect w (.reviewArtifact user ids (some a.id) ⟨.approve, comment⟩)
        ((w.db.setArtifact a.id (Artifact.withReview .approved comment)).addEvent
          (reviewEvent a user .artifactApproved))
  | approveAll {user : Uuid} {ids : RetryIds} {a : Artifact} {s : Session} {comment : String} :
      a ∈ w.db.artifacts → s ∈ w.db.sessions → s.id = a.sessionId →
      s.status ∈ [needsReview, reviewing, approved] →
      (∀ b ∈ w.db.artifacts, b.sessionId = a.sessionId → b.id ≠ a.id → b.status = .approved) →
      RequestEffect w (.reviewArtifact user ids (some a.id) ⟨.approve, comment⟩)
        (advanceSession s ((w.db.setArtifact a.id (Artifact.withReview .approved comment)).addEvent
          (reviewEvent a user .artifactApproved)))
  | reject {user : Uuid} {ids : RetryIds} {a : Artifact} {comment : String} :
      a ∈ w.db.artifacts → w.db.KeyFree (retryJob ids w.now a comment) →
      RequestEffect w (.reviewArtifact user ids (some a.id) ⟨.reject, comment⟩)
        (((w.db.setArtifact a.id (Artifact.withReview .rejected comment)).addEvent
          (reviewEvent a user .artifactRejected)).addJob (retryJob ids w.now a comment))
  | publishArtifact {user uuid4 : Uuid} {a : Artifact} {s : Session} :
      a ∈ w.db.artifacts → a.status = .approved → s ∈ w.db.sessions → s.id = a.sessionId →
      (canTransition s.status publishing).1 = true →
      w.db.KeyFree (publishJob uuid4 w.now a) →
      RequestEffect w (.publishArtifact user uuid4 (some a.id))
        (((w.db.addJob (publishJob uuid4 w.now a)).setSession s.id
          (Session.withStatus publishing)).addEvent (sessionEvent s.id publishing))

section Endpoints

variable {db : Db} {files : Files} {t : Tx Db Files}

@[simp] theorem returns_getCurrentUser {subject : Uuid} {u : User} {t₀ : Tx Db Files} :
    (getCurrentUser subject).Returns t₀ u t ↔
      (∃ v ∈ t₀.view.users, v.id = subject ∧ u = v) ∧ t = t₀ := by
  simp only [getCurrentUser, returns_bind, returns_read, returns_require]
  constructor
  · rintro ⟨o, t₁, ⟨rfl, rfl⟩, h, rfl⟩
    obtain ⟨hu, hp⟩ := Table.find?_eq_some h
    exact ⟨⟨u, hu, by simpa using hp, rfl⟩, rfl⟩
  · rintro ⟨⟨v, hv, rfl, rfl⟩, rfl⟩
    exact ⟨_, _, ⟨rfl, rfl⟩, Table.find?_of_mem hv (by simp) (by simp), rfl⟩

theorem returns_getSessionOr404 {sid : PathId} {user : Uuid} {s : Session} {t₀ : Tx Db Files}
    (h : (getSessionOr404 sid user).Returns t₀ s t) :
    s ∈ t₀.view.sessions ∧ sid = some s.id ∧ s.userId = user ∧ t = t₀ := by
  simp only [getSessionOr404, returns_bind, returns_read, returns_require] at h
  obtain ⟨i, t₁, ⟨rfl, rfl⟩, o, t₂, ⟨rfl, rfl⟩, h, rfl⟩ := h
  obtain ⟨hs, hp⟩ := Table.find?_eq_some h
  obtain ⟨rfl, rfl⟩ : s.id = i ∧ s.userId = user := by simpa using hp
  exact ⟨hs, rfl, rfl, rfl⟩

theorem returns_getArtifactOr404 {aid : PathId} {a : Artifact} {t₀ : Tx Db Files}
    (h : (getArtifactOr404 aid).Returns t₀ a t) :
    a ∈ t₀.view.artifacts ∧ aid = some a.id ∧ t = t₀ := by
  simp only [getArtifactOr404, returns_bind, returns_read, returns_require] at h
  obtain ⟨i, t₁, ⟨rfl, rfl⟩, o, t₂, ⟨rfl, rfl⟩, h, rfl⟩ := h
  obtain ⟨ha, rfl⟩ := Db.artifact?_eq_some.mp h
  exact ⟨ha, rfl, rfl⟩

@[simp] theorem returns_insertJob {j : Job} {u : Unit} {t₀ : Tx Db Files} :
    (insertJob j).Returns t₀ u t ↔ t₀.view.KeyFree j ∧ t = t₀.flush fun db => db.addJob j := by
  simp [insertJob, Db.KeyFree]

@[simp] theorem returns_insertDeletionJob {d : DeletionJob} {u : Unit} {t₀ : Tx Db Files} :
    (insertDeletionJob d).Returns t₀ u t ↔
      (∀ r ∈ t₀.view.deletionJobs, r.id ≠ d.id) ∧ t = t₀.flush fun db => db.addDeletionJob d := by
  simp [insertDeletionJob]

@[simp] theorem returns_transitionSession {sid : Uuid} {target : SessionStatus} {u : Unit}
    {t₀ : Tx Db Files} : (transitionSession sid target).Returns t₀ u t ↔
      ∃ s, t₀.view.session? sid = some s ∧ (canTransition s.status target).1 = true ∧
        t = (t₀.flush fun db => db.setSession sid (Session.withStatus target)).flush fun db =>
          db.addEvent (sessionEvent sid target) := by
  simp [transitionSession]

theorem Db.KeyFree.of_addJob {j k : Job} (h : (db.addJob k).KeyFree j) : db.KeyFree j :=
  fun r hr => h r (Table.mem_insert_of_mem hr)

theorem Db.KeyFree.ne {j k : Job} (hk : db.KeyFree k) (h : (db.addJob k).KeyFree j) :
    k.id ≠ j.id :=
  (h k ((Table.mem_insert_of_not_mem fun r hr => (hk r hr).1).mpr (.inr rfl))).1

theorem returns_createJobsForSession {ids : PipelineIds} {now : Timestamp} {sid : Uuid} {u : Unit}
    {t₀ : Tx Db Files} (h : (createJobsForSession ids now sid).Returns t₀ u t) :
    t₀.view.PipelineFree ids now sid ∧ t.view = addPipeline ids now sid t₀.view := by
  simp only [createJobsForSession, addJobCreated, returns_bind, returns_insertJob, returns_write]
    at h
  obtain ⟨_, t₁, ⟨h₁, rfl⟩, _, t₂, ⟨h₂, rfl⟩, _, t₃, ⟨h₃, rfl⟩, _, t₄, rfl, _, t₅, rfl, rfl⟩ := h
  simp only [Tx.view_flush] at h₂ h₃
  have h₁₃ : (t₀.view.addJob (stageJob ids.transcribe now sid .transcribe)).KeyFree _ :=
    h₃.of_addJob
  refine ⟨⟨h₁, h₂.of_addJob, h₁₃.of_addJob, h₁.ne h₂, h₁.ne h₁₃, h₂.ne h₃⟩, ?_⟩
  simp [addPipeline]

@[simp] theorem returns_varchar {column : String} {n : Nat} {text : Option String} {u : Unit}
    {t₀ : Tx Db Files} : (varchar column n text).Returns t₀ u t ↔
      text.all (fitsVarchar n) = true ∧ t = t₀ := by
  simp [varchar]

@[simp] theorem returns_textColumn {column : String} {text : Option String} {u : Unit}
    {t₀ : Tx Db Files} : (textColumn column text).Returns t₀ u t ↔
      text.all fitsText = true ∧ t = t₀ := by
  simp [textColumn]

@[simp] theorem returns_titleColumn {column : String} {text : Option String} {u : Unit}
    {t₀ : Tx Db Files} : (titleColumn column text).Returns t₀ u t ↔
      text.all fitsTitle = true ∧ t = t₀ := by
  simp [titleColumn]

@[simp] theorem returns_jsonColumn {column : String} {value : Option Json} {x : Json}
    {t₀ : Tx Db Files} : (jsonColumn column value).Returns t₀ x t ↔ value = some x ∧ t = t₀ := by
  simp [jsonColumn]

@[simp] theorem returns_toResponse {a : Artifact} {r : ArtifactResponse} {t₀ : Tx Db Files} :
    a.toResponse.Returns t₀ r t ↔ a.content.isObj = true ∧ r = a.response ∧ t = t₀ := by
  simp [Artifact.toResponse, and_comm]

@[simp] theorem returns_respondArtifact {id : Uuid} {r : ArtifactResponse} {t₀ : Tx Db Files} :
    (respondArtifact id).Returns t₀ r t ↔ ∃ a, t₀.view.artifact? id = some a ∧
      a.content.isObj = true ∧ r = a.response ∧ t = t₀ := by
  simp [respondArtifact]

/-- The organization can be inserted. -/
structure Db.AcceptsOrganization (db : Db) (o : Organization) : Prop where
  unique : ∀ r ∈ db.organizations, r.id ≠ o.id ∧ r.name ≠ o.name ∧ r.slug ≠ o.slug
  name : fitsVarchar 256 o.name = true
  slug : fitsVarchar 128 o.slug = true

/-- The user can be inserted. -/
structure Db.AcceptsUser (db : Db) (u : User) : Prop where
  unique : ∀ r ∈ db.users, r.id ≠ u.id ∧ r.email ≠ u.email
  email : fitsVarchar 255 u.email = true
  passwordHash : fitsVarchar 255 u.passwordHash = true
  displayName : fitsVarchar 128 u.displayName = true

/-- The device can be inserted. -/
def Db.AcceptsDevice (db : Db) (d : Device) : Prop :=
  ∀ r ∈ db.devices, r.id ≠ d.id ∧ r.deviceKey ≠ d.deviceKey

@[simp] theorem returns_insertOrganization {o : Organization} {u : Unit} {t₀ : Tx Db Files} :
    (insertOrganization o).Returns t₀ u t ↔
      t₀.view.AcceptsOrganization o ∧ t = t₀.flush fun db => db.addOrganization o := by
  simp only [insertOrganization, returns_bind, returns_read, returns_ensure, returns_varchar,
    returns_write]
  constructor
  · rintro ⟨_, _, ⟨rfl, rfl⟩, _, _, ⟨hf, rfl⟩, _, _, ⟨hn, rfl⟩, _, _, ⟨hs, rfl⟩, rfl⟩
    exact ⟨⟨by simpa [and_assoc] using hf, hn, hs⟩, rfl⟩
  · rintro ⟨⟨hf, hn, hs⟩, rfl⟩
    exact ⟨_, _, ⟨rfl, rfl⟩, (), _, ⟨by simpa [and_assoc] using hf, rfl⟩, (), _, ⟨hn, rfl⟩, (), _,
      ⟨hs, rfl⟩, rfl⟩

@[simp] theorem returns_insertUser {v : User} {u : Unit} {t₀ : Tx Db Files} :
    (insertUser v).Returns t₀ u t ↔
      t₀.view.AcceptsUser v ∧ t = t₀.flush fun db => db.addUser v := by
  simp only [insertUser, returns_bind, returns_read, returns_ensure, returns_varchar, returns_write]
  constructor
  · rintro ⟨_, _, ⟨rfl, rfl⟩, _, _, ⟨hf, rfl⟩, _, _, ⟨he, rfl⟩, _, _, ⟨hp, rfl⟩, _, _, ⟨hd, rfl⟩, rfl⟩
    exact ⟨⟨by simpa using hf, he, hp, hd⟩, rfl⟩
  · rintro ⟨⟨hf, he, hp, hd⟩, rfl⟩
    exact ⟨_, _, ⟨rfl, rfl⟩, (), _, ⟨by simpa using hf, rfl⟩, (), _, ⟨he, rfl⟩, (), _, ⟨hp, rfl⟩,
      (), _, ⟨hd, rfl⟩, rfl⟩

@[simp] theorem returns_insertDevice {d : Device} {u : Unit} {t₀ : Tx Db Files} :
    (insertDevice d).Returns t₀ u t ↔
      t₀.view.AcceptsDevice d ∧ t = t₀.flush fun db => db.addDevice d := by
  simp [insertDevice, Db.AcceptsDevice]

variable {w : World}

theorem effect_register {env : AuthEnv} {ids : RegisterIds} {body : RegisterRequest}
    (h : (register env ids body).Returns (Tx.start w.db w.files) () t) :
    RequestEffect w (.register env ids body) t.view := by
  simp only [register, returns_bind, returns_read, returns_ensure, returns_answer,
    returns_insertOrganization, returns_insertUser, returns_insertDevice] at h
  obtain ⟨_, _, ⟨_, rfl⟩, _, _, ⟨_, rfl⟩, _, _, ⟨_, rfl⟩, _, _, ⟨_, rfl⟩, _, _, ⟨_, rfl⟩, _, _,
    ⟨_, rfl⟩, _, rfl⟩ := h
  constructor <;> simp

theorem returns_resolveDevice {given : Option PathId} {user d : Uuid} {t₀ : Tx Db Files}
    (h : (resolveDevice given user).Returns t₀ d t) : t = t₀ := by
  unfold resolveDevice at h
  split at h
  · exact (returns_require.mp h).2
  · simp only [returns_bind, returns_read, returns_require] at h
    obtain ⟨_, _, ⟨_, rfl⟩, _, rfl⟩ := h
    rfl

theorem effect_createSession {user uuid4 : Uuid} {body : SessionCreateRequest}
    (h : (createSession uuid4 body user).Returns (Tx.start w.db w.files) () t) :
    RequestEffect w (.createSession user uuid4 body) t.view := by
  simp only [createSession, insertSession, returns_bind, returns_read, returns_ensure,
    returns_titleColumn, returns_write] at h
  obtain ⟨deviceId, _, hd, h⟩ := h
  obtain rfl := returns_resolveDevice hd
  obtain ⟨_, _, ⟨rfl, rfl⟩, _, _, ⟨hf, rfl⟩, _, _, ⟨_, rfl⟩, _, _, ⟨_, rfl⟩, _, _, ⟨_, rfl⟩, rfl⟩ := h
  rw [Tx.view_flush, Tx.view_start]
  exact .createSession (by simpa using hf)

theorem effect_updateConsent {user : Uuid} {sid : PathId} {consent : Bool}
    (h : (updateConsent w.now sid consent user).Returns (Tx.start w.db w.files) () t) :
    RequestEffect w (.updateConsent user sid consent) t.view := by
  simp only [updateConsent, returns_bind, returns_ensure, returns_write] at h
  obtain ⟨s, _, hget, _, _, ⟨hc, rfl⟩, _, _, rfl, rfl⟩ := h
  obtain ⟨hs, rfl, rfl, rfl⟩ := returns_getSessionOr404 hget
  simp only [Tx.view_flush, Tx.view_start] at hs ⊢
  exact .updateConsent hs rfl (by simpa using hc)

theorem effect_updateSessionStatus {user : Uuid} {ids : PipelineIds} {sid : PathId} {text : String}
    (h : (updateSessionStatus ids w.now sid text user).Returns (Tx.start w.db w.files) () t) :
    RequestEffect w (.updateSessionStatus user ids sid text) t.view := by
  simp only [updateSessionStatus, returns_bind, returns_require, returns_ensure, returns_write,
    returns_when] at h
  obtain ⟨s, _, hget, target, _, ⟨ht, rfl⟩, _, _, ⟨hc, rfl⟩, _, _, rfl, hp⟩ := h
  obtain ⟨hs, rfl, rfl, rfl⟩ := returns_getSessionOr404 hget
  rw [Tx.view_start] at hs
  rcases hp with ⟨hp, _, _, ⟨ha, rfl⟩, hj⟩ | ⟨hp, rfl⟩
  · obtain rfl : target = processing := by simpa using hp
    obtain ⟨hf, hv⟩ := returns_createJobsForSession hj
    rw [hv]
    simp only [Tx.view_flush, Tx.view_start] at hf ⊢
    exact .startProcessing hs rfl ht hc ha
      ⟨hf.transcribe, hf.summarize, hf.extractArtifact, hf.ne₁, hf.ne₂, hf.ne₃⟩
  · rw [Tx.view_flush, Tx.view_start]
    exact .updateStatus hs rfl ht hc (by simpa using hp)

theorem effect_uploadAudio {user uuid4 : Uuid} {sid : PathId} {file : UploadFile}
    (h : (uploadAudio uuid4 sid file user).Returns (Tx.start w.db w.files) () t) :
    RequestEffect w (.uploadAudio user uuid4 sid file) t.view := by
  simp only [uploadAudio, returns_bind, returns_writeOutside, returns_ensure, returns_write] at h
  obtain ⟨s, _, hget, _, _, rfl, _, _, ⟨hz, rfl⟩, rfl⟩ := h
  obtain ⟨hs, rfl, rfl, rfl⟩ := returns_getSessionOr404 hget
  simp only [Tx.view_flush, Tx.view_setOutside, Tx.view_start] at hs ⊢
  exact .uploadAudio hs rfl (by simpa using hz)

theorem effect_cancelSession {user : Uuid} {sid : PathId}
    (h : (cancelSession sid user).Returns (Tx.start w.db w.files) () t) :
    RequestEffect w (.cancelSession user sid) t.view := by
  simp only [cancelSession, returns_bind, returns_ensure, returns_write] at h
  obtain ⟨s, _, hget, _, _, ⟨hc, rfl⟩, rfl⟩ := h
  obtain ⟨hs, rfl, rfl, rfl⟩ := returns_getSessionOr404 hget
  simp only [Tx.view_flush, Tx.view_start] at hs ⊢
  exact .cancelSession hs rfl hc

theorem effect_retractSession {user : Uuid} {ids : SagaIds} {sid : PathId}
    (h : (retractSessionEndpoint ids w.now sid user).Returns (Tx.start w.db w.files) () t) :
    RequestEffect w (.retractSession user ids sid) t.view := by
  simp only [retractSessionEndpoint, checkRetract, retractSession, returns_bind, returns_ensure,
    returns_read, returns_require, returns_write, returns_insertDeletionJob,
    redlinePublishedBeforeRetract_passed] at h
  obtain ⟨s, _, hget, _, _, ⟨hp, rfl⟩, _, _, ⟨_, _, ⟨rfl, rfl⟩, r, _, ⟨hr, rfl⟩, _, _, ⟨_, rfl⟩,
    _, _, rfl, _, _, ⟨h₁, rfl⟩, _, _, ⟨h₂, rfl⟩, h₃, rfl⟩, rfl⟩ := h
  obtain ⟨hs, rfl, rfl, rfl⟩ := returns_getSessionOr404 hget
  simp only [Tx.view_flush, Tx.view_start] at hs hr h₁ h₂ h₃ ⊢
  obtain rfl : r = s := by
    obtain ⟨hr, he⟩ := Table.find?_eq_some hr
    exact Table.eq_of_key_eq hr hs (by simpa using (Bool.and_eq_true_iff.mp he).1)
  have new {d : DeletionJob} {db : Db} (hd : ∀ r ∈ db.deletionJobs, r.id ≠ d.id) :
      d ∈ (db.addDeletionJob d).deletionJobs :=
    (Table.mem_insert_of_not_mem hd).mpr (.inr rfl)
  have old {d e : DeletionJob} {db : Db} (hd : e ∈ db.deletionJobs) :
      e ∈ (db.addDeletionJob d).deletionJobs :=
    Table.mem_insert_of_mem hd
  exact .retractSession hs rfl hp
    ⟨h₁, fun d hd => h₂ d (old hd), fun d hd => h₃ d (old (old hd)), h₂ _ (new h₁),
      h₃ _ (old (new h₁)), h₃ _ (new h₂)⟩

theorem effect_updateArtifact {user : Uuid} {aid : PathId} {body : ArtifactUpdateRequest}
    (h : (updateArtifact aid body).Returns (Tx.start w.db w.files) () t) :
    RequestEffect w (.updateArtifact user aid body) t.view := by
  simp only [updateArtifact, returns_bind, returns_titleColumn, returns_ensure, returns_textColumn,
    returns_write, returns_respondArtifact, returns_pure] at h
  obtain ⟨a, _, hget, _, _, ⟨_, rfl⟩, _, _, ⟨_, rfl⟩, _, _, ⟨_, rfl⟩, _, _, rfl, _, _,
    ⟨_, _, _, _, rfl⟩, _, rfl⟩ := h
  obtain ⟨ha, rfl, rfl⟩ := returns_getArtifactOr404 hget
  simp only [Tx.view_flush, Tx.view_start] at ha ⊢
  exact .updateArtifact ha

/-- The query for what is left to approve, after the approval of one artifact. -/
theorem approve_remaining {a : Artifact} {comment : String} :
    ((db.setArtifact a.id (Artifact.withReview .approved comment)).artifacts.select fun b =>
      b.sessionId = a.sessionId && b.status ≠ .approved) = [] ↔
      ∀ b ∈ db.artifacts, b.sessionId = a.sessionId → b.id ≠ a.id → b.status = .approved := by
  rw [List.eq_nil_iff_forall_not_mem]
  simp only [Db.setArtifact_artifacts, Table.mem_select, Table.mem_update]
  constructor
  · intro h b hb hs hi
    by_contra hn
    exact h b ⟨⟨b, hb, by simp [hi]⟩, by simp [hs, hn]⟩
  · rintro h _ ⟨⟨b, hb, rfl⟩, hp⟩
    by_cases hi : b.id = a.id
    · simp [hi] at hp
    · simp only [hi, decide_false, Bool.false_eq_true, if_false, Bool.and_eq_true,
        decide_eq_true_eq] at hp
      exact hp.2 (h b hb hp.1 hi)

theorem canTransition_approved {b : SessionStatus} :
    (canTransition b approved).1 = true ↔ b ∈ [reviewing, approved] := by
  cases b <;> decide

theorem effect_approveArtifact {user : Uuid} {ids : RetryIds} {a : Artifact} {comment : String}
    (ha : a ∈ w.db.artifacts)
    (h : (approveArtifact a user comment).Returns (Tx.start w.db w.files) () t) :
    RequestEffect w (.reviewArtifact user ids (some a.id) ⟨.approve, comment⟩) t.view := by
  simp only [approveArtifact, returns_bind, returns_textColumn, returns_read, returns_write,
    returns_when, returns_transitionSession] at h
  obtain ⟨_, _, ⟨-, rfl⟩, _, _, rfl, _, _, rfl, rest, _, ⟨hrest, rfl⟩, h⟩ := h
  simp only [Tx.view_flush, Tx.view_start, Db.addEvent_artifacts] at hrest h
  rcases h with ⟨he, sess, t₁, ⟨hsess, rfl⟩, _, t₂, hrev, s', hs', hc', rfl⟩ | ⟨he, rfl⟩
  · have hall := approve_remaining.mp (hrest ▸ List.isEmpty_iff.mp he)
    rcases hrev with ⟨hn, s, hs, -, rfl⟩ | ⟨hn, rfl⟩
    · simp only [Tx.view_flush, Tx.view_start] at hs ⊢
      obtain ⟨hm, hi⟩ := Db.session?_eq_some.mp hs
      have hst : s.status = needsReview := by
        rw [hsess, show Db.session? _ _ = some s from hs] at hn
        simpa using hn
      have h : RequestEffect w (.reviewArtifact user ids (some a.id) ⟨.approve, comment⟩) _ :=
        .approveAll ha hm hi (by simp [hst]) hall
      simpa [advanceSession, hst, hi] using h
    · simp only [Tx.view_flush, Tx.view_start] at hs' ⊢
      obtain ⟨hm, hi⟩ := Db.session?_eq_some.mp hs'
      have hst : s'.status ∈ [reviewing, approved] := canTransition_approved.mp hc'
      have h : RequestEffect w (.reviewArtifact user ids (some a.id) ⟨.approve, comment⟩) _ :=
        .approveAll ha hm hi (List.mem_cons_of_mem _ hst) hall
      have hnr : s'.status ≠ needsReview := by
        rintro hr
        simp [hr] at hst
      simpa [advanceSession, hnr, hi] using h
  · simp only [Tx.view_flush, Tx.view_start]
    refine .approve ha ?_
    by_contra hn
    push Not at hn
    rw [hrest, approve_remaining.mpr hn] at he
    cases he

theorem effect_reviewArtifact {user : Uuid} {ids : RetryIds} {aid : PathId} {body : ReviewRequest}
    (h : (reviewArtifact ids w.now aid body user).Returns (Tx.start w.db w.files) () t) :
    RequestEffect w (.reviewArtifact user ids aid body) t.view := by
  simp only [reviewArtifact, returns_bind] at h
  obtain ⟨a, _, hget, h⟩ := h
  obtain ⟨ha, rfl, rfl⟩ := returns_getArtifactOr404 hget
  rw [Tx.view_start] at ha
  obtain ⟨action, comment⟩ := body
  cases action with
  | approve =>
    simp only [returns_bind, returns_respondArtifact, returns_pure] at h
    obtain ⟨_, _, h, _, _, ⟨_, -, -, -, rfl⟩, -, rfl⟩ := h
    exact effect_approveArtifact ha h
  | reject =>
    simp only [rejectArtifact, returns_bind, returns_textColumn, returns_write, returns_insertJob,
      returns_respondArtifact, returns_pure] at h
    obtain ⟨_, _, ⟨_, _, ⟨-, rfl⟩, _, _, rfl, _, _, rfl, hf, rfl⟩, _, _, ⟨_, -, -, -, rfl⟩, -,
      rfl⟩ := h
    simp only [Tx.view_flush, Tx.view_start] at hf ⊢
    exact .reject ha hf

theorem effect_publishArtifact {user uuid4 : Uuid} {aid : PathId}
    (h : (publishArtifact uuid4 w.now aid).Returns (Tx.start w.db w.files) () t) :
    RequestEffect w (.publishArtifact user uuid4 aid) t.view := by
  simp only [publishArtifact, requestPublish, returns_bind, returns_ensure, returns_insertJob,
    returns_transitionSession, returns_respondArtifact, returns_pure] at h
  obtain ⟨a, _, hget, _, _, ⟨hp, rfl⟩, _, _, ⟨_, _, ⟨-, rfl⟩, _, _, ⟨hf, rfl⟩, s, hs, hc, rfl⟩, _, _,
    ⟨_, -, -, -, rfl⟩, -, rfl⟩ := h
  obtain ⟨ha, rfl, rfl⟩ := returns_getArtifactOr404 hget
  simp only [Tx.view_flush, Tx.view_start] at ha hf hs ⊢
  obtain ⟨hs, hi⟩ := Db.session?_eq_some.mp hs
  rw [← hi]
  exact .publishArtifact ha (by simpa using hp) hs hi hc hf

/-- Authentication reads the user and leaves the session as it was. -/
theorem returns_of_authenticated {subject : Uuid} {p : Uuid → DbM Unit}
    (h : (getCurrentUser subject >>= fun u => p u.id).Returns (Tx.start w.db w.files) () t) :
    (p subject).Returns (Tx.start w.db w.files) () t := by
  obtain ⟨u, t₁, hu, h⟩ := returns_bind.mp h
  obtain ⟨⟨v, -, rfl, rfl⟩, rfl⟩ := returns_getCurrentUser.mp hu
  exact h

/-- A request that returns has one of the listed effects. -/
theorem requestEffect_of_returns {r : Request}
    (h : (r.run w.now).Returns (Tx.start w.db w.files) () t) : RequestEffect w r t.view := by
  cases r with
  | register => exact effect_register h
  | createSession => exact effect_createSession (returns_of_authenticated h)
  | updateConsent => exact effect_updateConsent (returns_of_authenticated h)
  | updateSessionStatus => exact effect_updateSessionStatus (returns_of_authenticated h)
  | uploadAudio => exact effect_uploadAudio (returns_of_authenticated h)
  | cancelSession => exact effect_cancelSession (returns_of_authenticated h)
  | retractSession => exact effect_retractSession (returns_of_authenticated h)
  | updateArtifact user artifact body =>
    have h' := returns_of_authenticated (p := fun _ => AiBadge.updateArtifact artifact body) h
    exact effect_updateArtifact h'
  | reviewArtifact => exact effect_reviewArtifact (returns_of_authenticated h)
  | publishArtifact user uuid4 artifact =>
    have h' := returns_of_authenticated
      (p := fun _ => AiBadge.publishArtifact uuid4 w.now artifact) h
    exact effect_publishArtifact h'

end Endpoints

section Flushes

variable {ω : Type} {f : Tx Db Files → ω}

theorem keeps_getSessionOr404 {sid : PathId} {user : Uuid} : Keeps f (getSessionOr404 sid user) :=
  keeps_require.bind fun _ => keeps_read.bind fun _ => keeps_require

theorem keeps_getArtifactOr404 {aid : PathId} : Keeps f (getArtifactOr404 aid) :=
  keeps_require.bind fun _ => keeps_read.bind fun _ => keeps_require

theorem keeps_respondArtifact {id : Uuid} : Keeps f (respondArtifact id) :=
  keeps_read.bind fun _ => keeps_require.bind fun _ => keeps_ensure.bind fun _ => keeps_pure

theorem keeps_resolveDevice {given : Option PathId} {user : Uuid} :
    Keeps f (resolveDevice given user) := by
  cases given with
  | some deviceId => exact keeps_require
  | none => exact keeps_read.bind fun _ => keeps_require

variable (hw : ∀ g : Db → Db, Keeps f (write g : DbM Unit))

include hw

theorem keeps_insertJob {j : Job} : Keeps f (insertJob j) :=
  keeps_read.bind fun _ => keeps_ensure.bind fun _ => hw _

theorem keeps_insertDeletionJob {d : DeletionJob} : Keeps f (insertDeletionJob d) :=
  keeps_read.bind fun _ => keeps_ensure.bind fun _ => hw _

theorem keeps_createJobsForSession {ids : PipelineIds} {now : Timestamp} {sid : Uuid} :
    Keeps f (createJobsForSession ids now sid) :=
  (keeps_insertJob hw).bind fun _ => (keeps_insertJob hw).bind fun _ =>
    (keeps_insertJob hw).bind fun _ => (hw _).bind fun _ => (hw _).bind fun _ => hw _

theorem keeps_transitionSession {sid : Uuid} {target : SessionStatus} :
    Keeps f (transitionSession sid target) :=
  keeps_read.bind fun _ => keeps_require.bind fun _ => keeps_ensure.bind fun _ =>
    (hw _).bind fun _ => hw _

theorem keeps_retractSession {ids : SagaIds} {now : Timestamp} {sid user : Uuid} {reason : String} :
    Keeps f (retractSession ids now sid user reason) := by
  apply keeps_read.bind fun _ => keeps_require.bind fun _ => keeps_ensure.bind fun _ => ?_
  apply (hw _).bind fun _ => (keeps_insertDeletionJob hw).bind fun _ => ?_
  exact (keeps_insertDeletionJob hw).bind fun _ => keeps_insertDeletionJob hw

theorem keeps_approveArtifact {x : Artifact} {user : Uuid} {comment : String} :
    Keeps f (approveArtifact x user comment) := by
  apply keeps_ensure.bind fun _ => (hw _).bind fun _ => (hw _).bind fun _ => ?_
  apply keeps_read.bind fun _ => Keeps.when ?_
  apply keeps_read.bind fun _ => (Keeps.when (keeps_transitionSession hw)).bind fun _ => ?_
  exact keeps_transitionSession hw

theorem keeps_rejectArtifact {ids : RetryIds} {now : Timestamp} {x : Artifact} {user : Uuid}
    {comment : String} : Keeps f (rejectArtifact ids now x user comment) :=
  keeps_ensure.bind fun _ => (hw _).bind fun _ => (hw _).bind fun _ => keeps_insertJob hw

theorem keeps_register {env : AuthEnv} {ids : RegisterIds} {body : RegisterRequest} :
    Keeps f (register env ids body) := by
  apply keeps_read.bind fun _ => keeps_ensure.bind fun _ => keeps_read.bind fun _ => ?_
  -- the organization, the user and the device, each with the limits of its columns
  apply (keeps_read.bind fun _ => keeps_ensure.bind fun _ => keeps_ensure.bind fun _ =>
    keeps_ensure.bind fun _ => hw _).bind fun _ => ?_
  apply keeps_answer.bind fun _ => (keeps_read.bind fun _ => keeps_ensure.bind fun _ =>
    keeps_ensure.bind fun _ => keeps_ensure.bind fun _ => keeps_ensure.bind fun _ =>
      hw _).bind fun _ => ?_
  exact keeps_read.bind fun _ => keeps_ensure.bind fun _ => hw _

theorem keeps_createSession {uuid4 user : Uuid} {body : SessionCreateRequest} :
    Keeps f (createSession uuid4 body user) := by
  apply keeps_resolveDevice.bind fun _ => ?_
  exact keeps_read.bind fun _ => keeps_ensure.bind fun _ => keeps_read.bind fun _ =>
    keeps_ensure.bind fun _ => keeps_ensure.bind fun _ => hw _

theorem keeps_updateSessionStatus {ids : PipelineIds} {now : Timestamp} {sid : PathId}
    {status : String} {user : Uuid} : Keeps f (updateSessionStatus ids now sid status user) := by
  apply keeps_getSessionOr404.bind fun _ => keeps_require.bind fun _ => keeps_ensure.bind fun _ => ?_
  apply (hw _).bind fun _ => Keeps.when ?_
  exact keeps_ensure.bind fun _ => keeps_createJobsForSession hw

theorem keeps_retractSessionEndpoint {ids : SagaIds} {now : Timestamp} {sid : PathId}
    {user : Uuid} : Keeps f (retractSessionEndpoint ids now sid user) :=
  keeps_getSessionOr404.bind fun _ => keeps_ensure.bind fun _ =>
    (keeps_retractSession hw).bind fun _ => hw _

theorem keeps_reviewArtifact {ids : RetryIds} {now : Timestamp} {aid : PathId}
    {body : ReviewRequest} {user : Uuid} : Keeps f (reviewArtifact ids now aid body user) := by
  apply keeps_getArtifactOr404.bind fun _ => ?_
  split
  · exact (keeps_approveArtifact hw).bind fun _ => keeps_respondArtifact.bind fun _ => keeps_pure
  · exact (keeps_rejectArtifact hw).bind fun _ => keeps_respondArtifact.bind fun _ => keeps_pure

theorem keeps_publishArtifact {uuid4 : Uuid} {now : Timestamp} {aid : PathId} :
    Keeps f (publishArtifact uuid4 now aid) :=
  keeps_getArtifactOr404.bind fun _ => keeps_ensure.bind fun _ =>
    (keeps_ensure.bind fun _ => (keeps_insertJob hw).bind fun _ =>
      keeps_transitionSession hw).bind fun _ => keeps_respondArtifact.bind fun _ => keeps_pure

theorem keeps_updateArtifact {aid : PathId} {body : ArtifactUpdateRequest} :
    Keeps f (updateArtifact aid body) := by
  apply keeps_getArtifactOr404.bind fun _ => keeps_ensure.bind fun _ => keeps_ensure.bind fun _ => ?_
  exact keeps_ensure.bind fun _ => (hw _).bind fun _ => keeps_respondArtifact.bind fun _ =>
    keeps_pure

end Flushes

section Refusal

variable {ω : Type} {f : Tx Db Files → ω} {w : World} {r : Request}

/-- Apart from an upload, an endpoint only flushes writes. -/
theorem keeps_run (hf : ∀ t g, f (t.flush g) = f t) {now : Timestamp}
    (hr : ∀ user uuid4 sid file, r ≠ .uploadAudio user uuid4 sid file) : Keeps f (r.run now) := by
  have hw (g : Db → Db) : Keeps f (write g : DbM Unit) := fun t => hf t g
  have authenticated {user : Uuid} {p : User → DbM Unit} (hp : ∀ u, Keeps f (p u)) :
      Keeps f (getCurrentUser user >>= p) :=
    (keeps_read.bind fun _ => keeps_require).bind hp
  cases r with
  | register => exact keeps_register hw
  | createSession => exact authenticated fun _ => keeps_createSession hw
  | updateConsent =>
    exact authenticated fun _ => keeps_getSessionOr404.bind fun _ => keeps_ensure.bind fun _ =>
      (hw _).bind fun _ => hw _
  | updateSessionStatus => exact authenticated fun _ => keeps_updateSessionStatus hw
  | uploadAudio => exact absurd rfl (hr _ _ _ _)
  | cancelSession =>
    exact authenticated fun _ => keeps_getSessionOr404.bind fun _ => keeps_ensure.bind fun _ => hw _
  | retractSession => exact authenticated fun _ => keeps_retractSessionEndpoint hw
  | updateArtifact =>
    exact authenticated fun _ => keeps_updateArtifact hw
  | reviewArtifact => exact authenticated fun _ => keeps_reviewArtifact hw
  | publishArtifact => exact authenticated fun _ => keeps_publishArtifact hw

theorem keeps_committed_run {now : Timestamp} : Keeps Tx.committed (r.run now) := by
  by_cases hr : ∀ user uuid4 sid file, r ≠ .uploadAudio user uuid4 sid file
  · exact keeps_run (fun _ _ => rfl) hr
  · push Not at hr
    obtain ⟨user, uuid4, sid, file, rfl⟩ := hr
    refine (keeps_read.bind fun _ => keeps_require).bind fun u => keeps_getSessionOr404.bind
      fun s => keeps_writeOutside_committed.bind fun _ => keeps_ensure.bind fun _ => ?_
    exact keeps_write_committed

theorem serve_of_returns {t : Tx Db Files}
    (ht : (r.run w.now).Returns (Tx.start w.db w.files) () t) : (w.serve r).db = t.view := by
  rw [World.serve, show r.run w.now _ = _ from ht]
  rfl

theorem serve_of_accepts (h : w.Accepts r) : RequestEffect w r (w.serve r).db := by
  obtain ⟨t, ht⟩ := h
  exact serve_of_returns ht ▸ requestEffect_of_returns ht

theorem serve_of_not_accepts (h : ¬ w.Accepts r) : (w.serve r).db = w.db := by
  unfold World.serve
  split
  next u t ht => exact absurd ⟨t, ht⟩ h
  next e t ht =>
    have hc : Keeps Tx.committed (r.run w.now) := keeps_committed_run
    have hk := hc (Tx.start w.db w.files)
    rw [ht] at hk
    exact hk

/-- The request is an upload that saves `key` for the session `s`, whether or not it succeeds. -/
def World.Saves (w : World) (r : Request) (s : Session) (key : AudioKey) : Prop :=
  ∃ user uuid4 file, r = .uploadAudio user uuid4 (some s.id) file ∧
    (∃ v ∈ w.db.users, v.id = user) ∧ s ∈ w.db.sessions ∧ s.userId = user ∧
    key = ⟨uuid4, getAudioFormat file.filename file.contentType⟩

theorem serve_files (w : World) (r : Request) :
    (∃ s key, w.Saves r s key ∧ (w.serve r).files = key :: w.files) ∨
      (∀ s key, ¬ w.Saves r s key) ∧ (w.serve r).files = w.files := by
  have hs : (w.serve r).files = (r.run w.now (Tx.start w.db w.files)).2.outside := by
    unfold World.serve
    split <;> simp_all
  rw [hs]
  by_cases hr : ∀ user uuid4 sid file, r ≠ .uploadAudio user uuid4 sid file
  · refine .inr ⟨?_, keeps_run (fun _ _ => rfl) hr _⟩
    rintro s key ⟨user, uuid4, file, rfl, -⟩
    exact hr _ _ _ _ rfl
  · push Not at hr
    obtain ⟨user, uuid4, sid, file, rfl⟩ := hr
    by_cases hv : ∃ v ∈ w.db.users, v.id = user
    swap
    · refine .inr ⟨?_, (keeps_read.bind fun _ => keeps_require).bind_of_not_returns ?_⟩
      · rintro s key ⟨_, _, _, ⟨⟩, hv', -⟩
        exact hv hv'
      · intro u t hu
        obtain ⟨⟨v, hm, hi, -⟩, -⟩ := returns_getCurrentUser.mp hu
        exact hv ⟨v, hm, hi⟩
    obtain ⟨v, hm, rfl⟩ := hv
    have hu : (getCurrentUser v.id).Returns (Tx.start w.db w.files) v (Tx.start w.db w.files) :=
      returns_getCurrentUser.mpr ⟨⟨v, hm, rfl, rfl⟩, rfl⟩
    rw [Request.run, bind_of_returns hu]
    by_cases hs' : ∃ s ∈ w.db.sessions, sid = some s.id ∧ s.userId = v.id
    · obtain ⟨s, hsm, rfl, hsu⟩ := hs'
      refine .inl ⟨s, _, ⟨v.id, uuid4, file, rfl, ⟨v, hm, rfl⟩, hsm, hsu, rfl⟩, ?_⟩
      have hg : (getSessionOr404 (some s.id) v.id).Returns (Tx.start w.db w.files) s
          (Tx.start w.db w.files) := by
        simp only [getSessionOr404, returns_bind, returns_read, returns_require]
        refine ⟨_, _, ⟨rfl, rfl⟩, _, _, ⟨rfl, rfl⟩, ?_, rfl⟩
        exact Table.find?_of_mem hsm (by simp [hsu]) (by simp +contextual)
      rw [uploadAudio, bind_of_returns hg]
      exact (keeps_ensure.bind fun _ => keeps_write_outside) _
    · refine .inr ⟨?_, keeps_getSessionOr404.bind_of_not_returns ?_⟩
      · rintro s key ⟨_, _, _, ⟨⟩, -, hsm, hsu, -⟩
        exact hs' ⟨s, hsm, rfl, hsu⟩
      · intro s t hg
        obtain ⟨hsm, rfl, hsu, -⟩ := returns_getSessionOr404 hg
        exact hs' ⟨s, hsm, rfl, hsu⟩

end Refusal

end AiBadge
