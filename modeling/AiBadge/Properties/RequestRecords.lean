import AiBadge.Lib.Projection
import AiBadge.Properties.PublishTruth

/-! # What requests leave on record

The job queue, the deletion queue and the audit log hold exactly what the accepted requests of a
run have put there, in their order. Workers change the progress of a row, and never add or remove
one.
-/

namespace AiBadge

open Lib Prog SessionStatus

/-- The columns of a job that are set when it is queued. -/
structure JobOrder where
  id : Uuid
  idempotencyKey : String
  sessionId : Option Uuid
  jobType : JobType
  inputPayload : JobInput
  priority : Int
  maxRetries : Nat
  createdAt : Timestamp

def Job.order (j : Job) : JobOrder where
  id := j.id
  idempotencyKey := j.idempotencyKey
  sessionId := j.sessionId
  jobType := j.jobType
  inputPayload := j.inputPayload
  priority := j.priority
  maxRetries := j.maxRetries
  createdAt := j.createdAt

/-- The columns of a deletion job that are set when it is queued. -/
structure DeletionOrder where
  id : Uuid
  sessionId : Option Uuid
  resourceType : DeletionType
  resourceId : Uuid
  cascadeTargets : Option CascadeTargets
  nextRunAt : Option Timestamp
  createdAt : Timestamp

def DeletionJob.order (d : DeletionJob) : DeletionOrder where
  id := d.id
  sessionId := d.sessionId
  resourceType := d.resourceType
  resourceId := d.resourceId
  cascadeTargets := d.cascadeTargets
  nextRunAt := d.nextRunAt
  createdAt := d.createdAt

structure Records where
  jobs : List JobOrder
  deletionJobs : List DeletionOrder
  auditLogs : List AuditLog

namespace Records

def empty : Records := ⟨[], [], []⟩

/-- The records with the `new` ones behind them. -/
def add (new r : Records) : Records where
  jobs := r.jobs ++ new.jobs
  deletionJobs := r.deletionJobs ++ new.deletionJobs
  auditLogs := r.auditLogs ++ new.auditLogs

@[simp] theorem add_empty {r : Records} : empty.add r = r := by
  simp [add, empty]

end Records

def Db.records (db : Db) : Records where
  jobs := db.jobs.rows.map Job.order
  deletionJobs := db.deletionJobs.rows.map DeletionJob.order
  auditLogs := db.auditLogs

/-- What a request puts on record, once it is accepted. -/
def Request.records (w : World) : Request → Records
  | updateConsent user (some sid) consent =>
    { Records.empty with
      auditLogs := [sessionAudit w.now (if consent then .consentGranted else .consentRevoked) sid
        user] }
  | updateSessionStatus _ ids (some sid) text =>
    if parse? text = some processing then
      { Records.empty with
        jobs := [(stageJob ids.transcribe w.now sid .transcribe).order,
          (stageJob ids.summarize w.now sid .summarize).order,
          (stageJob ids.extractArtifact w.now sid .extractArtifact).order] }
    else .empty
  | retractSession user ids (some sid) =>
    { Records.empty with
      deletionJobs := [(sagaJob ids.artifactRows w.now sid .deleteArtifactRows
          { description := some "Hard-delete all artifacts" }).order,
        (sagaJob ids.localAudio w.now sid .deleteLocalAudio
          { audioKey := (w.db.session? sid).bind Session.audioKey }).order,
        (sagaJob ids.feishuDocs w.now sid .deleteFeishuDocs
          { description := some "Feishu stub" }).order]
      auditLogs := [sessionAudit w.now .retractInitiated sid user] }
  | reviewArtifact _ ids (some aid) ⟨.reject, comment⟩ =>
    { Records.empty with
      jobs := ((w.db.artifact? aid).map fun x => (retryJob ids w.now x comment).order).toList }
  | publishArtifact _ uuid4 (some aid) =>
    { Records.empty with
      jobs := ((w.db.artifact? aid).map fun x => (publishJob uuid4 w.now x).order).toList }
  | _ => .empty

/-- What an action puts on record, if it is an accepted request. -/
def World.records? (w : World) : Action → Option Records
  | .request r => if w.Accepts r then some (r.records w) else none
  | _ => none

/-- What the accepted requests of a run put on record. -/
def recorded (tr : List (Transition World Action)) : Records :=
  project World.records? Records.add .empty tr

section Step

variable {w w' : World} {a : Action} {db db' : Db}

theorem Db.records_congr (hj : db'.jobs = db.jobs) (hd : db'.deletionJobs = db.deletionJobs)
    (ha : db'.auditLogs = db.auditLogs) : db'.records = db.records := by
  rw [Db.records, hj, hd, ha, Db.records]

theorem records_of_pipeline {ids : PipelineIds} {sid : Uuid} (h : db.PipelineFree ids w.now sid) :
    (addPipeline ids w.now sid db).records = Records.add { Records.empty with
      jobs := [(stageJob ids.transcribe w.now sid .transcribe).order,
        (stageJob ids.summarize w.now sid .summarize).order,
        (stageJob ids.extractArtifact w.now sid .extractArtifact).order] } db.records := by
  have hfirst : ∀ r ∈ db.jobs, r.id ≠ ids.transcribe := fun r hr => (h.transcribe r hr).1
  have hsecond : ∀ r ∈ db.jobs.insert (stageJob ids.transcribe w.now sid .transcribe),
      r.id ≠ ids.summarize := by
    intro r hr
    rcases Table.mem_of_mem_insert hr with hr | rfl
    · exact (h.summarize r hr).1
    · exact h.ne₁
  have hthird : ∀ r ∈ (db.jobs.insert (stageJob ids.transcribe w.now sid .transcribe)).insert
      (stageJob ids.summarize w.now sid .summarize), r.id ≠ ids.extractArtifact := by
    intro r hr
    rcases Table.mem_of_mem_insert hr with hr | rfl
    · rcases Table.mem_of_mem_insert hr with hr | rfl
      · exact (h.extractArtifact r hr).1
      · exact h.ne₂
    · exact h.ne₃
  rw [Db.records, addPipeline_jobs, addPipeline_deletionJobs, addPipeline_auditLogs,
    Table.rows_insert_of_not_mem hthird, Table.rows_insert_of_not_mem hsecond,
    Table.rows_insert_of_not_mem hfirst]
  simp [Records.add, Records.empty, Db.records]

theorem records_of_saga {ids : SagaIds} {s : Session} (h : db.SagaFree ids) :
    (addSaga ids w.now s db).records = Records.add { Records.empty with
      deletionJobs := [(sagaJob ids.artifactRows w.now s.id .deleteArtifactRows
          { description := some "Hard-delete all artifacts" }).order,
        (sagaJob ids.localAudio w.now s.id .deleteLocalAudio { audioKey := s.audioKey }).order,
        (sagaJob ids.feishuDocs w.now s.id .deleteFeishuDocs
          { description := some "Feishu stub" }).order] } db.records := by
  have hsecond : ∀ r ∈ db.deletionJobs.insert (sagaJob ids.artifactRows w.now s.id
      .deleteArtifactRows { description := some "Hard-delete all artifacts" }),
      r.id ≠ ids.localAudio := by
    intro r hr
    rcases Table.mem_of_mem_insert hr with hr | rfl
    · exact h.localAudio r hr
    · exact h.ne₁
  have hthird : ∀ r ∈ (db.deletionJobs.insert (sagaJob ids.artifactRows w.now s.id
      .deleteArtifactRows { description := some "Hard-delete all artifacts" })).insert
        (sagaJob ids.localAudio w.now s.id .deleteLocalAudio { audioKey := s.audioKey }),
      r.id ≠ ids.feishuDocs := by
    intro r hr
    rcases Table.mem_of_mem_insert hr with hr | rfl
    · rcases Table.mem_of_mem_insert hr with hr | rfl
      · exact h.feishuDocs r hr
      · exact h.ne₂
    · exact h.ne₃
  have hrows₁ := Table.rows_insert_of_not_mem (r := sagaJob ids.artifactRows w.now s.id
    .deleteArtifactRows { description := some "Hard-delete all artifacts" }) h.artifactRows
  have hrows₂ := Table.rows_insert_of_not_mem (r := sagaJob ids.localAudio w.now s.id
    .deleteLocalAudio { audioKey := s.audioKey }) hsecond
  have hrows₃ := Table.rows_insert_of_not_mem (r := sagaJob ids.feishuDocs w.now s.id
    .deleteFeishuDocs { description := some "Feishu stub" }) hthird
  rw [hrows₂, hrows₁] at hrows₃
  simp [addSaga, Records.add, Records.empty, Db.records, hrows₃]

theorem records_of_addJob {j : Job} (h : db.KeyFree j) :
    (db.addJob j).records = Records.add { Records.empty with jobs := [j.order] } db.records := by
  rw [Db.records, Db.addJob_jobs, Table.rows_insert_of_not_mem fun r hr => (h r hr).1]
  simp [Records.add, Records.empty, Db.records]

/-- An accepted request leaves its records behind those that are there. -/
theorem records_of_served {r : Request} (h : RequestEffect w r db) :
    db.records = (r.records w).add w.db.records := by
  have none_of {db : Db} (hr : r.records w = .empty) (hj : db.jobs = w.db.jobs)
      (hd : db.deletionJobs = w.db.deletionJobs) (ha : db.auditLogs = w.db.auditLogs) :
      db.records = (r.records w).add w.db.records := by
    rw [hr, Records.add_empty]
    exact Db.records_congr hj hd ha
  cases h with
  | register _ hj _ ha hd => exact none_of rfl hj hd ha
  | createSession => exact none_of rfl rfl rfl rfl
  | updateConsent => simp [Db.records, Request.records, Records.add, Records.empty]
  | updateStatus _ _ ht _ hp =>
    apply none_of _ rfl rfl rfl
    rw [Request.records, if_neg]
    rintro he
    exact hp (Option.some.inj (ht.symm.trans he))
  | @startProcessing user ids s text _ _ ht _ _ hf =>
    have hfree : (w.db.setSession s.id (Session.withStatus processing)).PipelineFree ids w.now s.id :=
      ⟨hf.transcribe, hf.summarize, hf.extractArtifact, hf.ne₁, hf.ne₂, hf.ne₃⟩
    rw [records_of_pipeline hfree, Request.records, if_pos ht]
    rfl
  | uploadAudio => exact none_of rfl rfl rfl rfl
  | cancelSession => exact none_of rfl rfl rfl rfl
  | @retractSession user ids s hs _ _ hf =>
    have hfree : (w.db.setSession s.id (Session.withTombstone w.now user "")).SagaFree ids :=
      ⟨hf.artifactRows, hf.localAudio, hf.feishuDocs, hf.ne₁, hf.ne₂, hf.ne₃⟩
    have hsaga := records_of_saga (w := w) (s := s) hfree
    rw [Request.records, Db.session?_eq_some.mpr ⟨hs, rfl⟩]
    have haudit (d : Db) (l : AuditLog) : (d.addAudit l).records =
        Records.add { Records.empty with auditLogs := [l] } d.records := by
      simp [Db.records, Records.add, Records.empty]
    rw [haudit, hsaga]
    simp [Records.add, Records.empty, Db.records]
  | updateArtifact => exact none_of rfl rfl rfl rfl
  | approve => exact none_of rfl rfl rfl rfl
  | approveAll =>
    exact none_of rfl (advanceSession_jobs _ _) (advanceSession_deletionJobs _ _)
      (advanceSession_auditLogs _ _)
  | reject hx hf =>
    rw [Request.records, Db.artifact?_eq_some.mpr ⟨hx, rfl⟩]
    exact records_of_addJob hf
  | publishArtifact hx _ _ _ _ hf =>
    rw [Request.records, Db.artifact?_eq_some.mpr ⟨hx, rfl⟩]
    exact records_of_addJob hf

@[simp] theorem Job.order_withRelease (j : Job) : j.withRelease.order = j.order := rfl

@[simp] theorem Job.order_withStart (j : Job) (now : Timestamp) :
    (j.withStart now).order = j.order := rfl

@[simp] theorem Job.order_withOutput (j : Job) (x : Json) : (j.withOutput x).order = j.order := rfl

@[simp] theorem Job.order_withUnknownType (j : Job) (now : Timestamp) :
    (j.withUnknownType now).order = j.order := rfl

@[simp] theorem Job.order_withHeartbeat (j : Job) (now : Timestamp) :
    (j.withHeartbeat now).order = j.order := rfl

@[simp] theorem Job.order_recordFailure (j : Job) (now : Timestamp) (e : Exn) :
    (recordFailure now e j).order = j.order := by
  unfold recordFailure
  split
  · split
    · rfl
    · rfl
  · rfl

/-- A change of jobs that their orders do not show. -/
theorem Db.records_setJob {id : Uuid} {f : Job → Job} {hf : ∀ j, (f j).id = j.id}
    (h : ∀ j, (f j).order = j.order) : (db.setJob id f hf).records = db.records := by
  rw [Db.records, Db.setJob_jobs _ _ _ hf, Table.map_update h]
  rfl

theorem Db.records_setDeletionJob {id : Uuid} {f : DeletionJob → DeletionJob}
    {hf : ∀ d, (f d).id = d.id} (h : ∀ d, (f d).order = d.order) :
    (db.setDeletionJob id f hf).records = db.records := by
  rw [Db.records, Db.setDeletionJob_deletionJobs _ _ _ hf, Table.map_update h]
  rfl

@[simp] theorem records_releaseTimedOutJobs {now : Timestamp} :
    (releaseTimedOutJobs now db).records = db.records := by
  rw [Db.records, releaseTimedOutJobs_jobs, Table.map_update Job.order_withRelease]
  rfl

theorem records_of_commit {input : HandlerInput} {j : Job} (h : HandlerCommit db input j db') :
    db'.records = db.records := by
  cases h with
  | transcribe => exact Db.records_setJob fun j => j.order_withOutput _
  | summarize => exact Db.records_setJob fun j => j.order_withOutput _
  | extractArtifact => exact Db.records_setJob fun j => j.order_withOutput _
  | publishMissing => exact Db.records_setJob fun j => j.order_withOutput _
  | publish => exact Db.records_setJob fun j => j.order_withOutput _

theorem records_of_deletion {d : DeletionJob} {files files' : Files}
    (h : DeletionEffect d db files db' files') : db'.records = db.records := by
  cases h with
  | artifactRows =>
    apply (Db.records_setDeletionJob (by intro; rfl)).trans
    cases d.sessionId <;> rfl
  | localAudio => exact Db.records_setDeletionJob (by intro; rfl)
  | feishuDocs => exact Db.records_setDeletionJob (by intro; rfl)
  | failed => exact Db.records_setDeletionJob (by intro; rfl)

/-- What a session carries into the deletion half puts nothing on record. -/
theorem Leftover.records {now : Timestamp} {pending : List (Db → Db)} (h : Leftover now pending) :
    (w.session pending).view.records = w.db.records := by
  cases h with
  | nothing => rfl
  | released => exact records_releaseTimedOutJobs
  | marked => rfl

/-- A step puts on record what its request does, if it is one that is accepted. -/
theorem records_of_step (hw : w.Settled) (h : w.step a = some w') :
    w'.db.records = (w.records? a).elim w.db.records fun e => e.add w.db.records := by
  obtain ⟨-, w₁, hact, rfl⟩ := World.step_eq_some.mp h
  have he := World.effect_of_act hact
  change w₁.db.records = _
  generalize w₁.files = files at he
  generalize w₁.db = db at he
  cases he with
  | @refused r hn =>
    rw [World.records?, if_neg hn]
    rfl
  | @served r _ ha he =>
    rw [World.records?, if_pos ha]
    exact records_of_served he
  | silent hs => cases a <;> first | rfl | exact hs.elim
  | claimed =>
    apply (Db.records_setJob fun j => j.order_withStart w.now).trans
    exact records_releaseTimedOutJobs
  | committed _ _ _ he => exact records_of_commit he
  | raised => rfl
  | unknown => exact Db.records_setJob fun j => j.order_withUnknownType w.now
  | failed => exact Db.records_setJob fun j => j.order_recordFailure w.now _
  | heartbeat =>
    rw [Db.records, sendHeartbeat_jobs, Table.map_update fun j => j.order_withHeartbeat w.now]
    rfl
  | deletion hp _ he => exact (records_of_deletion he).trans (hw.tail hp).records
  | crashedDeletion => rfl

end Step

/-- In every run the job queue, the deletion queue and the audit log hold what the accepted
requests put there, each row once and in the order of the requests, with the columns it was
written with. -/
theorem records_of_run {now : Timestamp} {tr : List (Transition World Action)} {w : World}
    (hr : SystemRun now tr w) : w.db.records = recorded tr := by
  apply hr.eq_project (f := fun w => w.db.records)
  intro tr w a w' hr hstep
  exact records_of_step (World.settled_of_run hr) hstep

/-- A session that is published and retracted, with the three jobs of its retraction. -/
theorem records_of_run_publishedThenErased : ∃ tr w, SystemRun 0 tr w ∧
    w.db.records = recorded tr ∧ (recorded tr).jobs.length = 6 ∧
      (recorded tr).deletionJobs.length = 3 ∧ (recorded tr).auditLogs.length = 2 := by
  obtain ⟨tr, w, hr, hp⟩ := exists_run (fun (_ : List (Transition World Action)) (w : World) =>
      decide (w.db.jobs.rows.length = 6) && decide (w.db.deletionJobs.rows.length = 3) &&
        decide (w.db.auditLogs.length = 2))
    (by decide +kernel : (execute World.step (World.init 0) publishedThenErased).any _ = true)
  simp only [Bool.and_eq_true, decide_eq_true_eq] at hp
  have he := records_of_run hr
  refine ⟨tr, w, hr, he, ?_⟩
  rw [← he]
  simpa [Db.records, and_assoc] using hp

end AiBadge
