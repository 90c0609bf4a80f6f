import AiBadge.Lib.Agreement
import AiBadge.System.FileStep

/-! # Two databases that agree on one session

Two databases are alike for a session when they hold the same rows of it. Writes to these rows keep
them alike, writes to other rows leave the part of the session as it was, and the handler of a job of
the session ends alike on both.
-/

namespace AiBadge

open Lib Prog DbM

/-- The rows that belong to a session. -/
structure SessionPart where
  session : Option Session
  artifacts : List Artifact
  jobs : List Job
  deletionJobs : List DeletionJob

def Db.part (db : Db) (sid : Uuid) : SessionPart where
  session := db.session? sid
  artifacts := db.artifacts.select fun x => x.sessionId = sid
  jobs := db.jobs.select fun j => j.sessionId = some sid
  deletionJobs := db.deletionJobs.select fun d => d.sessionId = some sid

/-- A session, and the audio files that are its own. -/
structure Scope where
  sessionId : Uuid
  keys : AudioKey → Prop

/-- The databases hold the same part. -/
structure Db.Alike (c : Scope) (db₀ db₁ : Db) : Prop where
  session : db₁.session? c.sessionId = db₀.session? c.sessionId
  artifacts : db₁.artifacts.select (fun x => x.sessionId = c.sessionId) =
    db₀.artifacts.select fun x => x.sessionId = c.sessionId
  jobs : db₁.jobs.select (fun j => j.sessionId = some c.sessionId) =
    db₀.jobs.select fun j => j.sessionId = some c.sessionId
  deletionJobs : db₁.deletionJobs.select (fun d => d.sessionId = some c.sessionId) =
    db₀.deletionJobs.select fun d => d.sessionId = some c.sessionId

namespace Db.Alike

variable {c : Scope} {db₀ db₁ db₂ : Db}

theorem iff_part : db₀.Alike c db₁ ↔ db₁.part c.sessionId = db₀.part c.sessionId := by
  constructor
  · intro h
    rw [Db.part, Db.part, h.session, h.artifacts, h.jobs, h.deletionJobs]
  · intro h
    exact ⟨congrArg SessionPart.session h, congrArg SessionPart.artifacts h,
      congrArg SessionPart.jobs h, congrArg SessionPart.deletionJobs h⟩

theorem refl (db : Db) : db.Alike c db := ⟨rfl, rfl, rfl, rfl⟩

theorem symm (h : db₀.Alike c db₁) : db₁.Alike c db₀ := iff_part.mpr (iff_part.mp h).symm

theorem trans (h : db₀.Alike c db₁) (h' : db₁.Alike c db₂) : db₀.Alike c db₂ :=
  iff_part.mpr ((iff_part.mp h').trans (iff_part.mp h))

section Rows

variable (h : db₀.Alike c db₁)
include h

theorem mem_session {s : Session} (hi : s.id = c.sessionId) : s ∈ db₀.sessions ↔ s ∈ db₁.sessions := by
  have hs : db₁.session? c.sessionId = some s ↔ db₀.session? c.sessionId = some s := by rw [h.session]
  simpa [Db.session?_eq_some, hi] using hs.symm

theorem mem_artifact {x : Artifact} (hs : x.sessionId = c.sessionId) :
    x ∈ db₀.artifacts ↔ x ∈ db₁.artifacts := by
  have hx : x ∈ db₁.artifacts.select (fun x => x.sessionId = c.sessionId) ↔
      x ∈ db₀.artifacts.select fun x => x.sessionId = c.sessionId := by rw [h.artifacts]
  simpa [hs] using hx.symm

theorem mem_job {j : Job} (hs : j.sessionId = some c.sessionId) : j ∈ db₀.jobs ↔ j ∈ db₁.jobs := by
  have hj : j ∈ db₁.jobs.select (fun j => j.sessionId = some c.sessionId) ↔
      j ∈ db₀.jobs.select fun j => j.sessionId = some c.sessionId := by rw [h.jobs]
  simpa [hs] using hj.symm

theorem mem_deletionJob {d : DeletionJob} (hs : d.sessionId = some c.sessionId) :
    d ∈ db₀.deletionJobs ↔ d ∈ db₁.deletionJobs := by
  have hd : d ∈ db₁.deletionJobs.select (fun d => d.sessionId = some c.sessionId) ↔
      d ∈ db₀.deletionJobs.select fun d => d.sessionId = some c.sessionId := by rw [h.deletionJobs]
  simpa [hs] using hd.symm

theorem completedJobs (ty : JobType) : completedJobs db₁ (some c.sessionId) ty =
    completedJobs db₀ (some c.sessionId) ty := by
  have filter (db : Db) : AiBadge.completedJobs db (some c.sessionId) ty =
      (db.jobs.select fun j => j.sessionId = some c.sessionId).filter fun j =>
        j.jobType = ty && j.status = .completed := by
    rw [AiBadge.completedJobs, Table.select, Table.select, List.filter_filter]
    exact List.filter_congr fun j _ => by rw [Bool.and_assoc, Bool.and_comm]
  rw [filter, filter, h.jobs]

/-- An update of job rows that keeps them in their sessions. -/
theorem updateJobs {p : Job → Bool} {f : Job → Job} (hf : ∀ j, (f j).id = j.id)
    (hs : ∀ j, (f j).sessionId = j.sessionId) : Db.Alike c
      { db₀ with jobs := db₀.jobs.update p f hf } { db₁ with jobs := db₁.jobs.update p f hf } where
  session := h.session
  artifacts := h.artifacts
  jobs := by
    change (db₁.jobs.update p f hf).select _ = (db₀.jobs.update p f hf).select _
    rw [Table.select_update (by simp [hs]), Table.select_update (by simp [hs]), h.jobs]
  deletionJobs := h.deletionJobs

theorem setSession (sid : Uuid) {f : Session → Session} (hf : ∀ s, (f s).id = s.id) :
    Db.Alike c (db₀.setSession sid f hf) (db₁.setSession sid f hf) where
  session := by
    have hs := h.session
    simp only [Db.session?, Db.setSession_sessions] at hs ⊢
    rw [Table.find?_update (by simp [hf]), Table.find?_update (by simp [hf]), hs]
  artifacts := h.artifacts
  jobs := h.jobs
  deletionJobs := h.deletionJobs

theorem setArtifact (aid : Uuid) {f : Artifact → Artifact} (hf : ∀ x, (f x).id = x.id)
    (hs : ∀ x, (f x).sessionId = x.sessionId) :
    Db.Alike c (db₀.setArtifact aid f hf) (db₁.setArtifact aid f hf) where
  session := h.session
  artifacts := by
    simp only [Db.setArtifact_artifacts]
    rw [Table.select_update (by simp [hs]), Table.select_update (by simp [hs]), h.artifacts]
  jobs := h.jobs
  deletionJobs := h.deletionJobs

theorem addArtifact {x : Artifact} (h₀ : ∀ y ∈ db₀.artifacts, y.id ≠ x.id)
    (h₁ : ∀ y ∈ db₁.artifacts, y.id ≠ x.id) : Db.Alike c (db₀.addArtifact x) (db₁.addArtifact x) where
  session := h.session
  artifacts := by
    simp only [Db.addArtifact_artifacts]
    rw [Table.select_insert_of_not_mem h₀, Table.select_insert_of_not_mem h₁, h.artifacts]
  jobs := h.jobs
  deletionJobs := h.deletionJobs

theorem deleteArtifacts (sid : Uuid) :
    Db.Alike c (db₀.deleteArtifacts sid) (db₁.deleteArtifacts sid) where
  session := h.session
  artifacts := by
    have del (db : Db) : (db.deleteArtifacts sid).artifacts.select
        (fun x => x.sessionId = c.sessionId) =
        (db.artifacts.select fun x => x.sessionId = c.sessionId).filter fun x =>
          x.sessionId ≠ sid := by
      simp [Table.select, Table.delete, List.filter_filter, Bool.and_comm]
    rw [del, del, h.artifacts]
  jobs := h.jobs
  deletionJobs := h.deletionJobs

theorem setDeletionJob (id : Uuid) {f : DeletionJob → DeletionJob} (hf : ∀ d, (f d).id = d.id)
    (hs : ∀ d, (f d).sessionId = d.sessionId) :
    Db.Alike c (db₀.setDeletionJob id f hf) (db₁.setDeletionJob id f hf) where
  session := h.session
  artifacts := h.artifacts
  jobs := h.jobs
  deletionJobs := by
    simp only [Db.setDeletionJob_deletionJobs]
    rw [Table.select_update (by simp [hs]), Table.select_update (by simp [hs]), h.deletionJobs]

end Rows

end Db.Alike

section Frame

variable {c : Scope} {db : Db}

/-- An update of job rows leaves the part alone just if it changes no job of the session. -/
theorem alike_updateJobs {p : Job → Bool} {f : Job → Job} {hf : ∀ j, (f j).id = j.id}
    (hs : ∀ j, (f j).sessionId = j.sessionId) :
    db.Alike c { db with jobs := db.jobs.update p f hf } ↔
      ∀ j ∈ db.jobs, j.sessionId = some c.sessionId → p j = true → f j = j := by
  have hsel : (db.jobs.update p f hf).select (fun j => j.sessionId = some c.sessionId) =
      db.jobs.select (fun j => j.sessionId = some c.sessionId) ↔ _ :=
    Table.select_update_eq_iff fun j => by rw [hs]
  simp only [decide_eq_true_eq] at hsel
  exact ⟨fun h => hsel.mp h.jobs, fun h => ⟨rfl, rfl, hsel.mpr h, rfl⟩⟩

theorem alike_setArtifact {aid : Uuid} {f : Artifact → Artifact} {hf : ∀ x, (f x).id = x.id}
    (hs : ∀ x, (f x).sessionId = x.sessionId) : db.Alike c (db.setArtifact aid f hf) ↔
      ∀ x ∈ db.artifacts, x.sessionId = c.sessionId → x.id = aid → f x = x := by
  have hsel : (db.artifacts.update (fun x => x.id = aid) f hf).select
        (fun x => x.sessionId = c.sessionId) =
      db.artifacts.select (fun x => x.sessionId = c.sessionId) ↔ _ :=
    Table.select_update_eq_iff fun x => by rw [hs]
  simp only [decide_eq_true_eq] at hsel
  exact ⟨fun h => hsel.mp h.artifacts, fun h => ⟨rfl, hsel.mpr h, rfl, rfl⟩⟩

/-- The release of timed out jobs. -/
theorem alike_release {t : Timestamp} : db.Alike c (releaseTimedOutJobs t db) ↔
    ∀ j ∈ db.jobs, j.sessionId = some c.sessionId → timedOut t j = false := by
  have h : db.Alike c (releaseTimedOutJobs t db) ↔ ∀ j ∈ db.jobs, j.sessionId = some c.sessionId →
      timedOut t j = true → j.withRelease = j := alike_updateJobs (by intro; rfl)
  refine h.trans (forall₂_congr fun j _ => imp_congr_right fun _ => ?_)
  constructor
  · intro hr
    by_contra ht
    have ht : timedOut t j = true := by simpa using ht
    have hrun : j.status = .running := of_decide_eq_true (Bool.and_eq_true_iff.mp ht).1
    have hpend : JobStatus.pending = j.status := congrArg Job.status (hr ht)
    cases hpend.trans hrun
  · intro hn ht
    rw [hn] at ht
    cases ht

/-- The publication mark of an artifact. -/
theorem alike_mark {t : Timestamp} {aid : Uuid} : db.Alike c (markArtifact t aid db) ↔
    ∀ x ∈ db.artifacts, x.sessionId = c.sessionId → x.id = aid → x.withPublication t = x :=
  alike_setArtifact fun _ => rfl

/-- A write to a job of another session. -/
theorem alike_setJob {id : Uuid} {f : Job → Job} {hf : ∀ j, (f j).id = j.id}
    (hs : ∀ j, (f j).sessionId = j.sessionId)
    (h : ∀ j ∈ db.jobs, j.id = id → j.sessionId ≠ some c.sessionId) :
    db.Alike c (db.setJob id f hf) :=
  (alike_updateJobs hs).mpr fun j hj hsj hi => absurd hsj (h j hj (of_decide_eq_true hi))

/-- A heartbeat for a job of another session. -/
theorem alike_heartbeat {t : Timestamp} {id : Uuid}
    (h : ∀ j ∈ db.jobs, j.id = id → j.sessionId ≠ some c.sessionId) :
    db.Alike c (sendHeartbeat t id db) := by
  refine (alike_updateJobs (by intro; rfl)).mpr fun j hj hs hq => ?_
  exact absurd hs (h j hj (of_decide_eq_true (Bool.and_eq_true_iff.mp hq).1))

theorem alike_setSession {sid : Uuid} {f : Session → Session} {hf : ∀ s, (f s).id = s.id}
    (h : ∀ s ∈ db.sessions, s.id = sid → sid = c.sessionId → f s = s) :
    db.Alike c (db.setSession sid f hf) where
  session := by
    simp only [Db.session?, Db.setSession_sessions]
    rw [Table.find?_update (by simp [hf])]
    cases hr : db.sessions.find? fun s => s.id = c.sessionId with
    | none => rfl
    | some s =>
      obtain ⟨hm, hi⟩ := Table.find?_eq_some hr
      have hi : s.id = c.sessionId := by simpa using hi
      rw [Option.map_some]
      split
      next he =>
        have he : s.id = sid := by simpa using he
        rw [h s hm he (he.symm.trans hi)]
      next => rfl
  artifacts := rfl
  jobs := rfl
  deletionJobs := rfl

theorem alike_addArtifact {x : Artifact} (h : x.sessionId ≠ c.sessionId) :
    db.Alike c (db.addArtifact x) :=
  ⟨rfl, Table.select_insert_of_not (by simpa using h), rfl, rfl⟩

theorem alike_addJob {j : Job} (h : j.sessionId ≠ some c.sessionId) : db.Alike c (db.addJob j) :=
  ⟨rfl, rfl, Table.select_insert_of_not (by simpa using h), rfl⟩

theorem alike_addDeletionJob {d : DeletionJob} (h : d.sessionId ≠ some c.sessionId) :
    db.Alike c (db.addDeletionJob d) :=
  ⟨rfl, rfl, rfl, Table.select_insert_of_not (by simpa using h)⟩

theorem alike_setDeletionJob {id : Uuid} {f : DeletionJob → DeletionJob} {hf : ∀ d, (f d).id = d.id}
    (hs : ∀ d, (f d).sessionId = d.sessionId)
    (h : ∀ d ∈ db.deletionJobs, d.id = id → d.sessionId ≠ some c.sessionId) :
    db.Alike c (db.setDeletionJob id f hf) := by
  have hsel : (db.deletionJobs.update (fun d => d.id = id) f hf).select
        (fun d => d.sessionId = some c.sessionId) =
      db.deletionJobs.select (fun d => d.sessionId = some c.sessionId) ↔ _ :=
    Table.select_update_eq_iff fun d => by rw [hs]
  simp only [decide_eq_true_eq] at hsel
  exact ⟨rfl, rfl, rfl, hsel.mpr fun d hd hsd hi => absurd hsd (h d hd hi)⟩

theorem alike_deleteArtifacts {sid : Uuid} (h : sid ≠ c.sessionId) :
    db.Alike c (db.deleteArtifacts sid) where
  session := rfl
  artifacts := by
    simp only [Db.deleteArtifacts_artifacts, Table.select, Table.delete, List.filter_filter]
    refine List.filter_congr fun x _ => ?_
    by_cases hx : x.sessionId = c.sessionId
    · simp [hx, h.symm]
    · simp [hx]
  jobs := rfl
  deletionJobs := rfl

theorem alike_addEvent {e : WorkflowEvent} : db.Alike c (db.addEvent e) := ⟨rfl, rfl, rfl, rfl⟩

theorem alike_addAudit {l : AuditLog} : db.Alike c (db.addAudit l) := ⟨rfl, rfl, rfl, rfl⟩

theorem alike_addPipeline {ids : PipelineIds} {now : Timestamp} {sid : Uuid}
    (h : sid ≠ c.sessionId) : db.Alike c (addPipeline ids now sid db) := by
  have add {db : Db} {id : Uuid} {ty : JobType} : db.Alike c (db.addJob (stageJob id now sid ty)) :=
    alike_addJob fun he => h (Option.some.inj he)
  exact ((((add.trans add).trans add).trans alike_addEvent).trans alike_addEvent).trans alike_addEvent

theorem alike_addSaga {ids : SagaIds} {now : Timestamp} {s : Session} (h : s.id ≠ c.sessionId) :
    db.Alike c (addSaga ids now s db) := by
  have add {db : Db} {id : Uuid} {ty : DeletionType} {targets : CascadeTargets} :
      db.Alike c (db.addDeletionJob (sagaJob id now s.id ty targets)) :=
    alike_addDeletionJob fun he => h (Option.some.inj he)
  exact (add.trans add).trans add

theorem alike_advanceSession {s : Session} (h : ∀ r ∈ db.sessions, r.id = s.id →
    s.id = c.sessionId → r.withStatus .approved = r) : db.Alike c (advanceSession s db) where
  session := by
    have hs : db.Alike c (db.setSession s.id (Session.withStatus .approved)
      (Session.withStatus_id .approved)) := alike_setSession h
    rw [Db.session?, advanceSession_sessions]
    exact hs.session
  artifacts := by rw [advanceSession_artifacts]
  jobs := by rw [advanceSession_jobs]
  deletionJobs := by rw [advanceSession_deletionJobs]

end Frame

/-- Two sessions of the backend that agree on the scope. -/
structure TxAlike (c : Scope) (t u : Tx Db Files) : Prop where
  committed : t.committed.Alike c u.committed
  view : t.view.Alike c u.view
  pending : u.pending = t.pending
  files : ∀ key, c.keys key → (key ∈ t.outside ↔ key ∈ u.outside)

/-- The facts `F` hold of both views. -/
def TxAlike.With (c : Scope) (F : Db → Prop) (t u : Tx Db Files) : Prop :=
  TxAlike c t u ∧ F t.view ∧ F u.view

section Programs

variable {c : Scope} {j : Job} {F : Db → Prop} {R : Tx Db Files → Tx Db Files → Prop}

theorem TxAlike.flush {t u : Tx Db Files} {w : Db → Db} (h : TxAlike c t u)
    (hw : (w t.view).Alike c (w u.view)) : TxAlike c (t.flush w) (u.flush w) where
  committed := h.committed
  view := by simpa using hw
  pending := by simp [h.pending]
  files := h.files

theorem TxAlike.commit {t u : Tx Db Files} (h : TxAlike c t u) : TxAlike c t.commit u.commit where
  committed := h.view
  view := h.view
  pending := rfl
  files := h.files

theorem agree_keptWrite {w : Db → Db} (hw : ∀ db₀ db₁, db₀.Alike c db₁ → (w db₀).Alike c (w db₁)) :
    Agree (TxAlike c) (TxAlike c) (write w : DbM Unit) (write w) :=
  agree_write fun _ _ h => h.flush (hw _ _ h.view)

theorem agree_txCommit : Agree (TxAlike c) (TxAlike c) (commit : DbM Unit) commit :=
  agree_commit fun _ _ h => h.commit

theorem agree_scalarOneOrNone {α : Type} {l : List α} :
    Agree R R (scalarOneOrNone l) (scalarOneOrNone l) := by
  unfold scalarOneOrNone
  split
  · exact agree_pure
  · exact agree_pure
  · exact agree_throw

theorem agree_pyGet {payload : Json} {key : String} {d : Json} :
    Agree R R (pyGet payload key d) (pyGet payload key d) :=
  agree_ensure.seq fun _ => agree_pure

theorem agree_getTranscript (hR : ∀ t u, R t u → TxAlike c t u)
    (hj : j.sessionId = some c.sessionId) : Agree R R (getTranscript j) (getTranscript j) := by
  have hread : ∀ t u, R t u → completedJobs t.view j.sessionId .transcribe =
      completedJobs u.view j.sessionId .transcribe := by
    intro t u h
    rw [hj, (hR t u h).view.completedJobs]
  exact (agree_read hread).seq fun _ => agree_scalarOneOrNone.seq fun _ => agree_require.seq fun _ =>
    agree_pyGet

theorem agree_getSummarizeResult (hR : ∀ t u, R t u → TxAlike c t u)
    (hj : j.sessionId = some c.sessionId) :
    Agree R R (getSummarizeResult j.sessionId) (getSummarizeResult j.sessionId) := by
  have hread : ∀ t u, R t u → completedJobs t.view j.sessionId .summarize =
      completedJobs u.view j.sessionId .summarize := by
    intro t u h
    rw [hj, (hR t u h).view.completedJobs]
  exact (agree_read hread).seq fun _ => agree_scalarOneOrNone.seq fun _ => agree_pure

theorem agree_schemaClass {x : Json} : Agree R R (schemaClass x) (schemaClass x) := by
  unfold schemaClass
  split
  · exact agree_require
  · exact agree_throw
  · exact agree_throw
  · exact agree_throw

theorem agree_textValue {column : String} {x : Json} :
    Agree R R (textValue column x) (textValue column x) := by
  unfold textValue
  split
  · exact agree_pure
  · exact agree_pure
  · exact agree_throw

theorem agree_withOutput {payload : Json} :
    Agree (TxAlike c) (TxAlike c) (write fun db => db.setJob j.id (Job.withOutput payload) : DbM Unit)
      (write fun db => db.setJob j.id (Job.withOutput payload)) :=
  agree_keptWrite fun _ _ h => h.updateJobs (by intro; rfl) fun _ => rfl

theorem agree_transcribe {input : HandlerInput} (hj : j.sessionId = some c.sessionId) :
    Agree (TxAlike c) (TxAlike c) (handleTranscribeJob input j) (handleTranscribeJob input j) := by
  refine agree_require.bind (fun sid hsid => ?_) fun _ _ h => h
  obtain ⟨_, _, _, -, hsid⟩ := hsid
  obtain rfl : sid = c.sessionId := Option.some.inj ((returns_require.mp hsid).1.symm.trans hj)
  refine (agree_read fun _ _ h => h.view.session.symm).seq fun _ => agree_require.seq fun _ => ?_
  exact agree_require.seq fun _ => agree_answer.seq fun _ => agree_require.seq fun _ =>
    agree_withOutput.seq fun _ => agree_txCommit

theorem agree_summarize {input : HandlerInput} (hj : j.sessionId = some c.sessionId) :
    Agree (TxAlike c) (TxAlike c) (handleSummarizeJob input j) (handleSummarizeJob input j) := by
  refine (agree_getTranscript (fun _ _ h => h) hj).seq fun _ => agree_answer.seq fun _ => ?_
  exact agree_require.seq fun _ => agree_withOutput.seq fun _ => agree_txCommit.seq fun _ => agree_ensure

/-- No artifact has the id. -/
def Db.Lacks (aid : Uuid) (db : Db) : Prop := ∀ x ∈ db.artifacts, x.id ≠ aid

theorem agree_insertArtifact {x : Artifact} {aid : Uuid} (hx : x.id = aid) :
    Agree (TxAlike.With c (Db.Lacks aid)) (TxAlike c) (insertArtifact x) (insertArtifact x) := by
  subst hx
  have hread : ∀ t u, TxAlike.With c (Db.Lacks x.id) t u →
      (t.view.artifacts.any fun r => r.id = x.id) = u.view.artifacts.any fun r => r.id = x.id := by
    rintro t u ⟨-, h₀, h₁⟩
    have none {db : Db} (h : db.Lacks x.id) : (db.artifacts.any fun r => r.id = x.id) = false := by
      rw [Table.any_eq_false]
      intro r hr
      simpa using h r hr
    rw [none h₀, none h₁]
  have hweak : ∀ t u, TxAlike.With c (Db.Lacks x.id) t u → TxAlike c t u := fun _ _ h => h.1
  refine (agree_read hread).bind (fun _ _ => ?_) hweak
  refine agree_ensure.bind (fun _ _ => ?_) hweak
  refine agree_ensure.bind (fun _ _ => ?_) hweak
  exact agree_write fun t u h => h.1.flush (h.1.view.addArtifact h.2.1 h.2.2)

theorem agree_extractArtifact {input : HandlerInput} (hj : j.sessionId = some c.sessionId) :
    Agree (TxAlike.With c (Db.Lacks input.artifactId)) (TxAlike c)
      (handleExtractArtifactJob input j) (handleExtractArtifactJob input j) := by
  have hweak : ∀ t u, TxAlike.With c (Db.Lacks input.artifactId) t u → TxAlike c t u :=
    fun _ _ h => h.1
  refine (agree_getTranscript hweak hj).bind (fun x _ => ?_) hweak
  refine (agree_getSummarizeResult hweak hj).bind (fun y _ => ?_) hweak
  refine agree_pyGet.bind (fun ty _ => ?_) hweak
  refine agree_pyGet.bind (fun title _ => ?_) hweak
  refine agree_schemaClass.bind (fun schema _ => ?_) hweak
  refine agree_answer.bind (fun o _ => ?_) hweak
  refine agree_pyGet.bind (fun summary _ => ?_) hweak
  refine agree_textValue.bind (fun tt _ => ?_) hweak
  refine agree_require.bind (fun content _ => ?_) hweak
  refine agree_textValue.bind (fun st _ => ?_) hweak
  refine agree_require.bind (fun sid _ => ?_) hweak
  refine Agree.bind (agree_insertArtifact ?_) (fun _ _ => ?_) fun _ _ h => h
  · rfl
  refine (agree_keptWrite fun _ _ h => h.setSession sid (by intro; rfl)).seq fun _ => ?_
  exact agree_withOutput.seq fun _ => agree_txCommit

/-- An artifact with the id that a publish job names belongs to the session. -/
def Db.Owns (c : Scope) (aid : Option Uuid) (db : Db) : Prop :=
  ∀ x ∈ db.artifacts, some x.id = aid → x.sessionId = c.sessionId

theorem Db.Alike.artifact? {db₀ db₁ : Db} {aid : Uuid} (h : db₀.Alike c db₁)
    (h₀ : db₀.Owns c (some aid)) (h₁ : db₁.Owns c (some aid)) :
    db₀.artifact? aid = db₁.artifact? aid := by
  ext x
  rw [Db.artifact?_eq_some, Db.artifact?_eq_some]
  constructor
  · rintro ⟨hx, rfl⟩
    exact ⟨(h.mem_artifact (h₀ x hx rfl)).mp hx, rfl⟩
  · rintro ⟨hx, rfl⟩
    exact ⟨(h.mem_artifact (h₁ x hx rfl)).mpr hx, rfl⟩

theorem agree_transitionSession {target : SessionStatus} :
    Agree (TxAlike c) (TxAlike c) (transitionSession c.sessionId target)
      (transitionSession c.sessionId target) := by
  refine (agree_read fun _ _ h => h.view.session.symm).seq fun _ => agree_require.seq fun _ => ?_
  refine agree_ensure.seq fun _ => ?_
  refine (agree_keptWrite fun _ _ h => h.setSession _ (by intro; rfl)).seq fun _ => ?_
  exact agree_keptWrite fun _ _ h => ⟨h.session, h.artifacts, h.jobs, h.deletionJobs⟩

theorem agree_publish {input : HandlerInput} :
    Agree (TxAlike.With c (Db.Owns c j.inputPayload.artifactId)) (TxAlike c)
      (handlePublishJob input j) (handlePublishJob input j) := by
  have hweak : ∀ t u, TxAlike.With c (Db.Owns c j.inputPayload.artifactId) t u → TxAlike c t u :=
    fun _ _ h => h.1
  refine agree_require.bind (fun aid haid => ?_) hweak
  obtain ⟨_, _, _, -, haid⟩ := haid
  have hid := (returns_require.mp haid).1
  refine (agree_read ?_).bind (fun o ho => ?_) hweak
  · rintro t u ⟨h, h₀, h₁⟩
    rw [hid] at h₀ h₁
    exact h.view.artifact? h₀ h₁
  have hmark : Agree (TxAlike c) (TxAlike c) (forSome o (markPublished input.now))
      (forSome o (markPublished input.now)) := by
    apply agree_forSome
    rintro x rfl
    obtain ⟨t, u, _, ⟨-, h₀, -⟩, hx⟩ := ho
    obtain ⟨hx, hxi⟩ := Db.artifact?_eq_some.mp (returns_read.mp hx).1.symm
    have hs : x.sessionId = c.sessionId := h₀ x hx (by rw [hid, hxi])
    refine (agree_keptWrite fun _ _ h => ?_).seq fun _ => hs ▸ agree_transitionSession
    exact h.setArtifact x.id (by intro; rfl) (by intro; rfl)
  refine (hmark.seq fun _ => agree_withOutput.seq fun _ => agree_txCommit).mono hweak fun _ _ h => h

/-- The handler of a job of the session, on databases with what it relies on. -/
theorem agree_handler (input : HandlerInput) {handler : HandlerInput → Job → DbM Unit}
    (hh : jobHandler j.jobType = some handler) (hj : j.sessionId = some c.sessionId) :
    Agree (TxAlike.With c fun db => db.Lacks input.artifactId ∧
        (j.jobType = .publish → db.Owns c j.inputPayload.artifactId)) (TxAlike c)
      (handler input j) (handler input j) := by
  cases hty : j.jobType with
  | transcribe =>
    rw [hty] at hh
    obtain rfl := Option.some.inj hh
    exact (agree_transcribe hj).mono (fun _ _ h => h.1) fun _ _ h => h
  | summarize =>
    rw [hty] at hh
    obtain rfl := Option.some.inj hh
    exact (agree_summarize hj).mono (fun _ _ h => h.1) fun _ _ h => h
  | extractArtifact =>
    rw [hty] at hh
    obtain rfl := Option.some.inj hh
    exact (agree_extractArtifact hj).mono (fun _ _ h => ⟨h.1, h.2.1.1, h.2.2.1⟩) fun _ _ h => h
  | publish =>
    rw [hty] at hh
    obtain rfl := Option.some.inj hh
    exact agree_publish.mono (fun _ _ h => ⟨h.1, h.2.1.2 rfl, h.2.2.2 rfl⟩) fun _ _ h => h
  | other name =>
    rw [hty] at hh
    cases hh

end Programs

end AiBadge
