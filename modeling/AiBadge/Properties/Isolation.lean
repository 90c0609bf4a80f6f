import AiBadge.System.HandlerFailure
import AiBadge.System.JobStep

/-! # Failure isolation in a poll cycle

What a handler that raises leaves flushed is rolled back with the session of the
cycle, unless a deletion job of the same cycle commits it first.
-/

namespace AiBadge

open Lib Prog DbM

/-- The job that the cycle claims. -/
def Cycle.job? (c : Cycle) (db : Db) : Option Job :=
  limitOne c.tie (claimCandidates c.locked c.claimedAt (releaseTimedOutJobs c.claimedAt db))

/-- The database once `job` is claimed. -/
def Cycle.claimed (c : Cycle) (job : Job) (db : Db) : Db :=
  sendHeartbeats c.beats job.id
    (markRunning c.claimedAt job.id (releaseTimedOutJobs c.claimedAt db))

/-- The deletion job of the cycle. -/
def Cycle.deletion? (c : Cycle) (db : Db) : Option DeletionJob :=
  limitOne c.deletionTie (deletionCandidates c.deletionLocked c.polledAt db)

/-- What remains of a session once it is closed. -/
def closed (t : Tx Db Files) : Db × Files := (t.rollback.committed, t.rollback.outside)

/-- The database and the files at the end of the cycle. -/
def Cycle.run (c : Cycle) (db : Db) (files : Files) : Db × Files :=
  closed (pollCycle c (Tx.start db files)).2

/-- The database once the failure of `job` is marked as well. -/
def Cycle.failed (c : Cycle) (job : Job) (e : Exn) (db : Db) : Db :=
  markFailed c.failedAt e job.id (c.claimed job db)

/-- The claim and the failure mark of `job`, and the effect of the cycle's deletion job in a
session of its own. -/
def Cycle.isolated (c : Cycle) (job : Job) (e : Exn) (db : Db) (files : Files) : Db × Files :=
  closed (processNextDeletion c (Tx.start (c.failed job e db) files)).2

/-- In the cycle the handler of `job` raises `e` before its commit and leaves the session `t`. -/
structure HandlerFails (c : Cycle) (db : Db) (files : Files) (job : Job) (e : Exn)
    (t : Tx Db Files) : Prop where
  claims : c.job? db = some job
  raises : ∃ handler, jobHandler job.jobType = some handler ∧
    (handler c.input (job.withStart c.claimedAt)).Raises (Tx.clean 1 (c.claimed job db) files) e t
  uncommitted : t.commits = 1

/-- The failure of the cycle's handler, if there is one. -/
def Cycle.failure? (c : Cycle) (db : Db) (files : Files) : Option (Job × Exn × Tx Db Files) := do
  let job ← c.job? db
  let handler ← jobHandler job.jobType
  match handler c.input (job.withStart c.claimedAt) (Tx.clean 1 (c.claimed job db) files) with
  | (.error e, t) => if t.commits = 1 then some (job, e, t) else none
  | (.ok _, _) => none

/-- The artifact that `job` marks published before its session transition. -/
def Marks (db : Db) (job : Job) (a : Artifact) : Prop :=
  job.jobType = .publish ∧ job.inputPayload.artifactId = some a.id ∧ a ∈ db.artifacts

/-- The deletion job removes the artifacts of the session. -/
def DeletionJob.Erases (d : DeletionJob) (sessionId : Uuid) : Prop :=
  d.resourceType = .deleteArtifactRows ∧ d.sessionId = some sessionId

/-- The failure of the handler of `job` is marked, and nothing that it flushes can come through: no
flush of what the services delivered is refused, and a deletion job of the cycle erases the artifact
that a publication marks, unless the mark changes nothing. -/
structure Contained (c : Cycle) (db : Db) (job : Job) : Prop where
  stored : ¬ Refused db c.input job
  unmarked : ∀ d, c.deletion? db = some d → ∀ a, Marks db job a →
    d.Erases a.sessionId ∨ a.withPublication c.input.now = a

section Claim

variable {c : Cycle} {db : Db} {files : Files} {job : Job} {e : Exn} {t : Tx Db Files}

@[simp] theorem sendHeartbeats_artifacts {beats : List Timestamp} {id : Uuid} :
    (sendHeartbeats beats id db).artifacts = db.artifacts := by
  induction beats generalizing db with
  | nil => rfl
  | cons now beats ih => exact ih

@[simp] theorem sendHeartbeats_sessions {beats : List Timestamp} {id : Uuid} :
    (sendHeartbeats beats id db).sessions = db.sessions := by
  induction beats generalizing db with
  | nil => rfl
  | cons now beats ih => exact ih

@[simp] theorem sendHeartbeats_deletionJobs {beats : List Timestamp} {id : Uuid} :
    (sendHeartbeats beats id db).deletionJobs = db.deletionJobs := by
  induction beats generalizing db with
  | nil => rfl
  | cons now beats ih => exact ih

theorem completedJobs_sendHeartbeats {beats : List Timestamp} {id : Uuid} {sid : Option Uuid}
    {ty : JobType} : completedJobs (sendHeartbeats beats id db) sid ty = completedJobs db sid ty := by
  induction beats generalizing db with
  | nil => rfl
  | cons now beats ih =>
    refine ih.trans ?_
    unfold completedJobs
    rw [sendHeartbeat_jobs]
    exact Table.select_update_of_not fun j _ hj => by simp_all

@[simp] theorem claimed_artifacts : (c.claimed job db).artifacts = db.artifacts := by
  simp [Cycle.claimed, markRunning]

@[simp] theorem claimed_deletionJobs : (c.claimed job db).deletionJobs = db.deletionJobs := by
  simp [Cycle.claimed, markRunning]

theorem handlerFails_of_failure (h : c.failure? db files = some (job, e, t)) :
    HandlerFails c db files job e t := by
  obtain ⟨j, hj, h⟩ := Option.bind_eq_some_iff.mp h
  obtain ⟨handler, hh, h⟩ := Option.bind_eq_some_iff.mp h
  split at h
  next hr =>
    split at h
    next hc =>
      cases h
      exact ⟨hj, ⟨handler, hh, hr⟩, hc⟩
    next => cases h
  next => cases h

theorem pending_of_claims (h : c.job? db = some job) :
    job ∈ (releaseTimedOutJobs c.claimedAt db).jobs ∧ job.status = .pending := by
  have hc : job ∈ claimCandidates c.locked c.claimedAt (releaseTimedOutJobs c.claimedAt db) :=
    List.mem_of_getElem? h
  obtain ⟨hj, hp⟩ := Table.mem_select.mp (List.mem_filter.mp hc).1
  rw [Bool.and_eq_true] at hp
  exact ⟨hj, World.status_of_claimable hp.1⟩

theorem completedJobs_claimed {sid : Option Uuid} {ty : JobType} (h : c.job? db = some job) :
    completedJobs (c.claimed job db) sid ty = completedJobs db sid ty := by
  obtain ⟨hm, hs⟩ := pending_of_claims h
  have hr : completedJobs (releaseTimedOutJobs c.claimedAt db) sid ty =
      completedJobs db sid ty := by
    unfold completedJobs
    rw [releaseTimedOutJobs_jobs]
    exact Table.select_update_of_not fun j _ hj => by simp [World.status_of_timedOut hj]
  have hk : completedJobs (markRunning c.claimedAt job.id (releaseTimedOutJobs c.claimedAt db)) sid
      ty = completedJobs (releaseTimedOutJobs c.claimedAt db) sid ty := by
    unfold completedJobs markRunning
    simp only [Db.setJob_jobs]
    refine Table.select_update_of_not fun j hj he => ?_
    obtain rfl := Table.eq_of_key_eq hj hm (of_decide_eq_true he)
    simp [hs]
  exact (completedJobs_sendHeartbeats.trans hk).trans hr

@[simp] theorem claimed_sessions : (c.claimed job db).sessions = db.sessions := by
  simp [Cycle.claimed, markRunning]

/-- The claim changes nothing that the handler reads. -/
theorem refused_claimed {input : HandlerInput} (h : c.job? db = some job) :
    Refused (c.claimed job db) input (job.withStart c.claimedAt) ↔ Refused db input job := by
  constructor
  · exact fun hr => hr.congr rfl rfl claimed_sessions.symm fun _ => (completedJobs_claimed h).symm
  · exact fun hr => hr.congr rfl rfl claimed_sessions fun _ => completedJobs_claimed h

theorem running_sendHeartbeats {beats : List Timestamp} {id : Uuid}
    (h : ∃ j ∈ db.jobs, j.id = id ∧ j.status = .running) :
    ∃ j ∈ (sendHeartbeats beats id db).jobs, j.id = id ∧ j.status = .running := by
  induction beats generalizing db with
  | nil => exact h
  | cons now beats ih =>
    refine ih ?_
    obtain ⟨j, hj, hi, hs⟩ := h
    refine ⟨_, Table.mem_update_of_mem (by intro; rfl) hj, ?_⟩
    split
    · exact ⟨hi, hs⟩
    · exact ⟨hi, hs⟩

theorem running_claimed (h : c.job? db = some job) :
    ∃ j ∈ (c.claimed job db).jobs, j.id = job.id ∧ j.status = .running := by
  have hm : (if decide (job.id = job.id) = true then job.withStart c.claimedAt else job) ∈
      (markRunning c.claimedAt job.id (releaseTimedOutJobs c.claimedAt db)).jobs :=
    Table.mem_update_of_mem (by intro; rfl) (pending_of_claims h).1
  rw [decide_eq_true rfl, if_pos rfl] at hm
  exact running_sendHeartbeats ⟨_, hm, rfl, rfl⟩

theorem processOne_of_claims (h : c.job? db = some job) :
    processOne c (Tx.start db files) =
      dispatch c (job.withStart c.claimedAt) (Tx.clean 1 (c.claimed job db) files) := by
  have hp : processOne c (Tx.start db files) = forSome (c.job? db) (executeJob c)
      ((Tx.start db files).flush (releaseTimedOutJobs c.claimedAt)) := rfl
  rw [hp, h]
  rfl

theorem processOne_of_fails (h : HandlerFails c db files job e t) :
    processOne c (Tx.start db files) = if e.abortsSession then (.error e, t)
      else (.ok (), t.elsewhere (markFailed c.failedAt e job.id)) := by
  obtain ⟨handler, hh, hr⟩ := h.raises
  rw [processOne_of_claims h.claims, dispatch, Job.withStart_jobType, hh]
  refine (tryCatch_of_raises hr).trans ?_
  cases e.abortsSession with
  | true => rfl
  | false => rfl

/-- The session that the failing handler leaves. -/
theorem HandlerFails.session (h : HandlerFails c db files job e t) :
    ∃ pending, HandlerResidue (c.claimed job db) c.input job pending ∧
      t = { committed := c.claimed job db, pending, outside := files, commits := 1 } := by
  obtain ⟨handler, hh, hr⟩ := h.raises
  have he : HandlerEffect 1 (c.claimed job db) files c.input (job.withStart c.claimedAt)
      (handler c.input (job.withStart c.claimedAt) (Tx.clean 1 (c.claimed job db) files)).1
      (handler c.input (job.withStart c.claimedAt) (Tx.clean 1 (c.claimed job db) files)).2 :=
    handlerEffect hh
  rw [show handler c.input (job.withStart c.claimedAt) _ = _ from hr] at he
  have hu := h.uncommitted
  cases he with
  | committed => cases hu
  | raised hp =>
    refine ⟨_, ?_, rfl⟩
    cases hp with
    | nothing => exact .nothing
    | marked hj hi ha hs => exact .marked hj hi ha hs

theorem run_of_fatal (h : HandlerFails c db files job e t) (he : e.abortsSession = true) :
    c.run db files = (c.claimed job db, files) := by
  obtain ⟨pending, -, rfl⟩ := h.session
  have hp := processOne_of_fails h
  rw [he, if_pos rfl] at hp
  unfold Cycle.run pollCycle
  rw [bind_of_raises hp]
  rfl

theorem deletionCandidates_congr {db' : Db} {locked : List Uuid} {now : Timestamp}
    (h : db'.deletionJobs = db.deletionJobs) :
    deletionCandidates locked now db' = deletionCandidates locked now db := by
  simp only [deletionCandidates, h]

/-- The deletion half of the cycle commits the flushed writes if it finds a deletion job. -/
theorem closed_processNextDeletion (hd : t.view.deletionJobs = db.deletionJobs) :
    closed (processNextDeletion c t).2 =
      match c.deletion? db with
      | some d =>
        ((deletionWrites c.remove d t.outside).1 t.view, (deletionWrites c.remove d t.outside).2)
      | none => (t.committed, t.outside) := by
  have hp : processNextDeletion c t = forSome (limitOne c.deletionTie
      (deletionCandidates c.deletionLocked c.polledAt t.view)) (processDeletion c.remove) t := rfl
  rw [hp, deletionCandidates_congr hd, ← Cycle.deletion?]
  cases c.deletion? db with
  | none => rfl
  | some d =>
    obtain ⟨hc, ho⟩ : EndsWith t (processDeletion c.remove d t).2
      (deletionWrites c.remove d t.outside) := processDeletion_endsWith
    exact Prod.ext hc ho

theorem run_of_mild (h : HandlerFails c db files job e t) (he : e.abortsSession = false) :
    c.run db files =
      closed (processNextDeletion c (t.elsewhere (markFailed c.failedAt e job.id))).2 := by
  have hp := processOne_of_fails h
  rw [he, if_neg Bool.false_ne_true] at hp
  unfold Cycle.run pollCycle
  rw [bind_of_returns hp]

/-- The deletion half of the cycle sees the flushed writes on top of the failure mark. -/
theorem closed_of_pending {pending : List (Db → Db)} (h : HandlerFails c db files job e t)
    (hp : t.pending = pending)
    (hd : (pending.foldl (fun db w => w db) (c.failed job e db)).deletionJobs = db.deletionJobs) :
    closed (processNextDeletion c (t.elsewhere (markFailed c.failedAt e job.id))).2 =
      match c.deletion? db with
      | some d =>
        ((deletionWrites c.remove d files).1
          (pending.foldl (fun db w => w db) (c.failed job e db)),
          (deletionWrites c.remove d files).2)
      | none => (c.failed job e db, files) := by
  obtain ⟨_, -, rfl⟩ := h.session
  subst hp
  exact closed_processNextDeletion hd

theorem isolated_eq : c.isolated job e db files =
    match c.deletion? db with
    | some d =>
      ((deletionWrites c.remove d files).1 (c.failed job e db),
        (deletionWrites c.remove d files).2)
    | none => (c.failed job e db, files) :=
  closed_processNextDeletion (t := Tx.start (c.failed job e db) files) claimed_deletionJobs

theorem pending_of_marks {a : Artifact} (h : HandlerFails c db files job e t)
    (hm : Marks db job a) : t.pending = [markArtifact c.input.now a.id] := by
  obtain ⟨hj, hi, ha⟩ := hm
  obtain ⟨handler, hh, hr⟩ := h.raises
  rw [hj] at hh
  obtain rfl := Option.some.inj hh
  rw [← (claimed_artifacts : (c.claimed job db).artifacts = _)] at ha
  rw [marked_of_raises (j := job.withStart c.claimedAt) hi ha hr]
  rfl

theorem pending_of_not_marks (h : HandlerFails c db files job e t)
    (hm : ∀ a, ¬ Marks db job a) : t.pending = [] := by
  obtain ⟨pending, hp, rfl⟩ := h.session
  cases hp with
  | nothing => rfl
  | marked hj hi ha =>
    rw [claimed_artifacts] at ha
    exact absurd ⟨hj, hi, ha⟩ (hm _)

theorem fatal_of_fails (h : HandlerFails c db files job e t) :
    e.abortsSession = true ↔ Refused db c.input job := by
  obtain ⟨handler, hh, hr⟩ := h.raises
  exact (abortsSession_iff (j := job.withStart c.claimedAt) hh hr).trans (refused_claimed h.claims)

end Claim

section Deletion

variable {remove : Remove} {d : DeletionJob} {db : Db} {files : Files} {a : Artifact}
  {now : Timestamp}

@[simp] theorem deletionWrites_jobs : ((deletionWrites remove d files).1 db).jobs = db.jobs := by
  unfold deletionWrites
  split
  next => cases d.sessionId <;> rfl
  next => split <;> rfl
  next => rfl
  next => rfl

/-- What a deletion job leaves of the artifacts. -/
theorem mem_deletionWrites : a ∈ ((deletionWrites remove d files).1 db).artifacts ↔
    a ∈ db.artifacts ∧ ¬ d.Erases a.sessionId := by
  unfold deletionWrites DeletionJob.Erases
  split
  next hd =>
    cases hs : d.sessionId with
    | none => simp [completeDeletion, eraseRows]
    | some sid => simp [completeDeletion, eraseRows, hd, eq_comm]
  next hd => split <;> simp [completeDeletion, hd]
  next hd => simp [completeDeletion, hd]
  next hd => simp [hd]

theorem deleteArtifacts_markArtifact (ha : a ∈ db.artifacts) :
    (markArtifact now a.id db).deleteArtifacts a.sessionId = db.deleteArtifacts a.sessionId := by
  unfold markArtifact Db.setArtifact Db.deleteArtifacts
  simp only
  rw [Table.delete_update]
  intro b hb he
  obtain rfl := Table.eq_of_key_eq hb ha (of_decide_eq_true he)
  simp

theorem markArtifact_eq_self (ha : a ∈ db.artifacts) (hw : a.withPublication now = a) :
    markArtifact now a.id db = db := by
  unfold markArtifact Db.setArtifact
  rw [Table.update_eq_self]
  intro b hb he
  rw [Table.eq_of_key_eq hb ha (of_decide_eq_true he), hw]

/-- A deletion job hides a publication mark only by erasing the artifact. -/
theorem deletionWrites_mark (ha : a ∈ db.artifacts) :
    (deletionWrites remove d files).1 (markArtifact now a.id db) =
        (deletionWrites remove d files).1 db ↔
      d.Erases a.sessionId ∨ a.withPublication now = a := by
  constructor
  · intro he
    by_cases hd : d.Erases a.sessionId
    · exact .inl hd
    have hm : (if decide (a.id = a.id) = true then a.withPublication now else a) ∈
        (markArtifact now a.id db).artifacts := Table.mem_update_of_mem (by intro; rfl) ha
    rw [decide_eq_true rfl, if_pos rfl] at hm
    have hw : a.withPublication now ∈ ((deletionWrites remove d files).1 db).artifacts :=
      he ▸ mem_deletionWrites.mpr ⟨hm, hd⟩
    exact .inr (Table.eq_of_key_eq (mem_deletionWrites.mp hw).1 ha rfl)
  · rintro (⟨hd, hs⟩ | hw)
    · simp only [deletionWrites, hd, hs, eraseRows, deleteArtifacts_markArtifact ha]
    · rw [markArtifact_eq_self ha hw]

end Deletion

/-- A cycle that ends before the failure mark leaves the job running. -/
theorem claimed_ne_isolated {c : Cycle} {db : Db} {files : Files} {job : Job} {e : Exn}
    (h : c.job? db = some job) : (c.claimed job db, files) ≠ c.isolated job e db files := by
  have hj : (c.isolated job e db files).1.jobs = (c.failed job e db).jobs := by
    rw [isolated_eq]
    cases c.deletion? db with
    | none => rfl
    | some d => exact deletionWrites_jobs
  intro he
  rw [← he] at hj
  obtain ⟨j, hm, hi, hs⟩ := running_claimed h
  have hf : (if decide (j.id = job.id) = true then recordFailure c.failedAt e j else j) ∈
      (c.failed job e db).jobs := Table.mem_update_of_mem (by intro; simp) hm
  rw [decide_eq_true hi, if_pos rfl, ← hj] at hf
  have hst := congrArg Job.status (Table.eq_of_key_eq hf hm (recordFailure_id _ _ j))
  rw [World.recordFailure_status, hs, if_pos rfl] at hst
  cases hst

theorem contained_iff {c : Cycle} {db : Db} {job : Job} {a : Artifact}
    (hd : ¬ Refused db c.input job) (hm : Marks db job a) : Contained c db job ↔
      ∀ d, c.deletion? db = some d → d.Erases a.sessionId ∨ a.withPublication c.input.now = a := by
  constructor
  · exact fun hc d hd => hc.unmarked d hd a hm
  · refine fun h => ⟨hd, fun d hd b hb => ?_⟩
    have hi : some b.id = some a.id := hb.2.1.symm.trans hm.2.1
    obtain rfl := Table.eq_of_key_eq hb.2.2 hm.2.2 (Option.some.inj hi)
    exact h d hd

namespace Replay

/-- The session is patched to `published` before its publish job 50 runs, and then retracted. -/
def overtaken : List Action :=
  pipeline ++ [review .approve 32 40, publish 32 50, patch .published 60, retract 70]

/-- A cycle in which the publish job fails, beside the deletion job at place `tie`. -/
def publishCycle (tie : Nat) : Cycle where
  claimedAt := 0
  locked := []
  tie := 0
  beats := []
  input := ⟨providers, 0, uuid 80⟩
  failedAt := 0
  polledAt := 0
  deletionLocked := []
  deletionTie := tie
  remove := fun _ => .ok ()

/-- The deletion of the artifact rows contains the failure. -/
def erasing (db : Db) (files : Files) : Bool :=
  match (publishCycle 0).failure? db files, (publishCycle 0).deletion? db with
  | some (job, _, _), some d => job.jobType = .publish && d.resourceType = .deleteArtifactRows &&
      db.artifacts.rows.all (some ·.sessionId = d.sessionId)
  | _, _ => false

/-- The deletion of the audio lets the publication through. -/
def leaking (db : Db) (files : Files) : Bool :=
  match (publishCycle 1).failure? db files with
  | some (job, e, _) =>
    ((publishCycle 1).run db files).1.artifacts.any (·.status = .published) &&
      !((publishCycle 1).isolated job e db files).1.artifacts.any (·.status = .published)
  | none => false

end Replay

end AiBadge
