import AiBadge.System.Transition
import AiBadge.System.WorkerEffect

/-! # Two ways to run a job

`transition_job` and the worker with its handlers both move a job from `pending` to its
outcome. The worker records no event and no time of completion, and an exhausted job
keeps its schedule.
-/

namespace AiBadge

open Lib Prog DbM

/-- `transition_job(running)` and the transition for the outcome of the handler. -/
def transitionPath (id : Uuid) (now : Timestamp) (job : Job) (outcome : Except Exn Json) :
    DbM Unit := do
  transitionJob id now job .running none none
  let job := job.withTransition now .running none none
  match outcome with
  | .ok payload => transitionJob id now job .completed (some payload) none
  | .error e => transitionJob id now job .failed none (some e.str)

/-- What `_execute_job` leaves in the database once its session is closed. -/
def executed (c : Cycle) (job : Job) (db : Db) (files : Files) : Db :=
  (executeJob c job (Tx.start db files)).2.rollback.committed

/-- The session that `_execute_job` hands to the handler. -/
def handlerSession (c : Cycle) (job : Job) (db : Db) (files : Files) : Tx Db Files :=
  Tx.clean 1 (sendHeartbeats c.beats job.id (markRunning c.claimedAt job.id db)) files

/-- How the handler call ends: with the payload it has stored, or with an exception. -/
inductive HandlerEnds (c : Cycle) (job : Job) (db : Db) (files : Files) :
    Except Exn Json → Tx Db Files → Prop where
  | returned {handler : HandlerInput → Job → DbM Unit} {t : Tx Db Files} {j : Job} {payload : Json} :
      jobHandler job.jobType = some handler →
      (handler c.input (job.withStart c.claimedAt)).Returns (handlerSession c job db files) () t →
      j ∈ t.committed.jobs → j.id = job.id → j.outputPayload = some payload →
      HandlerEnds c job db files (.ok payload) t
  | raised {handler : HandlerInput → Job → DbM Unit} {t : Tx Db Files} {e : Exn} :
      jobHandler job.jobType = some handler →
      (handler c.input (job.withStart c.claimedAt)).Raises (handlerSession c job db files) e t →
      HandlerEnds c job db files (.error e) t

/-- The rows agree up to timestamps. -/
structure Job.SameButTimes (j r : Job) : Prop where
  origin : j.SameOrigin r
  status : j.status = r.status
  outputPayload : j.outputPayload = r.outputPayload
  errorMessage : j.errorMessage = r.errorMessage
  retryCount : j.retryCount = r.retryCount
  startedAt : j.startedAt.isSome = r.startedAt.isSome
  completedAt : j.completedAt.isSome = r.completedAt.isSome
  nextRunAt : j.nextRunAt.isSome = r.nextRunAt.isSome

/-- The two databases have the same row for the job, up to timestamps. -/
def RowsAgree (db db' : Db) (job : Uuid) : Prop :=
  ∃ j ∈ db.jobs, ∃ r ∈ db'.jobs, j.id = job ∧ r.id = job ∧ j.SameButTimes r

/-- The two databases agree on the job, up to timestamps. -/
structure PathsAgree (db db' : Db) (job : Uuid) : Prop where
  row : RowsAgree db db' job
  events : db.jobEvents job = db'.jobEvents job

section Worker

variable {c : Cycle} {job j : Job} {db db' : Db} {files : Files} {id : Uuid} {now : Timestamp}
  {outcome : Except Exn Json} {t t' : Tx Db Files} {input : HandlerInput}

@[simp] theorem jobEvents_sendHeartbeats {beats : List Timestamp} {u : Uuid} :
    (sendHeartbeats beats id db).jobEvents u = db.jobEvents u := by
  induction beats generalizing db with
  | nil => rfl
  | cons now beats ih => exact ih

/-- A heartbeat only renews the start of a running job. -/
theorem mem_sendHeartbeats {beats : List Timestamp} {b : Timestamp} (h : job.withStart b ∈ db.jobs) :
    ∃ b, job.withStart b ∈ (sendHeartbeats beats job.id db).jobs := by
  induction beats generalizing db b with
  | nil => exact ⟨b, h⟩
  | cons now beats ih =>
    apply ih (b := now)
    have hu := Table.mem_update_of_mem (p := fun j => j.id = job.id && j.status = .running)
      (Job.withHeartbeat_id now) h
    rwa [if_pos (by simp)] at hu

/-- The row that the handler finds. -/
theorem mem_handlerSession (hj : job ∈ db.jobs) :
    ∃ b, job.withStart b ∈ (handlerSession c job db files).committed.jobs := by
  have hu := Table.mem_update_of_mem (p := fun i => i.id = job.id)
    (Job.withStart_id c.claimedAt) hj
  rw [if_pos (decide_eq_true rfl)] at hu
  exact mem_sendHeartbeats hu

/-- A handler that commits stores a payload and the status, and no event of the job. -/
theorem HandlerCommit.row (h : HandlerCommit db input j db') (hr : job ∈ db.jobs)
    (hid : job.id = j.id) : (∃ payload, job.withOutput payload ∈ db'.jobs) ∧
      ∀ u, db'.jobEvents u = db.jobEvents u := by
  have set {payload : Json} : job.withOutput payload ∈
      (db.jobs.update (fun i => i.id = j.id) (Job.withOutput payload)) := by
    have hu := Table.mem_update_of_mem (p := fun i => i.id = j.id) (Job.withOutput_id payload) hr
    rwa [if_pos (decide_eq_true hid)] at hu
  cases h with
  | transcribe => exact ⟨⟨_, set⟩, fun _ => rfl⟩
  | summarize => exact ⟨⟨_, set⟩, fun _ => rfl⟩
  | extractArtifact => exact ⟨⟨_, set⟩, fun _ => rfl⟩
  | publishMissing => exact ⟨⟨_, set⟩, fun _ => rfl⟩
  | publish => exact ⟨⟨_, set⟩, fun u => (Db.jobEvents_addEvent _ _ u).trans (List.append_nil _)⟩

/-- The row that an execution leaves: completed, stuck behind a failed flush, or marked failed. -/
inductive ExecutedRow (c : Cycle) (job : Job) : Except Exn Unit → Nat → Job → Prop where
  | committed {result : Except Exn Unit} {payload : Json} {b : Timestamp} :
      ExecutedRow c job result 2 ((job.withStart b).withOutput payload)
  | aborted {e : Exn} {b : Timestamp} : e.abortsSession = true →
      ExecutedRow c job (.error e) 1 (job.withStart b)
  | failed {e : Exn} {b : Timestamp} : e.abortsSession = false →
      ExecutedRow c job (.error e) 1 (recordFailure c.failedAt e (job.withStart b))

/-- A failure mark on the row. -/
theorem mem_markFailed {e : Exn} (hj : j ∈ db.jobs) (hid : j.id = job.id) :
    recordFailure now e j ∈ (markFailed now e job.id db).jobs := by
  have hu := Table.mem_update_of_mem (p := fun i => i.id = job.id) (recordFailure_id now e) hj
  rwa [if_pos (decide_eq_true hid)] at hu

theorem executed_of_ends {handler : HandlerInput → Job → DbM Unit} {result : Except Exn Unit}
    (hh : jobHandler job.jobType = some handler) (hj : job ∈ db.jobs)
    (hr : handler c.input (job.withStart c.claimedAt) (handlerSession c job db files) = (result, t)) :
    (∃ j ∈ (executed c job db files).jobs, j.id = job.id ∧ ExecutedRow c job result t.commits j) ∧
      (∀ u, (executed c job db files).jobEvents u = db.jobEvents u) ∧
      ∀ u, result = .ok u → executed c job db files = t.committed := by
  obtain ⟨b, hb⟩ : ∃ b, job.withStart b ∈ (handlerSession c job db files).committed.jobs :=
    mem_handlerSession hj
  have hev : ∀ u, (handlerSession c job db files).committed.jobEvents u = db.jobEvents u :=
    fun u => jobEvents_sendHeartbeats
  have he : HandlerEffect 1 (handlerSession c job db files).committed files c.input
      (job.withStart c.claimedAt) result t := by
    have h : HandlerEffect 1 (handlerSession c job db files).committed files c.input
        (job.withStart c.claimedAt) (handler c.input (job.withStart c.claimedAt)
          (Tx.clean 1 (handlerSession c job db files).committed files)).1
        (handler c.input (job.withStart c.claimedAt)
          (Tx.clean 1 (handlerSession c job db files).committed files)).2 := handlerEffect hh
    have hr' : handler c.input (job.withStart c.claimedAt)
        (Tx.clean 1 (handlerSession c job db files).committed files) = (result, t) := hr
    rwa [hr'] at h
  have hx : executed c job db files = (tryCatchThe Exn (handler c.input (job.withStart c.claimedAt))
      (fun e => do
        ensure (!e.abortsSession) e
        elsewhere (markFailed c.failedAt e job.id)) (handlerSession c job db files)).2.committed := by
    have hd : executed c job db files =
        (dispatch c (job.withStart c.claimedAt) (handlerSession c job db files)).2.committed := rfl
    rw [hd, dispatch, Job.withStart_jobType, hh]
    rfl
  cases result with
  | ok u =>
    rw [tryCatch_of_returns (show Returns _ _ _ _ from hr)] at hx
    cases he with
    | committed hc =>
      obtain ⟨⟨payload, hp⟩, hcev⟩ := hc.row hb rfl
      rw [hx]
      exact ⟨⟨_, hp, rfl, .committed⟩, fun u => (hcev u).trans (hev u), fun _ _ => rfl⟩
  | error e =>
    rw [tryCatch_of_raises (show Raises _ _ _ _ from hr)] at hx
    have hcatch : executed c job db files = if e.abortsSession then t.committed else
        markFailed c.failedAt e job.id t.committed := by
      rw [hx]
      cases e.abortsSession <;> rfl
    have hmark : ∀ u, (executed c job db files).jobEvents u = t.committed.jobEvents u := by
      intro u
      rw [hcatch]
      split <;> rfl
    cases he with
    | committed hc =>
      obtain ⟨⟨payload, hp⟩, hcev⟩ := hc.row hb rfl
      refine ⟨⟨(job.withStart b).withOutput payload, ?_, rfl, .committed⟩,
        fun u => (hmark u).trans ((hcev u).trans (hev u)), nofun⟩
      rw [hcatch]
      split
      · exact hp
      -- the row is no longer running, so the mark passes it over
      · exact mem_markFailed hp rfl
    | raised hp =>
      refine ⟨?_, fun u => (hmark u).trans (hev u), nofun⟩
      rw [hcatch]
      cases ha : e.abortsSession with
      | true => exact ⟨_, hb, rfl, .aborted ha⟩
      | false => exact ⟨_, mem_markFailed hb rfl, recordFailure_id _ _ _, .failed ha⟩

/-- The row that the other path leaves. -/
def transitionedRow (now : Timestamp) (job : Job) (outcome : Except Exn Json) : Job :=
  let running := job.withTransition now .running none none
  match outcome with
  | .ok payload => running.withTransition now .completed (some payload) none
  | .error e => running.withTransition now .failed none (some e.str)

theorem row_of_transitionPath (hj : job ∈ db.jobs)
    (hr : (transitionPath id now job outcome).Returns (Tx.start db files) () t) :
    transitionedRow now job outcome ∈ t.view.jobs ∧
      t.view.jobEvents job.id = db.jobEvents job.id ++ [.jobStatus job.status .running,
        .jobStatus .running (transitionedRow now job outcome).status] := by
  obtain ⟨_, t₁, h₁, h₂⟩ := returns_bind.mp hr
  obtain ⟨hrow, hev⟩ := row_of_transitionJob h₁ hj
  cases outcome with
  | ok payload =>
    obtain ⟨hrow', hev'⟩ := row_of_transitionJob h₂ hrow
    refine ⟨hrow', ?_⟩
    rw [Job.withTransition_id] at hev'
    rw [hev', hev, List.append_assoc]
    rfl
  | error e =>
    obtain ⟨hrow', hev'⟩ := row_of_transitionJob h₂ hrow
    refine ⟨hrow', ?_⟩
    rw [Job.withTransition_id] at hev'
    rw [hev', hev, List.append_assoc, transitionedRow, Job.withTransition_status,
      Job.withTransition_status]
    rfl

theorem transitionedRow_id : (transitionedRow now job outcome).id = job.id := by
  cases outcome with
  | ok payload => rw [transitionedRow, Job.withTransition_id, Job.withTransition_id]
  | error e => rw [transitionedRow, Job.withTransition_id, Job.withTransition_id]

theorem rowsAgree_iff {r : Job} (hj : j ∈ db.jobs) (hr : r ∈ db'.jobs) (hjid : j.id = job.id)
    (hrid : r.id = job.id) : RowsAgree db db' job.id ↔ j.SameButTimes r := by
  constructor
  · rintro ⟨j', hj', r', hr', hjid', hrid', h⟩
    obtain rfl := Table.eq_of_key_eq hj' hj (hjid'.trans hjid.symm)
    obtain rfl := Table.eq_of_key_eq hr' hr (hrid'.trans hrid.symm)
    exact h
  · intro h
    exact ⟨j, hj, r, hr, hjid, hrid, h⟩

/-- When the worker's row is the one of the other path: a completion of a job that had a time of
completion already, or a failure before the commit that is marked, with a retry left or no schedule
to clear. -/
def RowSettled (job : Job) (t : Tx Db Files) : Except Exn Json → Prop
  | .ok _ => job.completedAt.isSome = true
  | .error e => t.commits = 1 ∧ e.abortsSession = false ∧
      (job.retryCount < job.maxRetries ∨ job.nextRunAt = none)

theorem completed_sameButTimes {payload : Json} {b : Timestamp} :
    ((job.withStart b).withOutput payload).SameButTimes (transitionedRow now job (.ok payload)) ↔
      job.completedAt.isSome = true := by
  constructor
  · intro h
    exact h.completedAt
  · intro h
    constructor
    · constructor <;> rfl
    · rfl
    · rfl
    · rfl
    · rfl
    · rfl
    · exact h
    · rfl

theorem failed_sameButTimes {failedAt : Timestamp} {e : Exn} {b : Timestamp} :
    (recordFailure failedAt e (job.withStart b)).SameButTimes (transitionedRow now job (.error e)) ↔
      job.retryCount < job.maxRetries ∨ job.nextRunAt = none := by
  have hw : recordFailure failedAt e (job.withStart b) =
      if job.retryCount < job.maxRetries then
        { job.withStart b with
          status := .failed, errorMessage := some e.str, nextRunAt := some failedAt
          retryCount := job.retryCount + 1 }
      else { job.withStart b with status := .failed, errorMessage := some e.str } := if_pos rfl
  have ht : transitionedRow now job (.error e) =
      if job.retryCount < job.maxRetries then
        { job.withStart now with
          status := .failed, errorMessage := some e.str, nextRunAt := some now
          retryCount := job.retryCount + 1 }
      else { job.withStart now with
        status := .failed, errorMessage := some e.str, nextRunAt := none } := rfl
  rw [hw, ht]
  by_cases hr : job.retryCount < job.maxRetries
  · rw [if_pos hr, if_pos hr]
    constructor
    · exact fun _ => .inl hr
    · intro _
      constructor <;> first | rfl | constructor <;> rfl
  · rw [if_neg hr, if_neg hr]
    constructor
    · intro h
      exact .inr (Option.not_isSome_iff_eq_none.mp fun hn =>
        Bool.noConfusion (h.nextRunAt.symm.trans hn))
    · intro h
      have hn : job.nextRunAt = none := h.resolve_left hr
      constructor
      · constructor <;> rfl
      · rfl
      · rfl
      · rfl
      · rfl
      · rfl
      · rfl
      · show job.nextRunAt.isSome = false
        rw [hn]
        rfl

/-- The worker records no event, so the two paths differ. -/
theorem not_pathsAgree (hj : job ∈ db.jobs) (he : HandlerEnds c job db files outcome t)
    (hr : (transitionPath id now job outcome).Returns (Tx.start db files) () t') :
    ¬ PathsAgree (executed c job db files) t'.view job.id := by
  intro h
  have hsame : (executed c job db files).jobEvents job.id = db.jobEvents job.id := by
    cases he with
    | returned hh hret => exact (executed_of_ends hh hj hret).2.1 _
    | raised hh hrai => exact (executed_of_ends hh hj hrai).2.1 _
  have hev := hsame.symm.trans (h.events.trans (row_of_transitionPath hj hr).2)
  have hlen := congrArg List.length hev
  rw [List.length_append] at hlen
  exact absurd hlen (by simp)

/-- The worker and `transition_job` never agree on a job. On its row alone they agree exactly when
`RowSettled` says. -/
theorem executeJob_disagrees (hj : job ∈ db.jobs) (he : HandlerEnds c job db files outcome t)
    (hr : (transitionPath id now job outcome).Returns (Tx.start db files) () t') :
    ¬ PathsAgree (executed c job db files) t'.view job.id ∧
      (RowsAgree (executed c job db files) t'.view job.id ↔ RowSettled job t outcome) := by
  have hrow := (row_of_transitionPath hj hr).1
  constructor
  · exact not_pathsAgree hj he hr
  · cases he with
    | @returned handler _ k payload hh hret hk hkid hpay =>
      obtain ⟨⟨j, hj', hid, hx⟩, -, hdb⟩ := executed_of_ends hh hj hret
      rw [rowsAgree_iff hj' hrow hid transitionedRow_id]
      rw [hdb () rfl] at hj'
      obtain rfl := Table.eq_of_key_eq hj' hk (hid.trans hkid.symm)
      generalize hc : t.commits = n at hx
      cases hx with
      | committed =>
        obtain rfl := Option.some.inj hpay
        exact completed_sameButTimes
    | @raised handler _ e hh hrai =>
      obtain ⟨⟨j, hj', hid, hx⟩, -, -⟩ := executed_of_ends hh hj hrai
      rw [rowsAgree_iff hj' hrow hid transitionedRow_id]
      have hs : (transitionedRow now job (.error e)).status = .failed := by
        rw [transitionedRow, Job.withTransition_status]
      generalize hc : t.commits = n at hx
      cases hx with
      | committed =>
        constructor
        · intro h
          cases h.status.trans hs
        · rintro ⟨h₁, -⟩
          omega
      | aborted ha =>
        constructor
        · intro h
          cases h.status.trans hs
        · rintro ⟨-, h₁, -⟩
          cases ha.symm.trans h₁
      | failed ha =>
        rw [failed_sameButTimes, RowSettled]
        exact ⟨fun h => ⟨hc, ha, h⟩, fun h => h.2.2⟩

end Worker

namespace Replay

def transcription : Job := stageJob (uuid 20) 0 (uuid 5) .transcribe

/-- A session with its audio and the pending transcription. -/
def untranscribed : Db :=
  (Db.empty.addSession { id := uuid 5, userId := uuid 2, deviceId := uuid 3, title := none
                         status := .processing, audioKey := some ⟨uuid 6, "wav"⟩ }).addJob
    transcription

def working : Cycle where
  claimedAt := 1
  locked := []
  tie := 0
  beats := []
  input := ⟨providers, 2, uuid 30⟩
  failedAt := 3
  polledAt := 4
  deletionLocked := []
  deletionTie := 0
  remove _ := .ok ()

def transcript : Json :=
  .obj [("transcript", .str "hello"), ("segments", .arr []), ("language", .str "en")]

end Replay

open Replay

theorem transcription_ends : ∃ t,
    HandlerEnds working transcription untranscribed [] (.ok transcript) t := by
  let job := transcription.withStart 1
  let t := (handleTranscribeJob working.input job
    (handlerSession working transcription untranscribed [])).2
  have hj : job.withOutput transcript ∈ t.committed.jobs := List.mem_singleton_self _
  exact ⟨t, .returned rfl rfl hj rfl rfl⟩

theorem executeJob_disagrees_transcription : ∃ t',
    (transitionPath (uuid 99) 5 transcription (.ok transcript)).Returns
      (Tx.start untranscribed []) () t' ∧
      ¬ PathsAgree (executed working transcription untranscribed []) t'.view transcription.id := by
  obtain ⟨t, ht⟩ := transcription_ends
  have hr : (transitionPath (uuid 99) 5 transcription (.ok transcript)).Returns
    (Tx.start untranscribed []) ()
      (transitionPath (uuid 99) 5 transcription (.ok transcript) (Tx.start untranscribed [])).2 := rfl
  exact ⟨_, hr, (executeJob_disagrees (List.mem_singleton_self _) ht hr).1⟩

/-- A transcription that succeeds leaves no event and no time of completion. -/
theorem not_pathsAgree_transcription :
    ¬ ∀ c job db files outcome t id now t', job ∈ db.jobs → job.status = .pending →
      HandlerEnds c job db files outcome t →
      (transitionPath id now job outcome).Returns (Tx.start db files) () t' →
      PathsAgree (executed c job db files) t'.view job.id := by
  intro h
  obtain ⟨t, ht⟩ := transcription_ends
  have hr : (transitionPath (uuid 99) 5 transcription (.ok transcript)).Returns
    (Tx.start untranscribed []) ()
      (transitionPath (uuid 99) 5 transcription (.ok transcript) (Tx.start untranscribed [])).2 := rfl
  have hj : transcription ∈ untranscribed.jobs := List.mem_singleton_self _
  exact not_pathsAgree hj ht hr (h _ _ _ _ _ _ _ _ _ hj rfl ht hr)

end AiBadge
