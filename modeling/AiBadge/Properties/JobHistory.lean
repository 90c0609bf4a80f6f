import AiBadge.System.Ledger
import AiBadge.System.Transition

/-! # The history that transitions keep

The three jobs of a session under calls of `transition_job` and `retry_job`. The events
of a job spell out its path, and the path determines its counters.
-/

namespace AiBadge

open Lib Prog DbM

/-- A call on one of the three jobs, with the id it may draw for a next stage. -/
inductive ServiceCall where
  | transitionJob (id : Uuid) (now : Timestamp) (stage : Stage) (newStatus : JobStatus)
      (outputPayload : Option Json) (errorMessage : Option String)
  | retryJob (id : Uuid) (now : Timestamp) (stage : Stage)

namespace ServiceCall

def stage : ServiceCall → Stage
  | transitionJob _ _ stage .. => stage
  | retryJob _ _ stage => stage

def target : ServiceCall → JobStatus
  | transitionJob _ _ _ newStatus .. => newStatus
  | retryJob .. => .pending

end ServiceCall

def PipelineIds.id (ids : PipelineIds) : Stage → Uuid
  | .transcribe => ids.transcribe
  | .summarize => ids.summarize
  | .extractArtifact => ids.extractArtifact

/-- The call, on the row as the session sees it. -/
def ServiceCall.run (ids : PipelineIds) (c : ServiceCall) : DbM Unit := do
  let job ← read fun db => db.job? (ids.id c.stage)
  forSome job fun job =>
    match c with
    | .transitionJob id now _ newStatus outputPayload errorMessage =>
      AiBadge.transitionJob id now job newStatus outputPayload errorMessage
    | .retryJob id now _ => Orchestrator.retryJob id now job

def runCalls (ids : PipelineIds) : List ServiceCall → DbM Unit
  | [] => pure ()
  | c :: cs => do
    c.run ids
    runCalls ids cs

@[simps] def Job.withMaxRetries (maxRetries : Nat) (j : Job) : Job := { j with maxRetries }

/-- The jobs with other retry bounds than the default. -/
@[simps] def setMaxRetries (m : Uuid → Nat) (db : Db) : Db :=
  { db with jobs := db.jobs.update (fun _ => true) fun j => j.withMaxRetries (m j.id) }

/-- The events `status_{a}_to_{b}` along a path that starts at `a`. -/
def statusEvents (a : JobStatus) : List JobStatus → List EventType
  | [] => []
  | b :: path => .jobStatus a b :: statusEvents b path

def EventType.toFailed : EventType → Bool
  | jobStatus _ .failed => true
  | _ => false

/-- The targets of the calls on one stage. -/
def targets (s : Stage) (calls : List ServiceCall) : List JobStatus :=
  (calls.filter fun c => c.stage = s).map (·.target)

/-- The job has come along the path, and its events tell so. -/
structure Job.Came (j : Job) (path : List JobStatus) (events : List EventType) : Prop where
  trail : events = .jobCreated :: statusEvents .pending path
  status : j.status = path.getLastD .pending
  retryCount : j.retryCount = min (events.countP EventType.toFailed) j.maxRetries
  nextRunAt : 0 < events.countP EventType.toFailed →
    (j.nextRunAt = none ↔ j.maxRetries < events.countP EventType.toFailed)

theorem statusEvents_snoc (a : JobStatus) (path : List JobStatus) (b : JobStatus) :
    statusEvents a (path ++ [b]) = statusEvents a path ++ [.jobStatus (path.getLastD a) b] := by
  induction path generalizing a with
  | nil => rfl
  | cons c path ih =>
    rw [List.cons_append, statusEvents, ih, statusEvents, List.cons_append, List.getLastD_cons]

/-- One transition lengthens the path. -/
theorem Job.Came.withTransition {j : Job} {path : List JobStatus} {events : List EventType}
    (h : j.Came path events) (now : Timestamp) (b : JobStatus) (out : Option Json)
    (err : Option String) :
    (j.withTransition now b out err).Came (path ++ [b]) (events ++ [.jobStatus j.status b]) := by
  have hc : (events ++ [EventType.jobStatus j.status b]).countP EventType.toFailed =
      events.countP EventType.toFailed + if b = .failed then 1 else 0 := by
    rw [List.countP_append]
    cases b <;> rfl
  have hr := h.retryCount
  constructor
  · rw [statusEvents_snoc, h.trail, h.status, List.cons_append]
  · rw [List.getLastD_concat, Job.withTransition_status]
  · rw [hc, Job.withTransition_retryCount, Job.withTransition_maxRetries]
    by_cases hb : b = .failed
    · simp only [hb, true_and, if_true]
      split <;> omega
    · simp only [hb, false_and, if_false]
      exact hr
  · rw [hc, Job.withTransition_nextRunAt, Job.withTransition_maxRetries]
    by_cases hb : b = .failed
    · simp only [hb, if_true]
      intro _
      split
      · simp only [reduceCtorEq, false_iff]
        omega
      · simp only [true_iff]
        omega
    · simp only [hb, if_false]
      exact h.nextRunAt

theorem targets_snoc (s : Stage) (calls : List ServiceCall) (c : ServiceCall) :
    targets s (calls ++ [c]) = targets s calls ++ if c.stage = s then [c.target] else [] := by
  rw [targets, List.filter_append, List.map_append, targets]
  by_cases h : c.stage = s <;> simp [h]

/-- The three jobs after the calls, each with its identity, its bound and its history. -/
structure CallHistory (ids : PipelineIds) (sid : Uuid) (m : Uuid → Nat) (calls : List ServiceCall)
    (db : Db) : Prop where
  row : ∀ s, ∃ j ∈ db.jobs, j.id = ids.id s ∧ j.Means (.stage (some sid) s) ∧ j.maxRetries = m j.id ∧
    j.Came (targets s calls) (db.jobEvents (ids.id s))
  key : ∀ s, ∀ j ∈ db.jobs, j.idempotencyKey = stageKey sid s.jobType → j.id = ids.id s

section Calls

variable {ids : PipelineIds} {sid : Uuid} {m : Uuid → Nat} {calls : List ServiceCall} {db : Db}
  {t : Tx Db Files} {id : Uuid} {now : Timestamp} {out : Option Json} {err : Option String}

/-- The next stage exists, so nothing is created. -/
theorem CallHistory.ensureNextJob (h : CallHistory ids sid m calls t.view) (s : Stage) :
    (AiBadge.ensureNextJob id now (some sid) s.jobType).Returns t () t := by
  obtain ⟨j, hj, hid, hm, -⟩ := h.row s
  have hsel : (t.view.jobs.select fun i => i.idempotencyKey = nextKey (some sid) s.jobType) = [j] := by
    apply Table.select_eq_singleton hj
    · exact decide_eq_true hm.key
    · intro i hi hk
      exact Table.eq_of_key_eq hi hj ((h.key s i hi (of_decide_eq_true hk)).trans hid.symm)
  simp only [AiBadge.ensureNextJob, returns_bind, returns_read, returns_scalarOneOrNone,
    returns_when]
  exact ⟨_, t, ⟨rfl, rfl⟩, some j, t, ⟨hsel, rfl⟩, .inr ⟨rfl, rfl⟩⟩

theorem CallHistory.record (h : CallHistory ids sid m calls db) (hi : Function.Injective ids.id)
    {c : ServiceCall} {j : Job} (hj : j ∈ db.jobs) (hid : j.id = ids.id c.stage) :
    CallHistory ids sid m (calls ++ [c]) (recordTransition now j c.target out err db) := by
  have hset : ∀ i ∈ db.jobs, (if i.id = j.id then i.withTransition now c.target out err else i) ∈
      (recordTransition now j c.target out err db).jobs := by
    intro i hi
    have hu := Table.mem_update_of_mem (p := fun i => i.id = j.id)
      (Job.withTransition_id now c.target out err) hi
    simp only [decide_eq_true_eq] at hu
    exact hu
  constructor
  · intro s
    obtain ⟨i, hi', hid', hmeans, hmax, hcame⟩ := h.row s
    refine ⟨_, hset i hi', ?_⟩
    rw [recordTransition, Db.jobEvents_addEvent, targets_snoc]
    by_cases hs : c.stage = s
    · obtain rfl : i = j := Table.eq_of_key_eq hi' hj (by rw [hid', hid, hs])
      rw [if_pos rfl, if_pos hs, if_pos (congrArg some hid')]
      refine ⟨?_, ?_, ?_, ?_⟩
      · rw [Job.withTransition_id, hid']
      · exact (withTransition_sameOrigin now c.target out err i).means hmeans
      · rw [Job.withTransition_maxRetries, Job.withTransition_id, hmax]
      · exact hcame.withTransition now c.target out err
    · have hne : i.id ≠ j.id := by
        rw [hid', hid]
        exact fun he => hs (hi he).symm
      have hnj : ¬ some j.id = some (ids.id s) := by
        rw [← hid']
        exact fun he => hne (Option.some.inj he).symm
      rw [if_neg hne, if_neg hs, if_neg hnj, List.append_nil, List.append_nil]
      exact ⟨hid', hmeans, hmax, hcame⟩
  · intro s i' hi' hk
    have hup : i' ∈ db.jobs.update (fun i => i.id = j.id) (Job.withTransition now c.target out err) :=
      hi'
    obtain ⟨i, hi, rfl⟩ := Table.mem_update.mp hup
    by_cases hp : decide (i.id = j.id) = true
    · rw [if_pos hp] at hk ⊢
      rw [Job.withTransition_id]
      have ho := withTransition_sameOrigin now c.target out err i
      exact h.key s i hi (ho.idempotencyKey.symm.trans hk)
    · rw [if_neg hp] at hk ⊢
      exact h.key s i hi hk

/-- The ids of the jobs of a session, in the order of their insertion. -/
def Db.jobIds (db : Db) (sid : Uuid) : List Uuid :=
  (db.jobs.select fun j => j.sessionId = some sid).map (·.id)

theorem jobIds_update {p : Job → Bool} {f : Job → Job} (hf : ∀ j, (f j).id = j.id)
    (hs : ∀ j, (f j).sessionId = j.sessionId) :
    (Db.jobIds { db with jobs := db.jobs.update p f hf } sid) = db.jobIds sid := by
  rw [Db.jobIds, Table.select_update (fun j => by rw [hs]), List.map_map, Db.jobIds]
  exact List.map_congr_left fun j _ => Table.key_apply hf j

/-- One call finds its row, returns, and adds no job. -/
theorem CallHistory.run (h : CallHistory ids sid m calls t.view) (hi : Function.Injective ids.id)
    (c : ServiceCall) : ∃ t', (c.run ids).Returns t () t' ∧
      CallHistory ids sid m (calls ++ [c]) t'.view ∧ t'.view.jobIds sid = t.view.jobIds sid := by
  obtain ⟨j, hj, hid, hmeans, -⟩ := h.row c.stage
  have hfind : t.view.job? (ids.id c.stage) = some j := Db.job?_eq_some.mpr ⟨hj, hid⟩
  have key (id : Uuid) (now : Timestamp) (out : Option Json) (err : Option String) :
      ∃ t', (AiBadge.transitionJob id now j c.target out err).Returns t () t' ∧
        CallHistory ids sid m (calls ++ [c]) t'.view ∧ t'.view.jobIds sid = t.view.jobIds sid := by
    let t' := (t.flush fun db => db.setJob j.id (Job.withTransition now c.target out err)).flush
      fun db => db.addEvent { jobId := some j.id, eventType := .jobStatus j.status c.target }
    have hv : t'.view = recordTransition now j c.target out err t.view := by
      rw [Tx.view_flush, Tx.view_flush]
      rfl
    have h' : CallHistory ids sid m (calls ++ [c]) t'.view := by
      rw [hv]
      exact h.record hi hj hid
    refine ⟨t', ?_, h', ?_⟩
    · simp only [AiBadge.transitionJob, returns_bind, returns_write, returns_when, returns_forSome]
      refine ⟨(), _, rfl, (), _, rfl, ?_⟩
      by_cases hb : c.target = .completed
      · refine .inl ⟨decide_eq_true hb, ?_⟩
        cases hn : pipelineNext j.jobType with
        | none => exact .inr ⟨rfl, rfl⟩
        | some next =>
          obtain ⟨s, rfl⟩ := stage_of_pipelineNext hn
          rw [hmeans.sessionId]
          exact .inl ⟨_, rfl, h'.ensureNextJob s⟩
      · exact .inr ⟨decide_eq_false hb, rfl⟩
    · rw [hv]
      exact jobIds_update (Job.withTransition_id now c.target out err)
        fun i => (withTransition_sameOrigin _ _ _ _ i).sessionId
  have hrun (id : Uuid) (now : Timestamp) (out : Option Json) (err : Option String)
      (he : c.run ids = do
        let job ← read fun db => db.job? (ids.id c.stage)
        forSome job fun job => AiBadge.transitionJob id now job c.target out err) :
      ∃ t', (c.run ids).Returns t () t' ∧ CallHistory ids sid m (calls ++ [c]) t'.view ∧
        t'.view.jobIds sid = t.view.jobIds sid := by
    obtain ⟨t', hr, h'⟩ := key id now out err
    refine ⟨t', ?_, h'⟩
    rw [he, returns_bind]
    exact ⟨_, t, returns_read.mpr ⟨rfl, rfl⟩, returns_forSome.mpr (.inl ⟨j, hfind, hr⟩)⟩
  cases c with
  | transitionJob id now stage newStatus out err => exact hrun id now out err rfl
  | retryJob id now stage => exact hrun id now none none rfl

theorem CallHistory.runCalls {more : List ServiceCall} (h : CallHistory ids sid m calls t.view)
    (hi : Function.Injective ids.id) : ∃ t', (AiBadge.runCalls ids more).Returns t () t' ∧
      CallHistory ids sid m (calls ++ more) t'.view ∧ t'.view.jobIds sid = t.view.jobIds sid := by
  induction more generalizing calls t with
  | nil => exact ⟨t, returns_pure.mpr ⟨rfl, rfl⟩, by rwa [List.append_nil], rfl⟩
  | cons c more ih =>
    obtain ⟨t₁, hr, h₁, hids⟩ := h.run hi c
    obtain ⟨t', hr', h', hids'⟩ := ih h₁
    rw [List.append_assoc] at h'
    exact ⟨t', returns_bind.mpr ⟨(), t₁, hr, hr'⟩, h', hids'.trans hids⟩

theorem Db.PipelineFree.injective (h : db.PipelineFree ids now sid) :
    Function.Injective ids.id := by
  intro a b hab
  cases a <;> cases b <;> first | rfl | skip
  · exact absurd hab h.ne₁
  · exact absurd hab h.ne₂
  · exact absurd hab.symm h.ne₁
  · exact absurd hab h.ne₃
  · exact absurd hab.symm h.ne₂
  · exact absurd hab.symm h.ne₃

theorem Db.PipelineFree.keyFree (h : db.PipelineFree ids now sid) (s : Stage) :
    db.KeyFree (stageJob (ids.id s) now sid s.jobType) := by
  cases s with
  | transcribe => exact h.transcribe
  | summarize => exact h.summarize
  | extractArtifact => exact h.extractArtifact

theorem Db.PipelineFree.mem_iff (h : db.PipelineFree ids now sid) {j : Job} :
    j ∈ (addPipeline ids now sid db).jobs ↔
      j ∈ db.jobs ∨ ∃ s, j = stageJob (ids.id s) now sid s.jobType := by
  rw [h.mem_addPipeline]
  refine or_congr_right ⟨?_, ?_⟩
  · rintro (rfl | rfl | rfl)
    · exact ⟨.transcribe, rfl⟩
    · exact ⟨.summarize, rfl⟩
    · exact ⟨.extractArtifact, rfl⟩
  · rintro ⟨s, rfl⟩
    cases s with
    | transcribe => exact .inl rfl
    | summarize => exact .inr (.inl rfl)
    | extractArtifact => exact .inr (.inr rfl)

/-- No event names a job that does not exist: the foreign key of `workflow_events.job_id`. -/
def Db.EventsRefer (db : Db) : Prop :=
  ∀ e ∈ db.workflowEvents, ∀ u, e.jobId = some u → ∃ j ∈ db.jobs, j.id = u

theorem Db.PipelineFree.jobEvents (h : db.PipelineFree ids now sid) (hfk : db.EventsRefer)
    (s : Stage) : (addPipeline ids now sid db).jobEvents (ids.id s) = [.jobCreated] := by
  have hnone : db.jobEvents (ids.id s) = [] := by
    rw [Db.jobEvents, List.map_eq_nil_iff, List.filter_eq_nil_iff]
    intro e he hj
    obtain ⟨j, hj', hid⟩ := hfk e he _ (of_decide_eq_true hj)
    exact (h.keyFree s j hj').1 hid
  have h₁ := h.ne₁
  have h₂ := h.ne₂
  have h₃ := h.ne₃
  cases s <;> simp_all [addPipeline, PipelineIds.id, Ne.symm]

/-- The history begins when the jobs are created. -/
theorem history_nil (h : db.PipelineFree ids now sid) (hfk : db.EventsRefer) :
    CallHistory ids sid m [] (setMaxRetries m (addPipeline ids now sid db)) := by
  constructor
  · intro s
    have hj : stageJob (ids.id s) now sid s.jobType ∈ (addPipeline ids now sid db).jobs :=
      h.mem_iff.mpr (.inr ⟨s, rfl⟩)
    have hrow : (stageJob (ids.id s) now sid s.jobType).withMaxRetries (m (ids.id s)) ∈
        (setMaxRetries m (addPipeline ids now sid db)).jobs := by
      rw [setMaxRetries_jobs, Table.mem_update]
      exact ⟨_, hj, rfl⟩
    refine ⟨_, hrow, rfl, ?_, rfl, ?_⟩
    · constructor <;> rfl
    · rw [show (setMaxRetries m (addPipeline ids now sid db)).jobEvents (ids.id s) = [.jobCreated]
        from h.jobEvents hfk s]
      constructor
      · rfl
      · rfl
      · exact (Nat.zero_min _).symm
      · intro hpos
        exact absurd hpos (by decide)
  · intro s i' hi' hk
    have hup : i' ∈ (addPipeline ids now sid db).jobs.update (fun _ => true) fun j =>
      j.withMaxRetries (m j.id) := hi'
    obtain ⟨i, hi, rfl⟩ := Table.mem_update.mp hup
    rcases h.mem_iff.mp hi with hi | ⟨r, rfl⟩
    · exact absurd hk (h.keyFree s i hi).2
    · by_cases hrs : r = s
      · rw [hrs]
        rfl
      · exact absurd hk (stageKey_ne hrs)

theorem jobIds_addJob {j : Job} (hf : db.KeyFree j) (hs : j.sessionId = some sid) :
    (db.addJob j).jobIds sid = db.jobIds sid ++ [j.id] := by
  rw [Db.jobIds, Db.addJob_jobs, Table.select_insert_of_not_mem fun r hr => (hf r hr).1,
    if_pos (decide_eq_true hs), List.map_append]
  rfl

theorem jobIds_addPipeline (h : db.PipelineFree ids now sid) :
    (addPipeline ids now sid db).jobIds sid =
      db.jobIds sid ++ [ids.transcribe, ids.summarize, ids.extractArtifact] := by
  have next {db : Db} {a b : Stage} (hab : a ≠ b)
      (hf : db.KeyFree (stageJob (ids.id b) now sid b.jobType)) :
      (db.addJob (stageJob (ids.id a) now sid a.jobType)).KeyFree
        (stageJob (ids.id b) now sid b.jobType) := by
    intro r hr
    rcases Table.mem_of_mem_insert hr with hr | rfl
    · exact hf r hr
    · exact ⟨fun he => hab (h.injective he), stageKey_ne hab⟩
  have h₁ := h.keyFree .transcribe
  have h₂ := next (a := .transcribe) (b := .summarize) nofun (h.keyFree _)
  have h₃ := next (a := .transcribe) (b := .extractArtifact) nofun (h.keyFree _)
  replace h₃ := next (a := .summarize) (b := .extractArtifact) nofun h₃
  calc (addPipeline ids now sid db).jobIds sid
      = (((db.addJob (stageJob (ids.id .transcribe) now sid (Stage.jobType .transcribe))).addJob
          (stageJob (ids.id .summarize) now sid (Stage.jobType .summarize))).addJob (stageJob
            (ids.id .extractArtifact) now sid (Stage.jobType .extractArtifact))).jobIds sid := rfl
    _ = ((db.jobIds sid ++ [ids.transcribe]) ++ [ids.summarize]) ++ [ids.extractArtifact] := by
      rw [jobIds_addJob h₃ rfl, jobIds_addJob h₂ rfl, jobIds_addJob h₁ rfl]
      rfl
    _ = _ := by rw [List.append_assoc, List.append_assoc]; rfl

theorem jobIds_setMaxRetries : (setMaxRetries m db).jobIds sid = db.jobIds sid :=
  jobIds_update (f := fun j => j.withMaxRetries (m j.id)) (fun _ => rfl) fun _ => rfl

/-- Whatever is called on the three jobs of a pipeline, with whatever retry bounds: no call raises,
each job's events spell out the chain of its statuses and determine its counters, and no job is
added to the session. -/
theorem pipeline_history {t₀ t₁ : Tx Db Files} (hfk : t₀.view.EventsRefer)
    (h : (createJobsForSession ids now sid).Returns t₀ () t₁) (m : Uuid → Nat)
    (calls : List ServiceCall) :
    ∃ t, (runCalls ids calls).Returns (t₁.flush (setMaxRetries m)) () t ∧
      (∀ s, ∃ j, t.view.job? (ids.id s) = some j ∧ j.sessionId = some sid ∧
        j.jobType = s.jobType ∧ j.maxRetries = m j.id ∧
        j.Came (targets s calls) (t.view.jobEvents j.id)) ∧
      t.view.jobIds sid =
        t₀.view.jobIds sid ++ [ids.transcribe, ids.summarize, ids.extractArtifact] := by
  obtain ⟨hf, hv⟩ := returns_createJobsForSession h
  have h₀ : CallHistory ids sid m [] (t₁.flush (setMaxRetries m)).view := by
    rw [Tx.view_flush, hv]
    exact history_nil hf hfk
  obtain ⟨t, hr, ht, hids⟩ := h₀.runCalls hf.injective
  refine ⟨t, hr, fun s => ?_, ?_⟩
  · obtain ⟨j, hj, hid, hmeans, hmax, hcame⟩ := ht.row s
    exact ⟨j, Db.job?_eq_some.mpr ⟨hj, hid⟩, hmeans.sessionId, hmeans.jobType, hmax, hid ▸ hcame⟩
  · rw [hids, Tx.view_flush, hv, jobIds_setMaxRetries, jobIds_addPipeline hf]

end Calls

namespace Replay

def stageIds : PipelineIds := ⟨uuid 1, uuid 2, uuid 3⟩

/-- A transcription that fails, is retried and fails again. -/
def failsTwice : List ServiceCall :=
  [.transitionJob (uuid 9) 0 .transcribe .running none none,
    .transitionJob (uuid 9) 1 .transcribe .failed none (some "down"),
    .retryJob (uuid 9) 2 .transcribe,
    .transitionJob (uuid 9) 3 .transcribe .failed none (some "down")]

end Replay

open Replay in
theorem pipeline_history_failsTwice : ∃ t₁ t : Tx Db Files,
    (createJobsForSession stageIds 0 (uuid 5)).Returns (Tx.start .empty []) () t₁ ∧
      (runCalls stageIds failsTwice).Returns (t₁.flush (setMaxRetries fun _ => 1)) () t ∧
      ∃ j, t.view.job? (uuid 1) = some j ∧
        j.status = .failed ∧ j.retryCount = 1 ∧ j.nextRunAt = none := by
  have h : (createJobsForSession stageIds 0 (uuid 5)).Returns (Tx.start .empty []) ()
      (createJobsForSession stageIds 0 (uuid 5) (Tx.start .empty [])).2 := rfl
  have hfk : (Tx.start .empty [] : Tx Db Files).view.EventsRefer :=
    fun e he => absurd he List.not_mem_nil
  obtain ⟨t, hr, hrow, -⟩ := pipeline_history hfk h (fun _ => 1) failsTwice
  obtain ⟨j, hj, -, -, hmax, hcame⟩ := hrow .transcribe
  have hcount : (t.view.jobEvents j.id).countP EventType.toFailed = 2 := by
    rw [hcame.trail]
    rfl
  have hretry := hcame.retryCount
  have hnext := hcame.nextRunAt
  rw [hcount, hmax] at hretry hnext
  exact ⟨_, t, h, hr, j, hj, hcame.status, hretry, (hnext (by decide)).mpr (by decide)⟩

end AiBadge
