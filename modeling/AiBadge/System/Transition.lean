import AiBadge.Orchestrator.Identity
import AiBadge.System.Invariant

/-! # What a transition of a job writes

`transition_job` rewrites one row, adds one event, and at most creates the next
stage of the pipeline.
-/

namespace AiBadge

open Lib Prog DbM

/-- The types of the events of a job, in the order of their insertion. -/
def Db.jobEvents (db : Db) (job : Uuid) : List EventType :=
  (db.workflowEvents.filter fun e => e.jobId = some job).map (·.eventType)

@[simp] theorem Db.jobEvents_addEvent (db : Db) (e : WorkflowEvent) (job : Uuid) :
    (db.addEvent e).jobEvents job =
      db.jobEvents job ++ if e.jobId = some job then [e.eventType] else [] := by
  rw [jobEvents, addEvent_workflowEvents, List.filter_append, List.map_append, jobEvents]
  by_cases h : e.jobId = some job <;> simp [h]

@[simp] theorem Db.jobEvents_addJob (db : Db) (j : Job) (job : Uuid) :
    (db.addJob j).jobEvents job = db.jobEvents job := rfl

/-- What one transition of the row `j` writes. -/
def recordTransition (now : Timestamp) (j : Job) (b : JobStatus) (out : Option Json)
    (err : Option String) (db : Db) : Db :=
  (db.setJob j.id (Job.withTransition now b out err) (Job.withTransition_id now b out err)).addEvent
    { jobId := some j.id, eventType := .jobStatus j.status b }

theorem withTransition_sameOrigin (now : Timestamp) (newStatus : JobStatus)
    (outputPayload : Option Json) (errorMessage : Option String) (j : Job) :
    j.SameOrigin (j.withTransition now newStatus outputPayload errorMessage) := by
  unfold Job.withTransition
  split
  · constructor <;> rfl
  · constructor <;> rfl
  · constructor <;> rfl
  · split <;> constructor <;> rfl

section Transition

variable {id : Uuid} {now : Timestamp} {j : Job} {st : JobStatus} {out : Option Json}
  {err : Option String} {sid : Option Uuid} {t t₀ : Tx Db Files}

theorem returns_ensureNextJob {next : JobType}
    (h : (ensureNextJob id now sid next).Returns t₀ () t) :
    t = t₀ ∨ t₀.view.KeyFree (nextJob id now sid next) ∧
      t.view = (t₀.view.addJob (nextJob id now sid next)).addEvent
        { jobId := some id, eventType := .jobCreated } := by
  simp only [ensureNextJob, addJobCreated, returns_bind, returns_read, returns_scalarOneOrNone,
    returns_when, returns_insertJob, returns_write] at h
  obtain ⟨_, _, ⟨rfl, rfl⟩, o, _, ⟨-, rfl⟩, ⟨-, _, _, ⟨hf, rfl⟩, rfl⟩ | ⟨-, rfl⟩⟩ := h
  · exact .inr ⟨hf, by rw [Tx.view_flush, Tx.view_flush]⟩
  · exact .inl rfl

/-- A transition rewrites its row, records it, and adds at most the next stage. -/
theorem returns_transitionJob (h : (transitionJob id now j st out err).Returns t₀ () t) :
    t.view = recordTransition now j st out err t₀.view ∨
      ∃ stage : Stage, (recordTransition now j st out err t₀.view).KeyFree
          (nextJob id now j.sessionId stage.jobType) ∧
        t.view = ((recordTransition now j st out err t₀.view).addJob
          (nextJob id now j.sessionId stage.jobType)).addEvent
            { jobId := some id, eventType := .jobCreated } := by
  simp only [transitionJob, returns_bind, returns_write, returns_when, returns_forSome] at h
  obtain ⟨_, _, rfl, _, _, rfl, ⟨-, ⟨next, hn, h⟩ | ⟨-, rfl⟩⟩ | ⟨-, rfl⟩⟩ := h
  · obtain ⟨stage, rfl⟩ := stage_of_pipelineNext hn
    rcases returns_ensureNextJob h with rfl | ⟨hf, hv⟩
    · rw [Tx.view_flush, Tx.view_flush]
      exact .inl rfl
    · rw [Tx.view_flush, Tx.view_flush] at hf hv
      exact .inr ⟨stage, hf, hv⟩
  · rw [Tx.view_flush, Tx.view_flush]
    exact .inl rfl
  · rw [Tx.view_flush, Tx.view_flush]
    exact .inl rfl

/-- The row after a transition, and the event that records it. -/
theorem row_of_transitionJob (h : (transitionJob id now j st out err).Returns t₀ () t)
    (hj : j ∈ t₀.view.jobs) : j.withTransition now st out err ∈ t.view.jobs ∧
      t.view.jobEvents j.id = t₀.view.jobEvents j.id ++ [.jobStatus j.status st] := by
  have hrow : j.withTransition now st out err ∈ (recordTransition now j st out err t₀.view).jobs := by
    have hu := Table.mem_update_of_mem (p := fun i => i.id = j.id)
      (Job.withTransition_id now st out err) hj
    rwa [if_pos (decide_eq_true rfl)] at hu
  have hev : (recordTransition now j st out err t₀.view).jobEvents j.id =
      t₀.view.jobEvents j.id ++ [.jobStatus j.status st] := by
    rw [recordTransition, Db.jobEvents_addEvent, if_pos rfl]
    rfl
  rcases returns_transitionJob h with hv | ⟨stage, hf, hv⟩
  · rw [hv]
    exact ⟨hrow, hev⟩
  · have hne : ¬ some id = some j.id := by
      intro he
      refine (hf _ hrow).1 ?_
      rw [Job.withTransition_id]
      exact (Option.some.inj he).symm
    rw [hv, Db.jobEvents_addEvent, if_neg hne, List.append_nil, Db.jobEvents_addJob]
    exact ⟨Table.mem_insert_of_mem hrow, hev⟩

theorem keeps_transitionJob : Keeps Tx.committed (transitionJob id now j st out err) := by
  have hnext {next : JobType} : Keeps Tx.committed (ensureNextJob id now j.sessionId next) := by
    refine keeps_read.bind fun _ => keeps_scalarOneOrNone.bind fun _ => Keeps.when ?_
    refine Keeps.bind (keeps_read.bind fun _ => keeps_ensure.bind fun _ => ?_) fun _ => ?_
    · exact keeps_write_committed
    · exact keeps_write_committed
  refine keeps_write_committed.bind fun _ => keeps_write_committed.bind fun _ => Keeps.when ?_
  cases pipelineNext j.jobType with
  | none => exact keeps_pure
  | some next => exact hnext

end Transition

end AiBadge
