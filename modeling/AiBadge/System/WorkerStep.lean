import AiBadge.System.Effect

/-! # One worker over one step

Every way a step can change the local state of a worker, and the clock.
-/

namespace AiBadge

open Lib Prog

/-- How far an action advances the clock. -/
def Action.elapsed : Action → Nat
  | .tick d => d
  | _ => 0

/-- The worker that an action is a step of. -/
def Action.worker? : Action → Option WorkerId
  | .request _ | .tick _ => none
  | .beginCycle k | .claim k _ _ | .claimNone k _ | .runHandler k _ _ | .markFailed k
  | .heartbeat k | .signal k | .processDeletion k _ _ _ | .endCycle k | .crash k
  | .crashDeleting k _ _ _ => some k

/-- The job whose handler a worker is inside. -/
def Phase.handled? : Phase → Option Uuid
  | .handling job => some job
  | _ => none

theorem handled?_eq_some {p : Phase} {job : Uuid} :
    p.handled? = some job ↔ p = .handling job := by
  cases p <;> simp [Phase.handled?]

/-- The job whose handler a step calls. -/
def World.calls? (w : World) : Action → Option Uuid
  | .runHandler k _ _ => (w.workers k).phase.handled?
  | _ => none

theorem calls?_eq_some {w : World} {a : Action} {job : Uuid} : w.calls? a = some job ↔
    ∃ k providers aid, a = .runHandler k providers aid ∧ (w.workers k).phase = .handling job := by
  cases a <;> simp [World.calls?, handled?_eq_some]

namespace World

inductive WorkerStep (w : World) (a : Action) (k : WorkerId) (worker : Worker) : Worker → Prop where
  | same : (∀ job locked, a ≠ .claim k job locked) → WorkerStep w a k worker worker
  | began : a = .beginCycle k → worker.phase = .idle → worker.shutdown = false →
      WorkerStep w a k worker { worker with phase := .polling }
  | claimed {job : Uuid} {locked : List Uuid} : a = .claim k job locked →
      worker.phase = .polling →
      WorkerStep w a k worker { worker with
        phase := .handling job, beat := if worker.shutdown then none else some w.now }
  | rested {locked : List Uuid} : a = .claimNone k locked → worker.phase = .polling →
      WorkerStep w a k worker { worker with phase := .tail [releaseTimedOutJobs w.now] }
  | called {providers : Providers} {aid : Uuid} {j : Job} {db : Db} {pending : List (Db → Db)}
      {worker' : Worker} : a = .runHandler k providers aid → worker.phase = .handling j.id →
      j ∈ w.db.jobs → CallOutcome worker j.id pending worker' →
      CallEffect w k providers aid j db pending → WorkerStep w a k worker worker'
  | marked {job : Uuid} {e : Exn} {pending : List (Db → Db)} : a = .markFailed k →
      worker.phase = .failed job e pending →
      WorkerStep w a k worker { worker with phase := .tail pending, beat := none }
  | beaten {job : Uuid} : a = .heartbeat k → worker.beat.isSome → worker.phase.job? = some job →
      WorkerStep w a k worker { worker with beat := if worker.shutdown then none else some w.now }
  | signalled : a = .signal k → WorkerStep w a k worker { worker with shutdown := true }
  | ended {pending : List (Db → Db)} : a.worker? = some k → worker.phase = .tail pending →
      WorkerStep w a k worker { worker with phase := .idle }
  | crashed : a.worker? = some k →
      WorkerStep w a k worker { worker with phase := .crashed, beat := none }

variable {w w' : World} {a : Action} {k : WorkerId}

theorem setWorker_workers (i : WorkerId) (worker : Worker) :
    (w.setWorker i worker).workers k = if k = i then worker else w.workers k := by
  simp [World.setWorker, Function.update_apply]

theorem worker_of_setWorker {i : WorkerId} {worker : Worker} (ha : ∀ job locked, k ≠ i →
    a ≠ .claim k job locked) (h : k = i → w.WorkerStep a k (w.workers k) worker) :
    w.WorkerStep a k (w.workers k) ((w.setWorker i worker).workers k) := by
  rw [setWorker_workers]
  split
  next hk => exact h hk
  next hk => exact .same fun job locked => ha job locked hk

/-- The local state of a worker over one step. -/
theorem worker_of_act (h : w.act a = some w') : w.WorkerStep a k (w.workers k) (w'.workers k) := by
  cases a with
  | request r =>
    obtain rfl : w.serve r = w' := Option.some.inj h
    have hs : (w.serve r).workers = w.workers := by
      unfold serve
      split <;> rfl
    rw [hs]
    exact .same (by rintro _ _ ⟨⟩)
  | tick d =>
    obtain rfl := Option.some.inj h
    exact .same (by rintro _ _ ⟨⟩)
  | beginCycle i =>
    obtain ⟨⟨hp, hs⟩, rfl⟩ := act_beginCycle h
    refine worker_of_setWorker (by rintro _ _ _ ⟨⟩) ?_
    rintro rfl
    exact .began rfl hp hs
  | claim i job locked =>
    obtain ⟨hp, -, rfl⟩ := act_claim h
    refine worker_of_setWorker (fun _ _ hne he => hne (Action.claim.inj he).1.symm) ?_
    rintro rfl
    exact .claimed rfl hp
  | claimNone i locked =>
    obtain ⟨hp, rfl⟩ := act_claimNone h
    refine worker_of_setWorker (by rintro _ _ _ ⟨⟩) ?_
    rintro rfl
    exact .rested rfl hp
  | runHandler i providers aid =>
    obtain ⟨j, hj, hp, rfl⟩ := act_runHandler h
    obtain ⟨worker, db, pending, ho, hc, he⟩ := runHandler_cases hj hp
    rw [he]
    refine worker_of_setWorker (by rintro _ _ _ ⟨⟩) ?_
    rintro rfl
    exact .called rfl hp hj ho hc
  | markFailed i =>
    obtain ⟨job, e, pending, hp, rfl⟩ := act_markFailed h
    refine worker_of_setWorker (by rintro _ _ _ ⟨⟩) ?_
    rintro rfl
    exact .marked rfl hp
  | heartbeat i =>
    obtain ⟨job, hb, hp, rfl⟩ := act_heartbeat h
    refine worker_of_setWorker (by rintro _ _ _ ⟨⟩) ?_
    rintro rfl
    exact .beaten rfl hb hp
  | signal i =>
    obtain rfl := Option.some.inj h
    refine worker_of_setWorker (by rintro _ _ _ ⟨⟩) ?_
    rintro rfl
    exact .signalled rfl
  | processDeletion i job locked remove =>
    obtain ⟨pending, d, hp, -, rfl⟩ := act_processDeletion h
    refine worker_of_setWorker (by rintro _ _ _ ⟨⟩) ?_
    rintro rfl
    exact .ended rfl hp
  | endCycle i =>
    obtain ⟨⟨pending, hp⟩, rfl⟩ := act_endCycle h
    refine worker_of_setWorker (by rintro _ _ _ ⟨⟩) ?_
    rintro rfl
    exact .ended rfl hp
  | crash i =>
    obtain rfl := Option.some.inj h
    refine worker_of_setWorker (by rintro _ _ _ ⟨⟩) ?_
    rintro rfl
    exact .crashed rfl
  | crashDeleting i job locked remove =>
    obtain ⟨pending, d, -, -, rfl⟩ := act_crashDeleting h
    refine worker_of_setWorker (by rintro _ _ _ ⟨⟩) ?_
    rintro rfl
    exact .crashed rfl

theorem worker_of_step (h : w.step a = some w') :
    w.WorkerStep a k (w.workers k) (w'.workers k) := by
  obtain ⟨-, w₁, hw, rfl⟩ := step_eq_some.mp h
  have hs : w.WorkerStep a k (w.workers k) (w₁.workers k) := worker_of_act hw
  exact hs

/-- The step of one worker leaves the others alone. -/
theorem WorkerStep.eq_of_other {worker worker' : Worker} (h : w.WorkerStep a k worker worker')
    (ha : a.worker? ≠ some k) : worker' = worker := by
  cases h with
  | same => rfl
  | ended hk => exact absurd hk ha
  | crashed hk => exact absurd hk ha
  | began hk => exact absurd (congrArg Action.worker? hk) ha
  | claimed hk => exact absurd (congrArg Action.worker? hk) ha
  | rested hk => exact absurd (congrArg Action.worker? hk) ha
  | called hk => exact absurd (congrArg Action.worker? hk) ha
  | marked hk => exact absurd (congrArg Action.worker? hk) ha
  | beaten hk => exact absurd (congrArg Action.worker? hk) ha
  | signalled hk => exact absurd (congrArg Action.worker? hk) ha

/-- A worker gets a job into its hands by claiming it. -/
theorem WorkerStep.job? {worker worker' : Worker} {job : Uuid}
    (h : w.WorkerStep a k worker worker') (hj : worker'.phase.job? = some job) :
    worker.phase.job? = some job ∨ ∃ locked, a = .claim k job locked := by
  cases h with
  | same => exact .inl hj
  | began => cases hj
  | claimed ha =>
    obtain rfl := Option.some.inj hj
    exact .inr ⟨_, ha⟩
  | rested => cases hj
  | called _ hp _ ho =>
    cases ho with
    | returned => cases hj
    | raised =>
      rw [hp]
      exact .inl hj
    | escaped => cases hj
  | marked => cases hj
  | beaten => exact .inl hj
  | signalled => exact .inl hj
  | ended => cases hj
  | crashed => cases hj

/-- A worker is inside a handler from its claim on. -/
theorem WorkerStep.handling {worker worker' : Worker} {job : Uuid}
    (h : w.WorkerStep a k worker worker') (hj : worker'.phase = .handling job) :
    worker.phase = .handling job ∨ ∃ locked, a = .claim k job locked := by
  cases h with
  | same => exact .inl hj
  | began => cases hj
  | claimed ha =>
    obtain rfl := Phase.handling.inj hj
    exact .inr ⟨_, ha⟩
  | rested => cases hj
  | called _ _ _ ho => cases ho <;> cases hj
  | marked => cases hj
  | beaten => exact .inl hj
  | signalled => exact .inl hj
  | ended => cases hj
  | crashed => cases hj

/-- A worker is about to mark a job failed once its handler call has raised what leaves the
session usable. -/
theorem raises_of_failed {job : Uuid} {e : Exn} {pending : List (Db → Db)} (h : w.step a = some w')
    (hp : (w'.workers k).phase = .failed job e pending) :
    (w.workers k).phase = .failed job e pending ∨
      ∃ providers aid, ∃ j ∈ w.db.jobs, ∃ handler t, a = .runHandler k providers aid ∧
        (w.workers k).phase = .handling j.id ∧ j.id = job ∧
        jobHandler j.jobType = some handler ∧
        (handler ⟨providers, w.now, aid⟩ j).Raises (Tx.start w.db w.files) e t ∧
        e.abortsSession = false := by
  have hs := worker_of_step (k := k) h
  generalize hv : w'.workers k = worker at hs hp
  cases hs with
  | same => exact .inl hp
  | began => cases hp
  | claimed => cases hp
  | rested => cases hp
  | marked => cases hp
  | beaten => exact .inl hp
  | signalled => exact .inl hp
  | ended => cases hp
  | crashed => cases hp
  | @called providers aid _ _ _ _ ha =>
    subst ha
    obtain ⟨-, w₁, hw, rfl⟩ := step_eq_some.mp h
    obtain ⟨j, hj, hq, rfl⟩ := act_runHandler hw
    have hr : ((w.runHandler k providers aid j).workers k).phase = .failed job e pending :=
      (congrArg Worker.phase hv).trans hp
    unfold runHandler at hr
    cases hh : jobHandler j.jobType with
    | none => simp [hh, World.setWorker] at hr
    | some handler =>
      generalize ht : handler ⟨providers, w.now, aid⟩ j (Tx.start w.db w.files) = rt at hr
      obtain ⟨r, t⟩ := rt
      cases r with
      | ok => simp [hh, ht, World.setWorker] at hr
      | error e' =>
        cases hb : e'.abortsSession with
        | true => simp [hh, ht, hb, World.setWorker] at hr
        | false =>
          simp only [hh, ht, hb, World.setWorker, Function.update_self, Bool.false_eq_true,
            if_false, Phase.failed.injEq] at hr
          obtain ⟨rfl, rfl, rfl⟩ := hr
          exact .inr ⟨providers, aid, j, hj, handler, t, rfl, hq, rfl, hh, ht, hb⟩

theorem handling_of_claim {job : Uuid} {locked : List Uuid}
    (h : w.step (.claim k job locked) = some w') : (w'.workers k).phase = .handling job := by
  obtain ⟨-, w₁, hw, rfl⟩ := step_eq_some.mp h
  obtain ⟨-, -, rfl⟩ := act_claim hw
  simp [claim, World.setWorker]

/-- The handler call of a worker is over after the step that runs it. -/
theorem not_handling_of_runHandler {providers : Providers} {aid job : Uuid}
    (h : w.step (.runHandler k providers aid) = some w') :
    (w'.workers k).phase ≠ .handling job := by
  obtain ⟨-, w₁, hw, rfl⟩ := step_eq_some.mp h
  obtain ⟨j, hj, hp, rfl⟩ := act_runHandler hw
  obtain ⟨worker, db, pending, ho, -, he⟩ := runHandler_cases hj hp
  rw [he]
  cases ho <;> simp [World.setWorker]

/-- A worker that takes no step stays as it is. -/
theorem worker_of_run {w₀ : World} {tr : List (Transition World Action)}
    (hr : Run World.step w₀ tr w) (hn : ∀ t ∈ tr, t.act.worker? ≠ some k) :
    w.workers k = w₀.workers k := by
  induction hr with
  | init => rfl
  | @snoc tr w w' a hr h ih =>
    have ha : a.worker? ≠ some k := hn ⟨w, a, w'⟩ (by simp)
    exact ((worker_of_step h).eq_of_other ha).trans (ih fun t ht => hn t (by simp [ht]))

theorem now_of_step (h : w.step a = some w') : w'.now = w.now + a.elapsed := by
  obtain ⟨-, w₁, hw, rfl⟩ := step_eq_some.mp h
  cases a with
  | request r =>
    obtain rfl : w.serve r = w₁ := Option.some.inj hw
    have hs : (w.serve r).now = w.now := by
      unfold serve
      split <;> rfl
    simpa [Action.elapsed] using hs
  | tick d =>
    obtain rfl := Option.some.inj hw
    rfl
  | runHandler i providers aid =>
    obtain ⟨j, hj, hp, rfl⟩ := act_runHandler hw
    obtain ⟨worker, db, pending, -, -, he⟩ := runHandler_cases hj hp
    rw [he]
    exact (Int.add_zero _).symm
  | beginCycle i =>
    obtain ⟨-, rfl⟩ := act_beginCycle hw
    exact (Int.add_zero _).symm
  | claim i job locked =>
    obtain ⟨-, -, rfl⟩ := act_claim hw
    exact (Int.add_zero _).symm
  | claimNone i locked =>
    obtain ⟨-, rfl⟩ := act_claimNone hw
    exact (Int.add_zero _).symm
  | markFailed i =>
    obtain ⟨_, _, _, -, rfl⟩ := act_markFailed hw
    exact (Int.add_zero _).symm
  | heartbeat i =>
    obtain ⟨_, -, -, rfl⟩ := act_heartbeat hw
    exact (Int.add_zero _).symm
  | signal i =>
    obtain rfl := Option.some.inj hw
    exact (Int.add_zero _).symm
  | processDeletion i job locked remove =>
    obtain ⟨_, _, -, -, rfl⟩ := act_processDeletion hw
    exact (Int.add_zero _).symm
  | endCycle i =>
    obtain ⟨-, rfl⟩ := act_endCycle hw
    exact (Int.add_zero _).symm
  | crash i =>
    obtain rfl := Option.some.inj hw
    exact (Int.add_zero _).symm
  | crashDeleting i job locked remove =>
    obtain ⟨_, _, -, -, rfl⟩ := act_crashDeleting hw
    exact (Int.add_zero _).symm

end World

end AiBadge
