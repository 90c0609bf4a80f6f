import AiBadge.System.Invariant
import AiBadge.System.WorkerStep

/-! # Completed jobs

A job that is completed once stays completed and is never claimed again, whatever
stale copies of its row the other workers still write back.
-/

namespace AiBadge

open Lib

/-- The job is completed, and no poll cycle could claim it. -/
structure Retired (w : World) (job : Uuid) : Prop where
  completed : ∃ j ∈ w.db.jobs, j.id = job ∧ j.status = .completed
  unclaimed : ∀ locked, ∀ i ∈ claimCandidates locked w.now (releaseTimedOutJobs w.now w.db),
    i.id ≠ job

/-- No worker has a completed job of unknown type in its hands. -/
def UnknownDropped (w : World) : Prop :=
  ∀ j ∈ w.db.jobs, j.status = .completed → jobHandler j.jobType = none →
    ∀ k, (w.workers k).phase.job? ≠ some j.id

namespace World

variable {w w' : World} {a : Action} {j j' : Job}

theorem retired_of_completed (hj : j ∈ w.db.jobs) (hc : j.status = .completed) :
    Retired w j.id where
  completed := ⟨j, hj, rfl, hc⟩
  unclaimed locked i hi he := by
    obtain ⟨i₀, hi₀, hid, rfl, hcl⟩ := claimable_of_candidate hi
    obtain rfl := Table.eq_of_key_eq hi₀ hj (hid.symm.trans he)
    have ho := isOpen_of_claimable hcl
    rw [hc] at ho
    cases ho

/-- Every write to the row of a completed job leaves it completed. -/
theorem JobStep.completed (h : w.JobStep a j j') (hj : j ∈ w.db.jobs) (hu : UnknownDropped w)
    (hc : j.status = .completed) :
    j'.status = .completed ∧ ∀ k locked, a ≠ .claim k j.id locked := by
  cases h with
  | same hn => exact ⟨hc, hn⟩
  | started _ _ hcl =>
    have ho := isOpen_of_claimable hcl
    rw [hc] at ho
    cases ho
  | released _ _ ht => cases (status_of_timedOut ht).symm.trans hc
  | output hcom =>
    refine ⟨rfl, ?_⟩
    obtain ⟨_, _, _, _, rfl, -⟩ := hcom
    rintro _ _ ⟨⟩
  | failed ha =>
    -- the failure marking reads the status again before it writes
    rw [recordFailure_status, if_neg (by rw [hc]; exact nofun), ha]
    exact ⟨hc, by rintro _ _ ⟨⟩⟩
  | @unknown k _ _ _ hp hn =>
    refine absurd ?_ (hu j hj hc hn k)
    rw [hp]
    rfl
  | heartbeat _ _ _ hr => cases hr.symm.trans hc

theorem unknownDropped_step (hw : w.Settled) (hu : UnknownDropped w) (h : w.step a = some w') :
    UnknownDropped w' := by
  intro j' hj' hc hn k hk
  rcases (jobs_of_effect hw (effect_of_step h)).origin j' hj' with ⟨j, hj, hi, hstep⟩ | hnew
  · have hnj : jobHandler j.jobType = none := hstep.sameOrigin.jobType ▸ hn
    have hcj : j.status = .completed := by
      rcases hstep.commits hc with hcj | hcom
      · exact hcj
      · obtain ⟨_, _, _, _, -, -, -, hh, -⟩ := hcom
        rw [hnj] at hh
        cases hh
    rw [hi] at hk
    rcases (worker_of_step h).job? hk with hk | ⟨locked, ha⟩
    · exact hu j hj hcj hnj k hk
    · exact (hstep.completed hj hu hcj).2 k locked ha
  · cases hnew <;> cases hc

theorem unknownDropped_of_run {w₀ : World} {tr : List (Transition World Action)}
    (h₀ : ∀ k, (w₀.workers k).phase = .idle) (hr : Run World.step w₀ tr w) :
    w.Settled ∧ UnknownDropped w := by
  apply hr.invariant (I := fun s => s.Settled ∧ UnknownDropped s)
  · refine ⟨settled_of_idle h₀, fun j _ _ _ k hk => ?_⟩
    rw [h₀ k] at hk
    cases hk
  · rintro s a s' ⟨hs, hu⟩ h
    exact ⟨settled_step hs h, unknownDropped_step hs hu h⟩

end World

/-- From any database, with all workers between their poll cycles: a job that is completed stays
completed in every later state, where no poll cycle could claim it, and no later step claims it. -/
theorem retired_of_run {w₀ w w' : World} {tr tr' : List (Transition World Action)} {j : Job}
    (h₀ : ∀ k, (w₀.workers k).phase = .idle) (hr : Run World.step w₀ tr w) (hj : j ∈ w.db.jobs)
    (hc : j.status = .completed) (hr' : Run World.step w tr' w') :
    Retired w j.id ∧
      ∀ t ∈ tr', Retired t.post j.id ∧ ∀ k locked, t.act ≠ .claim k j.id locked := by
  obtain ⟨hs, hu⟩ := World.unknownDropped_of_run h₀ hr
  constructor
  · exact World.retired_of_completed hj hc
  · refine (hr'.forall_of_kept (I := fun s => s.Settled ∧ UnknownDropped s ∧
      ∃ i ∈ s.db.jobs, i.id = j.id ∧ i.status = .completed) ⟨hs, hu, j, hj, rfl, hc⟩ ?_).2
    rintro s a s' ⟨hs, hu, i, hi, hid, hci⟩ h
    obtain ⟨i', hi', hid', hstep⟩ := (World.jobs_of_effect hs (World.effect_of_step h)).kept i hi
    obtain ⟨hci', hn⟩ := hstep.completed hi hu hci
    have hr : Retired s' i'.id := World.retired_of_completed hi' hci'
    rw [hid', hid] at hr
    rw [hid] at hid' hn
    exact ⟨⟨World.settled_step hs h, World.unknownDropped_step hs hu h, i', hi', hid', hci'⟩, hr, hn⟩

/-- The transcription 20 times out in the hands of worker 0, and worker 1 completes it. -/
def takeover : List Action :=
  open Replay in
  recorded ++ [.beginCycle 0, .claim 0 (uuid 20) [], .tick 121000000, .beginCycle 1,
    .claim 1 (uuid 20) [], .runHandler 1 providers (uuid 30)]

/-- The handler of worker 0 fails, and worker 0 marks its job failed. -/
def lateFailure : List Action :=
  [.runHandler 0 ⟨fun _ => .error "down", fun _ => .error "down"⟩ (Replay.uuid 31), .markFailed 0]

theorem retired_takeover : ∃ tr w tr' w' j, Run World.step (World.init 0) tr w ∧
    Run World.step w tr' w' ∧ tr'.length = 2 ∧ j ∈ w.db.jobs ∧
    ∀ t ∈ tr', Retired t.post j.id ∧ ∀ k locked, t.act ≠ .claim k j.id locked := by
  obtain ⟨tr, w, hr, hp⟩ := exists_run
    (fun _ (w : World) => decide (∃ j ∈ w.db.jobs, j.status = .completed) &&
      (execute World.step w lateFailure).any fun p : List (Transition World Action) × World =>
        decide (p.1.length = 2))
    (show (execute World.step (World.init 0) takeover).any _ = true by decide +kernel)
  obtain ⟨hj, hl⟩ := Bool.and_eq_true_iff.mp hp
  obtain ⟨j, hj, hc⟩ := of_decide_eq_true hj
  obtain ⟨tr', w', hr', hl⟩ := exists_run (fun tr' _ => decide (tr'.length = 2)) hl
  exact ⟨tr, w, tr', w', j, hr, hr', of_decide_eq_true hl, hj,
    (retired_of_run (fun _ => rfl) hr hj hc hr').2⟩

end AiBadge
