import AiBadge.System.Invariant
import AiBadge.System.WorkerStep

/-! # The ids of jobs

Every job has an id that was drawn for it, and a worker has only rows of the table in its hands.
-/

namespace AiBadge

open Lib

namespace World

variable {now : Timestamp} {tr : List (Transition World Action)} {w : World}

theorem mem_draws_of_jobNew {a : Action} {j : Job} (h : w.JobNew a j) : j.id ∈ a.draws := by
  cases h with
  | stage _ _ _ hid => exact hid
  | retry ha => rw [ha]; exact List.mem_cons_self
  | publish ha => rw [ha]; exact List.mem_cons_self

theorem jobIds_of_run (hr : SystemRun now tr w) : ∀ j ∈ w.db.jobs, j.id ∈ w.issued := by
  have key : w.Sound ∧ ∀ j ∈ w.db.jobs, j.id ∈ w.issued := by
    refine hr.invariant (I := fun w => w.Sound ∧ ∀ j ∈ w.db.jobs, j.id ∈ w.issued)
      ⟨sound_init now, fun j hj => (Table.not_mem_empty j hj).elim⟩ ?_
    rintro w a w' ⟨hw, hi⟩ h
    refine ⟨hw.step h, fun j hj => ?_⟩
    rw [issued_of_step h]
    rcases (hw.jobs h).origin j hj with ⟨i, him, hid, -⟩ | hnew
    · exact List.mem_append_left _ (hid ▸ hi i him)
    · exact List.mem_append_right _ (mem_draws_of_jobNew hnew)
  exact key.2

/-- The jobs in the hands of the workers are rows of the table. -/
theorem claimed_of_run (hr : SystemRun now tr w) :
    w.Sound ∧ ∀ k job, (w.workers k).phase.job? = some job → ∃ j ∈ w.db.jobs, j.id = job := by
  refine hr.invariant (I := fun w => w.Sound ∧
    ∀ k job, (w.workers k).phase.job? = some job → ∃ j ∈ w.db.jobs, j.id = job) ?_ ?_
  · refine ⟨sound_init now, fun k job hk => ?_⟩
    cases hk
  · rintro w a w' ⟨hw, hc⟩ h
    refine ⟨hw.step h, fun k job hk => ?_⟩
    have hrow : ∃ j ∈ w.db.jobs, j.id = job := by
      rcases (worker_of_step h).job? hk with hk | ⟨locked, rfl⟩
      · exact hc k job hk
      · exact mem_of_claim (effect_of_step h)
    obtain ⟨j, hj, rfl⟩ := hrow
    obtain ⟨j', hj', hi, -⟩ := (hw.jobs h).kept j hj
    exact ⟨j', hj', hi⟩

end World

end AiBadge
