import AiBadge.System.Effect

/-! # Flushed writes between the two halves of a poll cycle

What the session of a worker can still carry when the deletion half begins: nothing,
the timeout release of a cycle that claimed no job, or the publication mark of a
publish job that raised.
-/

namespace AiBadge

open Lib Prog

def Phase.pending : Phase → List (Db → Db)
  | failed _ _ pending => pending
  | tail pending => pending
  | _ => []

inductive Leftover (now : Timestamp) : List (Db → Db) → Prop where
  | nothing : Leftover now []
  | released {t : Timestamp} : t ≤ now → Leftover now [releaseTimedOutJobs t]
  | marked {t : Timestamp} {artifactId : Uuid} : Leftover now [markArtifact t artifactId]

theorem Leftover.mono {now now' : Timestamp} {pending : List (Db → Db)}
    (h : Leftover now pending) (ht : now ≤ now') : Leftover now' pending := by
  cases h with
  | nothing => exact .nothing
  | released hr => exact .released (Int.le_trans hr ht)
  | marked => exact .marked

theorem HandlerResidue.leftover {db : Db} {input : HandlerInput} {j : Job}
    {pending : List (Db → Db)} {now : Timestamp} (h : HandlerResidue db input j pending) :
    Leftover now pending := by
  cases h with
  | nothing => exact .nothing
  | marked => exact .marked

section View

variable {w : World} {pending : List (Db → Db)} {now : Timestamp}

theorem Leftover.sessions (h : Leftover now pending) :
    (w.session pending).view.sessions = w.db.sessions := by
  cases h <;> rfl

theorem Leftover.deletionJobs (h : Leftover now pending) :
    (w.session pending).view.deletionJobs = w.db.deletionJobs := by
  cases h <;> rfl

theorem Leftover.auditLogs (h : Leftover now pending) :
    (w.session pending).view.auditLogs = w.db.auditLogs := by
  cases h <;> rfl

end View

namespace World

/-- Every worker carries one of the possible leftovers. -/
def Settled (w : World) : Prop := ∀ k, Leftover w.now (w.workers k).phase.pending

variable {w w' : World} {k : WorkerId}

theorem Settled.tail {pending : List (Db → Db)} (h : w.Settled)
    (hp : (w.workers k).phase = .tail pending) : Leftover w.now pending := by
  have hl := h k
  rwa [hp] at hl

/-- A deletion job that the query returns is a pending row of the committed table. -/
theorem Settled.candidate {pending : List (Db → Db)} {d : DeletionJob} {locked : List Uuid}
    (h : w.Settled) (hp : (w.workers k).phase = .tail pending)
    (hd : d ∈ deletionCandidates locked w.now (w.session pending).view) :
    d ∈ w.db.deletionJobs ∧ d.status = .pending := by
  obtain ⟨hm, hq⟩ := Table.mem_select.mp (List.mem_filter.mp hd).1
  rw [(h.tail hp).deletionJobs] at hm
  simp only [Bool.and_eq_true, decide_eq_true_eq] at hq
  exact ⟨hm, hq.1.1⟩

theorem Settled.setWorker {worker : Worker} (h : w.Settled)
    (hp : Leftover w.now worker.phase.pending) : (w.setWorker k worker).Settled := by
  intro i
  by_cases hi : i = k
  · subst hi
    simpa [World.setWorker] using hp
  · simpa [World.setWorker, hi] using h i

theorem settled_init (now : Timestamp) : (World.init now).Settled := fun _ => .nothing

theorem CallEffect.leftover {providers : Providers} {aid : Uuid} {j : Job} {db : Db}
    {pending : List (Db → Db)} {now : Timestamp} (h : CallEffect w k providers aid j db pending) :
    Leftover now pending := by
  cases h with
  | committed => exact .nothing
  | raised _ _ h => exact h.leftover
  | unknown => exact .nothing

theorem settled_act {a : Action} (hw : w.Settled) (h : w.act a = some w') : w'.Settled := by
  cases a with
  | request r =>
    obtain rfl : w.serve r = w' := Option.some.inj h
    unfold serve
    split
    · exact hw
    · exact hw
  | tick d =>
    obtain rfl := Option.some.inj h
    intro k
    exact (hw k).mono (Int.le_add_of_nonneg_right (Int.natCast_nonneg d))
  | beginCycle k =>
    obtain ⟨-, rfl⟩ := act_beginCycle h
    exact hw.setWorker .nothing
  | claim k job locked =>
    obtain ⟨-, -, rfl⟩ := act_claim h
    exact hw.setWorker .nothing
  | claimNone k locked =>
    obtain ⟨-, rfl⟩ := act_claimNone h
    exact hw.setWorker (.released (Int.le_refl _))
  | runHandler k providers aid =>
    obtain ⟨j, hj, hp, rfl⟩ := act_runHandler h
    obtain ⟨worker, db, pending, ho, hc, he⟩ := runHandler_cases hj hp
    rw [he]
    have hl : Leftover w.now worker.phase.pending := by
      cases ho with
      | returned => exact hc.leftover
      | raised => exact hc.leftover
      | escaped => exact .nothing
    exact hw.setWorker hl
  | markFailed k =>
    obtain ⟨job, e, pending, hp, rfl⟩ := act_markFailed h
    have hl := hw k
    rw [hp] at hl
    exact hw.setWorker hl
  | heartbeat k =>
    obtain ⟨job, -, -, rfl⟩ := act_heartbeat h
    exact hw.setWorker (hw k)
  | signal k =>
    obtain rfl := Option.some.inj h
    exact hw.setWorker (hw k)
  | processDeletion k job locked remove =>
    obtain ⟨pending, d, -, -, rfl⟩ := act_processDeletion h
    exact hw.setWorker .nothing
  | endCycle k =>
    obtain ⟨-, rfl⟩ := act_endCycle h
    exact hw.setWorker .nothing
  | crash k =>
    obtain rfl := Option.some.inj h
    exact hw.setWorker .nothing
  | crashDeleting k job locked remove =>
    obtain ⟨pending, d, -, -, rfl⟩ := act_crashDeleting h
    exact hw.setWorker .nothing

theorem settled_step {a : Action} (hw : w.Settled) (h : w.step a = some w') : w'.Settled := by
  obtain ⟨-, w₁, ha, rfl⟩ := step_eq_some.mp h
  have h₁ : w₁.Settled := settled_act hw ha
  exact h₁

theorem settled_of_idle (h : ∀ k, (w.workers k).phase = .idle) : w.Settled := by
  intro k
  rw [h k]
  exact .nothing

theorem Settled.run {w₀ : World} {tr : List (Transition World Action)} (h₀ : w₀.Settled)
    (hr : Run World.step w₀ tr w) : w.Settled :=
  hr.invariant h₀ fun _ _ _ hs h => settled_step hs h

theorem settled_of_run {now : Timestamp} {tr : List (Transition World Action)}
    (hr : SystemRun now tr w) : w.Settled := (settled_init now).run hr

end World

end AiBadge
