import AiBadge.System.Acceptance
import AiBadge.System.JobIds

/-! # Resubmission after a failure

The state machine lets a session try again, but the jobs of the earlier attempt keep their
idempotency keys. Only a publication that has not been queued before can be.
-/

namespace AiBadge

open Lib SessionStatus

/-- The requests that take a session up again: its owner patches it to `processing`, or an approved
artifact is to be published after a failed publication. -/
inductive Resubmits (w : World) (s : Session) : Request → Prop where
  | process {ids : PipelineIds} {text : String} : s.status ∈ [processing, processingFailed] →
      parse? text = some processing →
      Resubmits w s (.updateSessionStatus s.userId ids (some s.id) text)
  | publish {v : User} {x : Artifact} {uuid4 : Uuid} : s.status = publishFailed → v ∈ w.db.users →
      x ∈ w.db.artifacts → x.sessionId = s.id → x.status = .approved →
      Resubmits w s (.publishArtifact v.id uuid4 (some x.id))

/-- What a resubmission is to leave: a failed session is under processing again with a stage to run,
a session under processing stays as it is, and the publication is queued. -/
def Resubmitted (s : Session) (db db' : Db) : Request → Prop
  | .updateSessionStatus .. =>
    (s.status = processingFailed →
      (∃ s' ∈ db'.sessions, s'.id = s.id ∧ s'.status = processing) ∧
      ∃ j ∈ db'.jobs, j.sessionId = some s.id ∧ j.jobType.isPipeline = true ∧ j.status = .pending) ∧
    (s.status = processing → s ∈ db'.sessions ∧ ∀ j, j ∈ db'.jobs ↔ j ∈ db.jobs)
  | .publishArtifact _ _ artifact =>
    ∃ j ∈ db'.jobs, j.jobType = .publish ∧ j.status = .pending ∧ j.inputPayload.artifactId = artifact
  | _ => False

/-- The request publishes an artifact that no job has been queued for. -/
def PublishesAnew (w : World) (s : Session) : Request → Prop
  | .publishArtifact _ _ (some aid) => ∀ j ∈ w.db.jobs, j.idempotencyKey ≠ publishKey s.id aid
  | _ => False

namespace World

/-- A session under processing has the jobs of its first attempt. -/
def Attempted (w : World) : Prop :=
  ∀ s ∈ w.db.sessions, s.status ∈ [processing, processingFailed] →
    ∃ i ∈ w.db.jobs, i.idempotencyKey = stageKey s.id .transcribe

theorem failed_of_canTransition {c : SessionStatus} {consent : Bool}
    (h : (canTransition c processingFailed consent).1 = true) :
    c ∈ [processing, processingFailed] := by
  revert h
  cases c <;> cases consent <;> decide

/-- A session comes under processing by an accepted patch only. -/
theorem patched_of_sessionStep {w : World} {a : Action} {s s' : Session} (h : w.SessionStep a s s')
    (hst : s'.status ∈ [processing, processingFailed]) : s.status ∈ [processing, processingFailed] ∨
      ∃ user ids text, a = .request (.updateSessionStatus user ids (some s.id) text) ∧
        w.Accepts (.updateSessionStatus user ids (some s.id) text) ∧
        parse? text = some processing := by
  cases h with
  | same => exact .inl hst
  | consent => exact .inl hst
  | audio => exact .inl hst
  | @patched user ids text target ha hacc hp hcan =>
    rcases List.mem_cons.mp hst with rfl | hst
    · exact .inr ⟨user, ids, text, ha, hacc, hp⟩
    · obtain rfl : target = processingFailed := List.mem_singleton.mp hst
      exact .inl (failed_of_canTransition hcan)
  | cancelled => simp at hst
  | retracted => simp at hst
  | advanced => simp at hst
  | publishing => simp at hst
  | extracted => simp at hst
  | published => simp at hst

theorem Attempted.step {w w' : World} {a : Action} (hw : w.Sound) (ht : w.Attempted)
    (h : w.step a = some w') : w'.Attempted := by
  intro s' hs' hst
  rcases (hw.sessions h).origin s' hs' with ⟨s, hs, hi, hstep⟩ | hnew
  · rw [hi]
    rcases patched_of_sessionStep hstep hst with hst | ⟨user, ids, text, ha, hacc, hp⟩
    · obtain ⟨i, hi, hik⟩ := ht s hs hst
      obtain ⟨i', hi', -, hstep⟩ := (hw.jobs h).kept i hi
      exact ⟨i', hi', hstep.sameOrigin.idempotencyKey.trans hik⟩
    · have heff := effect_of_step h
      rw [ha] at heff
      exact ⟨_, stage_of_patch hacc hp heff, rfl⟩
  · cases hnew with
    | created => simp at hst

theorem attempted_of_run {now : Timestamp} {tr : List (Transition World Action)} {w : World}
    (r : SystemRun now tr w) : w.Attempted := by
  have key : w.Sound ∧ w.Attempted :=
    r.invariant (I := fun w => w.Sound ∧ w.Attempted)
      ⟨sound_init now, fun s hs => (Table.not_mem_empty s hs).elim⟩
      fun _ _ _ hi h => ⟨hi.1.step h, hi.2.step hi.1 h⟩
  exact key.2

end World

section Request

variable {w : World} {s : Session}

/-- The stages of an earlier attempt are in the way of a new one. -/
theorem not_accepts_process {user : Uuid} {ids : PipelineIds} {text : String} (ht : w.Attempted)
    (hs : s ∈ w.db.sessions) (hst : s.status ∈ [processing, processingFailed])
    (hp : parse? text = some processing) :
    ¬ w.Accepts (.updateSessionStatus user ids (some s.id) text) := by
  intro hacc
  obtain ⟨hfree, -, -⟩ := World.pipeline_of_patch hacc hp (.served hacc (serve_of_accepts hacc))
  obtain ⟨i, hi, hk⟩ := ht s hs hst
  exact (hfree.transcribe i hi).2 hk

end Request

/-- A resubmission succeeds, and leaves what it is to leave, exactly when it publishes an artifact
for the first time. -/
theorem resubmission_iff {now : Timestamp} {tr : List (Transition World Action)} {w w' : World}
    {s : Session} {r : Request} (hr : SystemRun now tr w) (hs : s ∈ w.db.sessions)
    (h : Resubmits w s r) (hstep : w.step (.request r) = some w') :
    w.Accepts r ∧ Resubmitted s w.db w'.db r ↔ PublishesAnew w s r := by
  have ht : w.Attempted := World.attempted_of_run hr
  cases h with
  | process hst hp =>
    constructor
    · rintro ⟨hacc, -⟩
      exact absurd hacc (not_accepts_process ht hs hst hp)
    · exact False.elim
  | @publish v x uuid4 hst hv hx hxs happ =>
    constructor
    · rintro ⟨hacc, -⟩ j hj
      rw [← hxs]
      exact ((needs_of_publish hx (serve_of_accepts hacc)).1 j hj).2
    · intro hnew
      have hfree : w.db.KeyFree (publishJob uuid4 w.now x) := by
        intro j hj
        constructor
        · rintro (hid : j.id = uuid4)
          have hfresh := (World.fresh_of_step hstep).2 uuid4 List.mem_cons_self
          exact hfresh (hid ▸ World.jobIds_of_run hr j hj)
        · have hk : j.idempotencyKey ≠ publishKey s.id x.id := hnew j hj
          rwa [← hxs] at hk
      have hacc : w.Accepts (.publishArtifact v.id uuid4 (some x.id)) :=
        accepts_publish hv hx happ (World.shown_of_run hr x hx happ) hfree hs hxs.symm
          (by rw [hst]; decide)
      exact ⟨hacc, _, World.job_of_publish hx hacc (World.effect_of_step hstep), rfl, rfl, rfl⟩

namespace Replay

/-- A session whose publication has failed, with the artifact 32 approved. -/
def PublicationFailed (w : World) : Prop :=
  (∃ v ∈ w.db.users, v.id = uuid 2) ∧ (∃ x ∈ w.db.artifacts, x.id = uuid 32 ∧
    x.sessionId = uuid 5 ∧ x.status = .approved) ∧
    ∃ s ∈ w.db.sessions, s.id = uuid 5 ∧ s.audioKey.isSome ∧ s.status = publishFailed

instance (w : World) : Decidable (PublicationFailed w) := inferInstanceAs (Decidable (_ ∧ _))

theorem PublicationFailed.resubmits {w : World} (h : PublicationFailed w) (n : Nat) :
    ∃ s ∈ w.db.sessions, s.id = uuid 5 ∧ s.audioKey.isSome ∧ s.status = publishFailed ∧
      Resubmits w s (.publishArtifact (uuid 2) (uuid n) (some (uuid 32))) := by
  obtain ⟨⟨v, hv, hvi⟩, ⟨x, hx, hxi, hxs, happ⟩, s, hs, hi, ha, hst⟩ := h
  refine ⟨s, hs, hi, ha, hst, ?_⟩
  rw [← hvi, ← hxi]
  exact .publish hst hv hx (hxs.trans hi.symm) happ

/-- The owner of session 5 patches it to `processing` again. -/
def reprocess : Request :=
  .updateSessionStatus (uuid 2) ⟨uuid 40, uuid 41, uuid 42⟩ (some (uuid 5))
    SessionStatus.processing.value

theorem reprocess_resubmits {w : World} {s : Session} (hu : s.userId = uuid 2) (hi : s.id = uuid 5)
    (hst : s.status ∈ [SessionStatus.processing, processingFailed]) : Resubmits w s reprocess := by
  unfold reprocess
  rw [← hu, ← hi]
  exact .process hst (by decide)

end Replay

/-- A publication that was never queued, and is marked failed, is resubmitted. -/
theorem resubmission_unqueued : ∃ tr w w' s r, SystemRun 0 tr w ∧ s ∈ w.db.sessions ∧
    s.status = publishFailed ∧ Resubmits w s r ∧ w.step (.request r) = some w' ∧ w.Accepts r ∧
    Resubmitted s w.db w'.db r := by
  have h : (execute World.step (World.init 0) (Replay.pipeline ++ [Replay.review .approve 32 40,
      Replay.patch .publishing 50, Replay.patch .publishFailed 53])).any (fun p =>
        decide (Replay.PublicationFailed p.2) &&
        decide (∀ j ∈ p.2.db.jobs, j.idempotencyKey ≠
          publishKey (Replay.uuid 5) (Replay.uuid 32)) &&
        (p.2.step (Replay.publish 32 60)).isSome) = true := by
    decide
  obtain ⟨⟨tr, w⟩, he, hp⟩ := (Option.any_eq_true _ _).mp h
  simp only [Bool.and_eq_true, decide_eq_true_eq] at hp
  obtain ⟨⟨hfailed, hnew⟩, hstep⟩ := hp
  obtain ⟨w', hstep⟩ := Option.isSome_iff_exists.mp hstep
  obtain ⟨s, hs, hi, -, hst, hres⟩ := hfailed.resubmits 60
  refine ⟨tr, w, w', s, _, run_of_execute he, hs, hst, hres, hstep, ?_⟩
  rw [← hi] at hnew
  exact (resubmission_iff (run_of_execute he) hs hres hstep).mpr hnew

/-- Every resubmission of a session with audio in the status succeeds. -/
def Resubmittable (st : SessionStatus) : Prop :=
  ∀ now tr w w' s r, SystemRun now tr w → s ∈ w.db.sessions → s.audioKey.isSome →
    s.status = st → Resubmits w s r → w.step (.request r) = some w' →
    w.Accepts r ∧ Resubmitted s w.db w'.db r

/-- The stages, or the publish job, of the first attempt are in the way. -/
theorem not_resubmission : ¬ Resubmittable processingFailed ∧ ¬ Resubmittable processing ∧
    ¬ Resubmittable publishFailed := by
  have process {st : SessionStatus} (acts : List Action) (hp : st ∈ [processing, processingFailed])
      (h : (execute World.step (World.init 0) acts).any (fun p =>
        decide (∃ s ∈ p.2.db.sessions, s.id = Replay.uuid 5 ∧ s.userId = Replay.uuid 2 ∧
          s.audioKey.isSome ∧ s.status = st) && decide (¬ p.2.Accepts Replay.reprocess) &&
        (p.2.step (.request Replay.reprocess)).isSome) = true) : ¬ Resubmittable st := by
    intro hall
    obtain ⟨⟨tr, w⟩, he, hw⟩ := (Option.any_eq_true _ _).mp h
    simp only [Bool.and_eq_true, decide_eq_true_eq] at hw
    obtain ⟨⟨⟨s, hs, hi, hu, ha, rfl⟩, hn⟩, hstep⟩ := hw
    obtain ⟨w', hstep⟩ := Option.isSome_iff_exists.mp hstep
    exact hn (hall 0 tr w w' s _ (run_of_execute he) hs ha rfl (Replay.reprocess_resubmits hu hi hp)
      hstep).1
  constructor
  · exact process (Replay.recorded ++ [Replay.patch .processingFailed 30]) (by decide) (by decide)
  constructor
  · exact process Replay.recorded (by decide) (by decide)
  · intro hall
    have h : (execute World.step (World.init 0) (Replay.pipeline ++ [Replay.review .approve 32 40,
        Replay.publish 32 50, Replay.patch .publishFailed 53])).any (fun p =>
          decide (Replay.PublicationFailed p.2) && decide (¬ p.2.Accepts
            (.publishArtifact (Replay.uuid 2) (Replay.uuid 60) (some (Replay.uuid 32)))) &&
          (p.2.step (Replay.publish 32 60)).isSome) = true := by
      decide
    obtain ⟨⟨tr, w⟩, he, hp⟩ := (Option.any_eq_true _ _).mp h
    simp only [Bool.and_eq_true, decide_eq_true_eq] at hp
    obtain ⟨⟨hfailed, hn⟩, hstep⟩ := hp
    obtain ⟨w', hstep⟩ := Option.isSome_iff_exists.mp hstep
    obtain ⟨s, hs, -, ha, hst, hres⟩ := hfailed.resubmits 60
    exact hn (hall 0 tr w w' s _ (run_of_execute he) hs ha hst hres hstep).1

end AiBadge
