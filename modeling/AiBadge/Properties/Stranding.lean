import AiBadge.System.Invariant

/-! # Stranded sessions

A session in `processing` or `publishing` needs an open job that will move it on. No
failure path moves the session, and the status patch enters `publishing` without a job.
-/

namespace AiBadge

open Lib SessionStatus

/-- An open job of the session, of one of the types `p`. -/
def OpenJob (p : JobType → Bool) (db : Db) (sessionId : Uuid) : Prop :=
  ∃ j ∈ db.jobs, j.sessionId = some sessionId ∧ p j.jobType = true ∧ j.status.isOpen = true

instance (p : JobType → Bool) (db : Db) (sessionId : Uuid) : Decidable (OpenJob p db sessionId) :=
  inferInstanceAs (Decidable (∃ j ∈ db.jobs, _ ∧ _))

/-- The job types that work for a session in the status. -/
def SessionStatus.worksOn : SessionStatus → JobType → Bool
  | processing => JobType.isPipeline
  | publishing => fun t => t = .publish
  | _ => fun _ => false

/-- The statuses that only a job leaves. -/
def SessionStatus.busy : List SessionStatus := [processing, publishing]

def NotStranded (db : Db) (s : Session) : Prop :=
  s.status ∈ busy → OpenJob s.status.worksOn db s.id

instance (db : Db) (s : Session) : Decidable (NotStranded db s) :=
  inferInstanceAs (Decidable (_ → _))

/-- The commit of the job moves its session on. -/
def Job.Moves (db : Db) (j : Job) : Prop :=
  j.jobType = .extractArtifact ∨
    j.jobType = .publish ∧ ∃ x ∈ db.artifacts, j.inputPayload.artifactId = some x.id

/-- What a good step must respect for the session `s`: a patch enters `publishing` only with an
open publish job, and the last open job is closed only by a commit that moves the session. -/
structure WorkRespected (w : World) (a : Action) (s : Session) : Prop where
  patch : ∀ user ids text, a = .request (.updateSessionStatus user ids (some s.id) text) →
    w.Accepts (.updateSessionStatus user ids (some s.id) text) → parse? text = some publishing →
    OpenJob publishing.worksOn w.db s.id
  close : ∀ j ∈ w.db.jobs, w.Closes a j → j.sessionId = some s.id →
    s.status.worksOn j.jobType = true →
    w.Commits a j ∧ j.Moves w.db ∨
      ∃ i ∈ w.db.jobs, i.id ≠ j.id ∧ i.sessionId = some s.id ∧
        s.status.worksOn i.jobType = true ∧ i.status.isOpen = true

theorem hasHandler_of_worksOn {b : SessionStatus} {t : JobType} (h : b.worksOn t = true) :
    jobHandler t ≠ none := by
  revert h
  cases t <;> cases b <;> simp [SessionStatus.worksOn, jobHandler, JobType.isPipeline]

theorem busy_of_worksOn {b : SessionStatus} {t : JobType} (h : b.worksOn t = true) : b ∈ busy := by
  revert h
  cases b <;> simp [SessionStatus.worksOn, busy]

section Step

variable {w w' : World} {a : Action} {s s' : Session}

/-- An open job that the step does not close is open after it. -/
theorem openJob_of_step {p : JobType → Bool} {j : Job} (hw : w.Sound) (h : w.step a = some w')
    (hp : ∀ t, p t = true → jobHandler t ≠ none) (hj : j ∈ w.db.jobs)
    (hjs : j.sessionId = some s.id) (ht : p j.jobType = true) (ho : j.status.isOpen = true)
    (hc : ¬ w.Closes a j) : OpenJob p w'.db s.id := by
  obtain ⟨j', hj', -, hstep⟩ := (hw.jobs h).kept j hj
  have hsame := hstep.sameOrigin
  exact ⟨j', hj', hsame.sessionId.trans hjs, hsame.jobType ▸ ht, hstep.isOpen (hp _ ht) hc ho⟩

/-- A commit that moves its session ends in another status than the busy one. -/
theorem not_busy_of_moves {j : Job} (hw : w.Sound) (h : w.step a = some w')
    (hs' : s' ∈ w'.db.sessions) (hc : w.Commits a j) (hj : j ∈ w.db.jobs) (hm : j.Moves w.db)
    (hjs : j.sessionId = some s'.id) : s'.status ∉ busy := by
  have he := World.effect_of_step h
  rcases hm with ht | ⟨ht, x, hx, hjx⟩
  · rw [World.needsReview_of_extract hc ht hjs he hs']
    decide
  · obtain ⟨aid, -, hja, hown⟩ := hw.publishJob j hj ht
    have hxs := hown x hx (Option.some.inj (hjx.symm.trans hja))
    rw [World.status_of_publication hc ht hx hjx (Option.some.inj (hjs.symm.trans hxs)) he hs']
    decide

theorem notStranded_of_kept (hw : w.Sound) (h : w.step a = some w') (hs' : s' ∈ w'.db.sessions)
    (hi : s'.id = s.id) (hst : s'.status = s.status) (hp : NotStranded w.db s)
    (hc : WorkRespected w a s) : NotStranded w'.db s' := by
  intro hb
  rw [hst] at hb
  obtain ⟨j, hj, hjs, ht, ho⟩ := hp hb
  rw [hst, hi]
  by_cases hcl : w.Closes a j
  · rcases hc.close j hj hcl hjs ht with ⟨hcom, hm⟩ | ⟨i, him, hne, his, hit, hio⟩
    · exact absurd (hst ▸ hb) (not_busy_of_moves hw h hs' hcom hj hm (by rw [hjs, hi]))
    · refine openJob_of_step hw h (fun _ => hasHandler_of_worksOn) him his hit hio fun hci => ?_
      exact hne (congrArg Job.id (hci.unique him hj hcl))
  · exact openJob_of_step hw h (fun _ => hasHandler_of_worksOn) hj hjs ht ho hcl

theorem notStranded_of_respected (hw : w.Sound) (h : w.step a = some w')
    (hs' : s' ∈ w'.db.sessions) (hi : s'.id = s.id) (hk : w.SessionStep a s s')
    (hp : NotStranded w.db s) (hc : WorkRespected w a s) : NotStranded w'.db s' := by
  have he := World.effect_of_step h
  cases hk with
  | same => exact notStranded_of_kept hw h hs' rfl rfl hp hc
  | consent => exact notStranded_of_kept (s := s) hw h hs' rfl rfl hp hc
  | audio => exact notStranded_of_kept (s := s) hw h hs' rfl rfl hp hc
  | @patched user ids text target ha hacc ht =>
    intro hb
    rcases List.mem_cons.mp hb with hb | hb
    · obtain rfl : target = processing := hb
      rw [ha] at he
      exact ⟨_, World.stage_of_patch hacc ht he, rfl, rfl, rfl⟩
    · obtain rfl : target = publishing := List.mem_singleton.mp hb
      obtain ⟨j, hj, hjs, hjt, ho⟩ := hc.patch user ids text ha hacc ht
      exact openJob_of_step hw h (fun _ => hasHandler_of_worksOn (b := publishing)) hj hjs hjt ho
        fun hcl => hcl.not_request _ ha
  | @publishing user uuid4 x ha hacc hx hxs =>
    intro _
    rw [ha] at he
    exact ⟨_, World.job_of_publish hx hacc he, congrArg some hxs.symm, rfl, rfl⟩
  | cancelled => exact fun hb => absurd hb (by decide : cancelled ∉ busy)
  | retracted => exact fun hb => absurd hb (by decide : retracting ∉ busy)
  | advanced => exact fun hb => absurd hb (by decide : approved ∉ busy)
  | extracted => exact fun hb => absurd hb (by decide : needsReview ∉ busy)
  | published => exact fun hb => absurd hb (by decide : published ∉ busy)

/-- A step that closes a job without moving the session of the job leaves the status alone. -/
theorem status_of_closes {j : Job} (hk : w.SessionStep a s s') (hj : j ∈ w.db.jobs)
    (hcl : w.Closes a j) (hjs : j.sessionId = some s.id)
    (hn : ¬ (w.Commits a j ∧ j.Moves w.db)) : s'.status = s.status := by
  have same {i : Job} (hi : w.Commits a i) : i = j := by
    obtain ⟨_, _, _, _, -, -, him, -⟩ := id hi
    exact World.Closes.unique him hj (.inl hi) hcl
  cases hk with
  | same => rfl
  | consent ha => exact absurd ha (hcl.not_request _)
  | audio ha => exact absurd ha (hcl.not_request _)
  | patched ha => exact absurd ha (hcl.not_request _)
  | cancelled ha => exact absurd ha (hcl.not_request _)
  | retracted hr =>
    obtain ⟨_, _, ha, -⟩ := hr
    exact absurd ha (hcl.not_request _)
  | advanced ha => exact absurd ha (hcl.not_request _)
  | publishing ha => exact absurd ha (hcl.not_request _)
  | extracted hi ht =>
    obtain rfl := same hi
    exact absurd ⟨hi, .inl ht⟩ hn
  | published hi ht hx hxm =>
    obtain rfl := same hi
    exact absurd ⟨hi, .inr ⟨ht, _, hxm, hx⟩⟩ hn

theorem respected_of_notStranded (hw : w.Sound) (h : w.step a = some w')
    (hs' : s' ∈ w'.db.sessions) (hi : s'.id = s.id) (hk : w.SessionStep a s s')
    (hp : NotStranded w'.db s') : WorkRespected w a s where
  patch user ids text ha hacc ht := by
    have he := World.effect_of_step h
    rw [ha] at he
    have hst := World.status_of_patch hacc ht (congrArg some hi.symm) he hs'
    unfold NotStranded at hp
    rw [hst, hi] at hp
    obtain ⟨j', hj', hjs, hjt, ho⟩ := hp (by decide)
    rcases (hw.jobs h).origin j' hj' with ⟨j, hj, -, hstep⟩ | hnew
    · have hsame := hstep.sameOrigin
      exact ⟨j, hj, hsame.sessionId.symm.trans hjs, hsame.jobType ▸ hjt, hstep.isOpen_of_isOpen ho⟩
    · cases hnew with
      | stage _ _ _ _ hty =>
        obtain rfl : _ = JobType.publish := of_decide_eq_true hjt
        cases hty
      | retry => cases hjt
      | publish hr =>
        rw [ha] at hr
        cases hr
  close j hj hcl hjs ht := by
    refine or_iff_not_imp_left.mpr fun hn => ?_
    have hst := status_of_closes hk hj hcl hjs hn
    unfold NotStranded at hp
    rw [hst, hi] at hp
    obtain ⟨i', hi', his, hit, hio⟩ := hp (busy_of_worksOn ht)
    rcases (hw.jobs h).origin i' hi' with ⟨i, him, hii, hstep⟩ | hnew
    · have hsame := hstep.sameOrigin
      refine ⟨i, him, fun hij => ?_, hsame.sessionId.symm.trans his, hsame.jobType ▸ hit,
        hstep.isOpen_of_isOpen hio⟩
      rw [World.not_isOpen_of_closes hj hcl (World.effect_of_step h) hi' (hii.trans hij)] at hio
      cases hio
    · cases hnew with
      | stage ha => exact absurd ha (hcl.not_request _)
      | retry ha => exact absurd ha (hcl.not_request _)
      | publish ha => exact absurd ha (hcl.not_request _)

end Step

/-- No session is stranded in a state. -/
def NoneStranded (w : World) : Prop := ∀ s ∈ w.db.sessions, NotStranded w.db s

instance (w : World) : Decidable (NoneStranded w) :=
  inferInstanceAs (Decidable (∀ s ∈ w.db.sessions, NotStranded w.db s))

/-- A step respects the open work of every session. -/
def AllWorkRespected (w : World) (a : Action) : Prop := ∀ s ∈ w.db.sessions, WorkRespected w a s

/-- No session is ever stranded in a run exactly when no step takes the last open job from a busy
session that stays where it is. -/
theorem run_noneStranded_iff {now : Timestamp} {tr : List (Transition World Action)} {w : World}
    (hr : SystemRun now tr w) : (∀ t ∈ tr, NoneStranded t.post) ↔ Meets AllWorkRespected tr := by
  refine hr.forall_post_iff_meets (G := NoneStranded) ?_ ?_
  · exact fun s hs => (Table.not_mem_empty s hs).elim
  · intro tr w a w' hr hp h
    have hw := World.sound_of_run hr
    refine ⟨⟨fun hp' s hs => ?_, fun hc s' hs' => ?_⟩, fun h => h⟩
    · obtain ⟨s', hs', hi, hk⟩ := (hw.sessions h).kept s hs
      exact respected_of_notStranded hw h hs' hi hk (hp' s' hs')
    · rcases (hw.sessions h).origin s' hs' with ⟨s, hs, hi, hk⟩ | hn
      · exact notStranded_of_respected hw h hs' hi hk (hp s hs) (hc s hs)
      · cases hn with
        | created => exact fun hb => absurd hb (by decide : idle ∉ busy)

/-- Both kinds of work to their end. -/
theorem workRespected_published : ∃ tr w, SystemRun 0 tr w ∧
    (∃ s ∈ w.db.sessions, s.status = published) ∧ Meets AllWorkRespected tr := by
  obtain ⟨tr, w, hr, hp⟩ := exists_run
    (fun tr (w : World) => decide (∃ s ∈ w.db.sessions, s.status = published) &&
      decide (∀ t ∈ tr, NoneStranded t.post))
    (show (execute World.step (World.init 0) Replay.published).any _ = true by decide +kernel)
  obtain ⟨hs, hc⟩ := Bool.and_eq_true_iff.mp hp
  exact ⟨tr, w, hr, of_decide_eq_true hs, (run_noneStranded_iff hr).mp (of_decide_eq_true hc)⟩

/-- A session in the status has open work. -/
def Staffed (b : SessionStatus) (w : World) : Prop :=
  ∀ s ∈ w.db.sessions, s.status = b → OpenJob b.worksOn w.db s.id

instance (b : SessionStatus) (w : World) : Decidable (Staffed b w) :=
  inferInstanceAs (Decidable (∀ s ∈ w.db.sessions, _ → OpenJob _ _ _))

/-- The transcriber is down for the first attempt; the later stages miss its transcript. -/
def failedPipeline : List Action :=
  open Replay in recorded ++ failingCycle 20 30 ++ failingCycle 21 31 ++ failingCycle 22 32

/-- A status patch enters `publishing`. -/
def patchedPublishing : List Action :=
  Replay.pipeline ++ [Replay.review .approve 32 40, Replay.patch publishing 50]

theorem stranded :
    (¬ ∀ now tr w, SystemRun now tr w → ∀ t ∈ tr, NoneStranded t.post) ∧
      (¬ ∀ now tr w, SystemRun now tr w → ∀ t ∈ tr, Staffed processing t.post) ∧
      ¬ ∀ now tr w, SystemRun now tr w → ∀ t ∈ tr, Staffed publishing t.post :=
  ⟨Replay.refute failedPipeline (by decide +kernel), Replay.refute failedPipeline (by decide +kernel),
    Replay.refute patchedPublishing (by decide +kernel)⟩

end AiBadge
