import AiBadge.System.ArtifactStep
import AiBadge.System.JobStep
import AiBadge.System.SessionStep

/-! # Invariants of every run

References between the tables, the ids in use, and what the status of a session says
about its recording. They hold in every reachable state, whatever the requests and the
workers do.
-/

namespace AiBadge

open Lib SessionStatus

/-- The statuses before a recording is handed over. -/
def SessionStatus.early : List SessionStatus := [idle, capturing, paused, cancelled]

/-- The only way out of the early statuses leads to `processing`. -/
theorem early_of_canTransition {b c : SessionStatus} {consent : Bool} (hb : b ∈ early)
    (h : (canTransition b c consent).1 = true) : c ∈ processing :: early := by
  rcases edge_of_canTransition h with rfl | he
  · exact List.mem_cons_of_mem _ hb
  · revert hb he
    cases b <;> cases c <;> decide

/-- The columns of a job that no update touches. -/
structure Job.SameOrigin (j j' : Job) : Prop where
  idempotencyKey : j'.idempotencyKey = j.idempotencyKey
  sessionId : j'.sessionId = j.sessionId
  jobType : j'.jobType = j.jobType
  inputPayload : j'.inputPayload = j.inputPayload
  maxRetries : j'.maxRetries = j.maxRetries
  createdAt : j'.createdAt = j.createdAt
  priority : j'.priority = j.priority

namespace World

variable {w w' : World} {a : Action}

theorem recordFailure_sameOrigin (now : Timestamp) (e : Exn) (j : Job) :
    j.SameOrigin (recordFailure now e j) := by
  unfold recordFailure
  split
  · split <;> constructor <;> rfl
  · constructor <;> rfl

theorem JobStep.sameOrigin {j j' : Job} (h : w.JobStep a j j') : j.SameOrigin j' := by
  cases h with
  | failed => exact recordFailure_sameOrigin _ _ _
  | _ => constructor <;> rfl

theorem SessionStep.audioKey {s s' : Session} (h : w.SessionStep a s s') :
    s'.audioKey = s.audioKey ∨ ∃ user uuid4 file,
      a = .request (.uploadAudio user uuid4 (some s.id) file) ∧
        w.Accepts (.uploadAudio user uuid4 (some s.id) file) ∧
        s'.audioKey = some ⟨uuid4, getAudioFormat file.filename file.contentType⟩ := by
  cases h with
  | audio ha hacc => exact .inr ⟨_, _, _, ha, hacc, rfl⟩
  | _ => exact .inl rfl

theorem SessionStep.audioKey_isSome {s s' : Session} (h : w.SessionStep a s s')
    (hs : s.audioKey.isSome) : s'.audioKey.isSome := by
  rcases h.audioKey with he | ⟨_, _, _, -, -, he⟩
  · rwa [he]
  · rw [he]
    rfl

theorem ArtifactStep.sessionId {x x' : Artifact} (h : w.ArtifactStep a x x') :
    x'.sessionId = x.sessionId := by
  cases h <;> rfl

theorem ArtifactStep.jobId {x x' : Artifact} (h : w.ArtifactStep a x x') :
    x'.jobId = x.jobId := by
  cases h <;> rfl

/-- No step leads an artifact back to a status before its review. -/
theorem ArtifactStep.unreviewed {x x' : Artifact} (h : w.ArtifactStep a x x') {s : ArtifactStatus}
    (hs : s = .draft ∨ s = .pendingReview) (hx : x'.status = s) : x.status = s := by
  cases h with
  | same => exact hx
  | edited => exact hx
  | approved => rcases hs with rfl | rfl <;> cases hx
  | rejected => rcases hs with rfl | rfl <;> cases hx
  | published => rcases hs with rfl | rfl <;> cases hx

/-- What holds in every reachable state. -/
structure Sound (w : World) : Prop where
  settled : w.Settled
  jobSession : ∀ j ∈ w.db.jobs, ∃ s ∈ w.db.sessions, j.sessionId = some s.id ∧ s.audioKey.isSome
  artifactSession : ∀ x ∈ w.db.artifacts,
    ∃ s ∈ w.db.sessions, s.id = x.sessionId ∧ s.audioKey.isSome
  recorded : ∀ s ∈ w.db.sessions, s.status ∉ early → s.audioKey.isSome
  artifactId : ∀ x ∈ w.db.artifacts, x.id ∈ w.issued
  audioId : ∀ s ∈ w.db.sessions, ∀ key, s.audioKey = some key → key.uuid ∈ w.issued
  publishJob : ∀ j ∈ w.db.jobs, j.jobType = .publish →
    ∃ aid ∈ w.issued, j.inputPayload.artifactId = some aid ∧
      ∀ x ∈ w.db.artifacts, x.id = aid → j.sessionId = some x.sessionId
  jobPipeline : ∀ j ∈ w.db.jobs, ∃ i ∈ w.db.jobs, ∃ sid, j.sessionId = some sid ∧
    i.idempotencyKey = stageKey sid .transcribe
  artifactPipeline : ∀ x ∈ w.db.artifacts,
    ∃ i ∈ w.db.jobs, i.idempotencyKey = stageKey x.sessionId .transcribe
  deletionSession : ∀ d ∈ w.db.deletionJobs, ∃ s ∈ w.db.sessions, d.sessionId = some s.id
  auditSession : ∀ l ∈ w.db.auditLogs, ∃ s ∈ w.db.sessions, l.sessionId = some s.id

theorem sound_init (now : Timestamp) : (World.init now).Sound where
  settled := settled_init now
  jobSession _ h := (Table.not_mem_empty _ h).elim
  artifactSession _ h := (Table.not_mem_empty _ h).elim
  recorded _ h := (Table.not_mem_empty _ h).elim
  artifactId _ h := (Table.not_mem_empty _ h).elim
  audioId _ h := (Table.not_mem_empty _ h).elim
  publishJob _ h := (Table.not_mem_empty _ h).elim
  jobPipeline _ h := (Table.not_mem_empty _ h).elim
  artifactPipeline _ h := (Table.not_mem_empty _ h).elim
  deletionSession _ h := (Table.not_mem_empty _ h).elim
  auditSession _ h := (List.not_mem_nil h).elim

section Step

theorem issued_of_step (h : w.step a = some w') : w'.issued = w.issued ++ a.draws := by
  obtain ⟨-, w₁, -, rfl⟩ := step_eq_some.mp h
  rfl

theorem fresh_of_step (h : w.step a = some w') : w.Fresh a := (step_eq_some.mp h).1

variable (hw : w.Sound) (h : w.step a = some w')
include hw h

theorem Sound.sessions :
    Table.Evolves (w.SessionStep a) (w.SessionNew a) w.db.sessions w'.db.sessions :=
  sessions_of_effect hw.settled (effect_of_step h)

theorem Sound.jobs : Table.Evolves (w.JobStep a) (w.JobNew a) w.db.jobs w'.db.jobs :=
  jobs_of_effect hw.settled (effect_of_step h)

theorem Sound.artifacts : w.ArtifactsFrom a w'.db :=
  artifacts_of_effect hw.settled (effect_of_step h)

theorem Sound.deletions :
    Table.Evolves (w.DeletionStep a) (w.DeletionNew a) w.db.deletionJobs w'.db.deletionJobs :=
  deletions_of_effect hw.settled (effect_of_step h)

/-- The row that continues an artifact. -/
theorem Sound.artifact_row {x x' : Artifact} (hx : x ∈ w.db.artifacts) (hx' : x' ∈ w'.db.artifacts)
    (hi : x'.id = x.id) : w.ArtifactStep a x x' := by
  rcases hw.artifacts h x' hx' with ⟨y, hy, hyi, hstep⟩ | hnew
  · rwa [Table.eq_of_key_eq hx hy (hi.symm.trans hyi)]
  · cases hnew with
    | extracted ha =>
      have hfresh := (fresh_of_step h).2 x'.id (by rw [ha]; exact List.mem_singleton.mpr rfl)
      exact absurd (hi ▸ hw.artifactId x hx) hfresh

/-- A session with a recording keeps one. -/
theorem Sound.recording_kept {s : Session} (hs : s ∈ w.db.sessions) (ha : s.audioKey.isSome) :
    ∃ s' ∈ w'.db.sessions, s'.id = s.id ∧ s'.audioKey.isSome := by
  obtain ⟨s', hs', hi, hstep⟩ := (hw.sessions h).kept s hs
  exact ⟨s', hs', hi, hstep.audioKey_isSome ha⟩

theorem Sound.jobSession_step :
    ∀ j ∈ w'.db.jobs, ∃ s ∈ w'.db.sessions, j.sessionId = some s.id ∧ s.audioKey.isSome := by
  intro j hj
  have lift {s : Session} (hs : s ∈ w.db.sessions) (ha : s.audioKey.isSome)
      (hjs : j.sessionId = some s.id) :
      ∃ s ∈ w'.db.sessions, j.sessionId = some s.id ∧ s.audioKey.isSome := by
    obtain ⟨s', hs', hi, ha'⟩ := hw.recording_kept h hs ha
    exact ⟨s', hs', by rw [hjs, hi], ha'⟩
  rcases (hw.jobs h).origin j hj with ⟨i, hi, -, hstep⟩ | hnew
  · obtain ⟨s, hs, his, ha⟩ := hw.jobSession i hi
    exact lift hs ha (hstep.sameOrigin.sessionId.trans his)
  · cases hnew with
    | stage _ hs ha => exact lift hs ha rfl
    | retry _ hx =>
      obtain ⟨s, hs, hi, ha⟩ := hw.artifactSession _ hx
      exact lift hs ha (congrArg some hi.symm)
    | publish _ hx =>
      obtain ⟨s, hs, hi, ha⟩ := hw.artifactSession _ hx
      exact lift hs ha (congrArg some hi.symm)

theorem Sound.artifactSession_step :
    ∀ x ∈ w'.db.artifacts, ∃ s ∈ w'.db.sessions, s.id = x.sessionId ∧ s.audioKey.isSome := by
  intro x hx
  have lift {s : Session} (hs : s ∈ w.db.sessions) (ha : s.audioKey.isSome)
      (hxs : s.id = x.sessionId) : ∃ s ∈ w'.db.sessions, s.id = x.sessionId ∧ s.audioKey.isSome := by
    obtain ⟨s', hs', hi, ha'⟩ := hw.recording_kept h hs ha
    exact ⟨s', hs', hi.trans hxs, ha'⟩
  rcases hw.artifacts h x hx with ⟨y, hy, -, hstep⟩ | hnew
  · obtain ⟨s, hs, hi, ha⟩ := hw.artifactSession y hy
    exact lift hs ha (hi.trans hstep.sessionId.symm)
  · cases hnew with
    | extracted _ hc _ hjs =>
      obtain ⟨_, _, _, _, -, -, hj, -⟩ := hc
      obtain ⟨s, hs, hi, ha⟩ := hw.jobSession _ hj
      exact lift hs ha (Option.some.inj (hi.symm.trans hjs))

theorem Sound.recorded_step : ∀ s ∈ w'.db.sessions, s.status ∉ early → s.audioKey.isSome := by
  intro s' hs' hst
  rcases (hw.sessions h).origin s' hs' with ⟨s, hs, hi, hstep⟩ | hnew
  · by_cases ha : s.audioKey.isSome
    · exact hstep.audioKey_isSome ha
    -- without a recording the session is early, and every step out of that demands one
    have he : s.status ∈ early := by
      by_contra he
      exact ha (hw.recorded s hs he)
    have ofArtifact {x : Artifact} (hx : x ∈ w.db.artifacts) (hxs : s.id = x.sessionId) : False := by
      obtain ⟨r, hr, hri, hra⟩ := hw.artifactSession x hx
      obtain rfl := Table.eq_of_key_eq hr hs (hri.trans hxs.symm)
      exact ha hra
    cases hstep with
    | same => exact absurd he hst
    | consent => exact absurd he hst
    | audio => rfl
    | patched _ _ _ hc hk =>
      rcases List.mem_cons.mp (early_of_canTransition he hc) with hp | hp
      · exact hk hp
      · exact absurd hp hst
    | cancelled => exact absurd (by decide : cancelled ∈ early) hst
    | retracted _ hp =>
      rw [hp] at he
      exact absurd he (by decide)
    | advanced _ _ hx hxs => exact (ofArtifact hx hxs).elim
    | publishing _ _ hx hxs => exact (ofArtifact hx hxs).elim
    | extracted hc _ hjs =>
      obtain ⟨_, _, _, _, -, -, hj, -⟩ := hc
      obtain ⟨r, hr, hri, hra⟩ := hw.jobSession _ hj
      obtain rfl := Table.eq_of_key_eq hr hs (Option.some.inj (hri.symm.trans hjs))
      exact absurd hra ha
    | published _ _ _ hx hxs => exact (ofArtifact hx hxs).elim
  · cases hnew with
    | created => exact absurd (by decide : idle ∈ early) hst

theorem Sound.artifactId_step : ∀ x ∈ w'.db.artifacts, x.id ∈ w'.issued := by
  intro x hx
  rw [issued_of_step h]
  rcases hw.artifacts h x hx with ⟨y, hy, hi, -⟩ | hnew
  · rw [hi]
    exact List.mem_append_left _ (hw.artifactId y hy)
  · cases hnew with
    | extracted ha =>
      rw [ha]
      exact List.mem_append_right _ (List.mem_singleton.mpr rfl)

theorem Sound.audioId_step :
    ∀ s ∈ w'.db.sessions, ∀ key, s.audioKey = some key → key.uuid ∈ w'.issued := by
  intro s' hs' key hk
  rw [issued_of_step h]
  rcases (hw.sessions h).origin s' hs' with ⟨s, hs, -, hstep⟩ | hnew
  · rcases hstep.audioKey with he | ⟨user, uuid4, file, ha, -, he⟩
    · exact List.mem_append_left _ (hw.audioId s hs key (he.symm.trans hk))
    · obtain rfl := Option.some.inj (he.symm.trans hk)
      rw [ha]
      exact List.mem_append_right _ (List.mem_singleton.mpr rfl)
  · cases hnew with
    | created => cases hk

theorem Sound.publishJob_step : ∀ j ∈ w'.db.jobs, j.jobType = .publish →
    ∃ aid ∈ w'.issued, j.inputPayload.artifactId = some aid ∧
      ∀ x ∈ w'.db.artifacts, x.id = aid → j.sessionId = some x.sessionId := by
  intro j hj ht
  -- a new artifact has a new id, so no older job names it
  have lift {aid : Uuid} (hid : aid ∈ w.issued)
      (hx : ∀ x ∈ w.db.artifacts, x.id = aid → j.sessionId = some x.sessionId) :
      ∀ x ∈ w'.db.artifacts, x.id = aid → j.sessionId = some x.sessionId := by
    intro x hx' hi
    rcases hw.artifacts h x hx' with ⟨y, hy, hyi, hstep⟩ | hnew
    · rw [hstep.sessionId]
      exact hx y hy (hyi.symm.trans hi)
    · cases hnew with
      | extracted ha =>
        have hfresh := (fresh_of_step h).2 x.id (by rw [ha]; exact List.mem_singleton.mpr rfl)
        exact absurd (hi ▸ hid) hfresh
  rw [issued_of_step h]
  rcases (hw.jobs h).origin j hj with ⟨i, hi, -, hstep⟩ | hnew
  · have ho := hstep.sameOrigin
    obtain ⟨aid, hid, hp, hx⟩ := hw.publishJob i hi (ho.jobType.symm.trans ht)
    refine ⟨aid, List.mem_append_left _ hid, ho.inputPayload ▸ hp, lift hid ?_⟩
    rw [ho.sessionId]
    exact hx
  · cases hnew with
    | stage _ _ _ _ hty =>
      obtain rfl : _ = JobType.publish := ht
      cases hty
    | retry => cases ht
    | @publish user uuid4 y ha hy =>
      have hid := hw.artifactId y hy
      refine ⟨y.id, List.mem_append_left _ hid, rfl, lift hid fun x hx hi => ?_⟩
      rw [Table.eq_of_key_eq hx hy hi]
      rfl

theorem Sound.jobKey_kept {i : Job} (hi : i ∈ w.db.jobs) :
    ∃ i' ∈ w'.db.jobs, i'.idempotencyKey = i.idempotencyKey := by
  obtain ⟨i', hi', -, hstep⟩ := (hw.jobs h).kept i hi
  exact ⟨i', hi', hstep.sameOrigin.idempotencyKey⟩

theorem Sound.artifactPipeline_step : ∀ x ∈ w'.db.artifacts,
    ∃ i ∈ w'.db.jobs, i.idempotencyKey = stageKey x.sessionId .transcribe := by
  intro x hx
  rcases hw.artifacts h x hx with ⟨y, hy, -, hstep⟩ | hnew
  · obtain ⟨i, hi, hk⟩ := hw.artifactPipeline y hy
    obtain ⟨i', hi', hk'⟩ := hw.jobKey_kept h hi
    exact ⟨i', hi', by rw [hk', hk, hstep.sessionId]⟩
  · cases hnew with
    | extracted _ hc _ hjs =>
      obtain ⟨_, _, _, _, -, -, hj, -⟩ := hc
      obtain ⟨i, hi, sid, hsid, hk⟩ := hw.jobPipeline _ hj
      obtain ⟨i', hi', hk'⟩ := hw.jobKey_kept h hi
      obtain rfl := Option.some.inj (hsid.symm.trans hjs)
      exact ⟨i', hi', hk'.trans hk⟩

theorem Sound.jobPipeline_step : ∀ j ∈ w'.db.jobs, ∃ i ∈ w'.db.jobs, ∃ sid,
    j.sessionId = some sid ∧ i.idempotencyKey = stageKey sid .transcribe := by
  intro j hj
  have lift {i : Job} {sid : Uuid} (hi : i ∈ w.db.jobs) (hsid : j.sessionId = some sid)
      (hk : i.idempotencyKey = stageKey sid .transcribe) : ∃ i ∈ w'.db.jobs, ∃ sid,
        j.sessionId = some sid ∧ i.idempotencyKey = stageKey sid .transcribe := by
    obtain ⟨i', hi', hk'⟩ := hw.jobKey_kept h hi
    exact ⟨i', hi', sid, hsid, hk'.trans hk⟩
  have old {i : Job} (hi : i ∈ w.db.jobs) (hij : j.sessionId = i.sessionId) :
      ∃ i ∈ w'.db.jobs, ∃ sid, j.sessionId = some sid ∧
        i.idempotencyKey = stageKey sid .transcribe := by
    obtain ⟨i₁, hi₁, sid, hsid, hk⟩ := hw.jobPipeline i hi
    exact lift hi₁ (hij.trans hsid) hk
  rcases (hw.jobs h).origin j hj with ⟨i, hi, -, hstep⟩ | hnew
  · exact old hi hstep.sameOrigin.sessionId
  · cases hnew with
    | stage ha hs =>
      have he := effect_of_step h
      rw [ha] at he
      rcases jobs_of_patch he with hsame | ⟨sid, hsid, hm⟩
      · exact old (hsame ▸ hj) rfl
      · exact ⟨_, hm, sid, hsid, rfl⟩
    | retry _ hx =>
      obtain ⟨i, hi, hk⟩ := hw.artifactPipeline _ hx
      exact lift hi rfl hk
    | publish _ hx =>
      obtain ⟨i, hi, hk⟩ := hw.artifactPipeline _ hx
      exact lift hi rfl hk

theorem Sound.deletionSession_step :
    ∀ d ∈ w'.db.deletionJobs, ∃ s ∈ w'.db.sessions, d.sessionId = some s.id := by
  intro d hd
  have lift {s : Session} (hs : s ∈ w.db.sessions) (hds : d.sessionId = some s.id) :
      ∃ s ∈ w'.db.sessions, d.sessionId = some s.id := by
    obtain ⟨s', hs', hi, -⟩ := (hw.sessions h).kept s hs
    exact ⟨s', hs', by rw [hds, hi]⟩
  rcases (hw.deletions h).origin d hd with ⟨e, he, -, hstep⟩ | hnew
  · obtain ⟨s, hs, hes⟩ := hw.deletionSession e he
    cases hstep <;> exact lift hs hes
  · cases hnew with
    | queued _ hs => exact lift hs rfl

theorem Sound.auditSession_step :
    ∀ l ∈ w'.db.auditLogs, ∃ s ∈ w'.db.sessions, l.sessionId = some s.id := by
  intro l hl
  have lift {s : Session} (hs : s ∈ w.db.sessions) (hls : l.sessionId = some s.id) :
      ∃ s ∈ w'.db.sessions, l.sessionId = some s.id := by
    obtain ⟨s', hs', hi, -⟩ := (hw.sessions h).kept s hs
    exact ⟨s', hs', by rw [hls, hi]⟩
  obtain ⟨new, he, hnew⟩ := auditLogs_of_effect hw.settled (effect_of_step h)
  rw [he] at hl
  rcases List.mem_append.mp hl with hl | hl
  · obtain ⟨s, hs, hls⟩ := hw.auditSession l hl
    exact lift hs hls
  · obtain ⟨s, hs, hls⟩ := (hnew l hl).session
    exact lift hs hls

theorem Sound.step : w'.Sound where
  settled := settled_step hw.settled h
  jobSession := hw.jobSession_step h
  artifactSession := hw.artifactSession_step h
  recorded := hw.recorded_step h
  artifactId := hw.artifactId_step h
  audioId := hw.audioId_step h
  publishJob := hw.publishJob_step h
  jobPipeline := hw.jobPipeline_step h
  artifactPipeline := hw.artifactPipeline_step h
  deletionSession := hw.deletionSession_step h
  auditSession := hw.auditSession_step h

end Step

/-- Every reachable state satisfies the invariants. -/
theorem sound_of_run {now : Timestamp} {tr : List (Transition World Action)}
    (hr : SystemRun now tr w) : w.Sound :=
  hr.invariant (sound_init now) fun _ _ _ hs h => hs.step h

end World

end AiBadge
