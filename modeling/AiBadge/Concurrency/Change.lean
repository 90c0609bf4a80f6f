import AiBadge.Concurrency.Interruption
import AiBadge.Orchestrator.Identity

/-! # The change that a request makes

A request on a session decides on the row it has loaded, writes the columns it changes,
and adds rows that depend on no column another such request changes.
-/

namespace AiBadge

open Lib Prog DbScript SessionStatus

/-- What a request wants of its session. -/
inductive Change where
  | grant (consent : Bool)
  | move (target : SessionStatus)
  | retract
  deriving DecidableEq

/-- The checks on the loaded row. -/
def Change.Allowed (c : Change) (s : Session) : Prop :=
  match c with
  | .grant _ => s.status ∉ consentClosed
  | .move target =>
    (canTransition s.status target s.consentGranted).1 = true ∧
      (target = processing → s.audioKey.isSome)
  | .retract => s.status = published

instance (c : Change) (s : Session) : Decidable (c.Allowed s) :=
  match c with
  | .grant _ => inferInstanceAs (Decidable (_ ∉ _))
  | .move _ => inferInstanceAs (Decidable (_ ∧ _))
  | .retract => inferInstanceAs (Decidable (_ = _))

namespace SessionRequest

/-- The change; there is none when the text of the patch is no status. -/
def change? (r : SessionRequest) : Option Change :=
  match r.call with
  | .consent grant => some (.grant grant)
  | .status _ text => (parse? text).map .move
  | .cancel => some (.move cancelled)
  | .retract _ => some .retract

/-- The row after the change. -/
def set (r : SessionRequest) (c : Change) (s : Session) : Session :=
  match c with
  | .grant consent => s.withConsent consent
  | .move target => s.withStatus target
  | .retract => s.withTombstone r.now r.user ""

@[simp] theorem set_id (r : SessionRequest) (c : Change) (s : Session) : (r.set c s).id = s.id := by
  cases c <;> rfl

@[simp] theorem set_userId (r : SessionRequest) (c : Change) (s : Session) :
    (r.set c s).userId = s.userId := by
  cases c <;> rfl

@[simp] theorem set_audioKey (r : SessionRequest) (c : Change) (s : Session) :
    (r.set c s).audioKey = s.audioKey := by
  cases c <;> rfl

/-- The rows that the request adds. -/
def add (r : SessionRequest) (s : Session) (db : Db) : Db :=
  match r.call with
  | .consent grant =>
    db.addAudit (sessionAudit r.now (if grant then .consentGranted else .consentRevoked) s.id r.user)
  | .status ids text => if parse? text = some processing then addPipeline ids r.now s.id db else db
  | .cancel => db
  | .retract ids =>
    (addSaga ids r.now s db).addAudit (sessionAudit r.now .retractInitiated s.id r.user)

/-- The rows that the request adds collide with none. -/
def Fits (r : SessionRequest) (s : Session) (db : Db) : Prop :=
  match r.call with
  | .status ids text => parse? text = some processing → db.PipelineFree ids r.now s.id
  | .retract ids => db.SagaFree ids
  | _ => True

/-- Served alone, the request is accepted. -/
structure Ready (r : SessionRequest) (db : Db) (s : Session) (c : Change) : Prop where
  loads : r.Loads db s
  change : r.change? = some c
  allowed : c.Allowed s
  fits : r.Fits s db

instance {db : Db} {j : Job} : Decidable (db.KeyFree j) :=
  inferInstanceAs (Decidable (∀ r ∈ db.jobs, _))

instance {db : Db} {ids : PipelineIds} {now : Timestamp} {sid : Uuid} :
    Decidable (db.PipelineFree ids now sid) :=
  decidable_of_iff (db.KeyFree (stageJob ids.transcribe now sid .transcribe) ∧
      db.KeyFree (stageJob ids.summarize now sid .summarize) ∧
      db.KeyFree (stageJob ids.extractArtifact now sid .extractArtifact) ∧
      ids.transcribe ≠ ids.summarize ∧ ids.transcribe ≠ ids.extractArtifact ∧
      ids.summarize ≠ ids.extractArtifact)
    ⟨fun ⟨h₁, h₂, h₃, h₄, h₅, h₆⟩ => ⟨h₁, h₂, h₃, h₄, h₅, h₆⟩,
      fun ⟨h₁, h₂, h₃, h₄, h₅, h₆⟩ => ⟨h₁, h₂, h₃, h₄, h₅, h₆⟩⟩

instance {db : Db} {ids : SagaIds} : Decidable (db.SagaFree ids) :=
  decidable_of_iff ((∀ d ∈ db.deletionJobs, d.id ≠ ids.artifactRows) ∧
      (∀ d ∈ db.deletionJobs, d.id ≠ ids.localAudio) ∧
      (∀ d ∈ db.deletionJobs, d.id ≠ ids.feishuDocs) ∧ ids.artifactRows ≠ ids.localAudio ∧
      ids.artifactRows ≠ ids.feishuDocs ∧ ids.localAudio ≠ ids.feishuDocs)
    ⟨fun ⟨h₁, h₂, h₃, h₄, h₅, h₆⟩ => ⟨h₁, h₂, h₃, h₄, h₅, h₆⟩,
      fun ⟨h₁, h₂, h₃, h₄, h₅, h₆⟩ => ⟨h₁, h₂, h₃, h₄, h₅, h₆⟩⟩

instance {r : SessionRequest} {s : Session} {db : Db} : Decidable (r.Fits s db) :=
  match h : r.call with
  | .consent _ => isTrue (by simp [Fits, h])
  | .status ids text =>
    decidable_of_iff (parse? text = some processing → db.PipelineFree ids r.now s.id)
      (by simp [Fits, h])
  | .cancel => isTrue (by simp [Fits, h])
  | .retract ids => decidable_of_iff (db.SagaFree ids) (by simp [Fits, h])

instance {r : SessionRequest} {db : Db} {s : Session} {c : Change} : Decidable (r.Ready db s c) :=
  decidable_of_iff (r.Loads db s ∧ r.change? = some c ∧ c.Allowed s ∧ r.Fits s db)
    ⟨fun ⟨h₁, h₂, h₃, h₄⟩ => ⟨h₁, h₂, h₃, h₄⟩, fun h => ⟨h.loads, h.change, h.allowed, h.fits⟩⟩

end SessionRequest

section Plan

variable {r : SessionRequest} {db f : Db} {s : Session} {ws : List (Db → Db)} {next : DbScript}

theorem finish_insertJob {j : Job} : (DbScript.insertJob j next).finish db ws = some f ↔
    (overlay ws db).KeyFree j ∧ next.finish db (ws ++ [fun db => db.addJob j]) = some f := by
  simp [DbScript.insertJob, Db.KeyFree]

theorem finish_insertDeletionJob {d : DeletionJob} :
    (DbScript.insertDeletionJob d next).finish db ws = some f ↔
      (∀ x ∈ (overlay ws db).deletionJobs, x.id ≠ d.id) ∧
        next.finish db (ws ++ [fun db => db.addDeletionJob d]) = some f := by
  simp [DbScript.insertDeletionJob]

theorem Db.KeyFree.addJob {j k : Job} (h : db.KeyFree j) (hi : k.id ≠ j.id)
    (hk : k.idempotencyKey ≠ j.idempotencyKey) : (db.addJob k).KeyFree j := by
  intro x hx
  rcases Table.mem_of_mem_insert hx with hx | rfl
  · exact h x hx
  · exact ⟨hi, hk⟩

theorem finish_createJobsForSession {ids : PipelineIds} {now : Timestamp} {sid : Uuid} :
    (DbScript.createJobsForSession ids now sid .done).finish db ws = some f ↔
      (overlay ws db).PipelineFree ids now sid ∧ f = addPipeline ids now sid (overlay ws db) := by
  simp only [DbScript.createJobsForSession, finish_insertJob, DbScript.addEvent, finish_update,
    finish_done, overlay_snoc]
  constructor
  · rintro ⟨h₁, h₂, h₃, rfl⟩
    have h₁₃ : ((overlay ws db).addJob (stageJob ids.transcribe now sid .transcribe)).KeyFree _ :=
      h₃.of_addJob
    exact ⟨⟨h₁, h₂.of_addJob, h₁₃.of_addJob, h₁.ne h₂, h₁.ne h₁₃, h₂.ne h₃⟩, rfl⟩
  · rintro ⟨hf, rfl⟩
    have key {a b : Stage} (h : a ≠ b) : stageKey sid a.jobType ≠ stageKey sid b.jobType :=
      stageKey_ne h
    have h₂ : ((overlay ws db).addJob (stageJob ids.transcribe now sid .transcribe)).KeyFree
        (stageJob ids.summarize now sid .summarize) :=
      hf.summarize.addJob hf.ne₁ (key (a := .transcribe) (b := .summarize) (by decide))
    have h₁₃ : ((overlay ws db).addJob (stageJob ids.transcribe now sid .transcribe)).KeyFree
        (stageJob ids.extractArtifact now sid .extractArtifact) :=
      hf.extractArtifact.addJob hf.ne₂ (key (a := .transcribe) (b := .extractArtifact) (by decide))
    exact ⟨hf.transcribe, h₂,
      h₁₃.addJob hf.ne₃ (key (a := .summarize) (b := .extractArtifact) (by decide)), rfl⟩

theorem forall_addDeletionJob {d : DeletionJob} {i : Uuid}
    (hd : ∀ x ∈ db.deletionJobs, x.id ≠ d.id) :
    (∀ x ∈ (db.addDeletionJob d).deletionJobs, x.id ≠ i) ↔
      (∀ x ∈ db.deletionJobs, x.id ≠ i) ∧ d.id ≠ i := by
  have hm {x : DeletionJob} : x ∈ (db.addDeletionJob d).deletionJobs ↔ x ∈ db.deletionJobs ∨ x = d :=
    Table.mem_insert_of_not_mem hd
  simp only [hm, or_imp, forall_and, forall_eq]

/-- The insertions of a retraction. -/
theorem finish_addSaga {ids : SagaIds} {now : Timestamp} {l : AuditLog} :
    (DbScript.insertDeletionJob (sagaJob ids.artifactRows now s.id .deleteArtifactRows
        { description := some "Hard-delete all artifacts" }) <|
      DbScript.insertDeletionJob (sagaJob ids.localAudio now s.id .deleteLocalAudio
        { audioKey := s.audioKey }) <|
      DbScript.insertDeletionJob (sagaJob ids.feishuDocs now s.id .deleteFeishuDocs
        { description := some "Feishu stub" }) <|
      DbScript.addAudit l .done).finish db ws = some f ↔
      (overlay ws db).SagaFree ids ∧ f = (addSaga ids now s (overlay ws db)).addAudit l := by
  simp only [finish_insertDeletionJob, DbScript.addAudit, finish_update, finish_done, overlay_snoc]
  constructor
  · rintro ⟨h₁, h₂, h₃, rfl⟩
    rw [forall_addDeletionJob h₂, forall_addDeletionJob h₁] at h₃
    rw [forall_addDeletionJob h₁] at h₂
    exact ⟨⟨h₁, h₂.1, h₃.1.1, h₂.2, h₃.1.2, h₃.2⟩, rfl⟩
  · rintro ⟨hf, rfl⟩
    have h₂ := (forall_addDeletionJob (d := sagaJob ids.artifactRows now s.id .deleteArtifactRows
      { description := some "Hard-delete all artifacts" }) hf.artifactRows).mpr ⟨hf.localAudio, hf.ne₁⟩
    have h₃ := (forall_addDeletionJob (d := sagaJob ids.artifactRows now s.id .deleteArtifactRows
      { description := some "Hard-delete all artifacts" }) hf.artifactRows).mpr ⟨hf.feishuDocs, hf.ne₂⟩
    exact ⟨hf.artifactRows, h₂, (forall_addDeletionJob h₂).mpr ⟨h₃, hf.ne₃⟩, rfl⟩

theorem keyFree_congr {db' : Db} {j : Job} (h : db'.jobs = db.jobs) :
    db'.KeyFree j ↔ db.KeyFree j := by
  rw [Db.KeyFree, Db.KeyFree, h]

theorem pipelineFree_congr {db' : Db} {ids : PipelineIds} {now : Timestamp} {sid : Uuid}
    (h : db'.jobs = db.jobs) : db'.PipelineFree ids now sid ↔ db.PipelineFree ids now sid := by
  constructor
  · rintro ⟨h₁, h₂, h₃, ne₁, ne₂, ne₃⟩
    exact ⟨(keyFree_congr h).mp h₁, (keyFree_congr h).mp h₂, (keyFree_congr h).mp h₃, ne₁, ne₂, ne₃⟩
  · rintro ⟨h₁, h₂, h₃, ne₁, ne₂, ne₃⟩
    exact ⟨(keyFree_congr h).mpr h₁, (keyFree_congr h).mpr h₂, (keyFree_congr h).mpr h₃, ne₁, ne₂,
      ne₃⟩

theorem sagaFree_congr {db' : Db} {ids : SagaIds} (h : db'.deletionJobs = db.deletionJobs) :
    db'.SagaFree ids ↔ db.SagaFree ids := by
  constructor
  · rintro ⟨h₁, h₂, h₃, ne₁, ne₂, ne₃⟩
    exact ⟨h ▸ h₁, h ▸ h₂, h ▸ h₃, ne₁, ne₂, ne₃⟩
  · rintro ⟨h₁, h₂, h₃, ne₁, ne₂, ne₃⟩
    exact ⟨h ▸ h₁, h ▸ h₂, h ▸ h₃, ne₁, ne₂, ne₃⟩

theorem canTransition_cancelled {a : SessionStatus} {consent : Bool} :
    (canTransition a cancelled consent).1 = (canTransition a cancelled).1 := by
  cases a <;> rfl

/-- What the plan does after the status is written. -/
theorem finish_jobs {ids : PipelineIds} {now : Timestamp} {t : SessionStatus} {e : Exn} :
    (Script.when (t = processing) (fun next =>
      .ensure s.audioKey.isSome e <| DbScript.createJobsForSession ids now s.id next) .done).finish
        db ws = some f ↔
      (t = processing → s.audioKey.isSome) ∧
        (t = processing → (overlay ws db).PipelineFree ids now s.id) ∧
        f = if t = processing then addPipeline ids now s.id (overlay ws db) else overlay ws db := by
  by_cases ht : t = processing
  · simp [Script.when, ht, finish_createJobsForSession]
  · simp [Script.when, ht, eq_comm (a := f)]

theorem finish_plan (h : db.Belongs r.user s.id) : (r.plan s).finish db [] = some f ↔
    ∃ c, r.change? = some c ∧ c.Allowed s ∧ r.Fits s db ∧
      f = r.add s (db.setSession s.id (s.save (r.set c s))) := by
  obtain ⟨user, now, session, call⟩ := r
  cases call with
  | consent grant =>
    simp only [SessionRequest.plan, consentPlan, saveSession, DbScript.addAudit, finish_ensure,
      finish_update, finish_done, SessionRequest.change?, Option.some.injEq, exists_eq_left',
      Change.Allowed, SessionRequest.Fits, true_and, decide_eq_true_eq]
    exact and_congr_right fun _ => eq_comm
  | status ids text =>
    simp only [SessionRequest.plan, statusPlan, saveSession, finish_require, finish_ensure,
      finish_update, finish_jobs, overlay_snoc, overlay_nil,
      SessionRequest.change?, SessionRequest.Fits, SessionRequest.add, SessionRequest.set]
    constructor
    · rintro ⟨t, ht, hc, ha, hf, rfl⟩
      refine ⟨.move t, by simp [ht], ⟨hc, ha⟩, fun hp => ?_, ?_⟩
      · exact (pipelineFree_congr (by rfl)).mp (hf (Option.some.inj (ht.symm.trans hp)))
      · simp [ht]
    · rintro ⟨c, hc, ha, hf, rfl⟩
      obtain ⟨t, ht, rfl⟩ := Option.map_eq_some_iff.mp hc
      refine ⟨t, ht, ha.1, ha.2, fun hp => ?_, by simp [ht]⟩
      exact (pipelineFree_congr (by rfl)).mpr (hf (hp ▸ ht))
  | cancel =>
    simp only [SessionRequest.plan, cancelPlan, saveSession, finish_ensure, finish_update,
      finish_done, SessionRequest.change?, Option.some.injEq, exists_eq_left', Change.Allowed,
      SessionRequest.Fits, true_and, canTransition_cancelled, reduceCtorEq, false_imp_iff, and_true]
    exact and_congr_right fun _ => eq_comm
  | retract ids =>
    classical
    have hrow := find?_belongs db user s
    rw [if_pos h] at hrow
    simp only [SessionRequest.plan, retractPlan, saveSession, finish_ensure, finish_fetch,
      finish_update, finish_addSaga, SessionRequest.change?, Option.some.injEq, exists_eq_left',
      Change.Allowed, SessionRequest.Fits, redlinePublishedBeforeRetract_passed, overlay_snoc,
      overlay_nil, hrow]
    constructor
    · rintro ⟨hp, -, hf, rfl⟩
      exact ⟨hp, (sagaFree_congr (by rfl)).mp hf, rfl⟩
    · rintro ⟨hp, hf, rfl⟩
      exact ⟨hp, by rw [hp]; rfl, (sagaFree_congr (by rfl)).mpr hf, rfl⟩

end Plan

namespace SessionRequest

variable {r o : SessionRequest} {db : Db} {s s' : Session} {c d : Change}

theorem save_set : s.save (r.set c s) s = r.set c s := by
  cases c <;> simp [Session.save, set, changed_self, Session.withConsent, Session.withStatus,
    Session.withTombstone]

/-- Two ways to rewrite a row that agree on it. -/
theorem setSession_congr {f g : Session → Session} (hf : ∀ s, (f s).id = s.id)
    (hg : ∀ s, (g s).id = s.id) (hs : s ∈ db.sessions) (h : f s = g s) :
    db.setSession s.id f hf = db.setSession s.id g hg := by
  rw [Db.setSession, Db.setSession]
  congr 1
  apply Table.update_congr
  intro x hx hi
  obtain rfl := Table.eq_of_key_eq hx hs (by simpa using hi)
  exact h

theorem setSession_setSession {i : Uuid} {f g : Session → Session} {hf : ∀ s, (f s).id = s.id}
    {hg : ∀ s, (g s).id = s.id} : (db.setSession i f hf).setSession i g hg =
      db.setSession i (fun x => g (f x)) fun x => (hg _).trans (hf x) := by
  simp only [Db.setSession]
  rw [Table.update_update fun x => by rw [hf]]

theorem add_setSession {i : Uuid} {f : Session → Session} {hf : ∀ s, (f s).id = s.id} :
    r.add s (db.setSession i f hf) = (r.add s db).setSession i f hf := by
  unfold add
  split
  · rfl
  · split <;> rfl
  · rfl
  · rfl

theorem add_congr (hi : s'.id = s.id) (ha : s'.audioKey = s.audioKey) : r.add s' db = r.add s db := by
  unfold add addSaga
  rw [hi, ha]

@[simp] theorem add_set : r.add (o.set c s) db = r.add s db := add_congr (by simp) (by simp)

@[simp] theorem add_sessions : (r.add s db).sessions = db.sessions := by
  unfold add
  split
  · rfl
  · split
    · exact addPipeline_sessions ..
    · rfl
  · rfl
  · rfl

@[simp] theorem add_users : (r.add s db).users = db.users := by
  unfold add
  split
  · rfl
  · split
    · exact addPipeline_users ..
    · rfl
  · rfl
  · rfl

theorem fits_congr {db' : Db} (hj : db'.jobs = db.jobs) (hd : db'.deletionJobs = db.deletionJobs)
    (hi : s'.id = s.id) : r.Fits s' db' ↔ r.Fits s db := by
  unfold Fits
  split
  · rw [hi]
    exact imp_congr_right fun _ => pipelineFree_congr hj
  · exact sagaFree_congr hd
  · rfl

@[simp] theorem fits_set : r.Fits (o.set c s) db ↔ r.Fits s db := fits_congr rfl rfl (by simp)

/-- A move to another status than `processing` adds no rows. -/
theorem add_of_move {t : SessionStatus} (h : r.change? = some (.move t)) (ht : t ≠ processing) :
    r.add s db = db := by
  unfold change? at h
  unfold add
  split at h
  · cases h
  · obtain ⟨u, hu, he⟩ := Option.map_eq_some_iff.mp h
    cases he
    simp [hu, ht]
  · rfl
  · cases h

theorem fits_of_move {t : SessionStatus} (h : r.change? = some (.move t)) (ht : t ≠ processing) :
    r.Fits s db := by
  unfold change? at h
  unfold Fits
  split
  · intro hp
    simp_all
  · simp_all
  · trivial

theorem fits_of_grant {g : Bool} (h : r.change? = some (.grant g)) : r.Fits s db := by
  unfold change? at h
  unfold Fits
  split <;> simp_all

/-! ## What a request leaves -/

theorem late_of_allowed (hb : db.Belongs r.user s.id) (hc : r.change? = some c) (ha : c.Allowed s)
    (hf : r.Fits s db) : r.late s db = r.add s (db.setSession s.id (s.save (r.set c s))) := by
  rw [late, (finish_plan hb).mpr ⟨c, hc, ha, hf, rfl⟩]
  rfl

theorem late_of_refused (hb : db.Belongs r.user s.id)
    (h : ∀ c, r.change? = some c → c.Allowed s → ¬ r.Fits s db) : r.late s db = db := by
  rw [late]
  cases hf : (r.plan s).finish db [] with
  | none => rfl
  | some f =>
    obtain ⟨c, hc, ha, hfit, -⟩ := (finish_plan hb).mp hf
    exact absurd hfit (h c hc ha)

theorem Ready.serve (h : r.Ready db s c) : r.serve db = r.add s (db.setSession s.id (r.set c)) := by
  rw [serve_of_loads h.loads, ← late, late_of_allowed h.loads.belongs h.change h.allowed h.fits,
    setSession_save h.loads.row (fun x => by simp) save_set]

theorem serve_of_not_ready (h : ∀ s c, ¬ r.Ready db s c) : r.serve db = db := by
  by_cases hl : ∃ s, r.Loads db s
  · obtain ⟨s, hl⟩ := hl
    rw [serve_of_loads hl]
    exact late_of_refused hl.belongs fun c hc ha hf => h s c ⟨hl, hc, ha, hf⟩
  · exact serve_of_not_loads fun s hs => hl ⟨s, hs⟩

/-- The row after the first of two requests, as the second one would load it. -/
theorem Ready.loads_serve (hr : r.Ready db s c) (ho : o.Loads db s) :
    o.Loads (r.serve db) (r.set c s) := by
  rw [hr.serve]
  refine ho.of_row ?_ ?_ (by simp) (by simp)
  · rw [add_users]
    rfl
  · rw [add_sessions]
    have hm := Table.mem_update_of_mem (p := fun x => x.id = s.id) (f := r.set c) (by simp) ho.row
    rwa [if_pos (decide_eq_true rfl)] at hm

end SessionRequest

end AiBadge
