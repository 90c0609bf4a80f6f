import AiBadge.Lib.Reference
import AiBadge.Properties.DeviceOwnership
import AiBadge.System.EventStep

/-! # Referential integrity

Every foreign key of the schema holds in every reachable state. So do the references that the
schema does not declare: an event or a publish job outlives its artifact only where the artifacts
of the session have been erased.
-/

namespace AiBadge

open Lib Prog DbM SessionStatus

/-- The foreign keys that the migrations declare. -/
structure Db.ForeignKeys (db : Db) : Prop where
  userOrg : Refers (fun u : User => some u.orgId) (· ∈ db.users) db.organizations
  deviceUser : Refers (fun d : Device => some d.userId) (· ∈ db.devices) db.users
  sessionUser : Refers (fun s : Session => some s.userId) (· ∈ db.sessions) db.users
  sessionDevice : Refers (fun s : Session => some s.deviceId) (· ∈ db.sessions) db.devices
  jobSession : Refers Job.sessionId (· ∈ db.jobs) db.sessions
  eventJob : Refers WorkflowEvent.jobId (· ∈ db.workflowEvents) db.jobs
  artifactSession : Refers (fun x : Artifact => some x.sessionId) (· ∈ db.artifacts) db.sessions
  artifactJob : Refers Artifact.jobId (· ∈ db.artifacts) db.jobs

/-- A `delete_artifact_rows` job of the session is completed. -/
def Db.ArtifactsErased (db : Db) (sid : Option Uuid) : Prop :=
  ∃ d ∈ db.deletionJobs, d.sessionId = sid ∧ d.resourceType = .deleteArtifactRows ∧
    d.status = .completed

/-- The references that the schema does not declare. -/
structure Db.LooseReferences (db : Db) : Prop where
  retractor : Refers Session.retractedBy (· ∈ db.sessions) db.users
  auditUser : Refers AuditLog.userId (· ∈ db.auditLogs) db.users
  auditSession : Refers AuditLog.sessionId (· ∈ db.auditLogs) db.sessions
  deletionSession : Refers DeletionJob.sessionId (· ∈ db.deletionJobs) db.sessions
  eventSession : Refers WorkflowEvent.sessionId (· ∈ db.workflowEvents) db.sessions
  eventArtifact : Refers WorkflowEvent.artifactId
    (fun e => e ∈ db.workflowEvents ∧ ¬ db.ArtifactsErased e.sessionId) db.artifacts
  publishArtifact : Refers (fun j : Job => j.inputPayload.artifactId)
    (fun j => j ∈ db.jobs ∧ ¬ db.ArtifactsErased j.sessionId) db.artifacts

namespace World

variable {w w' : World} {a : Action}

section Step

variable (hw : w.Sound) (h : w.step a = some w')
include hw h

theorem organization_kept {o : Organization} (ho : o ∈ w.db.organizations) :
    o ∈ w'.db.organizations := by
  rcases accounts_of_step hw.settled h with hacc | ⟨_, _, _, _, rfl, hr, hdb⟩
  · rw [(Accounts.mk.inj hacc).1]
    exact ho
  · rw [hdb]
    exact (hr.mem.1 o).mpr (.inl ho)

theorem user_kept {u : User} (hu : u ∈ w.db.users) : u ∈ w'.db.users := by
  rcases accounts_of_step hw.settled h with hacc | ⟨_, _, _, _, rfl, hr, hdb⟩
  · rw [(Accounts.mk.inj hacc).2.1]
    exact hu
  · rw [hdb]
    exact (hr.mem.2.1 u).mpr (.inl hu)

theorem session_kept : ∀ s ∈ w.db.sessions, ∃ s' ∈ w'.db.sessions, s'.id = s.id := by
  intro s hs
  obtain ⟨s', hs', hi, -⟩ := (hw.sessions h).kept s hs
  exact ⟨s', hs', hi⟩

theorem job_kept : ∀ j ∈ w.db.jobs, ∃ j' ∈ w'.db.jobs, j'.id = j.id := by
  intro j hj
  obtain ⟨j', hj', hi, -⟩ := (hw.jobs h).kept j hj
  exact ⟨j', hj', hi⟩

/-- A new user belongs to an organization, a new device to a user. -/
theorem accounts_refer (hf : w.db.ForeignKeys) :
    Refers (fun u : User => some u.orgId) (· ∈ w'.db.users) w'.db.organizations ∧
      Refers (fun d : Device => some d.userId) (· ∈ w'.db.devices) w'.db.users := by
  rcases accounts_of_step hw.settled h with hacc | ⟨env, ids, body, hash, rfl, hr, hdb⟩
  · obtain ⟨ho, hu, hd⟩ := Accounts.mk.inj hacc
    rw [ho, hu, hd]
    exact ⟨hf.userOrg, hf.deviceUser⟩
  · obtain ⟨ho, hu, hd⟩ := hr.mem
    rw [← hdb] at ho hu hd
    constructor
    · apply hf.userOrg.step
      · intro u hm
        rcases (hu u).mp hm with hm | rfl
        · exact .inl ⟨u, hm, rfl⟩
        · refine .inr fun k hk => ⟨_, (ho _).mpr (.inr rfl), ?_⟩
          exact Option.some.inj hk
      · exact fun _ _ o hm _ => ⟨o, organization_kept hw h hm, rfl⟩
    · apply hf.deviceUser.step
      · intro d hm
        rcases (hd d).mp hm with hm | rfl
        · exact .inl ⟨d, hm, rfl⟩
        · refine .inr fun k hk => ⟨_, (hu _).mpr (.inr rfl), ?_⟩
          exact Option.some.inj hk
      · exact fun _ _ u hm _ => ⟨u, user_kept hw h hm, rfl⟩

/-- A session comes from one of the same user and device, or it is created by a user with a device
that there is. -/
theorem session_origin {s' : Session} (hs : s' ∈ w'.db.sessions) :
    (∃ s ∈ w.db.sessions, s.id = s'.id ∧ s'.userId = s.userId ∧ s'.deviceId = s.deviceId) ∨
      (∃ u ∈ w.db.users, u.id = s'.userId) ∧ ∃ d ∈ w.db.devices, d.id = s'.deviceId := by
  rcases (hw.sessions h).origin s' hs with ⟨s, hsm, hi, hstep⟩ | hnew
  · exact .inl ⟨s, hsm, hi.symm, hstep.owner.1, hstep.owner.2⟩
  · cases hnew with
    | created ha hfree =>
      subst ha
      rcases db_of_creation h with ⟨-, hdb⟩ | ⟨hu, d, hc, hdb⟩
      · rw [hdb] at hs
        exact absurd rfl (hfree _ hs)
      · rcases (mem_of_creation hc hdb _).mp hs with hold | he
        · exact absurd rfl (hfree _ hold)
        · right
          rw [he]
          exact ⟨hu, hc.device⟩

theorem sessions_refer (hf : w.db.ForeignKeys) :
    Refers (fun s : Session => some s.userId) (· ∈ w'.db.sessions) w'.db.users ∧
      Refers (fun s : Session => some s.deviceId) (· ∈ w'.db.sessions) w'.db.devices := by
  constructor
  · apply hf.sessionUser.grow
    · intro s' hs'
      rcases session_origin hw h hs' with ⟨s, hs, -, hu, -⟩ | ⟨⟨u, hu, hi⟩, -⟩
      · exact .inl ⟨s, hs, congrArg some hu⟩
      · exact .inr fun k hk => ⟨u, hu, hi.trans (Option.some.inj hk)⟩
    · exact fun u hu => ⟨u, user_kept hw h hu, rfl⟩
  · apply hf.sessionDevice.grow
    · intro s' hs'
      rcases session_origin hw h hs' with ⟨s, hs, -, -, hd⟩ | ⟨-, d, hd, hi⟩
      · exact .inl ⟨s, hs, congrArg some hd⟩
      · exact .inr fun k hk => ⟨d, hd, hi.trans (Option.some.inj hk)⟩
    · exact fun d hd => ⟨d, devices_of_step hw.settled h d hd, rfl⟩

theorem events_refer (hf : w.db.ForeignKeys) :
    Refers WorkflowEvent.jobId (· ∈ w'.db.workflowEvents) w'.db.jobs := by
  obtain ⟨new, he, hnew⟩ := events_of_step hw.settled h
  apply hf.eventJob.step
  · intro e hm
    rw [he] at hm
    rcases List.mem_append.mp hm with hm | hm
    · exact .inl ⟨e, hm, rfl⟩
    right
    cases hnew with
    | nothing => cases hm
    | created _ hjobs =>
      obtain ⟨id, hid, rfl⟩ := List.mem_map.mp hm
      intro k hk
      obtain rfl := Option.some.inj hk
      exact hjobs id hid
    | reviewed =>
      rcases List.mem_cons.mp hm with rfl | hm
      · exact nofun
      · obtain ⟨_, -, rfl⟩ := List.mem_map.mp hm
        exact nofun
    | moved =>
      obtain rfl := List.mem_singleton.mp hm
      exact nofun
  · exact fun _ _ j hj _ => job_kept hw h j hj

theorem artifacts_refer (hf : w.db.ForeignKeys) :
    Refers Artifact.jobId (· ∈ w'.db.artifacts) w'.db.jobs := by
  apply hf.artifactJob.grow
  · intro x' hx'
    rcases hw.artifacts h x' hx' with ⟨x, hx, -, hstep⟩ | hnew
    · refine .inl ⟨x, hx, ?_⟩
      cases hstep <;> rfl
    · cases hnew with
      | extracted _ hc _ _ _ hjob =>
        obtain ⟨_, _, _, _, -, -, hj, -⟩ := hc
        exact .inr fun k hk => ⟨_, hj, Option.some.inj (hjob.symm.trans hk)⟩
  · exact job_kept hw h

theorem foreignKeys_step (hf : w.db.ForeignKeys) : w'.db.ForeignKeys where
  userOrg := (accounts_refer hw h hf).1
  deviceUser := (accounts_refer hw h hf).2
  sessionUser := (sessions_refer hw h hf).1
  sessionDevice := (sessions_refer hw h hf).2
  jobSession j hj k hk := by
    obtain ⟨s, hs, hjs, -⟩ := (hw.step h).jobSession j hj
    exact ⟨s, hs, Option.some.inj (hjs.symm.trans hk)⟩
  eventJob := events_refer hw h hf
  artifactSession x hx k hk := by
    obtain ⟨s, hs, hi, -⟩ := (hw.step h).artifactSession x hx
    exact ⟨s, hs, hi.trans (Option.some.inj hk)⟩
  artifactJob := artifacts_refer hw h hf

omit hw in
/-- Who retracts a session is its owner. -/
theorem retractor_of_retracts {s s' : Session} (hr : w.Retracts a s.id) (hs : s ∈ w.db.sessions)
    (hs' : s' ∈ w'.db.sessions) (hi : s'.id = s.id) : s'.retractedBy = some s.userId := by
  obtain ⟨user, ids, rfl, hacc⟩ := hr
  have he := effect_of_step h
  generalize hdb : w'.db = db at he
  generalize w'.files = files at he
  generalize hid : some s.id = sid at he hacc
  cases he with
  | refused hn => exact absurd hacc hn
  | silent hs => exact hs.elim
  | served _ he =>
    cases he with
    | @retractSession _ _ r hrm hru =>
      obtain rfl := Table.eq_of_key_eq hs hrm (Option.some.inj hid)
      rw [hdb] at hs'
      have hrow : s' = s.withTombstone w.now user "" := by
        apply Table.eq_of_mem_update hs hs' hi
        intro; rfl
      rw [hrow, ← hru]
      rfl

theorem retractor_refer (hf : w.db.ForeignKeys) (hl : w.db.LooseReferences) :
    Refers Session.retractedBy (· ∈ w'.db.sessions) w'.db.users := by
  apply hl.retractor.grow
  · intro s' hs'
    rcases (hw.sessions h).origin s' hs' with ⟨s, hs, hi, hstep⟩ | hnew
    · by_cases hr : w.Retracts a s.id
      · right
        rw [retractor_of_retracts h hr hs hs' hi]
        exact hf.sessionUser s hs
      · refine .inl ⟨s, hs, ?_⟩
        cases hstep with
        | retracted hr' => exact absurd hr' hr
        | _ => rfl
    · cases hnew with
      | created => exact .inr nofun
  · exact fun u hu => ⟨u, user_kept hw h hu, rfl⟩

/-- A new row of the audit log names the owner of its session. -/
theorem audit_origin {l : AuditLog} (hl : l ∈ w'.db.auditLogs) :
    l ∈ w.db.auditLogs ∨ ∃ s ∈ w.db.sessions, l.userId = some s.userId := by
  obtain ⟨new, hnew, hnews⟩ := auditLogs_of_effect hw.settled (effect_of_step h)
  rw [hnew] at hl
  rcases List.mem_append.mp hl with hl | hl
  · exact .inl hl
  right
  obtain ⟨r, rfl, hacc⟩ : ∃ r, a = .request r ∧ w.Accepts r := by
    cases hnews l hl with
    | consent _ hc =>
      obtain ⟨_, ha, hacc⟩ := hc
      exact ⟨_, ha, hacc⟩
    | retracted _ hr =>
      obtain ⟨_, _, ha, hacc⟩ := hr
      exact ⟨_, ha, hacc⟩
  obtain ⟨-, w₁, hact, rfl⟩ := step_eq_some.mp h
  obtain rfl := Option.some.inj hact
  have he := serve_of_accepts hacc
  generalize hdb : (w.serve r).db = db at he
  change (w.serve r).db.auditLogs = _ at hnew
  rw [hdb] at hnew
  have nothing (hd : db.auditLogs = w.db.auditLogs) : ∃ s ∈ w.db.sessions,
      l.userId = some s.userId := by
    rw [hd] at hnew
    rw [List.self_eq_append_right.mp hnew] at hl
    cases hl
  have one {m : AuditLog} (hd : db.auditLogs = w.db.auditLogs ++ [m]) : l = m := by
    rw [List.append_cancel_left (hnew.symm.trans hd)] at hl
    exact List.mem_singleton.mp hl
  cases he with
  | @updateConsent _ s _ hs hu => exact ⟨s, hs, by rw [one rfl, hu]; rfl⟩
  | @retractSession _ _ s hs hu => exact ⟨s, hs, by rw [one rfl, hu]; rfl⟩
  | register _ _ _ ha => exact nothing ha
  | startProcessing => exact nothing (addPipeline_auditLogs ..)
  | approveAll => exact nothing (advanceSession_auditLogs _ _)
  | _ => exact nothing rfl

theorem auditUser_refer (hf : w.db.ForeignKeys) (hl : w.db.LooseReferences) :
    Refers AuditLog.userId (· ∈ w'.db.auditLogs) w'.db.users := by
  apply hl.auditUser.grow
  · intro l hm
    rcases audit_origin hw h hm with hold | ⟨s, hs, hu⟩
    · exact .inl ⟨l, hold, rfl⟩
    · right
      rw [hu]
      exact hf.sessionUser s hs
  · exact fun u hu => ⟨u, user_kept hw h hu, rfl⟩

/-- A completed deletion job stays completed. -/
theorem artifactsErased_kept {sid : Option Uuid} (he : w.db.ArtifactsErased sid) :
    w'.db.ArtifactsErased sid := by
  obtain ⟨d, hd, hs, ht, hc⟩ := he
  obtain ⟨d', hd', -, hstep⟩ := (hw.deletions h).kept d hd
  cases hstep with
  | same => exact ⟨d, hd', hs, ht, hc⟩
  | completed _ hp => cases hc.symm.trans hp
  | failed _ hp => cases hc.symm.trans hp

/-- A `delete_artifact_rows` job that is processed is completed. -/
theorem artifactsErased_of_erases {sid : Uuid} (he : w.Erases a sid) :
    w'.db.ArtifactsErased (some sid) := by
  obtain ⟨k, locked, remove, d, hd, rfl, hty, hsid⟩ := he
  have heff := effect_of_step h
  generalize w'.db = db at heff
  generalize w'.files = files at heff
  generalize hid : d.id = id at heff
  cases heff with
  | silent hs => exact hs.elim
  | @deletion _ e _ _ pending _ _ hp he heff =>
    obtain ⟨hem, -⟩ := hw.settled.candidate hp he
    obtain rfl := Table.eq_of_key_eq hd hem hid
    cases heff with
    | artifactRows =>
      have hm : d ∈ (eraseRows d.sessionId (w.session pending).view).deletionJobs := by
        rw [hsid]
        exact (hw.settled.tail hp).deletionJobs (w := w) ▸ hd
      refine ⟨d.withStatus .completed, ?_, hsid, hty, rfl⟩
      have hrow := Table.mem_update_of_mem (p := fun r => decide (r.id = d.id))
        (f := DeletionJob.withStatus .completed) (by intro; rfl) hm
      rwa [if_pos (by simp)] at hrow
    | localAudio ht => cases hty.symm.trans ht
    | feishuDocs ht => cases hty.symm.trans ht
    | failed ht => exact absurd (hty ▸ ht) (by decide)

/-- An artifact lives on, or the artifacts of its session have been erased. -/
theorem artifact_kept_or_erased {x : Artifact} (hx : x ∈ w.db.artifacts) :
    (∃ x' ∈ w'.db.artifacts, x'.id = x.id) ∨ w'.db.ArtifactsErased (some x.sessionId) := by
  by_cases he : w.Erases a x.sessionId
  · exact .inr (artifactsErased_of_erases hw h he)
  · exact .inl (artifact_kept hw.settled hx he (effect_of_step h))

end Step

/-- The pair names an artifact that was drawn once, with its session as long as it is there. -/
def Names (w : World) (artifactId sessionId : Option Uuid) : Prop :=
  ∀ aid, artifactId = some aid → aid ∈ w.issued ∧
    ∀ x ∈ w.db.artifacts, x.id = aid → sessionId = some x.sessionId

section Step

variable (hw : w.Sound) (h : w.step a = some w')
include hw h

theorem Names.step {artifactId sessionId : Option Uuid} (hn : w.Names artifactId sessionId) :
    w'.Names artifactId sessionId := by
  intro aid ha
  obtain ⟨hissued, hx⟩ := hn aid ha
  constructor
  · rw [issued_of_step h]
    exact List.mem_append_left _ hissued
  · intro x' hx' hi
    rcases hw.artifacts h x' hx' with ⟨x, hxm, hxi, hstep⟩ | hnew
    · rw [hstep.sessionId]
      exact hx x hxm (hxi.symm.trans hi)
    · cases hnew with
      | extracted he =>
        -- a new artifact has a new id
        refine absurd hissued ((fresh_of_step h).2 aid ?_)
        rw [he, ← hi]
        exact List.mem_singleton.mpr rfl

theorem names_of_mem {x : Artifact} (hx : x ∈ w.db.artifacts) :
    w'.Names (some x.id) (some x.sessionId) := by
  apply Names.step hw h
  intro aid ha
  obtain rfl := Option.some.inj ha
  refine ⟨hw.artifactId x hx, fun y hy hi => ?_⟩
  rw [Table.eq_of_key_eq hy hx hi]

theorem eventNames_step (hn : ∀ e ∈ w.db.workflowEvents, w.Names e.artifactId e.sessionId) :
    ∀ e ∈ w'.db.workflowEvents, w'.Names e.artifactId e.sessionId := by
  intro e hm
  obtain ⟨new, he, hnew⟩ := events_of_step hw.settled h
  rw [he] at hm
  rcases List.mem_append.mp hm with hm | hm
  · exact (hn e hm).step hw h
  cases hnew with
  | nothing => cases hm
  | created =>
    obtain ⟨_, -, rfl⟩ := List.mem_map.mp hm
    exact nofun
  | reviewed _ _ hx =>
    rcases List.mem_cons.mp hm with rfl | hm
    · exact names_of_mem hw h hx
    · obtain ⟨_, -, rfl⟩ := List.mem_map.mp hm
      exact nofun
  | moved =>
    obtain rfl := List.mem_singleton.mp hm
    exact nofun

theorem jobNames_step
    (hn : ∀ j ∈ w.db.jobs, w.Names j.inputPayload.artifactId j.sessionId) :
    ∀ j ∈ w'.db.jobs, w'.Names j.inputPayload.artifactId j.sessionId := by
  intro j' hj'
  rcases (hw.jobs h).origin j' hj' with ⟨j, hj, -, hstep⟩ | hnew
  · have ho := hstep.sameOrigin
    rw [ho.inputPayload, ho.sessionId]
    exact (hn j hj).step hw h
  · cases hnew with
    | stage => exact nofun
    | retry => exact nofun
    | publish _ hx => exact names_of_mem hw h hx

/-- Rows that name artifacts refer to them, unless those of the session have been erased. -/
theorem artifact_refer {α : Type} {fk sid : α → Option Uuid} {P P' : α → Prop}
    (hr : Refers fk (fun r => P r ∧ ¬ w.db.ArtifactsErased (sid r)) w.db.artifacts)
    (hn : ∀ r, P r → w.Names (fk r) (sid r))
    (horigin : ∀ r', P' r' → (∃ r, P r ∧ fk r' = fk r ∧ sid r' = sid r) ∨
      ∀ aid, fk r' = some aid → ∃ x ∈ w.db.artifacts, x.id = aid ∧ sid r' = some x.sessionId) :
    Refers fk (fun r => P' r ∧ ¬ w'.db.ArtifactsErased (sid r)) w'.db.artifacts := by
  rintro r' ⟨hP, hkept⟩ aid ha
  obtain ⟨x, hx, rfl, hsid⟩ : ∃ x ∈ w.db.artifacts, x.id = aid ∧ sid r' = some x.sessionId := by
    rcases horigin r' hP with ⟨r, hPr, hfk, hs⟩ | hnew
    · rw [hfk] at ha
      rw [hs] at hkept ⊢
      obtain ⟨x, hx, hi⟩ := hr r ⟨hPr, fun he => hkept (artifactsErased_kept hw h he)⟩ aid ha
      exact ⟨x, hx, hi, (hn r hPr aid ha).2 x hx hi⟩
    · exact hnew aid ha
  rcases artifact_kept_or_erased hw h hx with hk | he
  · exact hk
  · exact absurd (hsid ▸ he) hkept

theorem eventArtifact_refer (hn : ∀ e ∈ w.db.workflowEvents, w.Names e.artifactId e.sessionId)
    (hl : w.db.LooseReferences) : Refers WorkflowEvent.artifactId
      (fun e => e ∈ w'.db.workflowEvents ∧ ¬ w'.db.ArtifactsErased e.sessionId)
        w'.db.artifacts := by
  obtain ⟨new, he, hnew⟩ := events_of_step hw.settled h
  apply artifact_refer hw h hl.eventArtifact hn
  intro e hm
  rw [he] at hm
  rcases List.mem_append.mp hm with hm | hm
  · exact .inl ⟨e, hm, rfl, rfl⟩
  right
  cases hnew with
  | nothing => cases hm
  | created =>
    obtain ⟨_, -, rfl⟩ := List.mem_map.mp hm
    exact nofun
  | reviewed _ _ hx =>
    rcases List.mem_cons.mp hm with rfl | hm
    · exact fun aid ha => ⟨_, hx, Option.some.inj ha, rfl⟩
    · obtain ⟨_, -, rfl⟩ := List.mem_map.mp hm
      exact nofun
  | moved =>
    obtain rfl := List.mem_singleton.mp hm
    exact nofun

theorem publishArtifact_refer
    (hn : ∀ j ∈ w.db.jobs, w.Names j.inputPayload.artifactId j.sessionId)
    (hl : w.db.LooseReferences) : Refers (fun j : Job => j.inputPayload.artifactId)
      (fun j => j ∈ w'.db.jobs ∧ ¬ w'.db.ArtifactsErased j.sessionId) w'.db.artifacts := by
  apply artifact_refer hw h hl.publishArtifact hn
  intro j' hj'
  rcases (hw.jobs h).origin j' hj' with ⟨j, hj, -, hstep⟩ | hnew
  · have ho := hstep.sameOrigin
    exact .inl ⟨j, hj, congrArg _ ho.inputPayload, ho.sessionId⟩
  · right
    cases hnew with
    | stage => exact nofun
    | retry => exact nofun
    | publish _ hx => exact fun aid ha => ⟨_, hx, Option.some.inj ha, rfl⟩

theorem eventSession_refer (hl : w.db.LooseReferences) :
    Refers WorkflowEvent.sessionId (· ∈ w'.db.workflowEvents) w'.db.sessions := by
  obtain ⟨new, he, hnew⟩ := events_of_step hw.settled h
  apply hl.eventSession.grow
  · intro e hm
    rw [he] at hm
    rcases List.mem_append.mp hm with hm | hm
    · exact .inl ⟨e, hm, rfl⟩
    right
    cases hnew with
    | nothing => cases hm
    | created =>
      obtain ⟨_, -, rfl⟩ := List.mem_map.mp hm
      exact nofun
    | @reviewed user x v targets _ hx =>
      have hsid : e.sessionId = some x.sessionId := by
        rcases List.mem_cons.mp hm with rfl | hm
        · rfl
        · obtain ⟨_, -, rfl⟩ := List.mem_map.mp hm
          rfl
      obtain ⟨s, hs, hi, -⟩ := hw.artifactSession x hx
      exact fun k hk => ⟨s, hs, hi.trans (Option.some.inj (hsid.symm.trans hk))⟩
    | moved _ hs =>
      obtain rfl := List.mem_singleton.mp hm
      exact fun k hk => ⟨_, hs, Option.some.inj hk⟩
  · exact session_kept hw h

theorem looseReferences_step (hf : w.db.ForeignKeys) (hl : w.db.LooseReferences)
    (he : ∀ e ∈ w.db.workflowEvents, w.Names e.artifactId e.sessionId)
    (hj : ∀ j ∈ w.db.jobs, w.Names j.inputPayload.artifactId j.sessionId) :
    w'.db.LooseReferences where
  retractor := retractor_refer hw h hf hl
  auditUser := auditUser_refer hw h hf hl
  auditSession l hm k hk := by
    obtain ⟨s, hs, hls⟩ := (hw.step h).auditSession l hm
    exact ⟨s, hs, Option.some.inj (hls.symm.trans hk)⟩
  deletionSession d hd k hk := by
    obtain ⟨s, hs, hds⟩ := (hw.step h).deletionSession d hd
    exact ⟨s, hs, Option.some.inj (hds.symm.trans hk)⟩
  eventSession := eventSession_refer hw h hl
  eventArtifact := eventArtifact_refer hw h he hl
  publishArtifact := publishArtifact_refer hw h hj hl

end Step

/-- Every reference of the state is sound. -/
structure Referential (w : World) : Prop where
  sound : w.Sound
  foreign : w.db.ForeignKeys
  loose : w.db.LooseReferences
  events : ∀ e ∈ w.db.workflowEvents, w.Names e.artifactId e.sessionId
  jobs : ∀ j ∈ w.db.jobs, w.Names j.inputPayload.artifactId j.sessionId

theorem referential_init (now : Timestamp) : (World.init now).Referential where
  sound := sound_init now
  foreign := by constructor <;> exact fun _ h => by cases h
  loose := by
    constructor <;> intro _ h
    all_goals first | cases h.1 | cases h
  events _ h := (List.not_mem_nil h).elim
  jobs _ h := (Table.not_mem_empty _ h).elim

theorem referential_of_run {now : Timestamp} {tr : List (Transition World Action)}
    (hr : SystemRun now tr w) : w.Referential := by
  refine hr.invariant (referential_init now) fun w a w' hi h => ?_
  obtain ⟨hw, hf, hl, he, hj⟩ := hi
  exact ⟨hw.step h, foreignKeys_step hw h hf, looseReferences_step hw h hf hl he hj,
    eventNames_step hw h he, jobNames_step hw h hj⟩

end World

/-- In every reachable state all foreign keys hold, those that inserts of the model do not check
among them. -/
theorem foreignKeys_of_run {now : Timestamp} {tr : List (Transition World Action)} {w : World}
    (hr : SystemRun now tr w) : w.db.ForeignKeys := (World.referential_of_run hr).foreign

theorem foreignKeys_of_run_published : ∃ tr w, SystemRun 0 tr w ∧
    (w.db.artifacts.any fun x => x.jobId.isSome) = true ∧ w.db.ForeignKeys := by
  obtain ⟨tr, w, hr, hp⟩ := exists_run (fun _ w => w.db.artifacts.any fun x => x.jobId.isSome)
    (by decide +kernel : (execute World.step (World.init 0) Replay.published).any _ = true)
  exact ⟨tr, w, hr, hp, foreignKeys_of_run hr⟩

/-- References that the schema does not declare are sound too. Those to artifacts are, as long as
no `delete_artifact_rows` job of the session is completed. -/
theorem looseReferences_of_run {now : Timestamp} {tr : List (Transition World Action)} {w : World}
    (hr : SystemRun now tr w) : w.db.LooseReferences := (World.referential_of_run hr).loose

/-- The session is published, retracted and erased, by three poll cycles. -/
def erasedSession : List Action :=
  Replay.published ++ [Replay.retract 70] ++ Replay.erase 70 ++ Replay.erase 71 ++ Replay.erase 72

theorem looseReferences_of_run_erased : ∃ tr w, SystemRun 0 tr w ∧
    (w.db.workflowEvents.any fun e => e.artifactId.any fun aid =>
      !w.db.artifacts.any fun x => x.id = aid) = true ∧ w.db.LooseReferences := by
  obtain ⟨tr, w, hr, hp⟩ := exists_run
    (fun _ w => w.db.workflowEvents.any fun e => e.artifactId.any fun aid =>
      !w.db.artifacts.any fun x => x.id = aid)
    (by decide +kernel : (execute World.step (World.init 0) erasedSession).any _ = true)
  exact ⟨tr, w, hr, hp, looseReferences_of_run hr⟩

end AiBadge
