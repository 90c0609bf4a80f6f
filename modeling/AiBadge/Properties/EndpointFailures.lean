import AiBadge.Concurrency.Change
import AiBadge.Lib.Failure
import AiBadge.Properties.AuditPaging
import AiBadge.Properties.Cancellation
import AiBadge.Properties.DeviceOwnership
import AiBadge.Properties.Registration
import AiBadge.Properties.Resubmission
import AiBadge.System.Acceptance
import AiBadge.System.ApiAccount

/-! # Failures of the endpoints

An exception that no handler turns into a response is an internal error. For the program of each
endpoint, the states in which it raises one.
-/

namespace AiBadge

open Lib Prog DbM SessionStatus

/-- No exception handler of the application answers it, and the client sees a 500. -/
def Exn.isInternal : Exn → Bool
  | http .. => false
  | policyViolation .. => false
  | _ => true

def Exn.Internal (e : Exn) : Prop := e.isInternal = true

/-- PostgreSQL takes the bounds of a page. -/
def PageRange (limit offset : Int) : Prop :=
  0 ≤ limit ∧ limit < 2 ^ 63 ∧ 0 ≤ offset ∧ offset < 2 ^ 63

section Programs

variable {t : Tx Db Files} {user : Uuid}

theorem not_fails_getSessionOr404 {sid : PathId} :
    ¬ Fails Exn.isInternal t (getSessionOr404 sid user) := by
  simp [getSessionOr404, fails_bind, Exn.isInternal]

theorem not_fails_getArtifactOr404 {aid : PathId} :
    ¬ Fails Exn.isInternal t (getArtifactOr404 aid) := by
  simp [getArtifactOr404, fails_bind, Exn.isInternal]

theorem internal_insertJob {j : Job} :
    RaisesOnly Exn.Internal (insertJob j) :=
  raisesOnly_read.bind fun _ => (raisesOnly_ensure (E := Exn.Internal) (by rfl)).bind fun _ =>
    raisesOnly_write

theorem internal_transitionSession {sid : Uuid} {target : SessionStatus} :
    RaisesOnly Exn.Internal (transitionSession sid target) :=
  raisesOnly_read.bind fun _ => (raisesOnly_require (E := Exn.Internal) (by rfl)).bind fun _ =>
    (raisesOnly_ensure (E := Exn.Internal) (by rfl)).bind fun _ => raisesOnly_write.bind fun _ =>
      raisesOnly_write

theorem fails_paged {α : Type} {key : α → Int} {plan : Plan key} {limit offset : Int}
    {rows : List α} : Fails Exn.isInternal t (paged plan limit offset rows) ↔
      ¬ PageRange limit offset := by
  simp only [paged, fails_bind_pure, fails_ensure, Exn.isInternal, and_true, PageRange]
  rw [← Bool.not_eq_true]
  simp [and_assoc]

/-- An endpoint of a session fails for a session of the user only. -/
theorem fails_owned {α : Type} {sid : PathId} {f : Session → DbM α} :
    Fails Exn.isInternal t (getSessionOr404 sid user >>= f) ↔
      ∃ s ∈ t.view.sessions, s.userId = user ∧ sid = some s.id ∧ Fails Exn.isInternal t (f s) := by
  rw [fails_bind_of_not_fails not_fails_getSessionOr404]
  constructor
  · rintro ⟨s, _, hget, hf⟩
    obtain ⟨hs, hid, hu, rfl⟩ := returns_getSessionOr404 hget
    exact ⟨s, hs, hu, hid, hf⟩
  · rintro ⟨s, hs, hu, rfl, hf⟩
    have hfind : t.view.sessions.find? (fun r => r.id = s.id && r.userId = user) = some s :=
      Table.find?_of_mem hs (by simp [hu]) (by simp +contextual)
    exact ⟨s, t, by simp [getSessionOr404, hfind], hf⟩

theorem fails_found {α : Type} {aid : PathId} {f : Artifact → DbM α} :
    Fails Exn.isInternal t (getArtifactOr404 aid >>= f) ↔
      ∃ x ∈ t.view.artifacts, aid = some x.id ∧ Fails Exn.isInternal t (f x) := by
  rw [fails_bind_of_not_fails not_fails_getArtifactOr404]
  constructor
  · rintro ⟨x, _, hget, hf⟩
    obtain ⟨hx, hid, rfl⟩ := returns_getArtifactOr404 hget
    exact ⟨x, hx, hid, hf⟩
  · rintro ⟨x, hx, rfl, hf⟩
    exact ⟨x, t, getArtifactOr404_returns hx, hf⟩

theorem fails_listSessions {createdAt : Session → Timestamp} {plan : Plan createdAt}
    {limit offset : Int} {f : List SessionResponse × Nat → Reply} :
    Fails Exn.isInternal t (listSessions plan limit offset user >>= fun r => pure (f r)) ↔
      ¬ PageRange limit offset := by
  rw [fails_bind_pure]
  simp [listSessions, fails_bind, fails_paged]

/-- A page of artifacts needs a response for each of its rows. -/
theorem fails_listArtifacts {createdAt : Artifact → Timestamp} {plan : Plan createdAt}
    {limit offset : Int} {f : List ArtifactResponse × Nat → Reply} :
    Fails Exn.isInternal t (listArtifacts plan limit offset >>= fun r => pure (f r)) ↔
      ¬ PageRange limit offset ∨ ∃ x ∈ page limit.toNat offset.toNat (plan.sort t.view.artifacts.rows),
        x.content.isObj = false := by
  rw [fails_bind_pure, listArtifacts, fails_bind_of_returns (returns_read.mpr ⟨rfl, rfl⟩), fails_bind,
    fails_paged]
  by_cases hr : PageRange limit offset
  · have hret : (paged plan limit offset t.view.artifacts.rows).Returns t
        (page limit.toNat offset.toNat (plan.sort t.view.artifacts.rows)) t :=
      returns_paged.mpr ⟨hr, rfl, rfl⟩
    simp only [hr, not_true, false_or]
    constructor
    · rintro ⟨rows, _, hrows, hf⟩
      obtain ⟨rfl, rfl⟩ := hret.unique hrows
      rcases fails_bind.mp hf with hf | ⟨_, _, -, hf⟩
      · simpa using (fails_ensure.mp hf).1
      · exact absurd hf not_fails_pure
    · intro hx
      refine ⟨_, t, hret, fails_bind.mpr (.inl (fails_ensure.mpr ⟨?_, rfl⟩))⟩
      simpa using hx
  · simp [hr]

theorem fails_getArtifact {aid : PathId} :
    Fails Exn.isInternal t (getArtifact aid) ↔ ∃ x ∈ t.view.artifacts, aid = some x.id ∧
      x.content.isObj = false := by
  rw [getArtifact, fails_found]
  simp [Artifact.toResponse, fails_bind, Exn.isInternal]

theorem fails_listAuditLogs {driverUuid : String → Option Uuid} {plan : Plan AuditLog.createdAt}
    {session : Option String} {limit offset : Int} {f : List AuditLog × Nat → Reply} :
    Fails Exn.isInternal t (listAuditLogs driverUuid plan session limit offset >>= fun r =>
      pure (f r)) ↔ auditFilter driverUuid session = none ∨ ¬ PageRange limit offset := by
  rw [fails_bind_pure]
  cases hf : auditFilter driverUuid session with
  | none => simp [listAuditLogs, fails_bind, hf, Exn.isInternal]
  | some filter => simp [listAuditLogs, fails_bind, fails_paged, hf]

theorem not_fails_updateConsent {now : Timestamp} {sid : PathId} {consent : Bool} :
    ¬ Fails Exn.isInternal t (updateConsent now sid consent user) := by
  simp [updateConsent, fails_bind, not_fails_getSessionOr404, Exn.isInternal]

theorem not_fails_cancelSession {sid : PathId} :
    ¬ Fails Exn.isInternal t (cancelSession sid user) := by
  simp [cancelSession, fails_bind, not_fails_getSessionOr404, Exn.isInternal]

theorem fails_uploadAudio {uuid4 : Uuid} {sid : PathId} {file : UploadFile} :
    Fails Exn.isInternal t (uploadAudio uuid4 sid file user) ↔
      ∃ s ∈ t.view.sessions, s.userId = user ∧ sid = some s.id ∧ 2 ^ 31 ≤ file.size := by
  rw [uploadAudio, fails_owned]
  simp only [fails_bind, not_fails_writeOutside, fails_ensure,
    not_fails_write, returns_writeOutside, Exn.isInternal, and_true, and_false, or_false, false_or,
    exists_false, decide_eq_false_iff_not, Nat.not_lt, exists_eq_left, exists_const]

theorem internal_createJobsForSession {ids : PipelineIds} {now : Timestamp} {sid : Uuid} :
    RaisesOnly Exn.Internal (createJobsForSession ids now sid) :=
  internal_insertJob.bind fun _ => internal_insertJob.bind fun _ => internal_insertJob.bind fun _ =>
    raisesOnly_write.bind fun _ => raisesOnly_write.bind fun _ => raisesOnly_write

theorem createJobsForSession_returns {ids : PipelineIds} {now : Timestamp} {sid : Uuid}
    (h : t.view.PipelineFree ids now sid) :
    ∃ t', (createJobsForSession ids now sid).Returns t () t' := by
  have hts : stageKey sid .transcribe ≠ stageKey sid .summarize :=
    stageKey_ne (a := .transcribe) (b := .summarize) nofun
  have hte : stageKey sid .transcribe ≠ stageKey sid .extractArtifact :=
    stageKey_ne (a := .transcribe) (b := .extractArtifact) nofun
  have hse : stageKey sid .summarize ≠ stageKey sid .extractArtifact :=
    stageKey_ne (a := .summarize) (b := .extractArtifact) nofun
  simp only [createJobsForSession, addJobCreated, returns_bind, returns_insertJob, returns_write]
  refine ⟨_, (), _, ⟨h.transcribe, rfl⟩, (), _, ⟨?_, rfl⟩, (), _, ⟨?_, rfl⟩, (), _, rfl, (), _, rfl,
    rfl⟩
  · rw [Tx.view_flush]
    exact h.summarize.addJob h.ne₁ hts
  · rw [Tx.view_flush, Tx.view_flush]
    exact (h.extractArtifact.addJob h.ne₂ hte).addJob h.ne₃ hse

theorem fails_createJobsForSession {ids : PipelineIds} {now : Timestamp} {sid : Uuid} :
    Fails Exn.isInternal t (createJobsForSession ids now sid) ↔
      ¬ t.view.PipelineFree ids now sid := by
  rw [fails_iff_not_returns (internal_createJobsForSession t), not_iff_not]
  constructor
  · rintro ⟨_, t', hr⟩
    exact (returns_createJobsForSession hr).1
  · intro hf
    obtain ⟨t', hr⟩ := createJobsForSession_returns hf
    exact ⟨(), t', hr⟩

theorem fails_updateSessionStatus {ids : PipelineIds} {now : Timestamp} {sid : PathId}
    {text : String} : Fails Exn.isInternal t (updateSessionStatus ids now sid text user) ↔
      ∃ s ∈ t.view.sessions, s.userId = user ∧ sid = some s.id ∧ parse? text = some processing ∧
        (canTransition s.status processing s.consentGranted).1 = true ∧ s.audioKey.isSome ∧
        ¬ t.view.PipelineFree ids now s.id := by
  have hhttp (c : Prop) [Decidable c] (m m' : String) :
      Exn.isInternal (if c then .http 403 m else .http 409 m') = false := by
    split <;> rfl
  have hfree (s : Session) (target : SessionStatus) (sid : Uuid) :
      (t.view.setSession s.id (Session.withStatus target)).PipelineFree ids now sid ↔
        t.view.PipelineFree ids now sid :=
    ⟨fun h => ⟨h.transcribe, h.summarize, h.extractArtifact, h.ne₁, h.ne₂, h.ne₃⟩,
      fun h => ⟨h.transcribe, h.summarize, h.extractArtifact, h.ne₁, h.ne₂, h.ne₃⟩⟩
  rw [updateSessionStatus, fails_owned]
  refine exists_congr fun s => and_congr_right fun hs => and_congr_right fun hu =>
    and_congr_right fun hid => ?_
  simp only [fails_bind, fails_require, returns_require, fails_ensure, returns_ensure,
    not_fails_write, returns_write, fails_when, fails_createJobsForSession, hhttp]
  simp only [Exn.isInternal, Bool.false_eq_true, and_false, false_or, decide_eq_true_eq]
  constructor
  · rintro ⟨target, _, ⟨hp, rfl⟩, _, _, ⟨hv, rfl⟩, _, _, rfl, rfl, _, _, ⟨ha, rfl⟩, hf⟩
    exact ⟨hp, hv, ha, by simpa [hfree] using hf⟩
  · rintro ⟨hp, hv, ha, hf⟩
    exact ⟨processing, t, ⟨hp, rfl⟩, (), t, ⟨hv, rfl⟩, (), _, rfl, rfl, (), _, ⟨ha, rfl⟩,
      by simpa [hfree] using hf⟩

theorem internal_respondArtifact {id : Uuid} : RaisesOnly Exn.Internal (respondArtifact id) :=
  raisesOnly_read.bind fun _ => (raisesOnly_require (E := Exn.Internal) (by rfl)).bind fun _ =>
    (raisesOnly_ensure (E := Exn.Internal) (by rfl)).bind fun _ => raisesOnly_pure

theorem internal_textColumn {column : String} {text : Option String} :
    RaisesOnly Exn.Internal (textColumn column text) := raisesOnly_ensure (by rfl)

theorem internal_titleColumn {column : String} {text : Option String} :
    RaisesOnly Exn.Internal (titleColumn column text) := raisesOnly_ensure (by rfl)

theorem internal_approveArtifact {x : Artifact} {comment : String} :
    RaisesOnly Exn.Internal (approveArtifact x user comment) :=
  internal_textColumn.bind fun _ => raisesOnly_write.bind fun _ => raisesOnly_write.bind fun _ =>
    raisesOnly_read.bind fun _ => raisesOnly_when (raisesOnly_read.bind fun _ =>
      (raisesOnly_when internal_transitionSession).bind fun _ => internal_transitionSession)

theorem internal_rejectArtifact {ids : RetryIds} {now : Timestamp} {x : Artifact} {comment : String} :
    RaisesOnly Exn.Internal (rejectArtifact ids now x user comment) :=
  internal_textColumn.bind fun _ => raisesOnly_write.bind fun _ => raisesOnly_write.bind fun _ =>
    internal_insertJob

theorem internal_requestPublish {uuid4 : Uuid} {now : Timestamp} {x : Artifact} :
    RaisesOnly Exn.Internal (requestPublish uuid4 now x) :=
  (raisesOnly_ensure (E := Exn.Internal) (by rfl)).bind fun _ => internal_insertJob.bind fun _ =>
    internal_transitionSession

theorem fails_insertDeletionJob {d : DeletionJob} :
    Fails Exn.isInternal t (insertDeletionJob d) ↔ ∃ r ∈ t.view.deletionJobs, r.id = d.id := by
  simp [insertDeletionJob, fails_bind, Exn.isInternal]

theorem fails_resolveDevice {given : Option PathId} :
    Fails Exn.isInternal t (resolveDevice given user) ↔ given = some none := by
  cases given with
  | none => simp [resolveDevice, fails_bind, Exn.isInternal]
  | some g => simp [resolveDevice, Exn.isInternal]

theorem internal_insertSession {s : Session} : RaisesOnly Exn.Internal (insertSession s) :=
  raisesOnly_read.bind fun _ => (raisesOnly_ensure (E := Exn.Internal) (by rfl)).bind fun _ =>
    raisesOnly_read.bind fun _ => (raisesOnly_ensure (E := Exn.Internal) (by rfl)).bind fun _ =>
      internal_titleColumn.bind fun _ => raisesOnly_write

theorem fails_insertSession {s : Session} : Fails Exn.isInternal t (insertSession s) ↔
    (∃ r ∈ t.view.sessions, r.id = s.id) ∨ (∀ d ∈ t.view.devices, d.id ≠ s.deviceId) ∨
      s.title.all fitsTitle = false := by
  rw [fails_iff_not_returns (internal_insertSession t)]
  simp only [insertSession, returns_bind, returns_read, returns_ensure,
    returns_titleColumn, returns_write]
  constructor
  · intro h
    by_contra hn
    push Not at hn
    obtain ⟨hid, ⟨d, hd, hdev⟩, htitle⟩ := hn
    exact h ⟨(), _, _, _, ⟨rfl, rfl⟩, (), _, ⟨by simpa using hid, rfl⟩, _, _, ⟨rfl, rfl⟩, (), _,
      ⟨by simpa using ⟨d, hd, hdev⟩, rfl⟩, (), _, ⟨by simpa using htitle, rfl⟩, rfl⟩
  · rintro h ⟨_, _, _, _, ⟨rfl, rfl⟩, _, _, ⟨hid, rfl⟩, _, _, ⟨rfl, rfl⟩, _, _, ⟨hdev, rfl⟩, _, _,
      ⟨htitle, rfl⟩, rfl⟩
    rcases h with ⟨r, hr, he⟩ | h | h
    · simp only [Bool.not_eq_true', Table.any_eq_false, decide_eq_true_eq] at hid
      exact hid r hr he
    · obtain ⟨d, hd, he⟩ := Table.any_eq_true.mp hdev
      exact h d hd (of_decide_eq_true he)
    · exact absurd htitle (by simp [h])

theorem internal_varchar {column : String} {n : Nat} {text : Option String} :
    RaisesOnly Exn.Internal (varchar column n text) :=
  raisesOnly_ensure (by rfl)

theorem internal_insertOrganization {o : Organization} :
    RaisesOnly Exn.Internal (insertOrganization o) :=
  raisesOnly_read.bind fun _ => (raisesOnly_ensure (E := Exn.Internal) (by rfl)).bind fun _ =>
    internal_varchar.bind fun _ => internal_varchar.bind fun _ => raisesOnly_write

theorem internal_insertUser {u : User} : RaisesOnly Exn.Internal (insertUser u) :=
  raisesOnly_read.bind fun _ => (raisesOnly_ensure (E := Exn.Internal) (by rfl)).bind fun _ =>
    internal_varchar.bind fun _ => internal_varchar.bind fun _ => internal_varchar.bind fun _ =>
      raisesOnly_write

theorem internal_insertDevice {d : Device} : RaisesOnly Exn.Internal (insertDevice d) :=
  raisesOnly_read.bind fun _ => (raisesOnly_ensure (E := Exn.Internal) (by rfl)).bind fun _ =>
    raisesOnly_write

theorem internal_answer {α : Type} {x : Except String α} :
    RaisesOnly Exn.Internal (answer (x.mapError Exn.valueError) : DbM α) := by
  apply raisesOnly_answer
  intro e he
  cases x with
  | error m =>
    obtain rfl := Except.error.inj he
    rfl
  | ok a => cases he

/-- With a new email address, a registration breaks unless it passes every check. -/
theorem fails_register {env : AuthEnv} {ids : RegisterIds} {body : RegisterRequest}
    (h : ∀ u ∈ t.view.users, u.email ≠ body.email) :
    Fails Exn.isInternal t (register env ids body) ↔
      ¬ ∃ hash, t.view.Registers env ids body hash := by
  rw [fails_iff_not_returns, not_iff_not]
  · constructor
    · rintro ⟨_, t', hr⟩
      obtain ⟨hash, hreg, -⟩ := returns_register.mp hr
      exact ⟨hash, hreg⟩
    · rintro ⟨hash, hreg⟩
      exact ⟨(), _, returns_register.mpr ⟨hash, hreg, rfl⟩⟩
  · intro e t' hr
    rcases raises_bind.mp hr with hr | ⟨_, _, hread, hr⟩
    · exact absurd hr raises_read
    obtain ⟨rfl, rfl⟩ := returns_read.mp hread
    rcases raises_bind.mp hr with hr | ⟨_, _, hens, hr⟩
    · obtain ⟨htaken, -, -⟩ := raises_ensure.mp hr
      exact absurd htaken (by simpa using h)
    · change Exn.Internal e
      exact (raisesOnly_read.bind fun _ => internal_insertOrganization.bind fun _ =>
        internal_answer.bind fun _ => internal_insertUser.bind fun _ => internal_insertDevice)
          _ _ _ hr

theorem not_fails_register {env : AuthEnv} {ids : RegisterIds} {body : RegisterRequest}
    (h : ∃ u ∈ t.view.users, u.email = body.email) :
    ¬ Fails Exn.isInternal t (register env ids body) := by
  intro hf
  rcases fails_bind.mp hf with hf | ⟨_, _, hread, hf⟩
  · exact absurd hf not_fails_read
  obtain ⟨rfl, rfl⟩ := returns_read.mp hread
  rcases fails_bind.mp hf with hf | ⟨_, _, hens, -⟩
  · exact absurd hf (by simp [Exn.isInternal])
  · exact absurd (returns_ensure.mp hens).1 (by simpa using h)

theorem fails_login {b : Backend} {now : Timestamp} {body : LoginRequest} :
    Fails Exn.isInternal t (login b now body) ↔
      ∃ u, t.view.users.find? (fun u => u.email = body.email) = some u ∧
        ∃ e, b.checkpw body.password u.passwordHash = .error e := by
  have hmap {α : Type} (x : Except String α) :
      (∃ e, x.mapError Exn.valueError = .error e ∧ e.isInternal = true) ↔ ∃ e, x = .error e := by
    cases x <;> simp [Except.mapError, Exn.isInternal]
  simp only [login, Backend.verifyPassword, fails_bind, not_fails_read, returns_read, fails_require,
    returns_require, fails_answer, hmap, fails_ensure, not_fails_pure]
  simp [Exn.isInternal]

theorem not_fails_bearer {b : Backend} {now : Timestamp} {token : String} :
    ¬ Fails Exn.isInternal t (b.getCurrentUser now token) := by
  simp [Backend.getCurrentUser, getCurrentUser, fails_bind, Exn.isInternal]

theorem fails_createSession {uuid4 : Uuid} {body : SessionCreateRequest} :
    Fails Exn.isInternal t (createSession uuid4 body user) ↔ body.deviceId = some none ∨
      ∃ d, t.view.Resolves body.deviceId user d ∧ ((∃ s ∈ t.view.sessions, s.id = uuid4) ∨
        (∀ x ∈ t.view.devices, x.id ≠ d) ∨ body.title.all fitsTitle = false) := by
  rw [createSession, fails_bind, fails_resolveDevice]
  apply or_congr_right
  simp only [resolveDevice_returns, fails_insertSession]
  constructor
  · rintro ⟨d, _, ⟨hd, rfl⟩, h⟩
    exact ⟨d, hd, h⟩
  · rintro ⟨d, hd, h⟩
    exact ⟨d, t, ⟨hd, rfl⟩, h⟩

/-- Nothing stands in the way of a retraction behind its checks but the ids of its jobs. -/
theorem not_fails_retractSessionEndpoint {ids : SagaIds} {now : Timestamp} {sid : PathId}
    (hfree : t.view.SagaFree ids) :
    ¬ Fails Exn.isInternal t (retractSessionEndpoint ids now sid user) := by
  rw [retractSessionEndpoint, fails_owned]
  rintro ⟨s, hs, hu, -, hf⟩
  have hcheck : ¬ Fails Exn.isInternal t (checkRetract s) := by
    simp [checkRetract, Exn.isInternal]
  obtain ⟨_, t₁, hret, hrest⟩ := (fails_bind_of_not_fails hcheck).mp hf
  obtain ⟨hp, ht⟩ := returns_ensure.mp hret
  subst ht
  have hstatus := redlinePublishedBeforeRetract_passed.mp hp
  have hcan : (canTransition s.status retracting).1 = true := by
    rw [hstatus]
    decide
  have hfind : t₁.view.sessions.find? (fun r => r.id = s.id && r.userId = user) = some s :=
    Table.find?_of_mem hs (by simp [hu]) (by simp +contextual)
  rcases fails_bind.mp hrest with hrest | ⟨_, _, -, hrest⟩
  · simp only [retractSession, fails_bind, not_fails_read, returns_read, fails_require,
      returns_require, fails_ensure, returns_ensure, not_fails_write, returns_write,
      fails_insertDeletionJob, returns_insertDeletionJob, false_or] at hrest
    obtain ⟨_, _, ⟨rfl, rfl⟩, ⟨hnone, -⟩ | ⟨r, _, ⟨hr, rfl⟩, ⟨hv, -⟩ |
      ⟨_, _, ⟨-, rfl⟩, _, _, rfl, hjobs⟩⟩⟩ := hrest
    · rw [hfind] at hnone
      cases hnone
    · obtain rfl := Option.some.inj (hfind.symm.trans hr)
      rw [hcan] at hv
      cases hv
    · simp only [Tx.view_flush] at hjobs
      rcases hjobs with ⟨d, hd, he⟩ | ⟨_, _, ⟨h₁, rfl⟩, ⟨d, hd, he⟩ | ⟨_, _, ⟨h₂, rfl⟩, d, hd, he⟩⟩
      · exact hfree.artifactRows d hd he
      · simp only [Tx.view_flush, Db.addDeletionJob_deletionJobs] at hd
        rcases Table.mem_of_mem_insert hd with hd | rfl
        · exact hfree.localAudio d hd he
        · exact hfree.ne₁ he
      · simp only [Tx.view_flush, Db.addDeletionJob_deletionJobs] at hd
        rcases Table.mem_of_mem_insert hd with hd | rfl
        · rcases Table.mem_of_mem_insert hd with hd | rfl
          · exact hfree.feishuDocs d hd he
          · exact hfree.ne₂ he
        · exact hfree.ne₃ he
  · exact absurd hrest not_fails_write

end Programs

section Endpoints

variable {w : World} {v : User} {x : Artifact}

theorem run_of_accepts {r : Request} {p : Uuid → DbM Unit} (hv : v ∈ w.db.users)
    (hrun : r.run w.now = getCurrentUser v.id >>= fun u => p u.id) :
    w.Accepts r ↔ ∃ t, (p v.id).Returns (Tx.start w.db w.files) () t := by
  rw [World.Accepts, hrun]
  constructor
  · rintro ⟨t, ht⟩
    obtain ⟨u, _, hu, ht⟩ := returns_bind.mp ht
    obtain ⟨⟨u, -, hid, rfl⟩, rfl⟩ := returns_getCurrentUser.mp hu
    exact ⟨t, hid ▸ ht⟩
  · rintro ⟨t, ht⟩
    exact ⟨t, authenticated_returns hv ht⟩

/-- The work on an artifact that raises internal errors only breaks when the request is not
accepted. -/
theorem fails_iff_not_accepts {r : Request} {f : Uuid → Artifact → DbM Unit} (hv : v ∈ w.db.users)
    (hx : x ∈ w.db.artifacts)
    (hrun : r.run w.now = getCurrentUser v.id >>= fun u => getArtifactOr404 (some x.id) >>= f u.id)
    (hf : ∀ e t, (f v.id x).Raises (Tx.start w.db w.files) e t → e.isInternal = true) :
    Fails Exn.isInternal (Tx.start w.db w.files) (f v.id x) ↔ ¬ w.Accepts r := by
  rw [fails_iff_not_returns hf, run_of_accepts (p := fun u => getArtifactOr404 (some x.id) >>= f u)
    hv hrun, not_iff_not]
  simp only [Returns, bind_of_returns (getArtifactOr404_returns (t := Tx.start w.db w.files) hx)]
  constructor
  · rintro ⟨_, t, h⟩
    exact ⟨t, h⟩
  · rintro ⟨t, h⟩
    exact ⟨(), t, h⟩

theorem fails_updateArtifact {aid : PathId} {body : ArtifactUpdateRequest} (hv : v ∈ w.db.users) :
    Fails Exn.isInternal (Tx.start w.db w.files) (updateArtifact aid body) ↔
      ∃ x ∈ w.db.artifacts, aid = some x.id ∧ ¬ body.Fits x := by
  rw [updateArtifact, fails_found, Tx.view_start]
  refine exists_congr fun x => and_congr_right fun hx => and_congr_right fun _ => ?_
  have hacc : w.Accepts (.updateArtifact v.id (some x.id) body) ↔ body.Fits x :=
    ⟨fits_of_accepts hx, accepts_updateArtifact hv hx⟩
  rw [← hacc]
  refine fails_iff_not_accepts (f := fun _ x => do
    titleColumn "artifacts.title" body.title
    ensure (body.content.all Option.isSome) (.dataError "artifacts.content")
    textColumn "artifacts.summary" body.summary
    write fun db => db.setArtifact x.id body.apply
    let _ ← respondArtifact x.id
    return) hv hx rfl ?_
  exact (internal_titleColumn.bind fun _ => (raisesOnly_ensure (E := Exn.Internal) (by rfl)).bind fun _ =>
    internal_textColumn.bind fun _ => raisesOnly_write.bind fun _ =>
      internal_respondArtifact.bind fun _ => raisesOnly_pure) _

theorem fails_approve {ids : RetryIds} {aid : PathId} {comment : String} (hv : v ∈ w.db.users) :
    Fails Exn.isInternal (Tx.start w.db w.files)
      (reviewArtifact ids w.now aid ⟨.approve, comment⟩ v.id) ↔
        ∃ x ∈ w.db.artifacts, aid = some x.id ∧ ¬ (fitsText comment = true ∧ x.content.isObj = true ∧
          (¬ w.LastToApprove x ∨ ∃ s ∈ w.db.sessions, s.id = x.sessionId ∧
            s.status ∈ [needsReview, reviewing, approved])) := by
  rw [reviewArtifact, fails_found, Tx.view_start]
  refine exists_congr fun x => and_congr_right fun hx => and_congr_right fun _ => ?_
  have hacc : w.Accepts (.reviewArtifact v.id ids (some x.id) ⟨.approve, comment⟩) ↔ _ :=
    accepts_approve_iff hv hx
  rw [← hacc]
  refine fails_iff_not_accepts (f := fun u x => do
    approveArtifact x u comment
    let _ ← respondArtifact x.id
    return) hv hx rfl ?_
  exact (internal_approveArtifact.bind fun _ =>
    internal_respondArtifact.bind fun _ => raisesOnly_pure) _

theorem fails_reject {ids : RetryIds} {aid : PathId} {comment : String} (hv : v ∈ w.db.users) :
    Fails Exn.isInternal (Tx.start w.db w.files)
      (reviewArtifact ids w.now aid ⟨.reject, comment⟩ v.id) ↔
        ∃ x ∈ w.db.artifacts, aid = some x.id ∧ ¬ (fitsText comment = true ∧ x.content.isObj = true ∧
          w.db.KeyFree (retryJob ids w.now x comment)) := by
  rw [reviewArtifact, fails_found, Tx.view_start]
  refine exists_congr fun x => and_congr_right fun hx => and_congr_right fun _ => ?_
  rw [← accepts_reject_iff hv hx]
  refine fails_iff_not_accepts (f := fun u x => do
    rejectArtifact ids w.now x u comment
    let _ ← respondArtifact x.id
    return) hv hx rfl ?_
  exact (internal_rejectArtifact.bind fun _ =>
    internal_respondArtifact.bind fun _ => raisesOnly_pure) _

/-- The publication of an approved artifact with a response breaks when its job or its transition
does. -/
theorem fails_publish {uuid4 : Uuid} {aid : PathId} (hv : v ∈ w.db.users) (hw : w.Shown) :
    Fails Exn.isInternal (Tx.start w.db w.files) (publishArtifact uuid4 w.now aid) ↔
      ∃ x ∈ w.db.artifacts, aid = some x.id ∧ x.status = .approved ∧
        ¬ (w.db.KeyFree (publishJob uuid4 w.now x) ∧ ∃ s ∈ w.db.sessions, s.id = x.sessionId ∧
          (canTransition s.status publishing).1 = true) := by
  rw [publishArtifact, fails_found, Tx.view_start]
  refine exists_congr fun x => and_congr_right fun hx => and_congr_right fun _ => ?_
  by_cases hst : x.status = .approved
  · have hacc : w.Accepts (.publishArtifact v.id uuid4 (some x.id)) ↔
        w.db.KeyFree (publishJob uuid4 w.now x) ∧ ∃ s ∈ w.db.sessions, s.id = x.sessionId ∧
          (canTransition s.status publishing).1 = true := by
      constructor
      · exact fun h => needs_of_publish hx (serve_of_accepts h)
      · rintro ⟨hf, s, hs, hi, hc⟩
        exact accepts_publish hv hx hst (hw x hx hst) hf hs hi hc
    rw [← hacc, and_iff_right hst]
    refine fails_iff_not_accepts (f := fun _ x => do
      ensure (x.status = .approved) (.http 403 "Only approved artifacts can be published")
      requestPublish uuid4 w.now x
      let _ ← respondArtifact x.id
      return) hv hx rfl ?_
    intro e t hr
    rcases raises_bind.mp hr with hr | ⟨_, _, -, hr⟩
    · exact absurd hst (by simpa using (raises_ensure.mp hr).1)
    · exact (internal_requestPublish.bind fun _ =>
        internal_respondArtifact.bind fun _ => raisesOnly_pure) _ _ _ hr
  · refine iff_of_false (fun hf => ?_) fun h => hst h.1
    rcases fails_bind.mp hf with hf | ⟨_, _, hret, -⟩
    · exact absurd hf (by simp [Exn.isInternal])
    · exact absurd (returns_ensure.mp hret).1 (by simpa using hst)

end Endpoints

end AiBadge
