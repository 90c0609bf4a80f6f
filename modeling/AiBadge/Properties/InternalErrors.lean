import AiBadge.Properties.EndpointFailures
import AiBadge.Properties.RequestRecords
import AiBadge.Properties.SessionStore
import AiBadge.System.JobIds
import AiBadge.System.Ledger

/-! # Internal errors of the API

In every state that the backend can be in, the calls that end in an internal error are those listed
here.
-/

namespace AiBadge

open Lib Prog DbM SessionStatus

/-- The requests of a user that break an endpoint. -/
inductive Endpoint.Breaks (b : Backend) (w : World) (user : Uuid) : Endpoint → Prop where
  | malformedDevice {uuid4 : Uuid} {title device : Option String} :
      givenId b device = some none → Breaks b w user (.createSession uuid4 title device)
  | unknownDevice {uuid4 d : Uuid} {title device : Option String} :
      givenId b device = some (some d) → (∀ x ∈ w.db.devices, x.id ≠ d) →
      Breaks b w user (.createSession uuid4 title device)
  | unfitTitle {uuid4 : Uuid} {title device : Option String} :
      title.all fitsTitle = false → Breaks b w user (.createSession uuid4 title device)
  | processedAgain {ids : PipelineIds} {session text : String} {s : Session} :
      s ∈ w.db.sessions → s.userId = user → b.uuid? session = some s.id →
      parse? text = some processing → s.status ∈ [processing, processingFailed] →
      Breaks b w user (.updateSessionStatus ids session text)
  | largeAudio {uuid4 : Uuid} {session : String} {file : UploadFile} {s : Session} :
      s ∈ w.db.sessions → s.userId = user → b.uuid? session = some s.id → 2 ^ 31 ≤ file.size →
      Breaks b w user (.uploadAudio uuid4 session file)
  | unreadable {artifact : String} {x : Artifact} : x ∈ w.db.artifacts →
      b.uuid? artifact = some x.id → x.content.isObj = false → Breaks b w user (.getArtifact artifact)
  | unfitEdit {artifact : String} {body : ArtifactUpdateRequest} {x : Artifact} :
      x ∈ w.db.artifacts → b.uuid? artifact = some x.id → ¬ body.Fits x →
      Breaks b w user (.updateArtifact artifact body)
  | unfitComment {ids : RetryIds} {artifact : String} {body : ReviewRequest} {x : Artifact} :
      x ∈ w.db.artifacts → b.uuid? artifact = some x.id → fitsText body.comment = false →
      Breaks b w user (.reviewArtifact ids artifact body)
  | unreadableReview {ids : RetryIds} {artifact : String} {body : ReviewRequest} {x : Artifact} :
      x ∈ w.db.artifacts → b.uuid? artifact = some x.id → x.content.isObj = false →
      Breaks b w user (.reviewArtifact ids artifact body)
  | approvedLate {ids : RetryIds} {artifact comment : String} {x : Artifact} {s : Session} :
      x ∈ w.db.artifacts → b.uuid? artifact = some x.id → w.LastToApprove x →
      s ∈ w.db.sessions → s.id = x.sessionId → s.status ∉ [needsReview, reviewing, approved] →
      Breaks b w user (.reviewArtifact ids artifact ⟨.approve, comment⟩)
  | suffixTaken {ids : RetryIds} {artifact comment : String} {x : Artifact} {j : Job} :
      x ∈ w.db.artifacts → b.uuid? artifact = some x.id → j ∈ w.db.jobs →
      j.idempotencyKey = retryKey x.sessionId ids.suffix →
      Breaks b w user (.reviewArtifact ids artifact ⟨.reject, comment⟩)
  | publishedAgain {uuid4 : Uuid} {artifact : String} {x : Artifact} {j : Job} :
      x ∈ w.db.artifacts → b.uuid? artifact = some x.id → x.status = .approved → j ∈ w.db.jobs →
      j.idempotencyKey = publishKey x.sessionId x.id →
      Breaks b w user (.publishArtifact uuid4 artifact)
  | publishedLate {uuid4 : Uuid} {artifact : String} {x : Artifact} {s : Session} :
      x ∈ w.db.artifacts → b.uuid? artifact = some x.id → x.status = .approved →
      s ∈ w.db.sessions → s.id = x.sessionId → (canTransition s.status publishing).1 = false →
      Breaks b w user (.publishArtifact uuid4 artifact)
  | sessionPage {createdAt : Session → Timestamp} {plan : Plan createdAt} {limit offset : Int} :
      ¬ PageRange limit offset → Breaks b w user (.listSessions plan limit offset)
  | artifactPage {createdAt : Artifact → Timestamp} {plan : Plan createdAt} {limit offset : Int} :
      ¬ PageRange limit offset → Breaks b w user (.listArtifacts plan limit offset)
  | unreadablePage {createdAt : Artifact → Timestamp} {plan : Plan createdAt} {limit offset : Int}
      {x : Artifact} : x ∈ page limit.toNat offset.toNat (plan.sort w.db.artifacts.rows) →
      x.content.isObj = false → Breaks b w user (.listArtifacts plan limit offset)
  | unreadableFilter {driverUuid : String → Option Uuid} {plan : Plan AuditLog.createdAt}
      {session : Option String} {limit offset : Int} : auditFilter driverUuid session = none →
      Breaks b w user (.listAuditLogs driverUuid plan session limit offset)
  | auditPage {driverUuid : String → Option Uuid} {plan : Plan AuditLog.createdAt}
      {session : Option String} {limit offset : Int} : ¬ PageRange limit offset →
      Breaks b w user (.listAuditLogs driverUuid plan session limit offset)

/-- The calls that break the API. -/
inductive ApiCall.Breaks (b : Backend) (w : World) : ApiCall → Prop where
  | organization {salt : String} {ids : RegisterIds} {body : RegisterRequest} :
      (∀ u ∈ w.db.users, u.email ≠ body.email) →
      ¬ w.db.AcceptsOrganization (ownOrganization (b.authEnv salt) ids body w.db) →
      Breaks b w (.register salt ids body)
  | password {salt e : String} {ids : RegisterIds} {body : RegisterRequest} :
      (∀ u ∈ w.db.users, u.email ≠ body.email) → b.hashpw salt body.password = .error e →
      Breaks b w (.register salt ids body)
  | account {salt hash : String} {ids : RegisterIds} {body : RegisterRequest} :
      (∀ u ∈ w.db.users, u.email ≠ body.email) → b.hashpw salt body.password = .ok hash →
      ¬ w.db.AcceptsUser (ownUser ids body hash) → Breaks b w (.register salt ids body)
  | login {e : String} {body : LoginRequest} {u : User} : u ∈ w.db.users → u.email = body.email →
      b.checkpw body.password u.passwordHash = .error e → Breaks b w (.login body)
  | endpoint {token : String} {u : User} {e : Endpoint} : w.caller? b token = some u →
      e.Breaks b w u.id → Breaks b w (.endpoint token e)

/-! ## The states of a run -/

section Run

variable {b : Backend} {w w' : World} {now : Timestamp} {a : Action}

theorem means_of_jobNew {j : Job} (h : w.JobNew a j) : ∃ i : Identity, j.Means i := by
  cases h with
  | @stage user id ids s text ty _ _ _ _ hty =>
    have stage (st : Stage) : (stageJob id w.now s.id st.jobType).Means (.stage (some s.id) st) := by
      constructor <;> rfl
    cases ty with
    | transcribe => exact ⟨_, stage .transcribe⟩
    | summarize => exact ⟨_, stage .summarize⟩
    | extractArtifact => exact ⟨_, stage .extractArtifact⟩
    | publish => cases hty
    | other => cases hty
  | retry => exact ⟨_, retryJob_means _ _ _ _⟩
  | publish => exact ⟨_, publishJob_means _ _ _⟩

theorem means_of_run {tr : List (Transition World Action)} (hr : SystemRun now tr w) :
    ∀ j ∈ w.db.jobs, ∃ i : Identity, j.Means i := by
  have key : w.Sound ∧ ∀ j ∈ w.db.jobs, ∃ i : Identity, j.Means i := by
    apply hr.invariant (I := fun w => w.Sound ∧ ∀ j ∈ w.db.jobs, ∃ i : Identity, j.Means i)
      ⟨World.sound_init now, fun j hj => (Table.not_mem_empty j hj).elim⟩
    rintro w a w' ⟨hw, hm⟩ h
    refine ⟨hw.step h, fun j' hj' => ?_⟩
    rcases (hw.jobs h).origin j' hj' with ⟨j, hj, -, hstep⟩ | hnew
    · obtain ⟨i, hi⟩ := hm j hj
      exact ⟨i, hstep.sameOrigin.means hi⟩
    · exact means_of_jobNew hnew
  exact key.2

/-- A job under the key of a stage belongs to the session of the stage. -/
theorem sessionId_of_stageKey {j : Job} {sid : Uuid} {st : Stage} (h : ∃ i : Identity, j.Means i)
    (hk : j.idempotencyKey = stageKey sid st.jobType) : j.sessionId = some sid := by
  obtain ⟨i, hi⟩ := h
  have he : i = .stage (some sid) st := Identity.key_inj (hi.key.symm.trans hk)
  rw [hi.sessionId, he]
  rfl

theorem draws_of_records {r : Request} {d : DeletionOrder} (h : d ∈ (r.records w).deletionJobs) :
    d.id ∈ r.draws := by
  unfold Request.records at h
  split at h
  · cases h
  · split at h <;> cases h
  · simp only [List.mem_cons, List.not_mem_nil, or_false] at h
    rcases h with rfl | rfl | rfl <;> simp [Request.draws, sagaJob, DeletionJob.order]
  · cases h
  · cases h
  · cases h

theorem deletionIds_of_run {tr : List (Transition World Action)} (hr : SystemRun now tr w) :
    ∀ d ∈ w.db.deletionJobs, d.id ∈ w.issued := by
  induction hr with
  | init => exact fun d hd => (Table.not_mem_empty d hd).elim
  | @snoc tr w w' a hr h ih =>
    intro d hd
    rw [World.issued_of_step h]
    have hrec := congrArg Records.deletionJobs (records_of_step (World.settled_of_run hr) h)
    have hmem : d.order ∈ w'.db.records.deletionJobs := List.mem_map.mpr ⟨d, hd, rfl⟩
    rw [hrec] at hmem
    have old (hold : d.order ∈ w.db.records.deletionJobs) : d.id ∈ w.issued ++ a.draws := by
      obtain ⟨e, he, heq⟩ := List.mem_map.mp hold
      have hid : e.id = d.id := congrArg DeletionOrder.id heq
      exact List.mem_append_left _ (hid ▸ ih e he)
    cases a with
    | request r =>
      by_cases hacc : w.Accepts r
      · rw [World.records?, if_pos hacc] at hmem
        rcases List.mem_append.mp hmem with hmem | hmem
        · exact old hmem
        · exact List.mem_append_right _ (draws_of_records hmem)
      · rw [World.records?, if_neg hacc] at hmem
        exact old hmem
    | _ => exact old hmem

/-- What the states of a run of the API have in common, as far as a call can break on it. -/
structure World.Regular (w : World) : Prop where
  sound : w.Sound
  shown : w.Shown
  bare : EarlyBare w.db
  attempted : w.Attempted
  registered : w.Registered
  means : ∀ j ∈ w.db.jobs, ∃ i : Identity, j.Means i
  jobIds : ∀ j ∈ w.db.jobs, j.id ∈ w.issued
  sessionIds : ∀ s ∈ w.db.sessions, s.id ∈ w.issued
  deletionIds : ∀ d ∈ w.db.deletionJobs, d.id ∈ w.issued

theorem regular_of_run {tr : List (Transition World ApiAction)} (hr : ApiRun b now tr w) :
    w.Regular := by
  obtain ⟨tr', hs, -⟩ := systemRun_of_apiRun hr
  exact ⟨World.sound_of_run hs, World.shown_of_run hs, (earlyBare_of_run hs).2, World.attempted_of_run hs,
    (World.registered_of_run hs).2, means_of_run hs, World.jobIds_of_run hs,
    World.sessionIds_of_run hs, deletionIds_of_run hs⟩

section Regular

variable {u : User} {x : Artifact} {j : Job}

theorem not_keyFree_iff {db : Db} (h : ∀ i ∈ db.jobs, i.id ≠ j.id) :
    ¬ db.KeyFree j ↔ ∃ i ∈ db.jobs, i.idempotencyKey = j.idempotencyKey := by
  constructor
  · intro hn
    by_contra hc
    push Not at hc
    exact hn fun i hi => ⟨h i hi, hc i hi⟩
  · rintro ⟨i, hi, hk⟩ hf
    exact (hf i hi).2 hk

/-- A session that has not been processed has no job under the key of a stage. -/
theorem World.Regular.pipelineFree {s : Session} {ids : PipelineIds} (hw : w.Regular)
    (hs : s ∈ w.db.sessions) (he : s.status ∈ early)
    (hnodup : [ids.transcribe, ids.summarize, ids.extractArtifact].Nodup)
    (hfresh : ∀ v ∈ [ids.transcribe, ids.summarize, ids.extractArtifact], v ∉ w.issued) :
    w.db.PipelineFree ids w.now s.id := by
  have free {id : Uuid} (st : Stage) (hid : id ∉ w.issued) :
      w.db.KeyFree (stageJob id w.now s.id st.jobType) := by
    intro j hj
    constructor
    · rintro rfl
      exact hid (hw.jobIds j hj)
    · intro hk
      exact (hw.bare s hs he).jobs j hj (sessionId_of_stageKey (hw.means j hj) hk)
  simp only [List.nodup_cons, List.mem_cons, List.not_mem_nil, or_false, not_or] at hnodup
  obtain ⟨⟨hts, hte⟩, hse, -⟩ := hnodup
  exact ⟨free .transcribe (hfresh _ (by simp)), free .summarize (hfresh _ (by simp)),
    free .extractArtifact (hfresh _ (by simp)), hts, hte, hse⟩

theorem canTransition_processing {c : SessionStatus} {consent : Bool}
    (h : (canTransition c processing consent).1 = true) :
    c ∈ early ∨ c ∈ [processing, processingFailed] := by
  revert h
  cases c <;> cases consent <;> decide

theorem processing_of_mem {c : SessionStatus} (consent : Bool)
    (h : c ∈ [processing, processingFailed]) :
    c ∉ early ∧ (canTransition c processing consent).1 = true := by
  revert h
  cases c <;> cases consent <;> decide

/-- A patch to `processing` breaks where the session has been under processing before. -/
theorem World.Regular.breaks_process {ids : PipelineIds} {sid : PathId} {text : String}
    (hw : w.Regular) (hnodup : [ids.transcribe, ids.summarize, ids.extractArtifact].Nodup)
    (hfresh : ∀ v ∈ [ids.transcribe, ids.summarize, ids.extractArtifact], v ∉ w.issued) :
    Prog.Fails Exn.isInternal (Tx.start w.db w.files) (updateSessionStatus ids w.now sid text u.id) ↔
      ∃ s ∈ w.db.sessions, s.userId = u.id ∧ sid = some s.id ∧ parse? text = some processing ∧
        s.status ∈ [processing, processingFailed] := by
  rw [fails_updateSessionStatus, Tx.view_start]
  refine exists_congr fun s => and_congr_right fun hs => and_congr_right fun _ =>
    and_congr_right fun _ => and_congr_right fun _ => ?_
  constructor
  · rintro ⟨hcan, -, hn⟩
    apply (canTransition_processing hcan).resolve_left
    intro he
    exact hn (hw.pipelineFree hs he hnodup hfresh)
  · intro hst
    obtain ⟨hearly, hcan⟩ := processing_of_mem s.consentGranted hst
    refine ⟨hcan, hw.sound.recorded s hs hearly, fun hf => ?_⟩
    obtain ⟨i, hi, hk⟩ := hw.attempted s hs hst
    exact (hf.transcribe i hi).2 hk

theorem World.Regular.breaks_create {uuid4 : Uuid} {body : SessionCreateRequest} (hw : w.Regular)
    (hu : u ∈ w.db.users) (hfresh : uuid4 ∉ w.issued) :
    Prog.Fails Exn.isInternal (Tx.start w.db w.files) (createSession uuid4 body u.id) ↔
      body.deviceId = some none ∨
        (∃ d, body.deviceId = some (some d) ∧ ∀ x ∈ w.db.devices, x.id ≠ d) ∨
        body.title.all fitsTitle = false := by
  rw [fails_createSession, Tx.view_start]
  have hfree : ¬ ∃ s ∈ w.db.sessions, s.id = uuid4 := by
    rintro ⟨s, hs, rfl⟩
    exact hfresh (hw.sessionIds s hs)
  obtain ⟨x, hx, -, hres⟩ := hw.registered.resolves hu
  simp only [hfree, false_or]
  obtain ⟨title, given⟩ := body
  constructor
  · rintro (h | ⟨d, hd, h | h⟩)
    · exact .inl h
    · rcases hd with hd | ⟨-, hd⟩
      · exact .inr (.inl ⟨d, hd, h⟩)
      · obtain ⟨y, hy, rfl⟩ := Option.map_eq_some_iff.mp hd
        exact absurd rfl (h y (Table.find?_eq_some hy).1)
    · exact .inr (.inr h)
  · rintro (h | ⟨d, hd, h⟩ | h)
    · exact .inl h
    · exact .inr ⟨d, .inl hd, .inl h⟩
    · cases given with
      | none => exact .inr ⟨x.id, hres, .inr h⟩
      | some g =>
        cases g with
        | none => exact .inl rfl
        | some d => exact .inr ⟨d, .inl rfl, .inr h⟩

/-- A review breaks on a comment that does not fit, on an artifact without a response, on a last
approval of a session that is not in review, and on a rejection whose key is taken. -/
theorem World.Regular.breaks_review {ids : RetryIds} {aid : PathId} {body : ReviewRequest}
    (hw : w.Regular) (hu : u ∈ w.db.users) (hfresh : ids.job ∉ w.issued) :
    Prog.Fails Exn.isInternal (Tx.start w.db w.files) (reviewArtifact ids w.now aid body u.id) ↔
      ∃ x ∈ w.db.artifacts, aid = some x.id ∧
        (fitsText body.comment = false ∨ x.content.isObj = false ∨
          match body.action with
          | .approve => w.LastToApprove x ∧ ∃ s ∈ w.db.sessions, s.id = x.sessionId ∧
              s.status ∉ [needsReview, reviewing, approved]
          | .reject => ∃ j ∈ w.db.jobs, j.idempotencyKey = retryKey x.sessionId ids.suffix) := by
  obtain ⟨action, comment⟩ := body
  cases action with
  | approve =>
    rw [fails_approve hu]
    refine exists_congr fun x => and_congr_right fun hx => and_congr_right fun _ => ?_
    obtain ⟨s, hs, hsid, -⟩ := hw.sound.artifactSession x hx
    have hone : (∃ r ∈ w.db.sessions, r.id = x.sessionId ∧ r.status ∈ [needsReview, reviewing, approved]) ↔
        ¬ ∃ r ∈ w.db.sessions, r.id = x.sessionId ∧ r.status ∉ [needsReview, reviewing, approved] := by
      constructor
      · rintro ⟨r, hr, hri, hst⟩ ⟨q, hq, hqi, hn⟩
        rw [Table.eq_of_key_eq hq hr (hqi.trans hri.symm)] at hn
        exact hn hst
      · intro hn
        by_contra hc
        exact hn ⟨s, hs, hsid, fun hst => hc ⟨s, hs, hsid, hst⟩⟩
    rw [hone, ← not_and_or, not_and_or, not_and_or, not_not, Bool.not_eq_true, Bool.not_eq_true]
  | reject =>
    rw [fails_reject hu]
    refine exists_congr fun x => and_congr_right fun hx => and_congr_right fun _ => ?_
    have hkey : ¬ w.db.KeyFree (retryJob ids w.now x comment) ↔
        ∃ j ∈ w.db.jobs, j.idempotencyKey = retryKey x.sessionId ids.suffix :=
      not_keyFree_iff fun i hi (he : i.id = ids.job) => hfresh (he ▸ hw.jobIds i hi)
    simp only [← hkey, not_and_or, Bool.not_eq_true]

theorem World.Regular.breaks_publish {uuid4 : Uuid} {aid : PathId} (hw : w.Regular)
    (hu : u ∈ w.db.users) (hfresh : uuid4 ∉ w.issued) :
    Prog.Fails Exn.isInternal (Tx.start w.db w.files) (publishArtifact uuid4 w.now aid) ↔
      ∃ x ∈ w.db.artifacts, aid = some x.id ∧ x.status = .approved ∧
        ((∃ j ∈ w.db.jobs, j.idempotencyKey = publishKey x.sessionId x.id) ∨
          ∃ s ∈ w.db.sessions, s.id = x.sessionId ∧ (canTransition s.status publishing).1 = false) := by
  rw [fails_publish hu hw.shown]
  refine exists_congr fun x => and_congr_right fun hx => and_congr_right fun _ =>
    and_congr_right fun _ => ?_
  obtain ⟨s, hs, hsid, -⟩ := hw.sound.artifactSession x hx
  have hkey : ¬ w.db.KeyFree (publishJob uuid4 w.now x) ↔
      ∃ j ∈ w.db.jobs, j.idempotencyKey = publishKey x.sessionId x.id :=
    not_keyFree_iff fun i hi (he : i.id = uuid4) => hfresh (he ▸ hw.jobIds i hi)
  rw [not_and_or, hkey]
  refine or_congr_right ⟨fun h => ⟨s, hs, hsid, Bool.eq_false_iff.mpr fun hc => ?_⟩, ?_⟩
  · exact h ⟨s, hs, hsid, hc⟩
  · rintro ⟨r, hr, hrid, hc⟩ ⟨q, hq, hqid, hcan⟩
    rw [Table.eq_of_key_eq hr hq (hrid.trans hqid.symm), hcan] at hc
    cases hc

theorem World.Regular.sagaFree {ids : SagaIds} (hw : w.Regular)
    (hnodup : [ids.artifactRows, ids.localAudio, ids.feishuDocs].Nodup)
    (hfresh : ∀ v ∈ [ids.artifactRows, ids.localAudio, ids.feishuDocs], v ∉ w.issued) :
    w.db.SagaFree ids := by
  have free {id : Uuid} (hid : id ∉ w.issued) : ∀ d ∈ w.db.deletionJobs, d.id ≠ id := by
    rintro d hd rfl
    exact hid (hw.deletionIds d hd)
  simp only [List.nodup_cons, List.mem_cons, List.not_mem_nil, or_false, not_or] at hnodup
  obtain ⟨⟨h₁, h₂⟩, h₃, -⟩ := hnodup
  exact ⟨free (hfresh _ (by simp)), free (hfresh _ (by simp)), free (hfresh _ (by simp)), h₁, h₂, h₃⟩

/-- An endpoint breaks in the listed cases and in no other. -/
theorem World.Regular.fails_endpoint {e : Endpoint} (hw : w.Regular) (hu : u ∈ w.db.users)
    (hnodup : ∀ r, e.request b u.id = some r → r.draws.Nodup)
    (hfresh : ∀ r, e.request b u.id = some r → ∀ v ∈ r.draws, v ∉ w.issued) :
    Prog.Fails Exn.isInternal (Tx.start w.db w.files) (e.run b w.now u) ↔ e.Breaks b w u.id := by
  cases e with
  | createSession uuid4 title device =>
    rw [Endpoint.run, fails_bind_pure,
      hw.breaks_create hu (hfresh _ rfl uuid4 List.mem_cons_self)]
    constructor
    · rintro (h | ⟨d, hd, h⟩ | h)
      · exact .malformedDevice h
      · exact .unknownDevice hd h
      · exact .unfitTitle h
    · intro h
      cases h with
      | malformedDevice h => exact .inl h
      | unknownDevice hd h => exact .inr (.inl ⟨_, hd, h⟩)
      | unfitTitle h => exact .inr (.inr h)
  | listSessions plan limit offset =>
    rw [Endpoint.run, fails_listSessions]
    constructor
    · exact .sessionPage
    · intro h
      cases h with
      | sessionPage h => exact h
  | getSession session =>
    rw [Endpoint.run, map_eq_bind, fails_bind_pure, getSession, fails_bind_pure]
    constructor
    · intro h
      exact absurd h not_fails_getSessionOr404
    · intro h
      cases h
  | updateConsent session consent =>
    rw [Endpoint.run, fails_bind_pure]
    constructor
    · intro h
      exact absurd h not_fails_updateConsent
    · intro h
      cases h
  | updateSessionStatus ids session status =>
    rw [Endpoint.run, fails_bind_pure, hw.breaks_process (hnodup _ rfl) (hfresh _ rfl)]
    constructor
    · rintro ⟨s, hs, ho, hid, hp, hst⟩
      exact .processedAgain hs ho hid hp hst
    · intro h
      cases h with
      | processedAgain hs ho hid hp hst => exact ⟨_, hs, ho, hid, hp, hst⟩
  | uploadAudio uuid4 session file =>
    rw [Endpoint.run, fails_bind_pure, fails_uploadAudio]
    constructor
    · rintro ⟨s, hs, ho, hid, hsize⟩
      exact .largeAudio hs ho hid hsize
    · intro h
      cases h with
      | largeAudio hs ho hid hsize => exact ⟨_, hs, ho, hid, hsize⟩
  | cancelSession session =>
    rw [Endpoint.run, fails_bind_pure]
    constructor
    · intro h
      exact absurd h not_fails_cancelSession
    · intro h
      cases h
  | retractSession ids session =>
    rw [Endpoint.run, fails_bind_pure]
    have hfree := hw.sagaFree (hnodup _ rfl) (hfresh _ rfl)
    constructor
    · intro h
      exact absurd h (not_fails_retractSessionEndpoint hfree)
    · intro h
      cases h
  | listArtifacts plan limit offset =>
    rw [Endpoint.run, fails_listArtifacts]
    constructor
    · rintro (h | ⟨x, hx, ho⟩)
      · exact .artifactPage h
      · exact .unreadablePage hx ho
    · intro h
      cases h with
      | artifactPage h => exact .inl h
      | unreadablePage hx ho => exact .inr ⟨_, hx, ho⟩
  | getArtifact artifact =>
    rw [Endpoint.run, map_eq_bind, fails_bind_pure, fails_getArtifact]
    constructor
    · rintro ⟨x, hx, hid, ho⟩
      exact .unreadable hx hid ho
    · intro h
      cases h with
      | unreadable hx hid ho => exact ⟨_, hx, hid, ho⟩
  | updateArtifact artifact body =>
    rw [Endpoint.run, fails_bind_pure, fails_updateArtifact hu]
    constructor
    · rintro ⟨x, hx, hid, hf⟩
      exact .unfitEdit hx hid hf
    · intro h
      cases h with
      | unfitEdit hx hid hf => exact ⟨_, hx, hid, hf⟩
  | reviewArtifact ids artifact body =>
    rw [Endpoint.run, fails_bind_pure, hw.breaks_review hu (hfresh _ rfl ids.job List.mem_cons_self)]
    constructor
    · rintro ⟨x, hx, hid, hc | ho | h⟩
      · exact .unfitComment hx hid hc
      · exact .unreadableReview hx hid ho
      · obtain ⟨action, comment⟩ := body
        cases action with
        | approve =>
          obtain ⟨hl, r, hr, hrid, hst⟩ := h
          exact .approvedLate hx hid hl hr hrid hst
        | reject =>
          obtain ⟨j, hj, hk⟩ := h
          exact .suffixTaken hx hid hj hk
    · intro h
      cases h with
      | unfitComment hx hid hc => exact ⟨_, hx, hid, .inl hc⟩
      | unreadableReview hx hid ho => exact ⟨_, hx, hid, .inr (.inl ho)⟩
      | approvedLate hx hid hl hr hrid hst => exact ⟨_, hx, hid, .inr (.inr ⟨hl, _, hr, hrid, hst⟩)⟩
      | suffixTaken hx hid hj hk => exact ⟨_, hx, hid, .inr (.inr ⟨_, hj, hk⟩)⟩
  | publishArtifact uuid4 artifact =>
    rw [Endpoint.run, fails_bind_pure,
      hw.breaks_publish hu (hfresh _ rfl uuid4 List.mem_cons_self)]
    constructor
    · rintro ⟨x, hx, hid, hst, ⟨j, hj, hk⟩ | ⟨s, hs, hsid, hc⟩⟩
      · exact .publishedAgain hx hid hst hj hk
      · exact .publishedLate hx hid hst hs hsid hc
    · intro h
      cases h with
      | publishedAgain hx hid hst hj hk => exact ⟨_, hx, hid, hst, .inl ⟨_, hj, hk⟩⟩
      | publishedLate hx hid hst hs hsid hc => exact ⟨_, hx, hid, hst, .inr ⟨_, hs, hsid, hc⟩⟩
  | listAuditLogs driverUuid plan session limit offset =>
    rw [Endpoint.run, fails_listAuditLogs]
    constructor
    · rintro (h | h)
      · exact .unreadableFilter h
      · exact .auditPage h
    · intro h
      cases h with
      | unreadableFilter h => exact .inl h
      | auditPage h => exact .inr h

theorem World.Regular.breaks_register {salt : String} {ids : RegisterIds} {body : RegisterRequest}
    (hw : w.Regular) (hfresh : ∀ v ∈ [ids.org, ids.user, ids.device, ids.suffix], v ∉ w.issued) :
    Prog.Fails Exn.isInternal (Tx.start w.db w.files)
      ((ApiCall.register salt ids body).run b w.now) ↔
        (ApiCall.register salt ids body).Breaks b w := by
  have hdevice : w.db.AcceptsDevice (virtualMicrophone ids.device ids.user) := by
    intro d hd
    obtain ⟨hid, huser, heq⟩ := hw.registered.devices d hd
    constructor
    · intro (he : d.id = ids.device)
      exact hfresh ids.device (by simp) (he ▸ hid)
    · intro hk
      rw [heq] at hk
      exact hfresh ids.user (by simp) (virtualMicrophone_key hk ▸ huser)
  rw [ApiCall.run, map_eq_bind, fails_bind_pure, registerEndpoint, fails_bind_pure]
  by_cases hemail : ∀ u ∈ w.db.users, u.email ≠ body.email
  · rw [fails_register (t := Tx.start w.db w.files) hemail, Tx.view_start]
    constructor
    · intro hn
      by_cases horg : w.db.AcceptsOrganization (ownOrganization (b.authEnv salt) ids body w.db)
      · cases hp : b.hashpw salt body.password with
        | error e => exact .password hemail hp
        | ok hash =>
          apply ApiCall.Breaks.account hemail hp
          intro hu
          exact hn ⟨hash, hemail, hp, horg, hu, hdevice⟩
      · exact .organization hemail horg
    · rintro h ⟨hash, hreg⟩
      have hpass : b.hashpw salt body.password = .ok hash := hreg.password
      cases h with
      | organization _ horg => exact horg hreg.organization
      | password _ hp => cases hp.symm.trans hpass
      | account _ hp hu =>
        obtain rfl := Except.ok.inj (hp.symm.trans hpass)
        exact hu hreg.user
  · constructor
    · intro hf
      push Not at hemail
      exact absurd hf (not_fails_register (t := Tx.start w.db w.files) hemail)
    · intro h
      cases h with
      | organization h => exact absurd h hemail
      | password h => exact absurd h hemail
      | account h => exact absurd h hemail

theorem breaks_login {tr : List (Transition World ApiAction)} {body : LoginRequest}
    (hs : w.SignedUp b tr) :
    Prog.Fails Exn.isInternal (Tx.start w.db w.files) ((ApiCall.login body).run b w.now) ↔
      (ApiCall.login body).Breaks b w := by
  rw [ApiCall.run, map_eq_bind, fails_bind_pure, fails_login, Tx.view_start]
  constructor
  · rintro ⟨u, hfind, e, he⟩
    obtain ⟨hu, hemail⟩ := Table.find?_eq_some hfind
    exact .login hu (of_decide_eq_true hemail) he
  · intro h
    cases h with
    | @login e _ u hu hemail he =>
      cases hfind : w.db.users.find? (fun u => u.email = body.email) with
      | none => exact absurd (decide_eq_true hemail) (Table.find?_eq_none.mp hfind u hu)
      | some v =>
        obtain ⟨hv, hv'⟩ := Table.find?_eq_some hfind
        rw [← hs.emails v hv u hu ((of_decide_eq_true hv').trans hemail.symm)] at he
        exact ⟨v, rfl, e, he⟩

end Regular

/-- A user hands the recording of a session over for processing. -/
def Replay.handedOver : List ApiAction :=
  [enrol, byToken 0 (.createSession (uuid 5) none none),
    byToken 0 (.updateConsent (uuid 5).str true),
    byToken 0 (.updateSessionStatus ⟨uuid 30, uuid 31, uuid 32⟩ (uuid 5).str "capturing"),
    byToken 0 (.uploadAudio (uuid 6) (uuid 5).str ⟨some "x.wav", none, 10⟩),
    byToken 0 (.updateSessionStatus ⟨uuid 20, uuid 21, uuid 22⟩ (uuid 5).str "processing")]

/-- The user does so once more. -/
def Replay.handOverAgain : ApiCall :=
  .endpoint firstToken
    (.updateSessionStatus ⟨uuid 33, uuid 34, uuid 35⟩ (uuid 5).str "processing")

end Run

end AiBadge
