import AiBadge.Orchestrator.Identity
import AiBadge.System.Acceptance
import AiBadge.System.JobIds

/-! # Publishing several artifacts

The first finished publish job moves the session to `published`, and from there it may not
be published again. So the requests for the artifacts of a session all succeed exactly when
none of them comes after the run of a publish job.
-/

namespace AiBadge

open Lib Prog DbM SessionStatus

/-- The artifact that an action requests to be published. -/
def Action.publishes? : Action → Option Uuid
  | .request (.publishArtifact _ _ artifact) => artifact
  | _ => none

/-- The job was queued after `w₀`. -/
def NewJob (w₀ : World) (job : Uuid) : Prop := ∀ i ∈ w₀.db.jobs, i.id ≠ job

/-- Time passes, a user requests the publication of an artifact of the session, or a worker executes
a job that was queued after `w₀`. -/
inductive Publishing (w₀ : World) (sid : Uuid) (w : World) : Action → Prop where
  | tick {d : Nat} : Publishing w₀ sid w (.tick d)
  | request {v : User} {x : Artifact} {uuid4 : Uuid} : v ∈ w.db.users → x ∈ w₀.db.artifacts →
      x.sessionId = sid → Publishing w₀ sid w (.request (.publishArtifact v.id uuid4 (some x.id)))
  | beginCycle {k : WorkerId} : Publishing w₀ sid w (.beginCycle k)
  | claim {k : WorkerId} {job : Uuid} {locked : List Uuid} : NewJob w₀ job →
      Publishing w₀ sid w (.claim k job locked)
  | claimNone {k : WorkerId} {locked : List Uuid} : Publishing w₀ sid w (.claimNone k locked)
  | heartbeat {k : WorkerId} {job : Uuid} : (w.workers k).phase.job? = some job → NewJob w₀ job →
      Publishing w₀ sid w (.heartbeat k)
  | runHandler {k : WorkerId} {job aid : Uuid} {providers : Providers} :
      (w.workers k).phase.job? = some job → NewJob w₀ job →
      Publishing w₀ sid w (.runHandler k providers aid)
  | markFailed {k : WorkerId} {job : Uuid} : (w.workers k).phase.job? = some job → NewJob w₀ job →
      Publishing w₀ sid w (.markFailed k)
  | endCycle {k : WorkerId} : Publishing w₀ sid w (.endCycle k)

instance (w₀ : World) (job : Uuid) : Decidable (NewJob w₀ job) :=
  inferInstanceAs (Decidable (∀ i ∈ w₀.db.jobs, _))

/-- The conditions of `Publishing`, computed. -/
def publishingCheck (w₀ : World) (sid : Uuid) (w : World) : Action → Bool
  | .tick _ | .beginCycle _ | .claimNone _ _ | .endCycle _ => true
  | .request (.publishArtifact user _ (some aid)) => w.db.users.any (·.id = user) &&
      w₀.db.artifacts.any fun x => x.id = aid && x.sessionId = sid
  | .claim _ job _ => decide (NewJob w₀ job)
  | .heartbeat k | .runHandler k _ _ | .markFailed k =>
      (w.workers k).phase.job?.any fun job => decide (NewJob w₀ job)
  | _ => false

theorem publishingCheck_iff {w₀ w : World} {sid : Uuid} {a : Action} :
    publishingCheck w₀ sid w a = true ↔ Publishing w₀ sid w a := by
  have hands {k : WorkerId} {b : Action} (hb : ∀ job, (w.workers k).phase.job? = some job →
      NewJob w₀ job → Publishing w₀ sid w b)
      (h : ((w.workers k).phase.job?.any fun job => decide (NewJob w₀ job)) = true) :
      Publishing w₀ sid w b := by
    obtain ⟨job, hj, hn⟩ := (Option.any_eq_true _ _).mp h
    exact hb job hj (of_decide_eq_true hn)
  constructor
  · intro h
    unfold publishingCheck at h
    split at h
    · exact .tick
    · exact .beginCycle
    · exact .claimNone
    · exact .endCycle
    · simp only [Bool.and_eq_true, Table.any_eq_true, decide_eq_true_eq] at h
      obtain ⟨⟨v, hv, rfl⟩, x, hx, rfl, hxs⟩ := h
      exact .request hv hx hxs
    · exact .claim (of_decide_eq_true h)
    · exact hands (fun _ => .heartbeat) h
    · exact hands (fun _ => .runHandler) h
    · exact hands (fun _ => .markFailed) h
    · cases h
  · intro h
    cases h with
    | request hv hx hxs =>
      simp only [publishingCheck, Bool.and_eq_true, Table.any_eq_true, decide_eq_true_eq]
      exact ⟨⟨_, hv, rfl⟩, _, hx, rfl, hxs⟩
    | claim hn => exact decide_eq_true hn
    | heartbeat hj hn => exact (Option.any_eq_true _ _).mpr ⟨_, hj, decide_eq_true hn⟩
    | runHandler hj hn => exact (Option.any_eq_true _ _).mpr ⟨_, hj, decide_eq_true hn⟩
    | markFailed hj hn => exact (Option.any_eq_true _ _).mpr ⟨_, hj, decide_eq_true hn⟩
    | _ => rfl

instance (w₀ : World) (sid : Uuid) (w : World) (a : Action) : Decidable (Publishing w₀ sid w a) :=
  decidable_of_iff _ publishingCheck_iff

/-- The transition runs the handler of a job. -/
def RunsHandler (t : Transition World Action) : Prop := (t.pre.calls? t.act).isSome

instance (t : Transition World Action) : Decidable (RunsHandler t) :=
  inferInstanceAs (Decidable (_ = true))

/-- Every request has succeeded, every job is completed, and the artifacts and their session are
published. -/
structure AllPublished (w₀ : World) (sid : Uuid) (tr : List (Transition World Action)) (w : World) :
    Prop where
  accepted : ∀ t ∈ tr, ∀ r, t.act = .request r → t.pre.Accepts r
  completed : ∀ j ∈ w.db.jobs, NewJob w₀ j.id → j.status = .completed
  artifacts : ∀ x ∈ w₀.db.artifacts, x.sessionId = sid →
    ∃ x' ∈ w.db.artifacts, x'.id = x.id ∧ x'.status = .published
  session : ∃ s ∈ w.db.sessions, s.id = sid ∧ s.status = published

/-- No artifact has been queued before, and no request comes after a handler call. -/
structure QueuedInTime (w₀ : World) (sid : Uuid) (tr : List (Transition World Action)) : Prop where
  unqueued : ∀ x ∈ w₀.db.artifacts, x.sessionId = sid →
    ∀ j ∈ w₀.db.jobs, j.idempotencyKey ≠ publishKey sid x.id
  early : Throughout (fun tr t => t.act.publishes?.isSome = true → ∀ u ∈ tr, ¬ RunsHandler u) tr

instance (w₀ : World) (sid : Uuid) (tr : List (Transition World Action)) :
    Decidable (QueuedInTime w₀ sid tr) :=
  decidable_of_iff
    ((∀ x ∈ w₀.db.artifacts, x.sessionId = sid →
        ∀ j ∈ w₀.db.jobs, j.idempotencyKey ≠ publishKey sid x.id) ∧
      Throughout (fun tr t => t.act.publishes?.isSome = true → ∀ u ∈ tr, ¬ RunsHandler u) tr)
    ⟨fun h => ⟨h.1, h.2⟩, fun h => ⟨h.unqueued, h.early⟩⟩

/-- How far the publication has come. -/
structure Progressing (w₀ : World) (sid : Uuid) (tr : List (Transition World Action)) (w : World) :
    Prop where
  session : ∃ s ∈ w.db.sessions, s.id = sid ∧
    ((∃ u ∈ tr, RunsHandler u) ∧ s.status = published ∨
      (∀ u ∈ tr, ¬ RunsHandler u) ∧ (s.status = publishing ∨
        s.status = approved ∧ ∀ j ∈ w.db.jobs, ¬ NewJob w₀ j.id))
  artifacts : ∀ x ∈ w₀.db.artifacts, x.sessionId = sid → ∃ x' ∈ w.db.artifacts, x'.id = x.id ∧
    x'.sessionId = sid ∧ (x'.status = .approved ∨ x'.status = .published ∧
      (∃ t ∈ tr, t.act.publishes? = some x.id) ∧ ∃ u ∈ tr, RunsHandler u)
  jobs : ∀ j ∈ w.db.jobs, NewJob w₀ j.id → j.jobType = .publish ∧
    ∃ x ∈ w₀.db.artifacts, x.sessionId = sid ∧ j.inputPayload.artifactId = some x.id ∧
      j.idempotencyKey = publishKey sid x.id ∧ (∃ t ∈ tr, t.act.publishes? = some x.id) ∧
      (j.status.isOpen = true ∨ j.status = .completed ∧
        ∃ x' ∈ w.db.artifacts, x'.id = x.id ∧ x'.status = .published)
  old : ∀ j ∈ w.db.jobs, ¬ NewJob w₀ j.id → ∃ i ∈ w₀.db.jobs, i.idempotencyKey = j.idempotencyKey
  kept : ∀ i ∈ w₀.db.jobs, ∃ j ∈ w.db.jobs, j.id = i.id ∧ j.idempotencyKey = i.idempotencyKey
  queued : ∀ t ∈ tr, ∀ r aid, t.act = .request r → t.pre.Accepts r → t.act.publishes? = some aid →
    ∃ j ∈ w.db.jobs, NewJob w₀ j.id ∧ j.inputPayload.artifactId = some aid
  workers : ∀ k job e pending, (w.workers k).phase = .failed job e pending → ¬ NewJob w₀ job

/-- What one step of the publication writes to the sessions and the artifacts. -/
inductive PublishStep (w₀ : World) (sid : Uuid) (w : World) (a : Action) : Db → Prop where
  | quiet {db : Db} : (∀ r, a = .request r → ¬ w.Accepts r) → w.calls? a = none →
      db.sessions = w.db.sessions → db.artifacts = w.db.artifacts → PublishStep w₀ sid w a db
  | queued {user uuid4 : Uuid} {x : Artifact} {s : Session} :
      a = .request (.publishArtifact user uuid4 (some x.id)) → x ∈ w.db.artifacts →
      x.sessionId = sid → s ∈ w.db.sessions → s.id = sid →
      (canTransition s.status publishing).1 = true →
      PublishStep w₀ sid w a (((w.db.addJob (publishJob uuid4 w.now x)).setSession s.id
        (Session.withStatus publishing)).addEvent (sessionEvent s.id publishing))
  | executed {j : Job} {x : Artifact} {s : Session} {db : Db} : w.Commits a j → NewJob w₀ j.id →
      j.inputPayload.artifactId = some x.id → x ∈ w.db.artifacts → x.sessionId = sid →
      s ∈ w.db.sessions → s.id = sid → db.artifacts = (markArtifact w.now x.id w.db).artifacts →
      db.sessions = (w.db.setSession s.id (Session.withStatus published)).sessions →
      PublishStep w₀ sid w a db

section Step

variable {w₀ w w' : World} {sid : Uuid} {tr : List (Transition World Action)} {a : Action}

/-- The handler of a publish job reaches its commit when the session may be published. -/
theorem publish_returns {db : Db} {j : Job} {x : Artifact} {s : Session} (files : Files)
    (input : HandlerInput) (hj : j.inputPayload.artifactId = some x.id) (hx : x ∈ db.artifacts)
    (hs : s ∈ db.sessions) (hi : s.id = x.sessionId)
    (hc : (canTransition s.status published).1 = true) :
    ∃ t, (handlePublishJob input j).Returns (Tx.start db files) () t ∧ t.commits ≠ 0 := by
  have hget : db.artifact? x.id = some x := Db.artifact?_eq_some.mpr ⟨hx, rfl⟩
  have hmove := transitionSession_returns (t := (Tx.start db files).flush
    (markArtifact input.now x.id)) published (s := s) (by simpa [markArtifact] using hs) hc
  rw [hi] at hmove
  simp only [handlePublishJob, markPublished, hj, returns_bind, returns_require, returns_read,
    returns_forSome, returns_write, returns_commit]
  exact ⟨_, ⟨x.id, _, ⟨rfl, rfl⟩, _, _, ⟨rfl, rfl⟩, (), _, .inl ⟨x, hget, (), _, rfl, hmove⟩, (), _,
    rfl, rfl⟩, Nat.succ_ne_zero _⟩

/-- A worker has only jobs in its hands that a publication may work on. -/
theorem handling_of_job? {p : Phase} {job : Uuid} {id : Uuid} (h : p.job? = some job)
    (hp : p = .handling id) : id = job := by
  rw [hp] at h
  exact Option.some.inj h

theorem runsHandler_of_commits {j : Job} (h : w.Commits a j) : RunsHandler ⟨w, a, w'⟩ := by
  obtain ⟨k, providers, aid, -, hk, hph, -⟩ := h
  rw [RunsHandler, calls?_eq_some.mpr ⟨k, providers, aid, hk, hph⟩]
  rfl

variable (hp : Progressing w₀ sid tr w)
include hp

/-- What a handler call finds while a publication is under way. -/
theorem Progressing.job {j : Job} (hj : j ∈ w.db.jobs) (hn : NewJob w₀ j.id) :
    j.jobType = .publish ∧ ∃ x ∈ w.db.artifacts, x.sessionId = sid ∧
      j.inputPayload.artifactId = some x.id ∧ ∃ s ∈ w.db.sessions, s.id = sid ∧
        s.status ∈ [publishing, published] := by
  obtain ⟨hty, x, hx, hxs, hja, -⟩ := hp.jobs j hj hn
  obtain ⟨x', hx', hi, hxs', -⟩ := hp.artifacts x hx hxs
  obtain ⟨s, hs, hsi, hst⟩ := hp.session
  refine ⟨hty, x', hx', hxs', by rw [hja, hi], s, hs, hsi, ?_⟩
  rcases hst with ⟨-, hst⟩ | ⟨-, hst | ⟨-, hno⟩⟩
  · simp [hst]
  · simp [hst]
  · exact absurd hn (hno j hj)

/-- The handler of a new job reaches its commit. -/
theorem Progressing.handler_returns {j : Job} (hj : j ∈ w.db.jobs) (hn : NewJob w₀ j.id)
    (files : Files) (input : HandlerInput) :
    ∃ t, (handlePublishJob input j).Returns (Tx.start w.db files) () t ∧ t.commits ≠ 0 := by
  obtain ⟨-, x, hx, hxs, hja, s, hs, hsi, hst⟩ := hp.job hj hn
  have hcan : (canTransition s.status published).1 = true := by
    revert hst
    cases s.status <;> decide
  exact publish_returns files input hja hx hs (hsi.trans hxs.symm) hcan

theorem publishStep_of_request {v : User} {x : Artifact} {uuid4 : Uuid} {db : Db} {files : Files}
    (hx : x ∈ w₀.db.artifacts) (hxs : x.sessionId = sid)
    (h : w.Effect (.request (.publishArtifact v.id uuid4 (some x.id))) db files) :
    PublishStep w₀ sid w (.request (.publishArtifact v.id uuid4 (some x.id))) db := by
  generalize hid : x.id = id at h
  cases h with
  | silent hs => exact hs.elim
  | refused hn =>
    apply PublishStep.quiet _ rfl rfl rfl
    rintro r hr
    obtain rfl := Action.request.inj hr
    exact hn
  | served _ h =>
    cases h with
    | publishArtifact hy _ hs hi hcan =>
      obtain ⟨x', hx', hi', hxs', -⟩ := hp.artifacts x hx hxs
      obtain rfl := Table.eq_of_key_eq hx' hy (hi'.trans hid)
      exact .queued rfl hx' hxs' hs (hi.trans hxs') hcan

/-- A new job finds its artifact and a session that may be published, so its handler commits. -/
theorem publishStep_of_handler {k : WorkerId} {job aid : Uuid} {providers : Providers} {db : Db}
    {files : Files} (hk : (w.workers k).phase.job? = some job) (hn : NewJob w₀ job)
    (h : w.Effect (.runHandler k providers aid) db files) :
    PublishStep w₀ sid w (.runHandler k providers aid) db := by
  cases h with
  | silent hs => exact hs.elim
  | committed hph hj hcom h =>
    obtain rfl := handling_of_job? hk hph
    obtain ⟨hty, x, hx, hxs, hja, s, hs, hsi, -⟩ := hp.job hj hn
    cases h with
    | transcribe ht => cases hty.symm.trans ht
    | summarize ht => cases hty.symm.trans ht
    | extractArtifact ht => cases hty.symm.trans ht
    | publishMissing _ hja' hnone =>
      obtain rfl := Option.some.inj (hja.symm.trans hja')
      rw [Db.artifact?_eq_some.mpr ⟨hx, rfl⟩] at hnone
      cases hnone
    | publish _ hja' hy hr hri hcan =>
      obtain rfl := Table.eq_of_key_eq hx hy (Option.some.inj (hja.symm.trans hja'))
      exact .executed hcom hn hja hx hxs hr (hri.trans hxs) rfl rfl
  | raised hph hj _ hno =>
    obtain rfl := handling_of_job? hk hph
    obtain ⟨t, ht, hc⟩ := hp.handler_returns hj hn w.files ⟨providers, w.now, aid⟩
    apply absurd _ hno
    refine ⟨k, providers, aid, handlePublishJob, rfl, hph, hj, by rw [(hp.job hj hn).1]; rfl, ?_⟩
    rwa [show (handlePublishJob _ _ (Tx.start w.db w.files)).2 = t from congrArg Prod.snd ht]
  | unknown hph hj hnone =>
    obtain rfl := handling_of_job? hk hph
    rw [(hp.jobs _ hj hn).1] at hnone
    cases hnone

theorem publishStep_of_effect {db : Db} {files : Files} (ha : Publishing w₀ sid w a)
    (h : w.Effect a db files) : PublishStep w₀ sid w a db := by
  cases ha with
  | request _ hx hxs => exact publishStep_of_request hp hx hxs h
  | runHandler hk hn => exact publishStep_of_handler hp hk hn h
  | claim =>
    cases h with
    | silent hs => exact hs.elim
    | claimed => exact .quiet (by rintro _ ⟨⟩) rfl rfl rfl
  | heartbeat =>
    cases h with
    | silent hs => exact hs.elim
    | heartbeat => exact .quiet (by rintro _ ⟨⟩) rfl rfl rfl
  | markFailed hk hn =>
    cases h with
    | silent hs => exact hs.elim
    | failed hf =>
      rw [hf] at hk
      obtain rfl := Option.some.inj hk
      exact absurd hn (hp.workers _ _ _ _ hf)
  | _ =>
    cases h with
    | silent => exact .quiet (by rintro _ ⟨⟩) rfl rfl rfl

variable (ha : Publishing w₀ sid w a) (h : w.step a = some w')
include ha h

/-- Where a job comes from: it was there before, or an accepted request has just queued it. -/
theorem Progressing.origin (hw : w.Sound) {j' : Job} (hj' : j' ∈ w'.db.jobs) :
    (∃ j ∈ w.db.jobs, j'.id = j.id ∧ w.JobStep a j j') ∨ ∃ user uuid4, ∃ x ∈ w.db.artifacts,
      a = .request (.publishArtifact user uuid4 (some x.id)) ∧
        w.Accepts (.publishArtifact user uuid4 (some x.id)) ∧ x.sessionId = sid ∧
        j' = publishJob uuid4 w.now x := by
  rcases (hw.jobs h).origin j' hj' with hold | hnew
  · exact .inl hold
  · cases hnew with
    | stage hs => cases ha <;> cases hs
    | retry hs => cases ha <;> cases hs
    | @publish user uuid4 x hs hx =>
      by_cases hacc : w.Accepts (.publishArtifact user uuid4 (some x.id))
      · have hxs : x.sessionId = sid := by
          subst hs
          generalize hid : x.id = id at ha
          cases ha with
          | request _ hy hys =>
            obtain ⟨y', hy', hi, hys', -⟩ := hp.artifacts _ hy hys
            obtain rfl := Table.eq_of_key_eq hy' hx (hi.trans hid.symm)
            exact hys'
        exact .inr ⟨user, uuid4, x, hx, hs, hacc, hxs, rfl⟩
      · have heff := World.effect_of_step h
        rw [hs] at heff
        generalize w'.db = db, w'.files = files at heff hj'
        cases heff with
        | silent hs => exact hs.elim
        | served hacc' => exact absurd hacc' hacc
        | refused => exact .inl ⟨_, hj', rfl, .same (by rw [hs]; rintro _ _ ⟨⟩)⟩

/-- A step that queues nothing leaves no new job where there was none. -/
theorem Progressing.no_new (hw : w.Sound) (hq : ∀ r, a = .request r → ¬ w.Accepts r)
    (hn : ∀ j ∈ w.db.jobs, ¬ NewJob w₀ j.id) : ∀ j ∈ w'.db.jobs, ¬ NewJob w₀ j.id := by
  intro j' hj'
  rcases hp.origin ha h hw hj' with ⟨j, hj, hi, -⟩ | ⟨_, _, _, -, hr, hacc, -⟩
  · rw [hi]
    exact hn j hj
  · exact absurd hacc (hq _ hr)

theorem Progressing.session_step (hw : w.Sound) : ∃ s ∈ w'.db.sessions, s.id = sid ∧
    ((∃ u ∈ tr ++ [⟨w, a, w'⟩], RunsHandler u) ∧ s.status = published ∨
      (∀ u ∈ tr ++ [⟨w, a, w'⟩], ¬ RunsHandler u) ∧ (s.status = publishing ∨
        s.status = approved ∧ ∀ j ∈ w'.db.jobs, ¬ NewJob w₀ j.id)) := by
  have idle (hn : w.calls? a = none) (hall : ∀ u ∈ tr, ¬ RunsHandler u) :
      ∀ u ∈ tr ++ [⟨w, a, w'⟩], ¬ RunsHandler u := by
    intro u hu
    rcases List.mem_append.mp hu with hu | hu
    · exact hall u hu
    · rw [List.mem_singleton.mp hu, RunsHandler, hn]
      exact nofun
  have ran {u : Transition World Action} (hu : u ∈ tr) : u ∈ tr ++ [⟨w, a, w'⟩] :=
    List.mem_append_left _ hu
  have set {s : Session} {c : SessionStatus} (hs : s ∈ w.db.sessions) :
      s.withStatus c ∈ (w.db.setSession s.id (Session.withStatus c)).sessions := by
    have hm := Table.mem_update_of_mem (p := fun r => decide (r.id = s.id))
      (f := Session.withStatus c) (by intro; rfl) hs
    rwa [if_pos (decide_eq_true rfl)] at hm
  obtain ⟨s, hs, hsi, hst⟩ := hp.session
  have hstep : PublishStep w₀ sid w a w'.db := publishStep_of_effect hp ha (World.effect_of_step h)
  have hno := hp.no_new ha h hw
  generalize w'.db = db at hstep hno ⊢
  cases hstep with
  | quiet hq hn hsessions =>
    refine ⟨s, hsessions ▸ hs, hsi, ?_⟩
    rcases hst with ⟨⟨u, hu, hr⟩, hst⟩ | ⟨hall, hst | ⟨hst, hnew⟩⟩
    · exact .inl ⟨⟨u, ran hu, hr⟩, hst⟩
    · exact .inr ⟨idle hn hall, .inl hst⟩
    · exact .inr ⟨idle hn hall, .inr ⟨hst, hno hq hnew⟩⟩
  | @queued user uuid4 x r hreq _ _ hr hri hcan =>
    obtain rfl := Table.eq_of_key_eq hs hr (hsi.trans hri.symm)
    refine ⟨s.withStatus publishing, set hs, hsi, ?_⟩
    rcases hst with ⟨-, hst⟩ | ⟨hall, -⟩
    · rw [hst] at hcan
      cases hcan
    · exact .inr ⟨idle (by rw [hreq]; rfl) hall, .inl rfl⟩
  | @executed j x r _ hcom _ _ _ _ hr hri _ hsessions =>
    refine ⟨r.withStatus published, hsessions ▸ set hr, hri, .inl ⟨⟨_, List.mem_append_right _
      (List.mem_singleton.mpr rfl), runsHandler_of_commits hcom⟩, rfl⟩⟩

/-- An artifact stays as it is, or a job publishes it. -/
theorem Progressing.artifact_kept {x : Artifact} (hx : x ∈ w.db.artifacts) :
    x ∈ w'.db.artifacts ∨ x.withPublication w.now ∈ w'.db.artifacts ∧
      ∃ j, w.Commits a j ∧ NewJob w₀ j.id ∧ j.inputPayload.artifactId = some x.id := by
  have hstep : PublishStep w₀ sid w a w'.db := publishStep_of_effect hp ha (World.effect_of_step h)
  generalize w'.db = db at hstep
  cases hstep with
  | quiet _ _ _ hart => exact .inl (hart ▸ hx)
  | queued => exact .inl hx
  | @executed j y _ _ hcom hn hja _ _ _ _ hart =>
    rw [hart, markArtifact_artifacts]
    have hm := Table.mem_update_of_mem (p := fun y' => decide (y'.id = y.id))
      (f := Artifact.withPublication w.now) (by intro; rfl) hx
    by_cases hi : x.id = y.id
    · rw [if_pos (decide_eq_true hi)] at hm
      exact .inr ⟨hm, j, hcom, hn, hi ▸ hja⟩
    · rw [if_neg (by simpa using hi)] at hm
      exact .inl hm

theorem Progressing.artifacts_step : ∀ x ∈ w₀.db.artifacts, x.sessionId = sid →
    ∃ x' ∈ w'.db.artifacts, x'.id = x.id ∧ x'.sessionId = sid ∧ (x'.status = .approved ∨
      x'.status = .published ∧ (∃ t ∈ tr ++ [⟨w, a, w'⟩], t.act.publishes? = some x.id) ∧
        ∃ u ∈ tr ++ [⟨w, a, w'⟩], RunsHandler u) := by
  intro x hx hxs
  obtain ⟨x', hx', hi, hxs', hst⟩ := hp.artifacts x hx hxs
  rcases hp.artifact_kept ha h hx' with hkept | ⟨hpub, j, hcom, hn, hja⟩
  · refine ⟨x', hkept, hi, hxs', ?_⟩
    rcases hst with hst | ⟨hst, ⟨t, ht, htp⟩, u, hu, hr⟩
    · exact .inl hst
    · exact .inr ⟨hst, ⟨t, List.mem_append_left _ ht, htp⟩, u, List.mem_append_left _ hu, hr⟩
  · have hr : RunsHandler ⟨w, a, w'⟩ := runsHandler_of_commits hcom
    obtain ⟨_, _, _, _, -, -, hj, -⟩ := hcom
    obtain ⟨-, y, -, -, hja', -, ⟨t, ht, htp⟩, -⟩ := hp.jobs j hj hn
    refine ⟨_, hpub, hi, hxs', .inr ⟨rfl, ⟨t, List.mem_append_left _ ht, ?_⟩, _,
      List.mem_append_right _ (List.mem_singleton.mpr rfl), hr⟩⟩
    rw [htp, ← hja', hja, hi]

/-- A published artifact stays published. -/
theorem Progressing.published_step {aid : Uuid}
    (hx : ∃ x ∈ w.db.artifacts, x.id = aid ∧ x.status = .published) :
    ∃ x ∈ w'.db.artifacts, x.id = aid ∧ x.status = .published := by
  obtain ⟨x, hx, hi, hst⟩ := hx
  rcases hp.artifact_kept ha h hx with hkept | ⟨hpub, -⟩
  · exact ⟨x, hkept, hi, hst⟩
  · exact ⟨_, hpub, hi, rfl⟩

theorem Progressing.jobs_step (hw : w.Sound) : ∀ j ∈ w'.db.jobs, NewJob w₀ j.id →
    j.jobType = .publish ∧ ∃ x ∈ w₀.db.artifacts, x.sessionId = sid ∧
      j.inputPayload.artifactId = some x.id ∧ j.idempotencyKey = publishKey sid x.id ∧
      (∃ t ∈ tr ++ [⟨w, a, w'⟩], t.act.publishes? = some x.id) ∧
      (j.status.isOpen = true ∨ j.status = .completed ∧
        ∃ x' ∈ w'.db.artifacts, x'.id = x.id ∧ x'.status = .published) := by
  intro j' hj' hn
  rcases hp.origin ha h hw hj' with ⟨j, hj, hi, hstep⟩ | ⟨user, uuid4, x, hx, hreq, hacc, hxs, rfl⟩
  · have hnew : NewJob w₀ j.id := hi ▸ hn
    have ho := hstep.sameOrigin
    obtain ⟨hty, x, hx, hxs, hja, hkey, ⟨t, ht, htp⟩, hst⟩ := hp.jobs j hj hnew
    refine ⟨ho.jobType.trans hty, x, hx, hxs, by rw [ho.inputPayload, hja],
      ho.idempotencyKey.trans hkey, ⟨t, List.mem_append_left _ ht, htp⟩, ?_⟩
    have lift : j.status.isOpen = true ∨ j.status = .completed ∧
        ∃ x' ∈ w'.db.artifacts, x'.id = x.id ∧ x'.status = .published := by
      rcases hst with hst | ⟨hst, hpub⟩
      · exact .inl hst
      · exact .inr ⟨hst, hp.published_step ha h hpub⟩
    cases hstep with
    | same => exact lift
    | started => exact .inl rfl
    | released => exact .inl rfl
    | heartbeat => exact lift
    | failed _ hph => exact absurd hnew (hp.workers _ _ _ _ hph)
    | unknown _ _ hnone =>
      rw [hty] at hnone
      cases hnone
    | output hcom =>
      obtain ⟨x', hx', hxi, -⟩ := hp.artifacts x hx hxs
      obtain ⟨x'', hx'', hi', -, hst'⟩ := World.published_of_commit hcom hty hx' (by rw [hja, hxi])
        (World.effect_of_step h)
      exact .inr ⟨rfl, x'', hx'', hi'.trans hxi, hst'⟩
  · subst hreq
    generalize hid : x.id = id at ha
    cases ha with
    | @request _ y _ _ hy hys =>
      refine ⟨rfl, y, hy, hys, congrArg some hid, ?_, ⟨_, List.mem_append_right _
        (List.mem_singleton.mpr rfl), rfl⟩, .inl rfl⟩
      show publishKey x.sessionId x.id = _
      rw [hxs, hid]

omit ha in
/-- What a request draws is the id of no job there was. -/
theorem Progressing.newJob_of_fresh (hids : ∀ j ∈ w.db.jobs, j.id ∈ w.issued) {id : Uuid}
    (hd : id ∈ a.draws) : NewJob w₀ id := by
  rintro i hi rfl
  obtain ⟨j, hj, hji, -⟩ := hp.kept i hi
  exact (World.fresh_of_step h).2 i.id hd (hji ▸ hids j hj)

theorem Progressing.old_step (hw : w.Sound) (hids : ∀ j ∈ w.db.jobs, j.id ∈ w.issued) :
    ∀ j ∈ w'.db.jobs, ¬ NewJob w₀ j.id →
      ∃ i ∈ w₀.db.jobs, i.idempotencyKey = j.idempotencyKey := by
  intro j' hj' hn
  rcases hp.origin ha h hw hj' with ⟨j, hj, hi, hstep⟩ | ⟨_, uuid4, x, -, rfl, -, -, rfl⟩
  · obtain ⟨i, him, hk⟩ := hp.old j hj (hi ▸ hn)
    exact ⟨i, him, hk.trans hstep.sameOrigin.idempotencyKey.symm⟩
  · exact absurd (hp.newJob_of_fresh h hids List.mem_cons_self) hn

theorem Progressing.queued_step (hw : w.Sound) (hids : ∀ j ∈ w.db.jobs, j.id ∈ w.issued) :
    ∀ t ∈ tr ++ [⟨w, a, w'⟩], ∀ r aid, t.act = .request r → t.pre.Accepts r →
      t.act.publishes? = some aid →
      ∃ j ∈ w'.db.jobs, NewJob w₀ j.id ∧ j.inputPayload.artifactId = some aid := by
  intro t ht r aid hr hacc hpub
  rcases List.mem_append.mp ht with ht | ht
  · obtain ⟨j, hj, hn, hja⟩ := hp.queued t ht r aid hr hacc hpub
    obtain ⟨j', hj', hi, hstep⟩ := (hw.jobs h).kept j hj
    exact ⟨j', hj', hi ▸ hn, hstep.sameOrigin.inputPayload ▸ hja⟩
  · obtain rfl := List.mem_singleton.mp ht
    subst hr
    generalize hra : Action.request r = a' at ha
    cases ha with
    | @request v x uuid4 hv hx hxs =>
      obtain rfl := Action.request.inj hra
      obtain rfl := Option.some.inj hpub
      obtain ⟨x', hx', hi, -⟩ := hp.artifacts x hx hxs
      rw [← hi] at hacc h ⊢
      exact ⟨_, World.job_of_publish hx' hacc (World.effect_of_step h),
        hp.newJob_of_fresh h hids List.mem_cons_self, rfl⟩
    | _ => cases hra

omit ha in
theorem Progressing.workers_step : ∀ k job e pending,
    (w'.workers k).phase = .failed job e pending → ¬ NewJob w₀ job := by
  intro k job e pending hph hn
  rcases World.raises_of_failed h hph with hph | ⟨providers, aid, j, hj, handler, t, -, -, rfl, hh,
    hraise, -⟩
  · exact hp.workers _ _ _ _ hph hn
  · obtain rfl : handlePublishJob = handler := by
      rw [(hp.job hj hn).1] at hh
      exact Option.some.inj hh
    obtain ⟨t', ht', -⟩ := hp.handler_returns hj hn w.files ⟨providers, w.now, aid⟩
    cases (congrArg Prod.fst hraise).symm.trans (congrArg Prod.fst ht')

theorem Progressing.step (hw : w.Sound) (hids : ∀ j ∈ w.db.jobs, j.id ∈ w.issued) :
    Progressing w₀ sid (tr ++ [⟨w, a, w'⟩]) w' where
  session := hp.session_step ha h hw
  artifacts := hp.artifacts_step ha h
  jobs := hp.jobs_step ha h hw
  old := hp.old_step ha h hw hids
  kept := by
    intro i hi
    obtain ⟨j, hj, hji, hk⟩ := hp.kept i hi
    obtain ⟨j', hj', hi', hstep⟩ := (hw.jobs h).kept j hj
    exact ⟨j', hj', hi'.trans hji, hstep.sameOrigin.idempotencyKey.trans hk⟩
  queued := hp.queued_step ha h hw hids
  workers := hp.workers_step h

end Step

section Run

variable {now : Timestamp} {w₀ w : World} {s : Session} {tr₀ tr : List (Transition World Action)}

theorem progressing_start (r₀ : SystemRun now tr₀ w₀) (hs : s ∈ w₀.db.sessions)
    (hst : s.status = approved)
    (ha : ∀ x ∈ w₀.db.artifacts, x.sessionId = s.id → x.status = .approved) :
    Progressing w₀ s.id [] w₀ where
  session := ⟨s, hs, rfl, .inr ⟨fun _ hu => absurd hu List.not_mem_nil,
    .inr ⟨hst, fun j hj hn => hn j hj rfl⟩⟩⟩
  artifacts x hx hxs := ⟨x, hx, rfl, hxs, .inl (ha x hx hxs)⟩
  jobs j hj hn := absurd rfl (hn j hj)
  old j hj _ := ⟨j, hj, rfl⟩
  kept i hi := ⟨i, hi, rfl, rfl⟩
  queued _ ht := absurd ht List.not_mem_nil
  workers := by
    intro k job e pending hph hn
    obtain ⟨j, hj, hi⟩ := (World.claimed_of_run r₀).2 k job (by rw [hph]; rfl)
    exact hn j hj hi

theorem progressing_of_run (r₀ : SystemRun now tr₀ w₀) (h₀ : Progressing w₀ s.id [] w₀)
    (r : Run World.step w₀ tr w) (hc : Meets (Publishing w₀ s.id) tr) :
    Progressing w₀ s.id tr w :=
  r.invariant_of_meets hc h₀ fun _ _ _ _ hr hp ha h =>
    hp.step ha h (World.sound_of_run (r₀.append hr)) (World.jobIds_of_run (r₀.append hr))

/-- A first request for an artifact succeeds exactly when no handler has been called and no job was
queued for the artifact before. -/
theorem Progressing.accepts_iff {sid uuid4 : Uuid} {v : User} {x : Artifact} {w' : World}
    (hp : Progressing w₀ sid tr w) (hshown : w.Shown) (hids : ∀ j ∈ w.db.jobs, j.id ∈ w.issued)
    (hv : v ∈ w.db.users) (hx : x ∈ w₀.db.artifacts) (hxs : x.sessionId = sid)
    (hone : ∀ t ∈ tr, t.act.publishes? ≠ some x.id)
    (h : w.step (.request (.publishArtifact v.id uuid4 (some x.id))) = some w') :
    w.Accepts (.publishArtifact v.id uuid4 (some x.id)) ↔ (∀ u ∈ tr, ¬ RunsHandler u) ∧
      ∀ j ∈ w₀.db.jobs, j.idempotencyKey ≠ publishKey sid x.id := by
  obtain ⟨x', hx', hi, hxs', hst⟩ := hp.artifacts x hx hxs
  obtain ⟨s, hs, hsi, hph⟩ := hp.session
  rw [show x.id = x'.id from hi.symm] at hone h ⊢
  have hkey : (publishJob uuid4 w.now x').idempotencyKey = publishKey sid x'.id := by
    rw [← hxs']
    rfl
  constructor
  · intro hacc
    obtain ⟨hfree, r, hr, hri, hcan⟩ := needs_of_publish hx' (serve_of_accepts hacc)
    obtain rfl := Table.eq_of_key_eq hs hr (hsi.trans (hri.trans hxs').symm)
    constructor
    · rcases hph with ⟨-, hpub⟩ | ⟨hall, -⟩
      · rw [hpub] at hcan
        cases hcan
      · exact hall
    · intro i hi hk
      obtain ⟨j, hj, -, hjk⟩ := hp.kept i hi
      exact (hfree j hj).2 (hjk.trans (hk.trans hkey.symm))
  · rintro ⟨hall, hun⟩
    have happ : x'.status = .approved := by
      rcases hst with hst | ⟨-, ⟨t, ht, htp⟩, -⟩
      · exact hst
      · exact absurd (htp.trans (congrArg some hi.symm)) (hone t ht)
    have hcan : (canTransition s.status publishing).1 = true := by
      rcases hph with ⟨⟨u, hu, hr⟩, -⟩ | ⟨-, hst | ⟨hst, -⟩⟩
      · exact absurd hr (hall u hu)
      · rw [hst]
        decide
      · rw [hst]
        decide
    refine accepts_publish hv hx' happ (hshown x' hx' happ) (fun j hj => ⟨?_, fun hk => ?_⟩) hs
      (hsi.trans hxs'.symm) hcan
    · rintro (rfl : j.id = uuid4)
      exact (World.fresh_of_step h).2 j.id List.mem_cons_self (hids j hj)
    · rw [hkey] at hk
      by_cases hn : NewJob w₀ j.id
      · obtain ⟨-, y, -, -, -, hyk, ⟨t, ht, htp⟩, -⟩ := hp.jobs j hj hn
        have hid : Identity.publish sid y.id = .publish sid x'.id :=
          Identity.key_inj (hyk.symm.trans hk)
        exact hone t ht (htp.trans (congrArg some (Identity.publish.inj hid).2))
      · obtain ⟨i, him, hik⟩ := hp.old j hj hn
        exact hun i him (hik.trans hk)

/-- The number of requests for an artifact. -/
def requestsFor (aid : Uuid) (tr : List (Transition World Action)) : Nat :=
  (tr.map (·.act.publishes?)).count (some aid)

theorem requestsFor_snoc {aid : Uuid} {t : Transition World Action} :
    requestsFor aid (tr ++ [t]) =
      requestsFor aid tr + if t.act.publishes? = some aid then 1 else 0 := by
  rw [requestsFor, List.map_append, List.count_append, requestsFor, List.map_singleton,
    List.count_singleton]
  simp only [beq_iff_eq]

theorem requestsFor_eq_zero {aid : Uuid} :
    requestsFor aid tr = 0 ↔ ∀ t ∈ tr, t.act.publishes? ≠ some aid := by
  rw [requestsFor, List.count_eq_zero, List.mem_map]
  push Not
  exact Iff.rfl

theorem requested_of_once {aid : Uuid} (h : requestsFor aid tr = 1) :
    ∃ t ∈ tr, ∃ q, t.act = .request q ∧ t.act.publishes? = some aid := by
  by_contra hn
  have hz : requestsFor aid tr = 0 := by
    apply requestsFor_eq_zero.mpr
    intro t ht htp
    apply hn
    refine ⟨t, ht, ?_⟩
    generalize t.act = a at htp
    cases a with
    | request q => exact ⟨q, rfl, htp⟩
    | _ => cases htp
  rw [h] at hz
  cases hz

/-- The requests all succeed exactly when each comes before any handler call, for an artifact that
was not queued before. -/
theorem accepted_iff (r₀ : SystemRun now tr₀ w₀) (h₀ : Progressing w₀ s.id [] w₀)
    (r : Run World.step w₀ tr w) (hc : Meets (Publishing w₀ s.id) tr)
    (hone : ∀ x ∈ w₀.db.artifacts, x.sessionId = s.id → requestsFor x.id tr ≤ 1) :
    (∀ t ∈ tr, ∀ q, t.act = .request q → t.pre.Accepts q) ↔
      Throughout (fun tr t => ∀ aid, t.act.publishes? = some aid → (∀ u ∈ tr, ¬ RunsHandler u) ∧
        ∀ j ∈ w₀.db.jobs, j.idempotencyKey ≠ publishKey s.id aid) tr := by
  rw [← throughout_const]
  induction r with
  | init => simp
  | @snoc tr w w' a r h ih =>
    rw [meets_snoc] at hc
    have hone' : ∀ x ∈ w₀.db.artifacts, x.sessionId = s.id → requestsFor x.id tr ≤ 1 := by
      intro x hx hxs
      have hle := hone x hx hxs
      rw [requestsFor_snoc] at hle
      omega
    rw [throughout_snoc, throughout_snoc, ih hc.1 hone']
    refine and_congr_right fun _ => ?_
    have hp : Progressing w₀ s.id tr w := progressing_of_run r₀ h₀ r hc.1
    obtain ⟨-, ha⟩ := hc
    cases ha with
    | @request v x uuid4 hv hx hxs =>
      have hno : ∀ t ∈ tr, t.act.publishes? ≠ some x.id := by
        apply requestsFor_eq_zero.mp
        have hle := hone x hx hxs
        rw [requestsFor_snoc] at hle
        change requestsFor x.id tr + (if some x.id = some x.id then 1 else 0) ≤ 1 at hle
        rw [if_pos rfl] at hle
        omega
      have hiff := hp.accepts_iff (World.shown_of_run (r₀.append r))
        (World.jobIds_of_run (r₀.append r)) hv hx hxs hno h
      constructor
      · intro hacc aid hpub
        obtain rfl := Option.some.inj hpub
        exact hiff.mp (hacc _ rfl)
      · intro hcond q hq
        obtain rfl := Action.request.inj hq
        exact hiff.mpr (hcond x.id rfl)
    | _ =>
      constructor
      · rintro - aid ⟨⟩
      · rintro - q ⟨⟩

/-- Once every request has been accepted and every new job is closed, all is published. -/
theorem Progressing.allPublished (hp : Progressing w₀ s.id tr w)
    (hx : ∃ x ∈ w₀.db.artifacts, x.sessionId = s.id)
    (hone : ∀ x ∈ w₀.db.artifacts, x.sessionId = s.id → requestsFor x.id tr = 1)
    (hend : ∀ j ∈ w.db.jobs, NewJob w₀ j.id → j.status.isOpen = false)
    (haccepted : ∀ t ∈ tr, ∀ q, t.act = .request q → t.pre.Accepts q) :
    AllPublished w₀ s.id tr w := by
  have closed {j : Job} (hj : j ∈ w.db.jobs) (hn : NewJob w₀ j.id) : j.status = .completed ∧
      ∃ x' ∈ w.db.artifacts, j.inputPayload.artifactId = some x'.id ∧ x'.status = .published := by
    obtain ⟨-, x, -, -, hja, -, -, hopen | ⟨hcom, x', hx', hi, hpub⟩⟩ := hp.jobs j hj hn
    · rw [hend j hj hn] at hopen
      cases hopen
    · exact ⟨hcom, x', hx', hi ▸ hja, hpub⟩
  have published {x : Artifact} (hx : x ∈ w₀.db.artifacts) (hxs : x.sessionId = s.id) :
      ∃ x' ∈ w.db.artifacts, x'.id = x.id ∧ x'.status = .published := by
    obtain ⟨t, ht, q, hq, htp⟩ := requested_of_once (hone x hx hxs)
    obtain ⟨j, hj, hn, hja⟩ := hp.queued t ht q x.id hq (haccepted t ht q hq) htp
    obtain ⟨-, x', hx', hja', hpub⟩ := closed hj hn
    exact ⟨x', hx', Option.some.inj (hja'.symm.trans hja), hpub⟩
  refine ⟨haccepted, fun j hj hn => (closed hj hn).1, fun x hx hxs => published hx hxs, ?_⟩
  obtain ⟨x, hx, hxs⟩ := hx
  obtain ⟨x', hx', hi, hpub⟩ := published hx hxs
  obtain ⟨y, hy, hyi, -, hyst⟩ := hp.artifacts x hx hxs
  obtain rfl := Table.eq_of_key_eq hx' hy (hi.trans hyi.symm)
  obtain ⟨r, hr, hri, hph⟩ := hp.session
  rcases hyst with happ | ⟨-, -, u, hu, hrun⟩
  · cases happ.symm.trans hpub
  · rcases hph with ⟨-, hst⟩ | ⟨hno, -⟩
    · exact ⟨r, hr, hri, hst⟩
    · exact absurd hrun (hno u hu)

end Run

/-- The publication of all artifacts of an approved session succeeds, whatever the order of its
steps, exactly when none was queued before and no request comes after a handler call. -/
theorem publishing_iff {now : Timestamp} {w₀ w : World} {s : Session}
    {tr₀ tr : List (Transition World Action)} (r₀ : SystemRun now tr₀ w₀)
    (hs : s ∈ w₀.db.sessions) (hst : s.status = approved)
    (hx : ∃ x ∈ w₀.db.artifacts, x.sessionId = s.id)
    (hall : ∀ x ∈ w₀.db.artifacts, x.sessionId = s.id → x.status = .approved)
    (r : Run World.step w₀ tr w) (hc : Meets (Publishing w₀ s.id) tr)
    (hone : ∀ x ∈ w₀.db.artifacts, x.sessionId = s.id → requestsFor x.id tr = 1)
    (hend : ∀ j ∈ w.db.jobs, NewJob w₀ j.id → j.status.isOpen = false) :
    AllPublished w₀ s.id tr w ↔ QueuedInTime w₀ s.id tr := by
  have h₀ : Progressing w₀ s.id [] w₀ := progressing_start r₀ hs hst hall
  have hp : Progressing w₀ s.id tr w := progressing_of_run r₀ h₀ r hc
  have hacc := accepted_iff r₀ h₀ r hc fun x hx hxs => Nat.le_of_eq (hone x hx hxs)
  constructor
  · rintro ⟨haccepted, -, -, -⟩
    have hthrough := hacc.mp haccepted
    constructor
    · intro x hx hxs
      obtain ⟨t, ht, -, -, htp⟩ := requested_of_once (hone x hx hxs)
      obtain ⟨i, hi, rfl⟩ := List.getElem_of_mem ht
      exact (hthrough i hi x.id htp).2
    · intro i hi hsome
      obtain ⟨aid, hpub⟩ := Option.isSome_iff_exists.mp hsome
      exact (hthrough i hi aid hpub).1
  · rintro ⟨hun, hearly⟩
    apply hp.allPublished hx hone hend
    apply hacc.mpr
    intro i hi aid hpub
    constructor
    · exact hearly i hi (by rw [hpub]; rfl)
    · have ha : Publishing w₀ s.id tr[i].pre tr[i].act := hc _ (List.getElem_mem hi)
      generalize tr[i].act = a at ha hpub
      cases ha with
      | request _ hx hxs =>
        obtain rfl := Option.some.inj hpub
        exact hun _ hx hxs
      | _ => cases hpub

namespace Replay

/-- Session 5 is approved with its artifacts 32 and 42. -/
def ReadyToPublish (w : World) : Prop :=
  (∃ s ∈ w.db.sessions, s.id = uuid 5 ∧ s.status = approved) ∧
    (∃ x ∈ w.db.artifacts, x.sessionId = uuid 5) ∧
    ∀ x ∈ w.db.artifacts, x.sessionId = uuid 5 → x.status = .approved

instance (w : World) : Decidable (ReadyToPublish w) := inferInstanceAs (Decidable (_ ∧ _ ∧ _))

/-- Every artifact is requested once, and every job is executed to its end. -/
def Complete (w₀ : World) (tr : List (Transition World Action)) (w : World) : Prop :=
  Meets (Publishing w₀ (uuid 5)) tr ∧
    (∀ x ∈ w₀.db.artifacts, x.sessionId = uuid 5 → requestsFor x.id tr = 1) ∧
    ∀ j ∈ w.db.jobs, NewJob w₀ j.id → j.status.isOpen = false

instance (w₀ w : World) (tr : List (Transition World Action)) : Decidable (Complete w₀ tr w) :=
  inferInstanceAs (Decidable ((∀ t ∈ tr, _) ∧ (∀ x ∈ w₀.db.artifacts, _) ∧ ∀ j ∈ w.db.jobs, _))

/-- A replay of a publication after the approval of both artifacts. -/
theorem exists_publication (acts : List Action)
    (P : World → List (Transition World Action) → Bool)
    (h : (execute World.step (World.init 0) twoApproved).any (fun p =>
      decide (ReadyToPublish p.2) && (execute World.step p.2 acts).any fun q =>
        decide (Complete p.2 q.1 q.2) && P p.2 q.1) = true) :
    ∃ tr₀ w₀ tr w, SystemRun 0 tr₀ w₀ ∧ ReadyToPublish w₀ ∧ Run World.step w₀ tr w ∧
      Complete w₀ tr w ∧ P w₀ tr = true := by
  obtain ⟨⟨tr₀, w₀⟩, h₀, hp⟩ := (Option.any_eq_true _ _).mp h
  obtain ⟨hready, hp⟩ := Bool.and_eq_true_iff.mp hp
  obtain ⟨⟨tr, w⟩, he, hp⟩ := (Option.any_eq_true _ _).mp hp
  obtain ⟨hcomplete, hp⟩ := Bool.and_eq_true_iff.mp hp
  exact ⟨tr₀, w₀, tr, w, run_of_execute h₀, of_decide_eq_true hready, run_of_execute he,
    of_decide_eq_true hcomplete, hp⟩

/-- The transition is a request that raises. -/
def refuses (t : Transition World Action) : Bool :=
  match t.act with
  | .request r => decide (¬ t.pre.Accepts r)
  | _ => false

end Replay

/-- Both artifacts are requested before the worker runs the two jobs. -/
theorem publishing_before : ∃ tr₀ w₀ s tr w, SystemRun 0 tr₀ w₀ ∧ s ∈ w₀.db.sessions ∧
    Run World.step w₀ tr w ∧ Meets (Publishing w₀ s.id) tr ∧ AllPublished w₀ s.id tr w := by
  obtain ⟨tr₀, w₀, tr, w, r₀, ⟨⟨s, hs, hi, hst⟩, hx, hall⟩, r, ⟨hc, hone, hend⟩, hp⟩ :=
    Replay.exists_publication ([Replay.publish 32 50, Replay.publish 42 51] ++
      Replay.cycle 50 60 ++ Replay.cycle 51 61)
      (fun w₀ tr => decide (QueuedInTime w₀ (Replay.uuid 5) tr)) (by decide +kernel)
  rw [← hi] at hx hall hc hone hp
  refine ⟨tr₀, w₀, s, tr, w, r₀, hs, r, hc, ?_⟩
  exact (publishing_iff r₀ hs hst hx hall r hc hone hend).mpr (of_decide_eq_true hp)

/-- The first job is finished before the second artifact is requested. -/
theorem not_publishing : ¬ ∀ now tr₀ w₀ s tr w, SystemRun now tr₀ w₀ → s ∈ w₀.db.sessions →
    s.status = approved → (∃ x ∈ w₀.db.artifacts, x.sessionId = s.id) →
    (∀ x ∈ w₀.db.artifacts, x.sessionId = s.id → x.status = .approved) →
    Run World.step w₀ tr w → Meets (Publishing w₀ s.id) tr →
    (∀ x ∈ w₀.db.artifacts, x.sessionId = s.id → requestsFor x.id tr = 1) →
    (∀ j ∈ w.db.jobs, NewJob w₀ j.id → j.status.isOpen = false) →
    AllPublished w₀ s.id tr w := by
  intro h
  obtain ⟨tr₀, w₀, tr, w, r₀, ⟨⟨s, hs, hi, hst⟩, hx, hall⟩, r, ⟨hc, hone, hend⟩, hp⟩ :=
    Replay.exists_publication (Replay.publish 32 50 :: Replay.cycle 50 60 ++ [Replay.publish 42 51])
      (fun _ tr => tr.any Replay.refuses) (by decide +kernel)
  rw [← hi] at hx hall hc hone
  have hpub := h 0 tr₀ w₀ s tr w r₀ hs hst hx hall r hc hone hend
  obtain ⟨t, ht, hn⟩ := List.any_eq_true.mp hp
  unfold Replay.refuses at hn
  split at hn
  next q hq => exact of_decide_eq_true hn (hpub.accepted t ht q hq)
  next => cases hn

end AiBadge
