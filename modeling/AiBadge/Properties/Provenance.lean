import AiBadge.Lib.Projection
import AiBadge.System.Invariant

/-! # Where the text of an artifact comes from

Every artifact is the model's answer to what was heard in its own session's recording, with the
accepted edits applied in their order. Transcripts, summaries and artifacts are traced back
to the commits of a run that wrote them.
-/

namespace AiBadge

open Lib Prog SessionStatus

/-- The step commits this transcript of the session's recording. -/
inductive TranscribesAs (sid : Uuid) (t : Transition World Action) (r : TranscriptResult) : Prop where
  | committed {k : WorkerId} {providers : Providers} {aid : Uuid} {j : Job} {s : Session}
      {key : AudioKey} (act : t.act = .runHandler k providers aid) (commits : t.pre.Commits t.act j)
      (job : j.jobType = .transcribe) (session : j.sessionId = some sid)
      (row : s ∈ t.pre.db.sessions) (id : s.id = sid) (recording : s.audioKey = some key)
      (answer : providers.transcribe key = .ok r)

/-- A transcript of the session's recording that a run commits. -/
def Heard (tr : List (Transition World Action)) (sid : Uuid) (r : TranscriptResult) : Prop :=
  ∃ t ∈ tr, TranscribesAs sid t r

/-- The step commits this summary of a transcript of the session. -/
inductive SummarizesAs (tr : List (Transition World Action)) (sid : Uuid)
    (t : Transition World Action) (summary : Json) : Prop where
  | committed {k : WorkerId} {providers : Providers} {aid : Uuid} {j : Job} {r : TranscriptResult}
      (act : t.act = .runHandler k providers aid) (commits : t.pre.Commits t.act j)
      (job : j.jobType = .summarize) (session : j.sessionId = some sid) (heard : Heard tr sid r)
      (answer : providers.complete (.summarize (.str r.transcript)) = .ok (some summary))

/-- A summary of the session that a run commits. -/
def Told (tr : List (Transition World Action)) (sid : Uuid) (summary : Json) : Prop :=
  ∃ tr₁ t tr₂, tr = tr₁ ++ t :: tr₂ ∧ SummarizesAs tr₁ sid t summary

/-- The step commits the artifact, made of a transcript and of a summary of its session; where no
summary is there, of the default one. -/
inductive ExtractsAs (tr : List (Transition World Action)) (t : Transition World Action)
    (x : Artifact) : Prop where
  | committed {k : WorkerId} {providers : Providers} {j : Job} {r : TranscriptResult}
      {summary title : Json}
      (act : t.act = .runHandler k providers x.id) (commits : t.pre.Commits t.act j)
      (job : j.jobType = .extractArtifact) (jobId : x.jobId = some j.id)
      (session : j.sessionId = some x.sessionId) (heard : Heard tr x.sessionId r)
      (told : Told tr x.sessionId summary ∨ summary = defaultSummary)
      (type : (summary.get? "artifact_type").getD (.str "meeting_minutes") =
        .str x.artifactType.value)
      (titled : title = (summary.get? "title").getD (.str "Untitled"))
      (title_eq : ∃ text : Option String, title = (text.map Json.str).getD .null ∧
        x.title = text.map DbM.clipTitle)
      (summary_eq : (summary.get? "summary").getD (.str "") = (x.summary.map Json.str).getD .null)
      (answer : providers.complete
        (.extractArtifact (.str r.transcript) x.artifactType title) = .ok (some x.content))

/-- What stays of an artifact when it is reviewed or published. -/
structure ArtifactWriting where
  id : Uuid
  sessionId : Uuid
  jobId : Option Uuid
  artifactType : ArtifactType
  title : Option String
  content : Json
  summary : Option String

def Artifact.writing (x : Artifact) : ArtifactWriting where
  id := x.id
  sessionId := x.sessionId
  jobId := x.jobId
  artifactType := x.artifactType
  title := x.title
  content := x.content
  summary := x.summary

/-- The edit of the artifact that an action is, if it is accepted. -/
def World.edit? (w : World) (aid : Uuid) : Action → Option ArtifactUpdateRequest
  | .request (.updateArtifact user (some id) body) =>
    if id = aid ∧ w.Accepts (.updateArtifact user (some id) body) then some body else none
  | _ => none

/-- The artifact with the edits that a run accepts. -/
def Artifact.edited (x : Artifact) (tr : List (Transition World Action)) : Artifact :=
  project (fun w a => w.edit? x.id a) ArtifactUpdateRequest.apply x tr

/-- The artifact goes back to an extraction of the run, with what was accepted as an edit since. -/
def Sourced (tr : List (Transition World Action)) (x : Artifact) : Prop :=
  ∃ tr₁ t tr₂ x₀, tr = tr₁ ++ t :: tr₂ ∧ ExtractsAs tr₁ t x₀ ∧ x.writing = (x₀.edited tr₂).writing

section Traces

variable {tr : List (Transition World Action)} {t : Transition World Action} {sid : Uuid}
  {x : Artifact} {r : TranscriptResult} {summary : Json}

theorem Heard.snoc (h : Heard tr sid r) : Heard (tr ++ [t]) sid r := by
  obtain ⟨t', ht, hr⟩ := h
  exact ⟨t', List.mem_append_left _ ht, hr⟩

theorem Told.snoc (h : Told tr sid summary) : Told (tr ++ [t]) sid summary := by
  obtain ⟨tr₁, t', tr₂, rfl, hs⟩ := h
  exact ⟨tr₁, t', tr₂ ++ [t], by simp, hs⟩

theorem Artifact.edited_snoc : x.edited (tr ++ [t]) =
    (t.pre.edit? x.id t.act).elim (x.edited tr) fun body => body.apply (x.edited tr) :=
  project_snoc

theorem Artifact.edited_id : (x.edited tr).id = x.id :=
  project_induction (P := fun y : Artifact => y.id = x.id) (fun _ _ h => h) rfl

theorem writing_apply {y : Artifact} {body : ArtifactUpdateRequest} (h : x.writing = y.writing) :
    (body.apply x).writing = (body.apply y).writing := by
  obtain ⟨hid, hsession, hjob, htype, htitle, hcontent, hsummary⟩ := ArtifactWriting.mk.inj h
  simp only [Artifact.writing, ArtifactUpdateRequest.apply, hid, hsession, hjob, htype, htitle,
    hcontent, hsummary]

theorem World.edit?_eq_some {w : World} {aid : Uuid} {a : Action} {body : ArtifactUpdateRequest} :
    w.edit? aid a = some body ↔ ∃ user, a = .request (.updateArtifact user (some aid) body) ∧
      w.Accepts (.updateArtifact user (some aid) body) := by
  constructor
  · intro h
    unfold World.edit? at h
    split at h
    next user id body' =>
      split at h
      next hc =>
        obtain ⟨rfl, hacc⟩ := hc
        obtain rfl := Option.some.inj h
        exact ⟨user, rfl, hacc⟩
      next => cases h
    next => cases h
  · rintro ⟨user, rfl, hacc⟩
    exact if_pos ⟨rfl, hacc⟩

theorem World.edit?_eq_none {w : World} {aid : Uuid} {a : Action}
    (h : ∀ user body, a = .request (.updateArtifact user (some aid) body) →
      ¬ w.Accepts (.updateArtifact user (some aid) body)) : w.edit? aid a = none := by
  apply Option.eq_none_iff_forall_ne_some.mpr
  intro body hb
  obtain ⟨user, ha, hacc⟩ := World.edit?_eq_some.mp hb
  exact h user body ha hacc

/-- A row keeps its trace over a step that changes its text by its edit, if any. -/
theorem Sourced.snoc {x' : Artifact} (h : Sourced tr x)
    (hx : x'.writing = ((t.pre.edit? x.id t.act).elim x fun body => body.apply x).writing) :
    Sourced (tr ++ [t]) x' := by
  obtain ⟨tr₁, t', tr₂, x₀, rfl, he, hwriting⟩ := h
  refine ⟨tr₁, t', tr₂ ++ [t], x₀, by simp, he, ?_⟩
  have hid : x.id = x₀.id := (congrArg ArtifactWriting.id hwriting).trans Artifact.edited_id
  rw [hx, Artifact.edited_snoc, ← hid]
  cases t.pre.edit? x.id t.act with
  | none => exact hwriting
  | some body => exact writing_apply hwriting

end Traces

/-- What a run says about the outputs and the artifacts of a state. -/
structure Derived (tr : List (Transition World Action)) (w : World) : Prop where
  transcripts : ∀ j ∈ w.db.jobs, j.jobType = .transcribe → j.status = .completed →
    ∀ sid, j.sessionId = some sid → ∃ r payload, Heard tr sid r ∧ r.toJson = some payload ∧
      j.outputPayload = some payload
  summaries : ∀ j ∈ w.db.jobs, j.jobType = .summarize → j.status = .completed →
    ∀ sid, j.sessionId = some sid → ∃ summary, Told tr sid summary ∧
      j.outputPayload = some summary
  artifacts : ∀ x ∈ w.db.artifacts, Sourced tr x

theorem derived_init (now : Timestamp) : Derived [] (World.init now) where
  transcripts _ h := (Table.not_mem_empty _ h).elim
  summaries _ h := (Table.not_mem_empty _ h).elim
  artifacts _ h := (Table.not_mem_empty _ h).elim

section Lookup

variable {tr : List (Transition World Action)} {w : World} {sid : Uuid} {x : Json}

theorem mem_completedJobs {db : Db} {session : Option Uuid} {type : JobType} {j : Job}
    (h : j ∈ completedJobs db session type) :
    j ∈ db.jobs ∧ j.sessionId = session ∧ j.jobType = type ∧ j.status = .completed := by
  obtain ⟨hj, hp⟩ := Table.mem_select.mp h
  simp only [Bool.and_eq_true, decide_eq_true_eq] at hp
  exact ⟨hj, hp.1.1, hp.1.2, hp.2⟩

/-- The transcript that a stage finds was heard in the session. -/
theorem Derived.heard (h : Derived tr w) (hx : Transcribed w.db (some sid) x) :
    ∃ r, Heard tr sid r ∧ x = .str r.transcript := by
  obtain ⟨j, payload, hj, hp, -, rfl⟩ := hx
  obtain ⟨hm, hs, ht, hc⟩ := mem_completedJobs (hj ▸ List.mem_singleton.mpr rfl)
  obtain ⟨r, stored, hr, hstored, ho⟩ := h.transcripts j hm ht hc sid hs
  obtain ⟨segments, rfl⟩ := TranscriptResult.stored_eq hstored
  refine ⟨r, hr, ?_⟩
  rw [Job.payload?, ho] at hp
  obtain rfl := Option.some.inj hp
  rfl

/-- The summary that the extraction finds was told in the session, or is the default one. -/
theorem Derived.told (h : Derived tr w) (hx : Summarized w.db (some sid) x) :
    Told tr sid x ∨ x = defaultSummary := by
  rcases hx with ⟨-, rfl⟩ | ⟨j, hj, rfl⟩
  · exact .inr rfl
  · obtain ⟨hm, hs, ht, hc⟩ := mem_completedJobs (hj ▸ List.mem_singleton.mpr rfl)
    obtain ⟨summary, hr, ho⟩ := h.summaries j hm ht hc sid hs
    rw [Job.payload?, ho]
    split
    next => exact .inr rfl
    next => exact .inl hr

end Lookup

section Step

variable {tr : List (Transition World Action)} {w w' : World} {a : Action}

theorem recordFailure_completed {now : Timestamp} {e : Exn} {j : Job}
    (h : (recordFailure now e j).status = .completed) : recordFailure now e j = j := by
  unfold recordFailure at h ⊢
  split
  next hrunning =>
    rw [if_pos hrunning] at h
    split at h <;> cases h
  next => rfl

/-- A job that is completed was completed before the step, or the step commits it. -/
theorem completed_of_step {j' : Job} (hw : w.Sound) (h : w.step a = some w') (hj' : j' ∈ w'.db.jobs)
    (hc : j'.status = .completed) :
    j' ∈ w.db.jobs ∨ ∃ j ∈ w.db.jobs, j.id = j'.id ∧ j.SameOrigin j' ∧ w.Commits a j := by
  rcases (hw.jobs h).origin j' hj' with ⟨j, hj, hi, hstep⟩ | hnew
  · have ho := hstep.sameOrigin
    cases hstep with
    | same => exact .inl hj
    | output hcom => exact .inr ⟨j, hj, rfl, ho, hcom⟩
    | failed =>
      left
      rwa [recordFailure_completed hc]
    | heartbeat _ _ _ hr => cases hr.symm.trans hc
    | _ => cases hc
  · cases hnew <;> cases hc

variable (hw : w.Sound) (h : w.step a = some w') (hd : Derived tr w)
include hw h hd

theorem Derived.transcripts_step : ∀ j ∈ w'.db.jobs, j.jobType = .transcribe →
    j.status = .completed → ∀ sid, j.sessionId = some sid →
      ∃ r payload, Heard (tr ++ [⟨w, a, w'⟩]) sid r ∧ r.toJson = some payload ∧
        j.outputPayload = some payload := by
  intro j' hj' ht hc sid hs
  rcases completed_of_step hw h hj' hc with hold | ⟨j, hj, hi, ho, hcom⟩
  · obtain ⟨r, payload, hr, hp⟩ := hd.transcripts j' hold ht hc sid hs
    exact ⟨r, payload, hr.snoc, hp⟩
  · have htj : j.jobType = .transcribe := ho.jobType.symm.trans ht
    obtain ⟨k, providers, aid, ha, he⟩ := World.handlerCommit_of_effect hcom (World.effect_of_step h)
    generalize hdb : w'.db = db at he hj'
    cases he with
    | @transcribe s key r payload _ hsm hsid hkey hr hp =>
      have hrow : j' = j.withOutput payload := by
        apply Table.eq_of_mem_update hj hj' hi.symm
        intro; rfl
      refine ⟨r, payload, ⟨_, List.mem_append_right _ (List.mem_singleton.mpr rfl), ?_⟩, hp,
        by rw [hrow]; rfl⟩
      have hid : s.id = sid := Option.some.inj (hsid.symm.trans (ho.sessionId.symm.trans hs))
      exact .committed ha hcom htj (hid ▸ hsid) hsm hid hkey hr
    | summarize ht' => cases htj.symm.trans ht'
    | extractArtifact ht' => cases htj.symm.trans ht'
    | publishMissing ht' => cases htj.symm.trans ht'
    | publish ht' => cases htj.symm.trans ht'

theorem Derived.summaries_step : ∀ j ∈ w'.db.jobs, j.jobType = .summarize →
    j.status = .completed → ∀ sid, j.sessionId = some sid →
      ∃ summary, Told (tr ++ [⟨w, a, w'⟩]) sid summary ∧ j.outputPayload = some summary := by
  intro j' hj' ht hc sid hs
  rcases completed_of_step hw h hj' hc with hold | ⟨j, hj, hi, ho, hcom⟩
  · obtain ⟨r, hr, hp⟩ := hd.summaries j' hold ht hc sid hs
    exact ⟨r, hr.snoc, hp⟩
  · have htj : j.jobType = .summarize := ho.jobType.symm.trans ht
    have hsj : j.sessionId = some sid := ho.sessionId.symm.trans hs
    obtain ⟨k, providers, aid, ha, he⟩ := World.handlerCommit_of_effect hcom (World.effect_of_step h)
    generalize hdb : w'.db = db at he hj'
    cases he with
    | @summarize x summary _ hx hanswer =>
      have hrow : j' = j.withOutput summary := by
        apply Table.eq_of_mem_update hj hj' hi.symm
        intro; rfl
      obtain ⟨r, hr, rfl⟩ := hd.heard (hsj ▸ hx)
      exact ⟨summary, ⟨tr, _, [], rfl, .committed ha hcom htj hsj hr hanswer⟩, by rw [hrow]; rfl⟩
    | transcribe ht' => cases htj.symm.trans ht'
    | extractArtifact ht' => cases htj.symm.trans ht'
    | publishMissing ht' => cases htj.symm.trans ht'
    | publish ht' => cases htj.symm.trans ht'

theorem Derived.artifacts_step : ∀ x ∈ w'.db.artifacts, Sourced (tr ++ [⟨w, a, w'⟩]) x := by
  intro x' hx'
  have unedited {y : Artifact} (hn : ∀ user body, a ≠ .request (.updateArtifact user (some y.id) body)) :
      w.edit? y.id a = none := World.edit?_eq_none fun user body ha => absurd ha (hn user body)
  rcases hw.artifacts h x' hx' with ⟨x, hx, -, hstep⟩ | hnew
  · apply (hd.artifacts x hx).snoc
    cases hstep with
    | same hn =>
      rw [World.edit?_eq_none fun user body ha hacc => hn _ ha hacc rfl]
      rfl
    | edited ha hacc =>
      rw [World.edit?_eq_some.mpr ⟨_, ha, hacc⟩]
      rfl
    | approved ha =>
      rw [unedited (by rw [ha]; exact nofun)]
      rfl
    | rejected ha =>
      rw [unedited (by rw [ha]; exact nofun)]
      rfl
    | published hn =>
      rw [unedited fun _ _ => hn _]
      rfl
  · cases hnew with
    | @extracted k providers j _ ha hcom ht hsid _ hjob =>
      have hfresh : x'.id ∉ w.issued := by
        apply (World.fresh_of_step h).2
        rw [ha]
        exact List.mem_singleton.mpr rfl
      obtain ⟨k', providers', aid, ha', he⟩ :=
        World.handlerCommit_of_effect hcom (World.effect_of_step h)
      obtain ⟨rfl, rfl, rfl⟩ := Action.runHandler.inj (ha.symm.trans ha')
      generalize hdb : w'.db = db at he hx'
      cases he with
      | transcribe ht' => cases ht.symm.trans ht'
      | summarize ht' => cases ht.symm.trans ht'
      | publishMissing ht' => cases ht.symm.trans ht'
      | publish ht' => cases ht.symm.trans ht'
      | @extractArtifact _ summary y title _ hx hsum _ htype htitled htitle hsummary hanswer =>
        rw [extractWrites_artifacts] at hx'
        obtain rfl : x' = y := by
          rcases Table.mem_of_mem_insert hx' with hold | hy
          · exact absurd (hw.artifactId x' hold) hfresh
          · exact hy
        rw [hsid] at hx hsum
        obtain ⟨r, hr, rfl⟩ := hd.heard hx
        exact ⟨tr, _, [], x', rfl, .committed ha hcom ht hjob hsid hr (hd.told hsum) htype htitled
          htitle hsummary hanswer, rfl⟩

end Step

theorem derived_of_run {now : Timestamp} {tr : List (Transition World Action)} {w : World}
    (hr : SystemRun now tr w) : Derived tr w := by
  induction hr with
  | init => exact derived_init now
  | snoc hr hstep ih =>
    have hw := World.sound_of_run hr
    exact ⟨ih.transcripts_step hw hstep, ih.summaries_step hw hstep, ih.artifacts_step hw hstep⟩

/-- The artifact of a pipeline is edited, rejected and made again, and the new one edited. -/
def Replay.remade : List Action :=
  pipeline ++ [edit 32 { title := some "draft" }, review .reject 32 40] ++ cycle 40 42 ++
    [edit 42 { summary := some "short" }, review .approve 42 45]

end AiBadge
