import AiBadge.Properties.Completion
import AiBadge.Properties.Retry
import AiBadge.System.HandlerFailure
import AiBadge.System.JobIds

/-! # Pipeline order

The three jobs of a session share their priority and their creation time, so the claim
query may return any of them first. What the pipeline promises holds exactly as long as no
stage is claimed before the previous one is closed.
-/

namespace AiBadge

open Lib Prog DbM

/-- A response that matches the schema of the summary prompt. -/
structure Json.IsSummary (y : Json) : Prop where
  isObj : y.isObj = true
  summary : ∃ text, y.get? "summary" = some (.str text)
  artifactType : ∃ ty : ArtifactType, y.get? "artifact_type" = some (.str ty.value)
  title : ∃ text, y.get? "title" = some (.str text)

/-- Providers that always answer, and answer the summary prompt in its schema. What a JSON column
refuses may be among the answers. -/
structure Providers.Reliable (p : Providers) : Prop where
  transcribe : ∀ key, ∃ r, p.transcribe key = .ok r
  summarize : ∀ x, ∃ o, p.complete (.summarize x) = .ok o ∧ ∀ y, o = some y → y.IsSummary
  extractArtifact : ∀ x ty title, ∃ content, p.complete (.extractArtifact x ty title) = .ok content

/-- A step of the clock or of a worker whose providers are reliable, which does not erase the
session. -/
structure Works (sid : Uuid) (w : World) (a : Action) : Prop where
  unrequested : ∀ r, a ≠ .request r
  reliable : ∀ k providers aid, a = .runHandler k providers aid → providers.Reliable
  unerased : ¬ w.Erases a sid

/-- The step does not claim a stage of the session while the previous one is pending or running. -/
def InOrder (sid : Uuid) (w : World) (a : Action) : Prop :=
  ∀ j ∈ w.db.jobs, a.claimed? = some j.id → j.sessionId = some sid →
    ∀ i ∈ w.db.jobs, i.sessionId = some sid → pipelineNext i.jobType = some j.jobType →
      i.status.isOpen = false

instance (sid : Uuid) (w : World) (a : Action) : Decidable (InOrder sid w a) :=
  inferInstanceAs (Decidable (∀ j ∈ w.db.jobs, _ → _ → ∀ i ∈ w.db.jobs, _))

/-- The summary job of the session is completed with the result `y`. -/
def SummaryIs (sid : Uuid) (y : Json) (db : Db) : Prop :=
  ∃ i ∈ db.jobs, i.sessionId = some sid ∧ i.jobType = .summarize ∧ i.status = .completed ∧
    i.outputPayload = some y

/-- Type, title and summary of the artifact are those of the result `y`, the title as its column
holds it. -/
structure Artifact.DrawnFrom (x : Artifact) (y : Json) : Prop where
  artifactType : y.get? "artifact_type" = some (.str x.artifactType.value)
  title : ∃ text, y.get? "title" = some (.str text) ∧ x.title = some (clipTitle text)
  summary : y.get? "summary" = x.summary.map .str

/-- What the pipeline of the session promises about the transition `t` that follows `tr`. -/
structure Ordered (sid : Uuid) (tr : List (Transition World Action))
    (t : Transition World Action) : Prop where
  handed : ∀ k, ∀ j ∈ t.post.db.jobs, (t.post.workers k).phase = .handling j.id →
    j.sessionId = some sid → ∀ ty, pipelineNext ty = some j.jobType →
      ∃ i ∈ t.post.db.jobs, i.sessionId = some sid ∧ i.jobType = ty ∧ i.status = .completed
  unfailed : ∀ j ∈ t.post.db.jobs, j.sessionId = some sid → j.status ≠ .failed
  extracted : ∀ j ∈ t.post.db.jobs, j.sessionId = some sid → j.jobType = .extractArtifact →
    j.status = .completed → ∃ x ∈ t.post.db.artifacts, x.sessionId = sid ∧ x.jobId = some j.id
  content : ∀ x ∈ t.post.db.artifacts, x.sessionId = sid →
    ∃ y, x.DrawnFrom y ∧ ∃ u ∈ tr ++ [t], SummaryIs sid y u.post.db

/-- The result that a completed stage carries. -/
structure StageResult (j : Job) : Prop where
  transcript : j.jobType = .transcribe →
    ∃ (r : TranscriptResult) (y : Json), r.toJson = some y ∧ j.outputPayload = some y
  summary : j.jobType = .summarize → ∃ y : Json, j.outputPayload = some y ∧ y.IsSummary

/-- The handler of the job is called, or has completed it. -/
def World.Reached (w : World) (j : Job) : Prop :=
  j.status = .completed ∨ ∃ k, (w.workers k).phase = .handling j.id

/-- The pipeline of the session is in order after the steps `tr`. -/
structure Piped (sid : Uuid) (tr : List (Transition World Action)) (w : World) : Prop where
  unique : ∀ i ∈ w.db.jobs, ∀ j ∈ w.db.jobs, i.sessionId = some sid → j.sessionId = some sid →
    i.jobType = j.jobType → i = j
  stage : ∀ j ∈ w.db.jobs, j.sessionId = some sid → j.jobType.isPipeline = true
  present : ∀ ty : JobType, ty.isPipeline = true →
    ∃ j ∈ w.db.jobs, j.sessionId = some sid ∧ j.jobType = ty
  unfailed : ∀ j ∈ w.db.jobs, j.sessionId = some sid → j.status ≠ .failed
  calm : ∀ j ∈ w.db.jobs, j.sessionId = some sid →
    ∀ k e pending, (w.workers k).phase ≠ .failed j.id e pending
  previous : ∀ j ∈ w.db.jobs, j.sessionId = some sid → w.Reached j →
    ∀ i ∈ w.db.jobs, i.sessionId = some sid → pipelineNext i.jobType = some j.jobType →
      i.status = .completed
  result : ∀ j ∈ w.db.jobs, j.sessionId = some sid → j.status = .completed → StageResult j
  extracted : ∀ j ∈ w.db.jobs, j.sessionId = some sid → j.jobType = .extractArtifact →
    j.status = .completed → ∃ x ∈ w.db.artifacts, x.sessionId = sid ∧ x.jobId = some j.id
  content : ∀ x ∈ w.db.artifacts, x.sessionId = sid →
    ∃ y, x.DrawnFrom y ∧ ∃ u ∈ tr, SummaryIs sid y u.post.db

theorem isPipeline_of_pipelineNext {ty next : JobType} (h : pipelineNext ty = some next) :
    ty.isPipeline = true := by
  cases ty with
  | transcribe => rfl
  | summarize => rfl
  | _ => cases h

theorem hasHandler_of_isPipeline {ty : JobType} (h : ty.isPipeline = true) :
    jobHandler ty ≠ none := by
  cases ty with
  | publish => cases h
  | other => cases h
  | _ => exact nofun

section Handlers

variable {sid : Uuid} {tr : List (Transition World Action)} {w : World} {k : WorkerId}
  {providers : Providers} {aid : Uuid} {i j : Job} (hp : Piped sid tr w) (hj : j ∈ w.db.jobs)
  (hs : j.sessionId = some sid)
include hp

theorem Piped.lookup (hi : i ∈ w.db.jobs) (his : i.sessionId = some sid)
    (hc : i.status = .completed) : completedJobs w.db (some sid) i.jobType = [i] := by
  rw [← his]
  refine completedJobs_of_completed ?_ hi hc
  intro r hr q hq hrt hqt hrs hqs
  exact hp.unique r hr q hq (hrs.trans his) (hqs.trans his) (hrt.trans hqt.symm)

/-- The previous stage of a stage in its handler. -/
theorem Piped.before {ty : JobType} (hj : j ∈ w.db.jobs) (hs : j.sessionId = some sid)
    (hr : w.Reached j) (ht : pipelineNext ty = some j.jobType) :
    ∃ i ∈ w.db.jobs, i.sessionId = some sid ∧ i.jobType = ty ∧ i.status = .completed := by
  obtain ⟨i, hi, his, rfl⟩ := hp.present ty (isPipeline_of_pipelineNext ht)
  exact ⟨i, hi, his, rfl, hp.previous j hj hs hr i hi his ht⟩

/-- The transcript that the later stages read. -/
theorem Piped.transcribed (hi : i ∈ w.db.jobs) (his : i.sessionId = some sid)
    (ht : i.jobType = .transcribe) (hc : i.status = .completed) :
    ∃ x, Transcribed w.db (some sid) x := by
  obtain ⟨r, y, hr, hy⟩ := (hp.result i hi his hc).transcript ht
  obtain ⟨segments, rfl⟩ := TranscriptResult.stored_eq hr
  refine ⟨_, i, _, ht ▸ hp.lookup hi his hc, by rw [Job.payload?, hy], ?_, rfl⟩
  rfl

/-- The summary that the extraction reads. -/
theorem Piped.summarized (hi : i ∈ w.db.jobs) (his : i.sessionId = some sid)
    (ht : i.jobType = .summarize) (hc : i.status = .completed) :
    ∃ y, i.outputPayload = some y ∧ y.IsSummary ∧ Summarized w.db (some sid) y := by
  obtain ⟨y, hy, hr⟩ := (hp.result i hi his hc).summary ht
  refine ⟨y, hy, hr, .inr ⟨i, ht ▸ hp.lookup hi his hc, ?_⟩⟩
  have hn : y ≠ .null := by
    rintro rfl
    cases hr.isObj
  rw [Job.payload?, hy]
  cases y with
  | null => exact absurd rfl hn
  | _ => rfl

include hj hs

/-- A stage whose previous stages are completed fails in no other way than in a flush. -/
theorem Piped.fatal {handler : HandlerInput → Job → DbM Unit} {e : Exn} {t : Tx Db Files}
    (hw : w.Sound) (hrel : providers.Reliable) (hk : (w.workers k).phase = .handling j.id)
    (hh : jobHandler j.jobType = some handler)
    (h : (handler ⟨providers, w.now, aid⟩ j).Raises (Tx.start w.db w.files) e t) :
    e.abortsSession = true := by
  have hreach : w.Reached j := .inr ⟨k, hk⟩
  cases hty : j.jobType with
  | transcribe =>
    rw [hty] at hh
    obtain rfl := Option.some.inj hh
    obtain ⟨s, hsm, hjs, ha⟩ := hw.jobSession j hj
    obtain ⟨key, hkey⟩ := Option.isSome_iff_exists.mp ha
    obtain ⟨r, hr⟩ := hrel.transcribe key
    have hf : w.db.session? s.id = some s := Db.session?_eq_some.mpr ⟨hsm, rfl⟩
    obtain ⟨-, rfl, -⟩ : r.toJson = none ∧ e = .dataError "jobs.output_payload" ∧ t = _ := by
      simpa [handleTranscribeJob, hjs, hf, hkey, hr, Except.mapError, jsonColumn] using h
    rfl
  | summarize =>
    rw [hty] at hh
    obtain rfl := Option.some.inj hh
    obtain ⟨i, hi, his, hit, hic⟩ := hp.before hj hs hreach (hty ▸ rfl : pipelineNext .transcribe = _)
    obtain ⟨x, hx⟩ := hp.transcribed hi his hit hic
    obtain ⟨y, hy, hconf⟩ := hrel.summarize x
    have hg : (getTranscript j).Returns (Tx.start w.db w.files) x (Tx.start w.db w.files) :=
      getTranscript_of_transcribed (hs ▸ hx)
    rcases raises_bind.mp h with h | ⟨x', t₁, hr, h⟩
    · exact absurd h (hg.not_raises _ _)
    obtain ⟨rfl, rfl⟩ := hg.unique hr
    cases y with
    | none =>
      obtain ⟨rfl, -⟩ : e = .dataError "jobs.output_payload" ∧ t = _ := by
        simpa [hy, Except.mapError, jsonColumn] using h
      rfl
    | some y => simp [hy, Except.mapError, jsonColumn, (hconf y rfl).isObj] at h
  | extractArtifact =>
    rw [hty] at hh
    obtain rfl := Option.some.inj hh
    obtain ⟨i, hi, his, hit, hic⟩ := hp.before hj hs hreach (hty ▸ rfl : pipelineNext .summarize = _)
    obtain ⟨q, hq, hqs, hqt, hqc⟩ := hp.before hi his (.inl hic)
      (hit ▸ rfl : pipelineNext .transcribe = _)
    obtain ⟨x, hx⟩ := hp.transcribed hq hqs hqt hqc
    obtain ⟨y, -, hconf, hy⟩ := hp.summarized hi his hit hic
    obtain ⟨ty, hty'⟩ := hconf.artifactType
    obtain ⟨content, hc⟩ := hrel.extractArtifact x ty ((y.get? "title").getD (.str "Untitled"))
    refine (fatal_extractArtifact hty h).mpr ((drafted_iff hty (hs ▸ hx) (hs ▸ hy)).mpr ?_)
    exact ⟨hconf.isObj, ty, content, by rw [hty']; rfl, hc⟩
  | publish =>
    have hst := hp.stage j hj hs
    rw [hty] at hst
    cases hst
  | other =>
    have hst := hp.stage j hj hs
    rw [hty] at hst
    cases hst

end Handlers

/-- The columns that an extraction takes from a result in the schema. -/
theorem Json.IsSummary.drawnFrom {x : Artifact} {y : Json} (h : y.IsSummary)
    (hty : (y.get? "artifact_type").getD (.str "meeting_minutes") = .str x.artifactType.value)
    (htitle : ∃ text : Option String, (y.get? "title").getD (.str "Untitled") =
      (text.map Json.str).getD .null ∧ x.title = text.map clipTitle)
    (hsum : (y.get? "summary").getD (.str "") = (x.summary.map Json.str).getD .null) :
    x.DrawnFrom y := by
  have text {d : Json} {o : Option Json} {c : Option String} (ho : ∃ t, o = some (.str t))
      (hd : o.getD d = (c.map Json.str).getD .null) : o = c.map Json.str := by
    obtain ⟨t, rfl⟩ := ho
    cases c with
    | none => cases hd
    | some t' => exact congrArg some hd
  obtain ⟨ty, ht⟩ := h.artifactType
  refine ⟨?_, ?_, text h.summary hsum⟩
  · rw [ht] at hty ⊢
    exact congrArg some hty
  · obtain ⟨c, hc, hx⟩ := htitle
    obtain ⟨t, hy⟩ := h.title
    have hct : some (Json.str t) = c.map Json.str := hy ▸ text h.title hc
    cases c with
    | none => cases hct
    | some t' =>
      obtain ⟨⟩ := hct
      exact ⟨t, hy, hx⟩

section Step

variable {sid : Uuid} {tr : List (Transition World Action)} {w w' : World} {a : Action}
  {i i' j j' : Job} {x : Artifact} (hw : w.Sound) (hu : UnknownDropped w) (hp : Piped sid tr w)
  (hb : Works sid w a) (h : w.step a = some w')

include hw h in
/-- A working step adds no job to the session. -/
theorem Works.origin (hb : Works sid w a) (hj' : j' ∈ w'.db.jobs) (hjs : j'.sessionId = some sid) :
    ∃ j ∈ w.db.jobs, j'.id = j.id ∧ j.sessionId = some sid ∧ j'.jobType = j.jobType ∧
      w.JobStep a j j' := by
  rcases (hw.jobs h).origin j' hj' with ⟨j, hj, hi, hstep⟩ | hnew
  · have ho := hstep.sameOrigin
    exact ⟨j, hj, hi, ho.sessionId.symm.trans hjs, ho.jobType, hstep⟩
  · cases hnew with
    | stage ha => exact absurd ha (hb.unrequested _)
    | retry ha => exact absurd ha (hb.unrequested _)
    | publish ha => exact absurd ha (hb.unrequested _)

include hw hu h in
theorem stage_completed_kept (hi : i ∈ w.db.jobs) (hc : i.status = .completed) (hi' : i' ∈ w'.db.jobs)
    (hid : i'.id = i.id) : i'.status = .completed :=
  (((hw.jobs h).row hi hi' hid).completed hi hu hc).1

/-- What a reliable provider makes of a stage. -/
theorem stageResult_of_commits {db : Db} {files : Files} (hb : Works sid w a) (hc : w.Commits a j)
    (h : w.Effect a db files) (hj' : j' ∈ db.jobs) (hid : j'.id = j.id) : StageResult j' := by
  obtain ⟨_, _, _, _, -, -, hj, -⟩ := id hc
  obtain ⟨k, providers, aid, rfl, hcom⟩ := World.handlerCommit_of_effect hc h
  have out {payload : Json} (hm : j' ∈ w.db.jobs.update (fun i => i.id = j.id)
      (Job.withOutput payload) (by intro; rfl)) : j' = j.withOutput payload :=
    Table.eq_of_mem_update hj hm hid
  have other {payload : Json} (hm : j' = j.withOutput payload) (ht : j.jobType ≠ .transcribe)
      (hs : j.jobType ≠ .summarize) : StageResult j' := by
    subst hm
    exact ⟨fun h => absurd h ht, fun h => absurd h hs⟩
  cases hcom with
  | @transcribe _ _ r _ ht _ _ _ _ hr =>
    rw [out hj']
    refine ⟨fun _ => ⟨r, _, hr, rfl⟩, fun hs => ?_⟩
    cases ht.symm.trans hs
  | @summarize x y hs _ hy =>
    rw [out hj']
    refine ⟨fun ht => ?_, fun _ => ⟨y, rfl, ?_⟩⟩
    · cases hs.symm.trans ht
    · obtain ⟨o, ho, hconf⟩ := (hb.reliable _ _ _ rfl).summarize x
      exact hconf y (Except.ok.inj (ho.symm.trans hy))
  | extractArtifact ht => exact other (out hj') (by rw [ht]; exact nofun) (by rw [ht]; exact nofun)
  | publishMissing ht => exact other (out hj') (by rw [ht]; exact nofun) (by rw [ht]; exact nofun)
  | publish ht => exact other (out hj') (by rw [ht]; exact nofun) (by rw [ht]; exact nofun)

/-- The summary that the artifact of a committed extraction is drawn from. -/
theorem summarized_of_extract {db : Db} {files : Files} (hc : w.Commits a j)
    (ht : j.jobType = .extractArtifact) (h : w.Effect a db files) (hx : x ∈ db.artifacts)
    (hn : x ∉ w.db.artifacts) :
    ∃ y, Summarized w.db j.sessionId y ∧ (y.IsSummary → x.DrawnFrom y) := by
  obtain ⟨k, providers, aid, rfl, hcom⟩ := World.handlerCommit_of_effect hc h
  cases hcom with
  | transcribe ht' => cases ht.symm.trans ht'
  | summarize ht' => cases ht.symm.trans ht'
  | publishMissing ht' => cases ht.symm.trans ht'
  | publish ht' => cases ht.symm.trans ht'
  | @extractArtifact _ y _ title _ _ hy _ hty htitle htt hsum =>
    rw [extractWrites_artifacts] at hx
    rcases Table.mem_of_mem_insert hx with hx | rfl
    · exact absurd hx hn
    · exact ⟨y, hy, fun hconf => hconf.drawnFrom hty (htitle ▸ htt) hsum⟩

include hp in
/-- The summary of a session whose extraction commits. -/
theorem Piped.drawn {db : Db} {files : Files} (hc : w.Commits a j)
    (ht : j.jobType = .extractArtifact) (hjs : j.sessionId = some sid)
    (h : w.Effect a db files) (hx : x ∈ db.artifacts) (hn : x ∉ w.db.artifacts) :
    ∃ y, x.DrawnFrom y ∧ SummaryIs sid y w.db := by
  obtain ⟨y, hy, hd⟩ := summarized_of_extract hc ht h hx hn
  obtain ⟨k, _, _, _, -, hk, hj, -⟩ := hc
  obtain ⟨i, hi, his, hit, hic⟩ := hp.before hj hjs (.inr ⟨k, hk⟩)
    (show pipelineNext .summarize = some j.jobType by rw [ht]; rfl)
  obtain ⟨y', hout, hconf, hy'⟩ := hp.summarized hi his hit hic
  obtain rfl := hy'.unique (hjs ▸ hy)
  exact ⟨y', hd hconf, i, hi, his, hit, hic, hout⟩

include hw hu h in
/-- The summary does not change while another job commits. -/
theorem SummaryIs.step {y : Json} (hy : SummaryIs sid y w.db) (hc : w.Commits a j)
    (ht : j.jobType ≠ .summarize) : SummaryIs sid y w'.db := by
  obtain ⟨i, hi, his, hit, hic, hout⟩ := hy
  obtain ⟨i', hi', hid, hstep⟩ := (hw.jobs h).kept i hi
  rcases hstep.eq_or_commits (stage_completed_kept hw hu h hi hic hi' hid) with rfl | hci
  · exact ⟨_, hi', his, hit, hic, hout⟩
  · exact absurd (hci.unique hc ▸ hit) ht

include hw hp hb h in
/-- A claim out of order puts a stage in its handler before the previous one is completed. -/
theorem inOrder_of_ordered (ho : Ordered sid tr ⟨w, a, w'⟩) : InOrder sid w a := by
  intro j hj ha hjs i hi his ht
  obtain ⟨k, locked, rfl⟩ := claimed?_eq_some.mp ha
  obtain ⟨j', hj', hji, hstep⟩ := (hw.jobs h).kept j hj
  have hsame := hstep.sameOrigin
  have hk : (w'.workers k).phase = .handling j'.id := hji ▸ World.handling_of_claim h
  obtain ⟨i', hi', his', hit, hic⟩ := ho.handed k j' hj' hk (hsame.sessionId.trans hjs) i.jobType
    (ht.trans (congrArg some hsame.jobType.symm))
  obtain ⟨i₀, hi₀, -, his₀, hit₀, hstep₀⟩ := hb.origin hw h hi' his'
  obtain rfl := hp.unique i₀ hi₀ i hi his₀ his (hit₀.symm.trans hit)
  rcases hstep₀.commits hic with hc | ⟨_, _, _, _, ⟨⟩, -⟩
  rw [hc]
  rfl

/-- What is in order promises what the pipeline promises. -/
theorem Piped.ordered {t : Transition World Action} (hp : Piped sid (tr ++ [t]) t.post) :
    Ordered sid tr t where
  handed k _ hj hk hjs _ ht := hp.before hj hjs (.inr ⟨k, hk⟩) ht
  unfailed := hp.unfailed
  extracted := hp.extracted
  content := hp.content

include hw hp hb h

theorem Piped.unfailed_step : ∀ j' ∈ w'.db.jobs, j'.sessionId = some sid → j'.status ≠ .failed := by
  intro j' hj' hjs'
  obtain ⟨j, hj, -, hjs, -, hstep⟩ := hb.origin hw h hj' hjs'
  cases hstep with
  | same => exact hp.unfailed _ hj hjs
  | started => exact nofun
  | released => exact nofun
  | output => exact nofun
  | failed _ hq => exact absurd hq (hp.calm _ hj hjs _ _ _)
  | unknown _ _ hn => exact absurd hn (hasHandler_of_isPipeline (hp.stage _ hj hjs))
  | heartbeat _ _ _ hr =>
    intro hf
    cases hr.symm.trans hf

theorem Piped.calm_step : ∀ j' ∈ w'.db.jobs, j'.sessionId = some sid →
    ∀ k e pending, (w'.workers k).phase ≠ .failed j'.id e pending := by
  intro j' hj' hjs k e pending hq
  obtain ⟨j, hj, hi, hjs, -, -⟩ := hb.origin hw h hj' hjs
  rw [hi] at hq
  rcases World.raises_of_failed h hq with
    hq | ⟨providers, aid, r, hr, handler, t, ha, hk, hri, hh, he, hm⟩
  · exact hp.calm j hj hjs k e pending hq
  · obtain rfl := Table.eq_of_key_eq hr hj hri
    have hf := hp.fatal hj hjs hw (hb.reliable k providers aid ha) hk hh he
    rw [hm] at hf
    cases hf

include hu

theorem Piped.previous_step (hin : InOrder sid w a) : ∀ j' ∈ w'.db.jobs, j'.sessionId = some sid →
    w'.Reached j' → ∀ i' ∈ w'.db.jobs, i'.sessionId = some sid →
      pipelineNext i'.jobType = some j'.jobType → i'.status = .completed := by
  intro j' hj' hjs hr i' hi' his ht
  obtain ⟨j, hj, hji, hjs, hjt, hstep⟩ := hb.origin hw h hj' hjs
  obtain ⟨i, hi, hii, his, hit, -⟩ := hb.origin hw h hi' his
  rw [hit, hjt] at ht
  refine stage_completed_kept hw hu h hi ?_ hi' hii
  have early (hr : w.Reached j) : i.status = .completed := hp.previous j hj hjs hr i hi his ht
  rcases hr with hc | ⟨k, hk⟩
  · rcases hstep.commits hc with hc | hcom
    · exact early (.inl hc)
    · obtain ⟨k, _, _, _, -, hk, -⟩ := hcom
      exact early (.inr ⟨k, hk⟩)
  · rw [hji] at hk
    rcases (World.worker_of_step h).handling hk with hk | ⟨locked, ha⟩
    · exact early (.inr ⟨k, hk⟩)
    · have ho := hin j hj (claimed?_eq_some.mpr ⟨k, locked, ha⟩) hjs i hi his ht
      have hn := hp.unfailed i hi his
      revert ho hn
      cases i.status <;> simp [JobStatus.isOpen]

theorem Piped.step (hin : InOrder sid w a) : Piped sid (tr ++ [⟨w, a, w'⟩]) w' where
  unique := by
    intro i' hi' j' hj' his hjs ht
    obtain ⟨i, hi, hii, his, hit, -⟩ := hb.origin hw h hi' his
    obtain ⟨j, hj, hji, hjs, hjt, -⟩ := hb.origin hw h hj' hjs
    obtain rfl := hp.unique i hi j hj his hjs (hit.symm.trans (ht.trans hjt))
    exact Table.eq_of_key_eq hi' hj' (hii.trans hji.symm)
  stage := by
    intro j' hj' hjs
    obtain ⟨j, hj, -, hjs, hjt, -⟩ := hb.origin hw h hj' hjs
    rw [hjt]
    exact hp.stage j hj hjs
  present := by
    intro ty hty
    obtain ⟨j, hj, hjs, hjt⟩ := hp.present ty hty
    obtain ⟨j', hj', -, hstep⟩ := (hw.jobs h).kept j hj
    have ho := hstep.sameOrigin
    exact ⟨j', hj', ho.sessionId.trans hjs, ho.jobType.trans hjt⟩
  unfailed := hp.unfailed_step hw hb h
  calm := hp.calm_step hw hb h
  previous := hp.previous_step hw hu hb h hin
  result := by
    intro j' hj' hjs hc
    obtain ⟨j, hj, hji, hjs, hjt, hstep⟩ := hb.origin hw h hj' hjs
    rcases hstep.eq_or_commits hc with rfl | hcom
    · exact hp.result _ hj hjs hc
    · exact stageResult_of_commits hb hcom (World.effect_of_step h) hj' hji
  extracted := by
    intro j' hj' hjs ht hc
    obtain ⟨j, hj, hji, hjs, hjt, hstep⟩ := hb.origin hw h hj' hjs
    rcases hstep.eq_or_commits hc with rfl | hcom
    · obtain ⟨x, hx, hxs, hxj⟩ := hp.extracted _ hj hjs ht hc
      obtain ⟨x', hx', hid⟩ := World.artifact_kept hw.settled hx (hxs ▸ hb.unerased)
        (World.effect_of_step h)
      have hstep := hw.artifact_row h hx hx' hid
      exact ⟨x', hx', hstep.sessionId.trans hxs, hstep.jobId.trans hxj⟩
    · obtain ⟨x, hx, hxs, hxj⟩ := World.artifact_of_extract hcom (hjt.symm.trans ht)
        (World.effect_of_step h)
      exact ⟨x, hx, Option.some.inj (hxs.symm.trans hjs), hji ▸ hxj⟩
  content := by
    intro x' hx' hxs
    rcases hw.artifacts h x' hx' with ⟨x, hx, -, hstep⟩ | hnew
    · obtain ⟨y, hd, u, hu, hy⟩ := hp.content x hx (hstep.sessionId.symm.trans hxs)
      refine ⟨y, ?_, u, List.mem_append_left _ hu, hy⟩
      cases hstep with
      | same => exact hd
      | edited ha => exact absurd ha (hb.unrequested _)
      | approved ha => exact absurd ha (hb.unrequested _)
      | rejected ha => exact absurd ha (hb.unrequested _)
      | published => exact ⟨hd.artifactType, hd.title, hd.summary⟩
    · cases hnew with
      | @extracted k providers j x ha hcom ht hjs =>
        have hn : x' ∉ w.db.artifacts := by
          intro hx
          have hfresh := (World.fresh_of_step h).2 x'.id
            (by rw [ha]; exact List.mem_singleton.mpr rfl)
          exact hfresh (hw.artifactId x' hx)
        obtain ⟨y, hd, hy⟩ := hp.drawn hcom ht (hjs.trans (congrArg some hxs))
          (World.effect_of_step h) hx' hn
        have hy' := hy.step hw hu h hcom (by rw [ht]; exact nofun)
        exact ⟨y, hd, _, List.mem_append_right _ (List.mem_singleton.mpr rfl), hy'⟩

end Step

section Start

variable {now : Timestamp} {tr : List (Transition World Action)} {w w' : World} {user sid : Uuid}
  {ids : PipelineIds} {text : String}

/-- A session starts its pipeline in order: its stages are its only jobs, they are pending, and no
worker has one of them in its hands. -/
theorem piped_of_patch (hr : SystemRun now tr w)
    (hacc : w.Accepts (.updateSessionStatus user ids (some sid) text))
    (ht : SessionStatus.parse? text = some .processing)
    (h : w.step (.request (.updateSessionStatus user ids (some sid) text)) = some w') :
    Piped sid [] w' := by
  obtain ⟨hw, hclaimed⟩ := World.claimed_of_run hr
  obtain ⟨hf, hart, hjobs⟩ := World.pipeline_of_patch hacc ht (World.effect_of_step h)
  have bare : ∀ j ∈ w.db.jobs, j.sessionId ≠ some sid := by
    intro j hj hjs
    obtain ⟨i, hi, sid', hsid, hk⟩ := hw.jobPipeline j hj
    obtain rfl := Option.some.inj (hsid.symm.trans hjs)
    exact (hf.transcribe i hi).2 hk
  have rows {j : Job} (hj : j ∈ w'.db.jobs) (hjs : j.sessionId = some sid) :
      j = stageJob ids.transcribe w.now sid .transcribe ∨
        j = stageJob ids.summarize w.now sid .summarize ∨
        j = stageJob ids.extractArtifact w.now sid .extractArtifact := by
    rcases (hjobs j).mp hj with hj | hj
    · exact absurd hjs (bare j hj)
    · exact hj
  have pending {j : Job} (hj : j ∈ w'.db.jobs) (hjs : j.sessionId = some sid) :
      j.status = .pending := by
    rcases rows hj hjs with rfl | rfl | rfl <;> rfl
  have idle {j : Job} (hj : j ∈ w'.db.jobs) (hjs : j.sessionId = some sid) (k : WorkerId) :
      (w'.workers k).phase.job? ≠ some j.id := by
    intro hk
    rw [(World.worker_of_step h).eq_of_other nofun] at hk
    obtain ⟨r, hr, hi⟩ := hclaimed k j.id hk
    rcases rows hj hjs with rfl | rfl | rfl
    · exact (hf.transcribe r hr).1 hi
    · exact (hf.summarize r hr).1 hi
    · exact (hf.extractArtifact r hr).1 hi
  have unfinished {j : Job} (hj : j ∈ w'.db.jobs) (hjs : j.sessionId = some sid) :
      j.status ≠ .completed := by
    rw [pending hj hjs]
    exact nofun
  have none : ∀ x ∈ w'.db.artifacts, x.sessionId ≠ sid := by
    rintro x hx rfl
    obtain ⟨i, hi, hk⟩ := hw.artifactPipeline x (hart ▸ hx)
    exact (hf.transcribe i hi).2 hk
  refine ⟨?_, ?_, ?_, ?_, ?_, ?_, ?_, ?_, ?_⟩
  · intro i hi j hj his hjs ht
    rcases rows hi his with rfl | rfl | rfl <;> rcases rows hj hjs with rfl | rfl | rfl <;>
      first | rfl | cases ht
  · intro j hj hjs
    rcases rows hj hjs with rfl | rfl | rfl <;> rfl
  · intro ty hty
    cases ty with
    | transcribe => exact ⟨_, (hjobs _).mpr (.inr (.inl rfl)), rfl, rfl⟩
    | summarize => exact ⟨_, (hjobs _).mpr (.inr (.inr (.inl rfl))), rfl, rfl⟩
    | extractArtifact => exact ⟨_, (hjobs _).mpr (.inr (.inr (.inr rfl))), rfl, rfl⟩
    | publish => cases hty
    | other => cases hty
  · intro j hj hjs
    rw [pending hj hjs]
    exact nofun
  · intro j hj hjs k e queue hk
    exact idle hj hjs k (by rw [hk]; rfl)
  · rintro j hj hjs (hc | ⟨k, hk⟩)
    · exact absurd hc (unfinished hj hjs)
    · exact absurd (by rw [hk]; rfl) (idle hj hjs k)
  · intro j hj hjs hc
    exact absurd hc (unfinished hj hjs)
  · intro j hj hjs _ hc
    exact absurd hc (unfinished hj hjs)
  · intro x hx hxs
    exact absurd hxs (none x hx)

/-- From the creation of its jobs on, a session whose providers never fail has its pipeline in
order exactly when no stage is claimed before the previous one is closed. -/
theorem run_ordered_iff {tr₀ : List (Transition World Action)} {w₀ w₁ : World}
    (hr₀ : SystemRun now tr₀ w₀) (hacc : w₀.Accepts (.updateSessionStatus user ids (some sid) text))
    (ht : SessionStatus.parse? text = some .processing)
    (h₀ : w₀.step (.request (.updateSessionStatus user ids (some sid) text)) = some w₁)
    (hr : Run World.step w₁ tr w) (hb : Meets (Works sid) tr) :
    Throughout (Ordered sid) tr ↔ Meets (InOrder sid) tr := by
  refine hr.throughout_iff_meets_of (G := Piped sid) hb (piped_of_patch hr₀ hacc ht h₀) ?_
  intro tr w a w' hr hp hb h
  have hrun := (hr₀.snoc h₀).append hr
  have hw := World.sound_of_run hrun
  have hu := (World.unknownDropped_of_run (fun _ => rfl) hrun).2
  have hstep (hin : InOrder sid w a) := hp.step hw hu hb h hin
  have hin : Ordered sid tr ⟨w, a, w'⟩ → InOrder sid w a := inOrder_of_ordered hw hp hb h
  exact ⟨⟨hin, fun hc => (hstep hc).ordered⟩, fun ho => hstep (hin ho)⟩

end Start

/-! ## Replays of the pipeline -/

theorem reliable_providers : Replay.providers.Reliable where
  transcribe _ := ⟨_, rfl⟩
  summarize _ := ⟨some Replay.summary, rfl, by
    rintro _ ⟨⟩
    exact ⟨rfl, ⟨_, rfl⟩, ⟨.faqDraft, rfl⟩, ⟨_, rfl⟩⟩⟩
  extractArtifact _ _ _ := ⟨_, rfl⟩

/-- The request that starts the pipeline of session 5. -/
def Replay.processing : Request :=
  .updateSessionStatus (uuid 2) ⟨uuid 20, uuid 21, uuid 22⟩ (some (uuid 5)) "processing"

/-- A replay from the creation of the three jobs of session 5. -/
theorem exists_pipeline (acts : List Action) (P : List (Transition World Action) → World → Bool)
    (h : (execute World.step (World.init 0) Replay.recorded.dropLast).any (fun p =>
      decide (p.2.Accepts Replay.processing) && (p.2.step (.request Replay.processing)).any fun w₁ =>
        (execute World.step w₁ acts).any fun q => P q.1 q.2) = true) :
    ∃ tr₀ w₀ w₁ tr w, SystemRun 0 tr₀ w₀ ∧ w₀.Accepts Replay.processing ∧
      w₀.step (.request Replay.processing) = some w₁ ∧ Run World.step w₁ tr w ∧
      (∀ t ∈ tr, t.act ∈ acts) ∧ P tr w = true := by
  obtain ⟨tr₀, w₀, hr₀, hp⟩ := exists_run (fun _ (w₀ : World) =>
    decide (w₀.Accepts Replay.processing) && (w₀.step (.request Replay.processing)).any fun w₁ =>
      (execute World.step w₁ acts).any fun q => P q.1 q.2) h
  obtain ⟨hacc, hp⟩ := Bool.and_eq_true_iff.mp hp
  obtain ⟨w₁, h₀, hp⟩ := (Option.any_eq_true _ _).mp hp
  obtain ⟨⟨tr, w⟩, he, hp⟩ := (Option.any_eq_true _ _).mp hp
  exact ⟨tr₀, w₀, w₁, tr, w, hr₀, of_decide_eq_true hacc, h₀, run_of_execute he,
    act_mem_of_execute he, hp⟩

theorem works_of_cycle {sid : Uuid} {w : World} {a : Action} {n m : Nat}
    (h : a ∈ Replay.cycle n m) : Works sid w a := by
  simp only [Replay.cycle, List.mem_cons, List.not_mem_nil, or_false] at h
  rcases h with rfl | rfl | rfl | rfl
  · exact ⟨nofun, nofun, by rintro ⟨_, _, _, _, _, ⟨⟩, -⟩⟩
  · exact ⟨nofun, nofun, by rintro ⟨_, _, _, _, _, ⟨⟩, -⟩⟩
  · refine ⟨nofun, ?_, by rintro ⟨_, _, _, _, _, ⟨⟩, -⟩⟩
    rintro _ _ _ ⟨⟩
    exact reliable_providers
  · exact ⟨nofun, nofun, by rintro ⟨_, _, _, _, _, ⟨⟩, -⟩⟩

/-- The three stages in order, up to the completed extraction. -/
theorem ordered_pipeline : ∃ tr w, Run World.step (World.init 0) tr w ∧
    (∃ j ∈ w.db.jobs, j.jobType = .extractArtifact ∧ j.status = .completed) ∧
    ∃ tr₀ tr₁, tr = tr₀ ++ tr₁ ∧ Throughout (Ordered (Replay.uuid 5)) tr₁ := by
  obtain ⟨tr₀, w₀, w₁, tr, w, hr₀, hacc, h₀, hr, hacts, hp⟩ := exists_pipeline
    (Replay.cycle 20 30 ++ Replay.cycle 21 31 ++ Replay.cycle 22 32)
    (fun tr (w : World) =>
      decide (∃ j ∈ w.db.jobs, j.jobType = .extractArtifact ∧ j.status = .completed) &&
      decide (∀ t ∈ tr, InOrder (Replay.uuid 5) t.pre t.act)) (by decide +kernel)
  obtain ⟨hj, hin⟩ := Bool.and_eq_true_iff.mp hp
  have hin : ∀ t ∈ tr, InOrder (Replay.uuid 5) t.pre t.act := of_decide_eq_true hin
  have hb : Meets (Works (Replay.uuid 5)) tr := by
    intro t ht
    have ha := hacts t ht
    rw [List.mem_append, List.mem_append] at ha
    rcases ha with (ha | ha) | ha <;> exact works_of_cycle ha
  refine ⟨_, w, (hr₀.snoc h₀).append hr, of_decide_eq_true hj, _, tr, rfl, ?_⟩
  exact (run_ordered_iff hr₀ hacc (by decide) h₀ hr hb).mpr hin

/-- One poll cycle in which the job `n` fails although the providers are reliable. -/
def missedCycle (n m : Nat) : List Action :=
  open Replay in
  [.beginCycle 0, .claim 0 (uuid n) [], .runHandler 0 providers (uuid m), .markFailed 0, .endCycle 0]

theorem works_of_missedCycle {sid : Uuid} {w : World} {a : Action} {n m : Nat}
    (h : a ∈ missedCycle n m) : Works sid w a := by
  by_cases ha : a = .markFailed 0
  · rw [ha]
    exact ⟨nofun, nofun, by rintro ⟨_, _, _, _, _, ⟨⟩, -⟩⟩
  · refine works_of_cycle (n := n) (m := m) ?_
    simp only [missedCycle, List.mem_cons, List.not_mem_nil, or_false] at h
    simp only [Replay.cycle, List.mem_cons, List.not_mem_nil, or_false]
    tauto

/-- The summary runs before the transcription and fails; the extraction then falls back to a
default summary. -/
def summaryFirst : List Action :=
  missedCycle 21 30 ++ Replay.cycle 20 31 ++ Replay.cycle 22 32

theorem not_ordered : ¬ ∀ now tr₀ w₀ user ids text sid w₁ tr w, SystemRun now tr₀ w₀ →
    w₀.Accepts (.updateSessionStatus user ids (some sid) text) →
    SessionStatus.parse? text = some .processing →
    w₀.step (.request (.updateSessionStatus user ids (some sid) text)) = some w₁ →
    Run World.step w₁ tr w → Meets (Works sid) tr → Throughout (Ordered sid) tr := by
  intro hall
  obtain ⟨tr₀, w₀, w₁, tr, w, hr₀, hacc, h₀, hr, hacts, hp⟩ := exists_pipeline summaryFirst
    (fun tr _ => decide (∃ t ∈ tr, ∃ j ∈ t.post.db.jobs,
      j.sessionId = some (Replay.uuid 5) ∧ j.status = .failed)) (by decide +kernel)
  have hb : Meets (Works (Replay.uuid 5)) tr := by
    intro t ht
    have ha := hacts t ht
    rw [summaryFirst, List.mem_append, List.mem_append] at ha
    rcases ha with (ha | ha) | ha
    · exact works_of_missedCycle ha
    · exact works_of_cycle ha
    · exact works_of_cycle ha
  have ho := hall 0 tr₀ w₀ _ _ _ _ w₁ tr w hr₀ hacc (by decide) h₀ hr hb
  obtain ⟨t, ht, j, hj, hjs, hf⟩ := of_decide_eq_true hp
  obtain ⟨n, hn, rfl⟩ := List.getElem_of_mem ht
  exact (ho n hn).unfailed j hj hjs hf

end AiBadge
