import AiBadge.System.Ledger
import AiBadge.System.Transition

/-! # Every job has one identity

In every committed state, concurrent or not, a session has at most one transcription and
one summary job and an artifact at most one publish job. Keys of different purposes never
coincide, so no request is refused because of another job's key.
-/

namespace AiBadge

open Lib Prog DbM

/-- A step of the system, or a call of `transition_job`. -/
inductive Call where
  | system (a : Action)
  | transition (id job : Uuid) (newStatus : JobStatus) (outputPayload : Option Json)
      (errorMessage : Option String)

namespace World

/-- A transaction that loads a job and calls `transition_job` on it. -/
def transition (w : World) (id : Uuid) (j : Job) (newStatus : JobStatus)
    (outputPayload : Option Json) (errorMessage : Option String) : World :=
  match transitionJob id w.now j newStatus outputPayload errorMessage (Tx.start w.db w.files) with
  | (.ok _, t) => { w with db := t.commit.committed, issued := w.issued ++ [id] }
  | (.error _, t) => { w with db := t.rollback.committed, issued := w.issued ++ [id] }

def perform (w : World) : Call → Option World
  | .system a => w.step a
  | .transition id job newStatus outputPayload errorMessage =>
    if id ∈ w.issued then none
    else (w.db.job? job).map fun j => w.transition id j newStatus outputPayload errorMessage

/-- The ledger has the committed rows of the world, and no transaction is open. -/
structure Tracks (w : World) (L : Ledger) : Prop where
  settled : w.Settled
  jobs : L.jobs = w.db.jobs
  queued : L.queued = fun _ => []
  owner : ∀ x ∈ w.db.artifacts, L.owner x.id = some x.sessionId
  fresh : ∀ aid, aid ∉ w.issued → L.owner aid = none

theorem tracks_init (now : Timestamp) : (World.init now).Tracks .empty where
  settled := settled_init now
  jobs := rfl
  queued := rfl
  owner x hx := absurd hx (Table.not_mem_empty x)
  fresh _ _ := rfl

end World

namespace Ledger

open Relation

variable {L : Ledger}

/-- A transaction with nothing queued but `rows` inserts one more row. -/
theorem insert_queue {rows : List Job} {c : Creation} (hq : L.queued = fun _ => [])
    (hx : ∀ x, c.artifact? = some x → L.owner x.id = some x.sessionId)
    (hf : ∀ r ∈ L.jobs, r.id ≠ c.row.id ∧ r.idempotencyKey ≠ c.row.idempotencyKey)
    (hr : ∀ r ∈ rows, r.id ≠ c.row.id ∧ r.idempotencyKey ≠ c.row.idempotencyKey) :
    (L.queue 0 rows).Step (L.queue 0 (rows ++ [c.row])) := by
  have hfree : (L.queue 0 rows).Free c.row := by
    refine ⟨hf, fun k r hk => ?_⟩
    rcases mem_queue.mp hk with ⟨-, hk⟩ | ⟨-, hk⟩
    · exact hr r hk
    · rw [hq] at hk
      exact absurd hk List.not_mem_nil
  have hs := Step.inserted (L := L.queue 0 rows) (k := 0) hx hfree
  simpa [queue] using hs

theorem queue_nil (hq : L.queued = fun _ => []) : L.queue 0 [] = L := by
  rw [queue, hq, Function.update_eq_self_iff.mpr rfl, ← hq]

/-- The rows of a transaction become committed in one step. -/
theorem commit_queue {rows : List Job} (hq : L.queued = fun _ => []) :
    (L.queue 0 rows).Step { L with jobs := rows.foldl Table.insert L.jobs } := by
  have hs := Step.committed (L := L.queue 0 rows) (k := 0)
  have he : (L.queue 0 rows).queue 0 [] = L := by
    rw [queue, queue, Function.update_idem]
    exact queue_nil hq
  rw [he] at hs
  simpa [queue] using hs

end Ledger

namespace World

open Relation Ledger

variable {w w' : World} {L : Ledger}

/-- One creation in a transaction of its own. -/
theorem Tracks.create {c : Creation} (h : w.Tracks L)
    (hx : ∀ x, c.artifact? = some x → x ∈ w.db.artifacts) (hf : w.db.KeyFree c.row) :
    ReflTransGen Step L { L with jobs := w.db.jobs.insert c.row } := by
  have hins : (L.queue 0 []).Step (L.queue 0 ([] ++ [c.row])) := by
    apply insert_queue h.queued
    · intro x hc
      exact h.owner x (hx x hc)
    · rw [h.jobs]
      exact hf
    · exact fun r hr => absurd hr List.not_mem_nil
  rw [queue_nil h.queued] at hins
  have hcom : (L.queue 0 [c.row]).Step { L with jobs := L.jobs.insert c.row } :=
    commit_queue h.queued
  rw [h.jobs] at hcom
  exact (ReflTransGen.single hins).tail hcom

/-- The three stages in one transaction. -/
theorem Tracks.pipeline {ids : PipelineIds} {sid : Uuid} (h : w.Tracks L)
    (hf : w.db.PipelineFree ids w.now sid) :
    ReflTransGen Step L { L with jobs := (addPipeline ids w.now sid w.db).jobs } := by
  let c₁ := Creation.stage ids.transcribe w.now (some sid) .transcribe
  let c₂ := Creation.stage ids.summarize w.now (some sid) .summarize
  let c₃ := Creation.stage ids.extractArtifact w.now (some sid) .extractArtifact
  have h₁ : (L.queue 0 []).Step (L.queue 0 [c₁.row]) := by
    apply insert_queue (c := c₁) h.queued
    · rintro _ ⟨⟩
    · rw [h.jobs]
      exact hf.transcribe
    · exact fun r hr => absurd hr List.not_mem_nil
  have h₂ : (L.queue 0 [c₁.row]).Step (L.queue 0 [c₁.row, c₂.row]) := by
    apply insert_queue (c := c₂) h.queued
    · rintro _ ⟨⟩
    · rw [h.jobs]
      exact hf.summarize
    · intro r hr
      obtain rfl := List.mem_singleton.mp hr
      exact ⟨hf.ne₁, stageKey_ne (a := .transcribe) (b := .summarize) nofun⟩
  have h₃ : (L.queue 0 [c₁.row, c₂.row]).Step (L.queue 0 [c₁.row, c₂.row, c₃.row]) := by
    apply insert_queue (c := c₃) h.queued
    · rintro _ ⟨⟩
    · rw [h.jobs]
      exact hf.extractArtifact
    · intro r hr
      rcases List.mem_cons.mp hr with rfl | hr
      · exact ⟨hf.ne₂, stageKey_ne (a := .transcribe) (b := .extractArtifact) nofun⟩
      · obtain rfl := List.mem_singleton.mp hr
        exact ⟨hf.ne₃, stageKey_ne (a := .summarize) (b := .extractArtifact) nofun⟩
  have hcom : (L.queue 0 [c₁.row, c₂.row, c₃.row]).Step _ := commit_queue h.queued
  rw [queue_nil h.queued] at h₁
  rw [h.jobs] at hcom
  rw [addPipeline_jobs]
  exact (((ReflTransGen.single h₁).tail h₂).tail h₃).tail hcom

theorem Tracks.request {r : Request} {db : Db} (h : w.Tracks L) (he : RequestEffect w r db) :
    ReflTransGen Step L { L with jobs := db.jobs } := by
  have keep {db : Db} (hj : db.jobs = w.db.jobs) : ReflTransGen Step L { L with jobs := db.jobs } := by
    rw [hj, ← h.jobs]
  cases he with
  | register _ hj => exact keep hj
  | startProcessing _ _ _ _ _ hf =>
    have hp := h.pipeline hf
    rw [addPipeline_jobs] at hp ⊢
    exact hp
  | @reject user ids x comment hx hf =>
    apply h.create (c := .retry ids w.now x comment) _ hf
    rintro _ ⟨⟩
    exact hx
  | @publishArtifact user uuid4 x s hx _ _ _ _ hf =>
    apply h.create (c := .publish uuid4 w.now x) _ hf
    rintro _ ⟨⟩
    exact hx
  | approveAll => exact keep (advanceSession_jobs _ _)
  | _ => exact keep rfl

/-- The jobs of a step, as steps of the ledger. -/
theorem Tracks.jobs_path {a : Action} {db : Db} {files : Files} (h : w.Tracks L)
    (he : w.Effect a db files) : ReflTransGen Step L { L with jobs := db.jobs } := by
  have update (ha : ∀ r, a ≠ .request r) : ReflTransGen Step L { L with jobs := db.jobs } := by
    have hev := jobs_of_effect h.settled he
    rw [← h.jobs] at hev
    refine .single (.updated (hev.mono (fun _ _ hs => hs.sameOrigin) fun r hn => ?_))
    cases hn with
    | stage hr => exact ha _ hr
    | retry hr => exact ha _ hr
    | publish hr => exact ha _ hr
  cases he with
  | refused => rw [← h.jobs]
  | served _ he => exact h.request he
  | silent hs =>
    apply update
    rintro r rfl
    exact hs
  | _ => exact update (by rintro _ ⟨⟩)

theorem Tracks.step {a : Action} (h : w.Tracks L) (hs : w.step a = some w') :
    ∃ L', ReflTransGen Step L L' ∧ w'.Tracks L' := by
  have he := effect_of_step hs
  have hfrom := artifacts_of_effect h.settled he
  have hpath := h.jobs_path he
  have hset := settled_step h.settled hs
  have hissued := issued_of_step hs
  have old {x : Artifact} (hx : x ∈ w.db.artifacts) {x' : Artifact} (hi : x'.id = x.id)
      (hstep : w.ArtifactStep a x x') : L.owner x'.id = some x'.sessionId := by
    rw [hi, hstep.sessionId]
    exact h.owner x hx
  by_cases hnew : ∃ x ∈ w'.db.artifacts, w.ArtifactNew a x
  · obtain ⟨x, hx, hn⟩ := hnew
    have draws {y : Artifact} (hy : w.ArtifactNew a y) : a.draws = [y.id] := by
      cases hy with
      | extracted ha => rw [ha]; rfl
    have hxi : x.id ∉ w.issued :=
      (fresh_of_step hs).2 x.id (by rw [draws hn]; exact List.mem_singleton.mpr rfl)
    have hnone : L.owner x.id = none := h.fresh x.id hxi
    have hown : Step { L with jobs := w'.db.jobs }
        { L with jobs := w'.db.jobs, owner := Function.update L.owner x.id (some x.sessionId) } :=
      .extracted hnone
    refine ⟨_, hpath.tail hown, hset, rfl, h.queued, ?_, ?_⟩
    · intro y hy
      rcases hfrom y hy with ⟨y₀, hy₀, hi, hstep⟩ | hny
      · have ho := old hy₀ hi hstep
        have hne : y.id ≠ x.id := by
          intro hid
          rw [hid, hnone] at ho
          cases ho
        exact (Function.update_of_ne hne _ _).trans ho
      · have hid : y.id = x.id := List.singleton_inj.mp ((draws hny).symm.trans (draws hn))
        obtain rfl := Table.eq_of_key_eq hy hx hid
        exact Function.update_self _ _ _
    · intro aid ha
      rw [hissued, draws hn, List.mem_append, not_or, List.mem_singleton] at ha
      exact (Function.update_of_ne ha.2 _ _).trans (h.fresh aid ha.1)
  · refine ⟨_, hpath, hset, rfl, h.queued, ?_, ?_⟩
    · intro y hy
      rcases hfrom y hy with ⟨y₀, hy₀, hi, hstep⟩ | hny
      · exact old hy₀ hi hstep
      · exact absurd ⟨y, hy, hny⟩ hnew
    · intro aid ha
      rw [hissued, List.mem_append, not_or] at ha
      exact h.fresh aid ha.1

section Transition

variable {id : Uuid} {now : Timestamp} {j : Job} {st : JobStatus} {out : Option Json}
  {err : Option String}

theorem Tracks.transition (h : w.Tracks L) :
    ∃ L', ReflTransGen Step L L' ∧ (w.transition id j st out err).Tracks L' := by
  have update :
      L.Step { L with jobs := (w.db.setJob j.id (Job.withTransition w.now st out err)).jobs } := by
    apply Step.updated
    rw [h.jobs]
    refine .update (by simp) fun r _ => ?_
    split
    · exact withTransition_sameOrigin _ _ _ _ _
    · constructor <;> rfl
  have done {db : Db} {L' : Ledger} (hp : ReflTransGen Step L L') (ha : db.artifacts = w.db.artifacts)
      (hL : L' = { L with jobs := db.jobs }) :
      ∃ L', ReflTransGen Step L L' ∧ { w with db := db, issued := w.issued ++ [id] }.Tracks L' := by
    subst hL
    refine ⟨_, hp, h.settled, rfl, h.queued, ?_, fun aid hn => h.fresh aid fun hi => hn ?_⟩
    · intro x hx
      exact h.owner x (ha ▸ hx)
    · exact List.mem_append_left _ hi
  unfold World.transition
  split
  next u t ht =>
    rcases returns_transitionJob (show Returns _ _ _ _ from ht) with hv | ⟨stage, hf, hv⟩
    · exact done (.single update) (by rw [Tx.committed_commit, hv]; rfl)
        (by rw [Tx.committed_commit, hv]; rfl)
    · have h₁ : World.Tracks { w with db := w.db.setJob j.id (Job.withTransition w.now st out err) }
          { L with jobs := (w.db.setJob j.id (Job.withTransition w.now st out err)).jobs } :=
        ⟨h.settled, rfl, h.queued, h.owner, h.fresh⟩
      have hc := h₁.create (c := .stage id w.now j.sessionId stage) (by rintro _ ⟨⟩) hf
      exact done (hc.head update) (by rw [Tx.committed_commit, hv]; rfl)
        (by rw [Tx.committed_commit, hv]; rfl)
  next e t ht =>
    have hkeep : Keeps Tx.committed (transitionJob id w.now j st out err) := keeps_transitionJob
    have hk := hkeep (Tx.start w.db w.files)
    rw [ht] at hk
    have hdb : t.rollback.committed = w.db := hk
    exact done .refl (by rw [hdb]) (by rw [hdb, ← h.jobs])

end Transition

theorem Tracks.perform {c : Call} (h : w.Tracks L) (hs : w.perform c = some w') :
    ∃ L', ReflTransGen Step L L' ∧ w'.Tracks L' := by
  cases c with
  | system a => exact h.step hs
  | transition id job st out err =>
    rw [World.perform] at hs
    split at hs
    · cases hs
    · obtain ⟨j, -, rfl⟩ := Option.map_eq_some_iff.mp hs
      exact h.transition

/-- The rows of every run are the committed rows of a reachable ledger. -/
theorem reachable_of_run {now : Timestamp} {tr : List (Transition World Call)}
    (hr : Run World.perform (World.init now) tr w) : ∃ L, Ledger.Reachable L ∧ w.Tracks L := by
  apply hr.invariant (I := fun w => ∃ L, Ledger.Reachable L ∧ w.Tracks L)
  · exact ⟨.empty, .refl, tracks_init now⟩
  · rintro w c w' ⟨L, hL, hw⟩ hs
    obtain ⟨L', hp, hw'⟩ := hw.perform hs
    exact ⟨L', hL.trans hp, hw'⟩

end World

/-- What the keys promise about a committed state. -/
structure Db.Identified (db : Db) : Prop where
  stage : ∀ ty ∈ [JobType.transcribe, .summarize], ∀ i ∈ db.jobs, ∀ j ∈ db.jobs, i.jobType = ty →
    j.jobType = ty → i.sessionId = j.sessionId → i = j
  publish : ∀ i ∈ db.jobs, ∀ j ∈ db.jobs, i.jobType = .publish → j.jobType = .publish →
    i.inputPayload.artifactId = j.inputPayload.artifactId → i = j
  /-- A refused insert, after others of its transaction, met its own id or its own purpose. -/
  refused : ∀ (j : Job) (i : Identity) (t t' : Tx Db Files) (e : Exn), j.Means i →
    (∀ r ∈ t.view.jobs, r ∈ db.jobs ∨ ∃ i', r.Means i') → (insertJob j).Raises t e t' →
    ∃ r ∈ t.view.jobs, r.id = j.id ∨ r.Means i
  transcript : ∀ (job : Job) (files : Files) (e : Exn) (t : Tx Db Files),
    (getTranscript job).Raises (Tx.start db files) e t → e ≠ .multipleResultsFound
  summary : ∀ (sid : Option Uuid) (files : Files) (e : Exn) (t : Tx Db Files),
    (getSummarizeResult sid).Raises (Tx.start db files) e t → e ≠ .multipleResultsFound

section Identified

variable {L : Ledger} {db : Db}

theorem Job.Means.unique {j : Job} {a b : Identity} (ha : j.Means a) (hb : j.Means b) : a = b :=
  Identity.key_inj (ha.key.symm.trans hb.key)

/-- Two committed rows for one purpose are one row. -/
theorem Ledger.Keyed.eq_of_means (h : L.Keyed) {i j : Job} {a : Identity} (hi : i ∈ L.jobs)
    (hj : j ∈ L.jobs) (hia : i.Means a) (hja : j.Means a) : i = j :=
  h.distinct i hi j hj (hia.key.trans hja.key.symm)

theorem Ledger.Keyed.stage_unique (h : L.Keyed) {st : Stage} (hst : st ≠ .extractArtifact)
    {i j : Job} (hi : i ∈ L.jobs) (hj : j ∈ L.jobs) (hit : i.jobType = st.jobType)
    (hjt : j.jobType = st.jobType) (hs : i.sessionId = j.sessionId) : i = j := by
  have means {r : Job} (hr : r ∈ L.jobs) (ht : r.jobType = st.jobType) :
      r.Means (.stage r.sessionId st) := by
    obtain ⟨a, ha, -⟩ := h.named r (.inl hr)
    have hta : a.jobType = st.jobType := ha.jobType.symm.trans ht
    cases a with
    | stage sid st' =>
      have hst' : st' = st := by
        revert hta
        cases st' <;> cases st <;> simp [Identity.jobType, Stage.jobType]
      rw [show r.sessionId = sid from ha.sessionId, ← hst']
      exact ha
    | retry => cases st <;> simp_all [Identity.jobType, Stage.jobType]
    | publish => cases st <;> simp [Identity.jobType, Stage.jobType] at hta
  exact h.eq_of_means hi hj (means hi hit) (hs ▸ means hj hjt)

theorem Ledger.Keyed.publish_unique (h : L.Keyed) {i j : Job} (hi : i ∈ L.jobs) (hj : j ∈ L.jobs)
    (hit : i.jobType = .publish) (hjt : j.jobType = .publish)
    (ha : i.inputPayload.artifactId = j.inputPayload.artifactId) : i = j := by
  have means {r : Job} (hr : r ∈ L.jobs) (ht : r.jobType = .publish) :
      ∃ sid aid, r.Means (.publish sid aid) ∧ L.owner aid = some sid := by
    obtain ⟨a, ha, ho⟩ := h.named r (.inl hr)
    have hta : a.jobType = .publish := ha.jobType.symm.trans ht
    cases a with
    | stage sid st => cases st <;> cases hta
    | retry => cases hta
    | publish sid aid => exact ⟨sid, aid, ha, ho aid rfl⟩
  obtain ⟨s₁, a₁, hm₁, ho₁⟩ := means hi hit
  obtain ⟨s₂, a₂, hm₂, ho₂⟩ := means hj hjt
  -- the artifact fixes the session of the key
  obtain rfl : a₁ = a₂ := Option.some.inj (hm₁.artifactId.symm.trans (ha.trans hm₂.artifactId))
  obtain rfl : s₁ = s₂ := Option.some.inj (ho₁.symm.trans ho₂)
  exact h.eq_of_means hi hj hm₁ hm₂

theorem raises_scalarOneOrNone {α : Type} {o : Option α} {e : Exn} {t t' : Tx Db Files} :
    ¬ (scalarOneOrNone o.toList).Raises t e t' := by
  cases o <;> exact raises_pure

theorem raises_getTranscript {job : Job} {files : Files} {e : Exn} {t : Tx Db Files} {o : Option Job}
    (ho : completedJobs db job.sessionId .transcribe = o.toList)
    (h : (getTranscript job).Raises (Tx.start db files) e t) : e ≠ .multipleResultsFound := by
  simp only [getTranscript, pyGet, raises_bind, raises_read, returns_read, raises_require,
    raises_ensure, raises_pure, false_or, Tx.view_start] at h
  obtain ⟨_, _, ⟨rfl, rfl⟩, h | ⟨_, _, -, ⟨-, rfl, -⟩ | ⟨_, _, -, ⟨-, rfl, -⟩ | h⟩⟩⟩ := h
  · rw [ho] at h
    exact absurd h raises_scalarOneOrNone
  · rintro ⟨⟩
  · rintro ⟨⟩
  · simp at h

theorem raises_getSummarizeResult {sid : Option Uuid} {files : Files} {e : Exn} {t : Tx Db Files}
    {o : Option Job} (ho : completedJobs db sid .summarize = o.toList)
    (h : (getSummarizeResult sid).Raises (Tx.start db files) e t) : e ≠ .multipleResultsFound := by
  simp only [getSummarizeResult, raises_bind, raises_read, returns_read, raises_pure, false_or,
    Tx.view_start] at h
  obtain ⟨_, _, ⟨rfl, rfl⟩, h | ⟨_, _, -, h⟩⟩ := h
  · rw [ho] at h
    exact absurd h raises_scalarOneOrNone
  · exact h.elim

theorem raises_insertJob {j : Job} {t t' : Tx Db Files} {e : Exn} (h : (insertJob j).Raises t e t') :
    ∃ r ∈ t.view.jobs, r.id = j.id ∨ r.idempotencyKey = j.idempotencyKey := by
  simp only [insertJob, raises_bind, raises_read, returns_read, raises_ensure, raises_write,
    false_or] at h
  obtain ⟨_, _, ⟨rfl, rfl⟩, ⟨hc, -, -⟩ | ⟨_, _, -, ⟨⟩⟩⟩ := h
  simpa using hc

/-- What is keyed is identified, whatever the other tables hold. -/
theorem Ledger.Keyed.identified (h : L.Keyed) (hj : db.jobs = L.jobs) : db.Identified := by
  have stage (st : Stage) (hst : st ≠ .extractArtifact) : ∀ i ∈ db.jobs, ∀ j ∈ db.jobs,
      i.jobType = st.jobType → j.jobType = st.jobType → i.sessionId = j.sessionId → i = j := by
    rw [hj]
    intro i hi j hj hit hjt hs
    exact h.stage_unique hst hi hj hit hjt hs
  constructor
  · intro ty hty
    rcases List.mem_pair.mp hty with rfl | rfl
    · exact stage .transcribe nofun
    · exact stage .summarize nofun
  · rw [hj]
    intro i hi j hj hit hjt ha
    exact h.publish_unique hi hj hit hjt ha
  · intro j i t t' e hm hv hraise
    obtain ⟨r, hr, hid | hk⟩ := raises_insertJob hraise
    · exact ⟨r, hr, .inl hid⟩
    have named : ∃ i', r.Means i' := by
      rcases hv r hr with hr | hn
      · obtain ⟨i', hi', -⟩ := h.named r (.inl (hj ▸ hr))
        exact ⟨i', hi'⟩
      · exact hn
    obtain ⟨i', hi'⟩ := named
    obtain rfl := Identity.key_inj (hi'.key.symm.trans (hk.trans hm.key))
    exact ⟨r, hr, .inr hi'⟩
  · intro job files e t hraise
    obtain ⟨o, ho⟩ := completedJobs_of_unique fun i hi j hj hit hjt his hjs =>
      stage .transcribe nofun i hi j hj hit hjt (his.trans hjs.symm)
    exact raises_getTranscript ho hraise
  · intro sid files e t hraise
    obtain ⟨o, ho⟩ := completedJobs_of_unique fun i hi j hj hit hjt his hjs =>
      stage .summarize nofun i hi j hj hit hjt (his.trans hjs.symm)
    exact raises_getSummarizeResult ho hraise

end Identified

/-- No two purposes share a key, and every committed state of every run is identified: of the
runs of the system and `transition_job`, and of all interleavings of concurrent transactions. -/
theorem identified_of_runs {now : Timestamp} {tr : List (Transition World Call)} {w : World}
    (hr : Run World.perform (World.init now) tr w) {L : Ledger} (hL : L.Reachable) :
    Function.Injective Identity.key ∧ w.db.Identified ∧
      ∀ db : Db, db.jobs = L.jobs → db.Identified := by
  refine ⟨fun i j => Identity.key_inj, ?_, fun db hj => hL.keyed.identified hj⟩
  obtain ⟨L', hL', ht⟩ := World.reachable_of_run hr
  exact hL'.keyed.identified ht.jobs.symm

open Replay

/-- A publication whose first stage `transition_job` completes once more. -/
def transitioned : List Call :=
  published.map .system ++ [.transition (uuid 70) (uuid 20) .completed none none]

theorem identified_transitioned : ∃ tr w, ∃ L : Ledger, Run World.perform (World.init 0) tr w ∧
    w.db.jobs.rows.length = 4 ∧ w.db.Identified ∧ L.Reachable ∧ L.jobs.rows.length = 1 ∧
      ∀ db : Db, db.jobs = L.jobs → db.Identified := by
  obtain ⟨tr, w, hr, hp⟩ := exists_run
    (fun (_ : List (Transition World Call)) (w : World) => decide (w.db.jobs.rows.length = 4))
    (show (execute World.perform (World.init 0) transitioned).any _ = true by decide +kernel)
  let c := Creation.stage (uuid 20) 0 (some (uuid 5)) .transcribe
  have hins : (Ledger.empty.queue 0 []).Step (Ledger.empty.queue 0 [c.row]) := by
    apply Ledger.insert_queue (c := c) rfl
    · rintro _ ⟨⟩
    · exact fun r hr => absurd hr (Table.not_mem_empty r)
    · exact fun r hr => absurd hr List.not_mem_nil
  rw [Ledger.queue_nil rfl] at hins
  have hL : Ledger.Reachable _ := (Relation.ReflTransGen.single hins).tail (Ledger.commit_queue rfl)
  exact ⟨tr, w, _, hr, of_decide_eq_true hp, (identified_of_runs hr hL).2.1, hL, rfl,
    (identified_of_runs hr hL).2.2⟩

end AiBadge
