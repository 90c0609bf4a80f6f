import AiBadge.System.RequestEffect

/-! # What a worker commits

The effects of the four job handlers and of one deletion job, and what a handler
that raises leaves in the session of its poll cycle.
-/

namespace AiBadge

open Lib Prog DbM SessionStatus

/-- What a column holds of a transcript. -/
theorem TranscriptResult.stored_eq {r : TranscriptResult} {payload : Json}
    (h : r.toJson = some payload) : ∃ segments, payload = .obj [("transcript", .str r.transcript),
      ("segments", .arr segments), ("language", .str r.language)] := by
  unfold toJson at h
  split at h
  · obtain ⟨segments, -, rfl⟩ := Option.map_eq_some_iff.mp h
    exact ⟨segments, rfl⟩
  · cases h

/-- `_get_transcript` finds the transcript `x`. -/
def Transcribed (db : Db) (sessionId : Option Uuid) (x : Json) : Prop :=
  ∃ j payload, completedJobs db sessionId .transcribe = [j] ∧ j.payload? = some payload ∧
    payload.isObj = true ∧ x = (payload.get? "transcript").getD (.str "")

/-- `_get_summarize_result` finds the result `x`. -/
def Summarized (db : Db) (sessionId : Option Uuid) (x : Json) : Prop :=
  completedJobs db sessionId .summarize = [] ∧ x = defaultSummary ∨
    ∃ j, completedJobs db sessionId .summarize = [j] ∧ x = j.payload?.getD defaultSummary

/-- The one-row lookup of a stage finds at most one row. -/
theorem completedJobs_of_unique {db : Db} {ty : JobType} {sid : Option Uuid}
    (h : ∀ i ∈ db.jobs, ∀ j ∈ db.jobs, i.jobType = ty → j.jobType = ty → i.sessionId = sid →
      j.sessionId = sid → i = j) : ∃ o : Option Job, completedJobs db sid ty = o.toList := by
  have hn : (completedJobs db sid ty).Nodup :=
    List.filter_sublist.nodup (List.Nodup.of_map Job.id db.jobs.nodup)
  have sel {i : Job} (hi : i ∈ completedJobs db sid ty) :
      i ∈ db.jobs ∧ i.sessionId = sid ∧ i.jobType = ty := by
    obtain ⟨hm, hp⟩ := Table.mem_select.mp hi
    simp only [Bool.and_eq_true, decide_eq_true_eq] at hp
    exact ⟨hm, hp.1⟩
  generalize completedJobs db sid ty = l at hn sel
  rcases l with _ | ⟨i, _ | ⟨j, l⟩⟩
  · exact ⟨none, rfl⟩
  · exact ⟨some i, rfl⟩
  · obtain ⟨hi, his, hit⟩ := sel List.mem_cons_self
    obtain ⟨hj, hjs, hjt⟩ := sel (List.mem_cons_of_mem _ List.mem_cons_self)
    obtain rfl := h i hi j hj hit hjt his hjs
    exact absurd List.mem_cons_self (List.nodup_cons.mp hn).1

/-- The lookup of a stage that is completed once. -/
theorem completedJobs_of_completed {db : Db} {i : Job}
    (h : ∀ j ∈ db.jobs, ∀ k ∈ db.jobs, j.jobType = i.jobType → k.jobType = i.jobType →
      j.sessionId = i.sessionId → k.sessionId = i.sessionId → j = k) (hi : i ∈ db.jobs)
    (hc : i.status = .completed) : completedJobs db i.sessionId i.jobType = [i] := by
  obtain ⟨o, ho⟩ := completedJobs_of_unique h
  have hm : i ∈ completedJobs db i.sessionId i.jobType := Table.mem_select.mpr ⟨hi, by simp [hc]⟩
  rw [ho, Option.mem_toList] at hm
  rw [ho, hm]
  rfl

/-- The writes of `handle_extract_artifact_job`. -/
def extractWrites (j : Job) (a : Artifact) (output : Json) (db : Db) : Db :=
  ((db.addArtifact a).setSession a.sessionId (Session.withStatus needsReview)
    (Session.withStatus_id needsReview)).setJob j.id (Job.withOutput output)
    (Job.withOutput_id output)

@[simp] theorem extractWrites_sessions (j : Job) (a : Artifact) (output : Json) (db : Db) :
    (extractWrites j a output db).sessions =
      db.sessions.update (fun s => s.id = a.sessionId) (Session.withStatus needsReview) := rfl

@[simp] theorem extractWrites_artifacts (j : Job) (a : Artifact) (output : Json) (db : Db) :
    (extractWrites j a output db).artifacts = db.artifacts.insert a := rfl

/-- The committed writes of a handler call, with what it found before them. -/
inductive HandlerCommit (db : Db) (input : HandlerInput) (j : Job) : Db → Prop where
  | transcribe {s : Session} {key : AudioKey} {r : TranscriptResult} {payload : Json} :
      j.jobType = .transcribe → s ∈ db.sessions → j.sessionId = some s.id →
      s.audioKey = some key → input.providers.transcribe key = .ok r → r.toJson = some payload →
      HandlerCommit db input j (db.setJob j.id (Job.withOutput payload))
  | summarize {x result : Json} :
      j.jobType = .summarize → Transcribed db j.sessionId x →
      input.providers.complete (.summarize x) = .ok (some result) →
      HandlerCommit db input j (db.setJob j.id (Job.withOutput result))
  | extractArtifact {x summary : Json} {a : Artifact} {title : Json} :
      j.jobType = .extractArtifact → Transcribed db j.sessionId x →
      Summarized db j.sessionId summary → summary.isObj = true →
      (summary.get? "artifact_type").getD (.str "meeting_minutes") = .str a.artifactType.value →
      title = (summary.get? "title").getD (.str "Untitled") →
      (∃ text : Option String, title = (text.map Json.str).getD .null ∧ a.title = text.map clipTitle) →
      (summary.get? "summary").getD (.str "") = (a.summary.map Json.str).getD .null →
      input.providers.complete (.extractArtifact x a.artifactType title) = .ok (some a.content) →
      j.sessionId = some a.sessionId → a.id = input.artifactId → a.jobId = some j.id →
      a.status = .pendingReview → (∀ b ∈ db.artifacts, b.id ≠ a.id) → a.publishedAt = none →
      HandlerCommit db input j (extractWrites j a (.obj [("artifact_type",
        .str a.artifactType.value), ("title", title)]) db)
  | publishMissing {aid : Uuid} :
      j.jobType = .publish → j.inputPayload.artifactId = some aid → db.artifact? aid = none →
      HandlerCommit db input j
        (db.setJob j.id (Job.withOutput (.obj [("feishu_doc_id", .str (feishuDocId aid))])))
  | publish {a : Artifact} {s : Session} :
      j.jobType = .publish → j.inputPayload.artifactId = some a.id → a ∈ db.artifacts →
      s ∈ db.sessions → s.id = a.sessionId → (canTransition s.status published).1 = true →
      HandlerCommit db input j
        (((markArtifact input.now a.id db).setSession s.id
          (Session.withStatus published)).addEvent (sessionEvent s.id published) |>.setJob j.id
            (Job.withOutput (.obj [("feishu_doc_id", .str (feishuDocId a.id))])))

/-- What a handler that raises before its commit leaves flushed. -/
inductive HandlerResidue (db : Db) (input : HandlerInput) (j : Job) : List (Db → Db) → Prop where
  | nothing : HandlerResidue db input j []
  | marked {a : Artifact} :
      j.jobType = .publish → j.inputPayload.artifactId = some a.id → a ∈ db.artifacts →
      (∀ s ∈ db.sessions, s.id = a.sessionId → (canTransition s.status published).1 = false) →
      HandlerResidue db input j [markArtifact input.now a.id]

/-- A handler call ends after its commit, with nothing flushed, or raises before it. -/
inductive HandlerEffect (n : Nat) (db : Db) (files : Files) (input : HandlerInput) (j : Job) :
    Except Exn Unit → Tx Db Files → Prop where
  | committed {r : Except Exn Unit} {db' : Db} : HandlerCommit db input j db' →
      HandlerEffect n db files input j r
        { committed := db', pending := [], outside := files, commits := n + 1 }
  | raised {e : Exn} {pending : List (Db → Db)} : HandlerResidue db input j pending →
      HandlerEffect n db files input j (.error e)
        { committed := db, pending, outside := files, commits := n }

section Handlers

variable {n : Nat} {db : Db} {files : Files} {input : HandlerInput} {j : Job} {t t₀ : Tx Db Files}

@[simp] theorem returns_pyGet {payload : Json} {key : String} {d x : Json} :
    (pyGet payload key d).Returns t₀ x t ↔
      (payload.isObj = true ∧ x = (payload.get? key).getD d) ∧ t = t₀ := by
  simp only [pyGet, returns_bind, returns_ensure, returns_pure]
  constructor
  · rintro ⟨_, _, ⟨ho, rfl⟩, rfl, rfl⟩
    exact ⟨⟨ho, rfl⟩, rfl⟩
  · rintro ⟨⟨ho, rfl⟩, rfl⟩
    exact ⟨(), _, ⟨ho, rfl⟩, rfl, rfl⟩

@[simp] theorem returns_scalarOneOrNone {α : Type} {l : List α} {o : Option α} :
    (scalarOneOrNone l).Returns t₀ o t ↔ (l = o.toList) ∧ t = t₀ := by
  unfold scalarOneOrNone
  rcases l with _ | ⟨a, _ | ⟨b, l⟩⟩ <;> cases o <;> simp [eq_comm]

theorem returns_getTranscript {x : Json} (h : (getTranscript j).Returns t₀ x t) :
    Transcribed t₀.view j.sessionId x ∧ t = t₀ := by
  simp only [getTranscript, returns_bind, returns_read, returns_scalarOneOrNone, returns_require,
    returns_pyGet] at h
  obtain ⟨_, _, ⟨rfl, rfl⟩, o, _, ⟨ho, rfl⟩, payload, _, ⟨hp, rfl⟩, ⟨hobj, rfl⟩, rfl⟩ := h
  obtain ⟨k, rfl, hk⟩ := Option.bind_eq_some_iff.mp hp
  exact ⟨⟨k, payload, ho, hk, hobj, rfl⟩, rfl⟩

theorem returns_getSummarizeResult {sid : Option Uuid} {x : Json}
    (h : (getSummarizeResult sid).Returns t₀ x t) : Summarized t₀.view sid x ∧ t = t₀ := by
  simp only [getSummarizeResult, returns_bind, returns_read, returns_scalarOneOrNone,
    returns_pure] at h
  obtain ⟨_, _, ⟨rfl, rfl⟩, o, _, ⟨ho, rfl⟩, rfl, rfl⟩ := h
  cases o with
  | none => exact ⟨.inl ⟨ho, rfl⟩, rfl⟩
  | some k => exact ⟨.inr ⟨k, ho, rfl⟩, rfl⟩

theorem keeps_pyGet {ω : Type} {f : Tx Db Files → ω} {payload : Json} {key : String} {d : Json} :
    Keeps f (pyGet payload key d) := keeps_ensure.bind fun _ => keeps_pure

theorem keeps_scalarOneOrNone {ω α : Type} {f : Tx Db Files → ω} {l : List α} :
    Keeps f (scalarOneOrNone l) := by
  unfold scalarOneOrNone
  split
  · exact keeps_pure
  · exact keeps_pure
  · exact keeps_throw

theorem keeps_getTranscript {ω : Type} {f : Tx Db Files → ω} : Keeps f (getTranscript j) :=
  keeps_read.bind fun _ => keeps_scalarOneOrNone.bind fun _ => keeps_require.bind fun _ =>
    keeps_pyGet

theorem keeps_getSummarizeResult {ω : Type} {f : Tx Db Files → ω} {sid : Option Uuid} :
    Keeps f (getSummarizeResult sid) :=
  keeps_read.bind fun _ => keeps_scalarOneOrNone.bind fun _ => keeps_pure

theorem keeps_schemaClass {ω : Type} {f : Tx Db Files → ω} {x : Json} :
    Keeps f (schemaClass x) := by
  unfold schemaClass
  split
  · exact keeps_require
  · exact keeps_throw
  · exact keeps_throw
  · exact keeps_throw

theorem keeps_textValue {ω : Type} {f : Tx Db Files → ω} {column : String} {x : Json} :
    Keeps f (textValue column x) := by
  unfold textValue
  split
  · exact keeps_pure
  · exact keeps_pure
  · exact keeps_throw

theorem schema?_eq_some {text : String} {a : ArtifactType} :
    ArtifactType.schema? text = some a ↔ text = a.value := by
  constructor
  · intro h
    simpa [eq_comm] using List.find?_some h
  · rintro rfl
    exact ArtifactType.schema?_value a

theorem returns_schemaClass {x : Json} {a : ArtifactType} :
    (schemaClass x).Returns t₀ a t ↔ x = .str a.value ∧ t = t₀ := by
  unfold schemaClass
  split
  · rw [returns_require, schema?_eq_some, Json.str.injEq]
  · simp
  · simp
  · next h _ _ =>
    rw [iff_false_left returns_throw]
    rintro ⟨hx, -⟩
    exact h _ hx

theorem returns_textValue {column : String} {x : Json} {o : Option String} :
    (textValue column x).Returns t₀ o t ↔ x = (o.map Json.str).getD .null ∧ t = t₀ := by
  unfold textValue
  split
  · rw [returns_pure]
    cases o <;> simp [eq_comm]
  · rw [returns_pure]
    cases o <;> simp
  · next h₁ h₂ =>
    rw [iff_false_left returns_throw]
    rintro ⟨rfl, -⟩
    cases o with
    | none => exact h₂ rfl
    | some s => exact h₁ s rfl

theorem mapError_eq_ok {α : Type} {x : Except String α} {a : α} :
    x.mapError Exn.provider = .ok a ↔ x = .ok a := by
  cases x <;> simp [Except.mapError]

theorem effect_transcribe (hj : j.jobType = .transcribe) : HandlerEffect n db files input j
    (handleTranscribeJob input j (Tx.clean n db files)).1
    (handleTranscribeJob input j (Tx.clean n db files)).2 := by
  let E := fun r : Except Exn Unit × Tx Db Files => HandlerEffect n db files input j r.1 r.2
  have stop : ∀ e, E (.error e, Tx.clean n db files) := fun e => .raised .nothing
  refine bind_of_readOnly (E := E) keeps_require (fun e _ => stop e) fun sid hsid => ?_
  refine bind_of_readOnly (E := E) keeps_read (fun e _ => stop e) fun o ho => ?_
  refine bind_of_readOnly (E := E) keeps_require (fun e _ => stop e) fun s hs => ?_
  refine bind_of_readOnly (E := E) keeps_require (fun e _ => stop e) fun key hkey => ?_
  refine bind_of_readOnly (E := E) keeps_answer (fun e _ => stop e) fun r hr => ?_
  refine bind_of_readOnly (E := E) keeps_require (fun e _ => stop e) fun payload hp => ?_
  obtain ⟨hsid, -⟩ := returns_require.mp hsid
  obtain ⟨rfl, -⟩ := returns_read.mp ho
  obtain ⟨hm, rfl⟩ := Db.session?_eq_some.mp (returns_require.mp hs).1
  obtain ⟨hkey, -⟩ := returns_require.mp hkey
  obtain ⟨hr, -⟩ := returns_answer.mp hr
  exact .committed (.transcribe hj hm hsid hkey (mapError_eq_ok.mp hr) (returns_require.mp hp).1)

theorem returns_insertArtifact {a : Artifact} {u : Unit} : (insertArtifact a).Returns t₀ u t ↔
    ((∀ b ∈ t₀.view.artifacts, b.id ≠ a.id) ∧ a.title.all fitsTitle = true) ∧
      t = t₀.flush fun db => db.addArtifact { a with title := a.title.map clipTitle } := by
  simp only [insertArtifact, returns_bind, returns_read, returns_ensure, returns_titleColumn,
    returns_write]
  constructor
  · rintro ⟨_, _, ⟨rfl, rfl⟩, _, _, ⟨hf, rfl⟩, _, _, ⟨ht, rfl⟩, rfl⟩
    exact ⟨⟨by simpa using hf, ht⟩, rfl⟩
  · rintro ⟨⟨hf, ht⟩, rfl⟩
    exact ⟨_, _, ⟨rfl, rfl⟩, (), _, ⟨by simpa using hf, rfl⟩, (), _, ⟨ht, rfl⟩, rfl⟩

theorem raises_insertArtifact {a : Artifact} {e : Exn} (h : (insertArtifact a).Raises t₀ e t) :
    t = t₀ := by
  simp only [insertArtifact, titleColumn, raises_bind, raises_read, returns_read, raises_ensure,
    returns_ensure, raises_write, false_or] at h
  obtain ⟨_, _, ⟨rfl, rfl⟩, ⟨-, -, rfl⟩ | ⟨_, _, ⟨-, rfl⟩, ⟨-, -, rfl⟩ | ⟨_, _, -, ⟨⟩⟩⟩⟩ := h
  · rfl
  · rfl

theorem effect_summarize (hj : j.jobType = .summarize) : HandlerEffect n db files input j
    (handleSummarizeJob input j (Tx.clean n db files)).1
    (handleSummarizeJob input j (Tx.clean n db files)).2 := by
  let E := fun r : Except Exn Unit × Tx Db Files => HandlerEffect n db files input j r.1 r.2
  have stop : ∀ e, E (.error e, Tx.clean n db files) := fun e => .raised .nothing
  refine bind_of_readOnly (E := E) keeps_getTranscript (fun e _ => stop e) fun x hx => ?_
  refine bind_of_readOnly (E := E) keeps_answer (fun e _ => stop e) fun o ho => ?_
  refine bind_of_readOnly (E := E) keeps_require (fun e _ => stop e) fun r hr => ?_
  obtain ⟨hx, -⟩ := returns_getTranscript hx
  obtain ⟨rfl, -⟩ := returns_require.mp hr
  have hc : HandlerCommit db input j (db.setJob j.id (Job.withOutput r)) :=
    .summarize hj hx (mapError_eq_ok.mp (returns_answer.mp ho).1)
  -- the log line after the commit may raise
  have hlog : E (ensure r.isObj (.attributeError s!"'{r.pyType}' object has no attribute 'get'")
      ((Tx.clean n db files).flush fun db => db.setJob j.id (Job.withOutput r)).commit) := by
    cases ho : r.isObj with
    | true => exact .committed hc
    | false => exact .committed hc
  exact hlog

theorem effect_extractArtifact (hj : j.jobType = .extractArtifact) :
    HandlerEffect n db files input j
    (handleExtractArtifactJob input j (Tx.clean n db files)).1
    (handleExtractArtifactJob input j (Tx.clean n db files)).2 := by
  let E := fun r : Except Exn Unit × Tx Db Files => HandlerEffect n db files input j r.1 r.2
  have stop : ∀ e, E (.error e, Tx.clean n db files) := fun e => .raised .nothing
  refine bind_of_readOnly (E := E) keeps_getTranscript (fun e _ => stop e) fun x hx => ?_
  refine bind_of_readOnly (E := E) keeps_getSummarizeResult (fun e _ => stop e) fun y hy => ?_
  refine bind_of_readOnly (E := E) keeps_pyGet (fun e _ => stop e) fun ty hty => ?_
  refine bind_of_readOnly (E := E) keeps_pyGet (fun e _ => stop e) fun title htitle => ?_
  refine bind_of_readOnly (E := E) keeps_schemaClass (fun e _ => stop e) fun schema hsc => ?_
  refine bind_of_readOnly (E := E) keeps_answer (fun e _ => stop e) fun o hcon => ?_
  refine bind_of_readOnly (E := E) keeps_pyGet (fun e _ => stop e) fun sm hsm => ?_
  refine bind_of_readOnly (E := E) keeps_textValue (fun e _ => stop e) fun tt htt => ?_
  refine bind_of_readOnly (E := E) keeps_require (fun e _ => stop e) fun content hc => ?_
  refine bind_of_readOnly (E := E) keeps_textValue (fun e _ => stop e) fun st hst => ?_
  refine bind_of_readOnly (E := E) keeps_require (fun e _ => stop e) fun sid hsid => ?_
  obtain ⟨hx, -⟩ := returns_getTranscript hx
  obtain ⟨hy, -⟩ := returns_getSummarizeResult hy
  obtain ⟨⟨ho, hty⟩, -⟩ := returns_pyGet.mp hty
  obtain ⟨⟨-, htitle⟩, -⟩ := returns_pyGet.mp htitle
  obtain ⟨⟨-, hsm⟩, -⟩ := returns_pyGet.mp hsm
  obtain ⟨rfl, -⟩ := returns_schemaClass.mp hsc
  obtain ⟨htt, -⟩ := returns_textValue.mp htt
  obtain ⟨rfl, -⟩ := returns_require.mp hc
  obtain ⟨hst, -⟩ := returns_textValue.mp hst
  obtain ⟨hsid, -⟩ := returns_require.mp hsid
  have hcon := mapError_eq_ok.mp (returns_answer.mp hcon).1
  let a : Artifact :=
    { id := input.artifactId, sessionId := sid, jobId := some j.id, artifactType := schema
      title := tt, content, summary := st, status := .pendingReview }
  rcases returns_or_raises (insertArtifact a) (Tx.clean n db files) with ⟨_, t, h⟩ | ⟨e, t, h⟩
  · rw [bind_of_returns h]
    obtain ⟨⟨hf, -⟩, rfl⟩ := returns_insertArtifact.mp h
    exact .committed (.extractArtifact (a := { a with title := tt.map clipTitle }) hj hx hy ho hty.symm
      htitle ⟨tt, htt, rfl⟩ (hsm.symm.trans hst) hcon hsid rfl rfl rfl hf rfl)
  · rw [bind_of_raises h]
    obtain rfl := raises_insertArtifact h
    exact stop e

theorem raises_transitionSession {sid : Uuid} {target : SessionStatus} {e : Exn}
    (h : (transitionSession sid target).Raises t₀ e t) :
    t = t₀ ∧ ∀ s ∈ t₀.view.sessions, s.id = sid → (canTransition s.status target).1 = false := by
  simp only [transitionSession, raises_bind, raises_read, returns_read, raises_require,
    returns_require, raises_ensure, returns_ensure, raises_write, returns_write, false_or,
    and_false, exists_false, or_false] at h
  obtain ⟨_, _, ⟨rfl, rfl⟩, ⟨hn, -, rfl⟩ | ⟨s, _, ⟨hs, rfl⟩, hc, -, rfl⟩⟩ := h
  · refine ⟨rfl, fun s hs hi => ?_⟩
    rw [Db.session?_eq_some.mpr ⟨hs, hi⟩] at hn
    cases hn
  · refine ⟨rfl, fun r hr hi => ?_⟩
    obtain ⟨hm, rfl⟩ := Db.session?_eq_some.mp hs
    rwa [Table.eq_of_key_eq hr hm hi]

theorem effect_publish (hj : j.jobType = .publish) : HandlerEffect n db files input j
    (handlePublishJob input j (Tx.clean n db files)).1
    (handlePublishJob input j (Tx.clean n db files)).2 := by
  let E := fun r : Except Exn Unit × Tx Db Files => HandlerEffect n db files input j r.1 r.2
  have stop : ∀ e, E (.error e, Tx.clean n db files) := fun e => .raised .nothing
  refine bind_of_readOnly (E := E) keeps_require (fun e _ => stop e) fun aid haid => ?_
  refine bind_of_readOnly (E := E) keeps_read (fun e _ => stop e) fun o ho => ?_
  obtain ⟨haid, -⟩ := returns_require.mp haid
  obtain ⟨ho, -⟩ := returns_read.mp ho
  rw [Tx.view_clean] at ho
  subst ho
  cases ho : db.artifact? aid with
  | none => exact .committed (.publishMissing hj haid ho)
  | some a =>
    obtain ⟨ha, rfl⟩ := Db.artifact?_eq_some.mp ho
    let t₁ := (Tx.clean n db files).flush (markArtifact input.now a.id)
    rcases returns_or_raises (transitionSession a.sessionId published) t₁ with
      ⟨_, t, h⟩ | ⟨e, t, h⟩
    · have hm : (forSome (some a) (markPublished input.now)).Returns
          (Tx.clean n db files) () t := by
        simp only [returns_forSome, markPublished, returns_bind, returns_write]
        exact .inl ⟨a, rfl, (), t₁, rfl, h⟩
      rw [bind_of_returns hm]
      obtain ⟨s, hs, hc, rfl⟩ := returns_transitionSession.mp h
      obtain ⟨hs, hi⟩ := Db.session?_eq_some.mp hs
      rw [← hi]
      exact .committed (.publish hj haid ha hs hi hc)
    · have hm : (forSome (some a) (markPublished input.now)).Raises (Tx.clean n db files) e t := by
        simp only [raises_forSome, markPublished, raises_bind, returns_write]
        exact ⟨a, rfl, .inr ⟨(), t₁, rfl, h⟩⟩
      rw [bind_of_raises hm]
      obtain ⟨rfl, hs⟩ := raises_transitionSession h
      exact .raised (.marked hj haid ha hs)

theorem handlerEffect {handler : HandlerInput → Job → DbM Unit}
    (h : jobHandler j.jobType = some handler) : HandlerEffect n db files input j
      (handler input j (Tx.clean n db files)).1 (handler input j (Tx.clean n db files)).2 := by
  cases hj : j.jobType with
  | other => simp [hj, jobHandler] at h
  | _ =>
    obtain rfl := Option.some.inj ((congrArg jobHandler hj).symm.trans h)
    first
      | exact effect_transcribe hj
      | exact effect_summarize hj
      | exact effect_extractArtifact hj
      | exact effect_publish hj

end Handlers

/-- The rows a completed `delete_artifact_rows` job removes. -/
def eraseRows (sessionId : Option Uuid) (db : Db) : Db :=
  match sessionId with
  | some sid => db.deleteArtifacts sid
  | none => db

/-- The file a completed `delete_local_audio` job removes. -/
def eraseAudio (key : Option AudioKey) (files : Files) : Files :=
  match key with
  | some k => files.filter (· ≠ k)
  | none => files

/-- The database and the files that one deletion job leaves, from the session's own view. -/
inductive DeletionEffect (d : DeletionJob) (db : Db) (files : Files) : Db → Files → Prop where
  | artifactRows : d.resourceType = .deleteArtifactRows →
      DeletionEffect d db files (completeDeletion d.id (eraseRows d.sessionId db)) files
  | localAudio : d.resourceType = .deleteLocalAudio →
      DeletionEffect d db files (completeDeletion d.id db)
        (eraseAudio (d.cascadeTargets.bind (·.audioKey)) files)
  | feishuDocs : d.resourceType = .deleteFeishuDocs →
      DeletionEffect d db files (completeDeletion d.id db) files
  | failed {message : String} : d.resourceType ∉ [.deleteArtifactRows, .deleteFeishuDocs] →
      DeletionEffect d db files (db.setDeletionJob d.id (DeletionJob.withFailure message)) files

/-- A job that has been processed is no longer pending. -/
theorem DeletionEffect.processed {d r : DeletionJob} {db db' : Db} {files files' : Files}
    (h : DeletionEffect d db files db' files') (hr : r ∈ db'.deletionJobs) (hi : r.id = d.id) :
    r.status ≠ .pending := by
  have set {tbl : Table DeletionJob.id} {f : DeletionJob → DeletionJob}
      {hf : ∀ d, (f d).id = d.id} (hu : r ∈ tbl.update (fun r => r.id = d.id) f hf)
      (hs : ∀ d, (f d).status ≠ .pending) : r.status ≠ .pending := by
    obtain ⟨r₀, -, rfl⟩ := Table.mem_update.mp hu
    by_cases hid : r₀.id = d.id
    · rw [if_pos (decide_eq_true hid)]
      exact hs r₀
    · rw [if_neg (by simpa using hid)] at hi
      exact absurd hi hid
  cases h with
  | failed =>
    have hu : r ∈ db.deletionJobs.update (fun r => r.id = d.id) (DeletionJob.withFailure _)
      (by intro; rfl) := hr
    exact set hu fun _ => nofun
  | artifactRows =>
    have hu : r ∈ (eraseRows d.sessionId db).deletionJobs.update (fun r => r.id = d.id)
      (DeletionJob.withStatus .completed) (by intro; rfl) := hr
    exact set hu fun _ => nofun
  | _ =>
    have hu : r ∈ db.deletionJobs.update (fun r => r.id = d.id)
      (DeletionJob.withStatus .completed) (by intro; rfl) := hr
    exact set hu fun _ => nofun

/-- What the removal of a job's audio file answers; a file that is gone needs none. -/
def audioAnswer (remove : Remove) (d : DeletionJob) (files : Files) : Except Exn Unit :=
  match d.cascadeTargets.bind (·.audioKey) with
  | some key => if key ∈ files then remove key else .ok ()
  | none => .ok ()

/-- What `_process_deletion` writes for a row, and the files it leaves. -/
def deletionWrites (remove : Remove) (d : DeletionJob) (files : Files) : (Db → Db) × Files :=
  match d.resourceType with
  | .deleteArtifactRows => (fun db => completeDeletion d.id (eraseRows d.sessionId db), files)
  | .deleteLocalAudio =>
    match audioAnswer remove d files with
    | .ok _ => (completeDeletion d.id, eraseAudio (d.cascadeTargets.bind (·.audioKey)) files)
    | .error e => (fun db => db.setDeletionJob d.id (DeletionJob.withFailure e.str), files)
  | .deleteFeishuDocs => (completeDeletion d.id, files)
  | .other name =>
    (fun db => db.setDeletionJob d.id
      (DeletionJob.withFailure s!"Unknown deletion_job resource_type: {name}"), files)

section Deletion

variable {remove : Remove} {d : DeletionJob} {t t' : Tx Db Files}

/-- Marking a deletion job running does not show once its final status is written. -/
theorem setDeletionJob_running {db : Db} {f : DeletionJob → DeletionJob}
    {hf : ∀ r, (f r).id = r.id} (h : ∀ r, f (r.withStatus .running) = f r) :
    (db.setDeletionJob d.id (DeletionJob.withStatus .running)).setDeletionJob d.id f hf =
      db.setDeletionJob d.id f hf := by
  simp only [Db.setDeletionJob]
  rw [Table.update_update (by simp)]
  simp only [h]

theorem completeDeletion_running {db : Db} :
    completeDeletion d.id (db.setDeletionJob d.id (DeletionJob.withStatus .running)) =
      completeDeletion d.id db :=
  setDeletionJob_running fun _ => rfl

/-- The session once the deletion job is marked running. -/
def beginDeletion (d : DeletionJob) (t : Tx Db Files) : Tx Db Files :=
  t.flush fun db => db.setDeletionJob d.id (DeletionJob.withStatus .running)
    (DeletionJob.withStatus_id .running)

/-- The session ends in a commit of `w` on top of its own view, with these files. -/
def EndsWith (t t' : Tx Db Files) (w : (Db → Db) × Files) : Prop :=
  t'.committed = w.1 t.view ∧ t'.outside = w.2

theorem processDeletion_of_returns {handler : DeletionJob → DbM Unit}
    (hh : deletionHandler remove d.resourceType = some handler)
    (h : (handler d).Returns (beginDeletion d t) () t') :
    processDeletion remove d t = (.ok (), t') := by
  rw [processDeletion, hh]
  exact tryCatch_of_returns h

/-- A handler that raises, or the lack of one, leaves only the failure mark. -/
theorem failDeletion_endsWith {message : String} {u : Unit}
    (h : (failDeletion d.id message).Returns (beginDeletion d t) u t') :
    EndsWith t t' (fun db => db.setDeletionJob d.id (DeletionJob.withFailure message),
      t.outside) := by
  simp only [failDeletion, returns_bind, returns_write, returns_commit] at h
  obtain ⟨_, _, rfl, rfl⟩ := h
  refine ⟨?_, rfl⟩
  rw [Tx.committed_commit, Tx.view_flush, beginDeletion, Tx.view_flush]
  exact setDeletionJob_running fun _ => rfl

theorem handleDeleteArtifacts_endsWith :
    ∃ t', (handleDeleteArtifacts d).Returns (beginDeletion d t) () t' ∧
      EndsWith t t' (fun db => completeDeletion d.id (eraseRows d.sessionId db), t.outside) := by
  cases hs : d.sessionId with
  | none =>
    refine ⟨((beginDeletion d t).flush (completeDeletion d.id)).commit, ?_, ?_, rfl⟩
    · simp [handleDeleteArtifacts, hs]
    · rw [Tx.committed_commit, Tx.view_flush, beginDeletion, Tx.view_flush]
      exact completeDeletion_running
  | some sid =>
    refine ⟨(((beginDeletion d t).flush fun db => db.deleteArtifacts sid).flush
      (completeDeletion d.id)).commit, ?_, ?_, rfl⟩
    · simp [handleDeleteArtifacts, hs]
    · rw [Tx.committed_commit, Tx.view_flush, Tx.view_flush, beginDeletion, Tx.view_flush]
      have h : completeDeletion d.id ((t.view.deleteArtifacts sid).setDeletionJob d.id
          (DeletionJob.withStatus .running)) = _ := completeDeletion_running
      exact h

theorem handleDeleteAudio_of_ok (h : audioAnswer remove d t.outside = .ok ()) :
    ∃ t', (handleDeleteAudio remove d).Returns (beginDeletion d t) () t' ∧
      EndsWith t t' (completeDeletion d.id,
        eraseAudio (d.cascadeTargets.bind (·.audioKey)) t.outside) := by
  unfold audioAnswer at h
  have hv : completeDeletion d.id (beginDeletion d t).view = completeDeletion d.id t.view := by
    rw [beginDeletion, Tx.view_flush]
    exact completeDeletion_running
  cases hkey : d.cascadeTargets.bind (·.audioKey) with
  | none =>
    refine ⟨((beginDeletion d t).flush (completeDeletion d.id)).commit, ?_, by simpa using hv, rfl⟩
    simp [handleDeleteAudio, hkey]
  | some key =>
    rw [hkey] at h
    by_cases hk : key ∈ t.outside
    · refine ⟨(((beginDeletion d t).setOutside fun files => files.filter (· ≠ key)).flush
        (completeDeletion d.id)).commit, ?_, by simpa using hv, rfl⟩
      replace h : remove key = .ok () := by simpa [hk] using h
      simp [handleDeleteAudio, hkey, beginDeletion, hk, h]
    · refine ⟨((beginDeletion d t).flush (completeDeletion d.id)).commit, ?_, by simpa using hv, ?_⟩
      · simp [handleDeleteAudio, hkey, beginDeletion, hk]
      · rw [Tx.outside_commit, Tx.outside_flush, beginDeletion, Tx.outside_flush, eraseAudio,
          List.filter_eq_self.mpr]
        rintro k hm
        have hne : k ≠ key := fun he => hk (he ▸ hm)
        simpa using hne

theorem handleDeleteAudio_of_error {e : Exn} (h : audioAnswer remove d t.outside = .error e) :
    (handleDeleteAudio remove d).Raises (beginDeletion d t) e (beginDeletion d t) := by
  unfold audioAnswer at h
  cases hkey : d.cascadeTargets.bind (·.audioKey) with
  | none =>
    rw [hkey] at h
    cases h
  | some key =>
    rw [hkey] at h
    by_cases hk : key ∈ t.outside
    · replace h : remove key = .error e := by simpa [hk] using h
      simp [handleDeleteAudio, hkey, beginDeletion, hk, h]
    · simp [hk] at h

/-- `_process_deletion` ends in a commit, and what it writes does not depend on the store. -/
theorem processDeletion_endsWith :
    EndsWith t (processDeletion remove d t).2 (deletionWrites remove d t.outside) := by
  unfold deletionWrites
  cases hd : d.resourceType with
  | deleteArtifactRows =>
    obtain ⟨t', h, he⟩ := handleDeleteArtifacts_endsWith (d := d) (t := t)
    rwa [processDeletion_of_returns (congrArg (deletionHandler remove) hd) h]
  | deleteLocalAudio =>
    have hh : deletionHandler remove d.resourceType = some (handleDeleteAudio remove) :=
      congrArg (deletionHandler remove) hd
    cases ha : audioAnswer remove d t.outside with
    | ok =>
      obtain ⟨t', h, he⟩ := handleDeleteAudio_of_ok ha
      rwa [processDeletion_of_returns hh h]
    | error e =>
      have hp : processDeletion remove d t = failDeletion d.id e.str (beginDeletion d t) := by
        rw [processDeletion, hh]
        exact tryCatch_of_raises (handleDeleteAudio_of_error ha)
      rw [hp]
      exact failDeletion_endsWith (u := ()) rfl
  | deleteFeishuDocs =>
    have h : (handleDeleteFeishu d).Returns (beginDeletion d t) ()
        ((beginDeletion d t).flush (completeDeletion d.id)).commit := by simp [handleDeleteFeishu]
    rw [processDeletion_of_returns (congrArg (deletionHandler remove) hd) h]
    refine ⟨?_, rfl⟩
    rw [Tx.committed_commit, Tx.view_flush, beginDeletion, Tx.view_flush]
    exact completeDeletion_running
  | other name =>
    have hp : processDeletion remove d t = failDeletion d.id
        s!"Unknown deletion_job resource_type: {name}" (beginDeletion d t) := by
      rw [processDeletion, hd]
      rfl
    rw [hp]
    exact failDeletion_endsWith (u := ()) rfl

theorem deletionEffect :
    DeletionEffect d t.view t.outside (processDeletion remove d t).2.committed
      (processDeletion remove d t).2.outside := by
  obtain ⟨hc, ho⟩ : EndsWith t (processDeletion remove d t).2 (deletionWrites remove d t.outside) :=
    processDeletion_endsWith
  rw [hc, ho, deletionWrites]
  split
  next hd => exact .artifactRows hd
  next hd =>
    cases audioAnswer remove d t.outside with
    | ok => exact .localAudio hd
    | error e => exact .failed (by simp [hd])
  next hd => exact .feishuDocs hd
  next hd => exact .failed (by simp [hd])

end Deletion

end AiBadge
