import AiBadge.System.WorkerEffect

/-! # How a handler fails

The database refuses a flush of what a service has delivered: a payload that no JSON
column takes, or the row of an artifact. Every other exception leaves the session
usable.
-/

namespace AiBadge

open Lib Prog DbM

/-- The extraction `j` gets its content from the model, with everything it asks for in place. -/
def Drafted (db : Db) (input : HandlerInput) (j : Job) : Prop :=
  j.jobType = .extractArtifact ∧ ∃ x summary schema content, Transcribed db j.sessionId x ∧
    Summarized db j.sessionId summary ∧ summary.isObj = true ∧
    (summary.get? "artifact_type").getD (.str "meeting_minutes") = .str schema.value ∧
    input.providers.complete (.extractArtifact x schema
      ((summary.get? "title").getD (.str "Untitled"))) = .ok content

/-- What the services deliver to the handler of `j` ends in a flush that the database refuses. An
extraction can fail in no other way once it has its content. -/
inductive Refused (db : Db) (input : HandlerInput) (j : Job) : Prop where
  | transcribe {s : Session} {key : AudioKey} {r : TranscriptResult} :
      j.jobType = .transcribe → s ∈ db.sessions → j.sessionId = some s.id →
      s.audioKey = some key → input.providers.transcribe key = .ok r → r.toJson = none →
      Refused db input j
  | summarize {x : Json} : j.jobType = .summarize → Transcribed db j.sessionId x →
      input.providers.complete (.summarize x) = .ok none → Refused db input j
  | extractArtifact : Drafted db input j → Refused db input j

/-- The sessions and the completed stages of its own session are all that counts. -/
theorem Refused.congr {db db' : Db} {input : HandlerInput} {i j : Job} (h : Refused db input i)
    (hty : j.jobType = i.jobType) (hsid : j.sessionId = i.sessionId)
    (hs : db'.sessions = db.sessions)
    (hc : ∀ ty, completedJobs db' i.sessionId ty = completedJobs db i.sessionId ty) :
    Refused db' input j := by
  have hx {x : Json} : Transcribed db' j.sessionId x ↔ Transcribed db i.sessionId x := by
    simp only [Transcribed, hsid, hc]
  have hy {x : Json} : Summarized db' j.sessionId x ↔ Summarized db i.sessionId x := by
    simp only [Summarized, hsid, hc]
  rcases h with ⟨ht, hm, hi, hk, hr, hn⟩ | ⟨ht, hm, ho⟩ | hd
  · exact .transcribe (hty.trans ht) (hs ▸ hm) (hsid.trans hi) hk hr hn
  · exact .summarize (hty.trans ht) (hx.mpr hm) ho
  · refine .extractArtifact ?_
    simpa only [Drafted, hty, hx, hy] using hd

/-- An exception that leaves the session usable. -/
def Exn.Mild (e : Exn) : Prop := e.abortsSession = false

/-- An exception of a flush. -/
def Exn.Fatal (e : Exn) : Prop := e.abortsSession = true

section Raises

variable {n : Nat} {db : Db} {files : Files} {input : HandlerInput} {j : Job} {e : Exn}
  {t t' : Tx Db Files} {x : Json}

theorem mild_require {α : Type} {o : Option α} (he : e.abortsSession = false) :
    RaisesOnly Exn.Mild (require o e : DbM α) := raisesOnly_require he

theorem mild_ensure {c : Bool} (he : e.abortsSession = false) :
    RaisesOnly Exn.Mild (ensure c e : DbM Unit) := raisesOnly_ensure he

theorem fatal_require {α : Type} {o : Option α} (he : e.abortsSession = true) :
    RaisesOnly Exn.Fatal (require o e : DbM α) := raisesOnly_require he

theorem fatal_ensure {c : Bool} (he : e.abortsSession = true) :
    RaisesOnly Exn.Fatal (ensure c e : DbM Unit) := raisesOnly_ensure he

theorem mild_scalarOneOrNone {α : Type} {l : List α} :
    RaisesOnly Exn.Mild (scalarOneOrNone l) := by
  unfold scalarOneOrNone
  split
  · exact raisesOnly_pure
  · exact raisesOnly_pure
  · exact raisesOnly_throw rfl

theorem mild_pyGet {payload : Json} {key : String} {d : Json} :
    RaisesOnly Exn.Mild (pyGet payload key d) :=
  (mild_ensure rfl).bind fun _ => raisesOnly_pure

theorem mild_getTranscript : RaisesOnly Exn.Mild (getTranscript j) :=
  raisesOnly_read.bind fun _ => mild_scalarOneOrNone.bind fun _ =>
    (mild_require rfl).bind fun _ => mild_pyGet

theorem mild_getSummarizeResult {sid : Option Uuid} :
    RaisesOnly Exn.Mild (getSummarizeResult sid) :=
  raisesOnly_read.bind fun _ => mild_scalarOneOrNone.bind fun _ => raisesOnly_pure

theorem mild_schemaClass : RaisesOnly Exn.Mild (schemaClass x) := by
  unfold schemaClass
  split
  · exact mild_require rfl
  · exact raisesOnly_throw rfl
  · exact raisesOnly_throw rfl
  · exact raisesOnly_throw rfl

theorem mild_provider {α : Type} {r : Except String α} :
    RaisesOnly Exn.Mild (answer (r.mapError .provider) : DbM α) := by
  refine raisesOnly_answer fun e h => ?_
  cases r with
  | error message =>
    cases h
    rfl
  | ok a => cases h

theorem mild_transitionSession {sid : Uuid} {target : SessionStatus} :
    RaisesOnly Exn.Mild (transitionSession sid target) :=
  raisesOnly_read.bind fun _ => (mild_require rfl).bind fun _ =>
    (mild_ensure rfl).bind fun _ => raisesOnly_write.bind fun _ => raisesOnly_write

/-- An exception of a flush passes by everything that raises mildly. -/
theorem raises_of_mild {α β : Type} {p : DbM α} {f : α → DbM β} (hp : RaisesOnly Exn.Mild p)
    (he : e.abortsSession = true) (h : (p >>= f).Raises t e t') :
    ∃ a t₁, p.Returns t a t₁ ∧ (f a).Raises t₁ e t' := by
  refine (raises_bind.mp h).resolve_left fun h => ?_
  rw [show e.abortsSession = false from hp _ _ _ h] at he
  cases he

theorem mild_publish : RaisesOnly Exn.Mild (handlePublishJob input j) :=
  (mild_require rfl).bind fun _ => raisesOnly_read.bind fun _ =>
    (raisesOnly_forSome fun _ => raisesOnly_write.bind fun _ => mild_transitionSession).bind
      fun _ => raisesOnly_write.bind fun _ => raisesOnly_commit

theorem fatal_textValue {column : String} : RaisesOnly Exn.Fatal (textValue column x) := by
  unfold textValue
  split
  · exact raisesOnly_pure
  · exact raisesOnly_pure
  · exact raisesOnly_throw rfl

theorem fatal_titleColumn {column : String} {text : Option String} :
    RaisesOnly Exn.Fatal (titleColumn column text) := fatal_ensure rfl

theorem fatal_insertArtifact {a : Artifact} : RaisesOnly Exn.Fatal (insertArtifact a) :=
  raisesOnly_read.bind fun _ => (fatal_ensure rfl).bind fun _ =>
    fatal_titleColumn.bind fun _ => raisesOnly_write

theorem getTranscript_of_transcribed (h : Transcribed t.view j.sessionId x) :
    (getTranscript j).Returns t x t := by
  obtain ⟨k, payload, hk, hp, ho, rfl⟩ := h
  simp [getTranscript, hk, hp, ho, scalarOneOrNone]

theorem getSummarizeResult_of_summarized {sid : Option Uuid} (h : Summarized t.view sid x) :
    (getSummarizeResult sid).Returns t x t := by
  rcases h with ⟨hk, rfl⟩ | ⟨k, hk, rfl⟩
  · simp [getSummarizeResult, hk, scalarOneOrNone]
  · simp [getSummarizeResult, hk, scalarOneOrNone]

theorem ArtifactType.value_injective : Function.Injective ArtifactType.value := by
  intro a b h
  have hb := schema?_value b
  rw [← h, schema?_value] at hb
  exact Option.some.inj hb

theorem Summarized.unique {sid : Option Uuid} {y : Json} (h : Summarized db sid x)
    (h' : Summarized db sid y) : x = y :=
  Returns.unique (getSummarizeResult_of_summarized (t := Tx.start db [])  h)
    (getSummarizeResult_of_summarized h')

theorem Transcribed.unique {y : Json} (h : Transcribed db j.sessionId x)
    (h' : Transcribed db j.sessionId y) : x = y :=
  Returns.unique (getTranscript_of_transcribed (t := Tx.start db []) h)
    (getTranscript_of_transcribed h')

/-- A transcription fails in a flush exactly when its column does not take the transcript. -/
theorem fatal_transcribe (hj : j.jobType = .transcribe)
    (h : (handleTranscribeJob input j).Raises (Tx.clean n db files) e t') :
    e.abortsSession = true ↔ Refused db input j := by
  constructor
  · intro he
    obtain ⟨sid, _, hret, h⟩ := raises_of_mild (mild_require rfl) he h
    obtain ⟨hsid, rfl⟩ := returns_require.mp hret
    obtain ⟨o, _, hret, h⟩ := raises_of_mild raisesOnly_read he h
    obtain ⟨rfl, rfl⟩ := returns_read.mp hret
    obtain ⟨s, _, hret, h⟩ := raises_of_mild (mild_require rfl) he h
    obtain ⟨hfound, rfl⟩ := returns_require.mp hret
    obtain ⟨key, _, hret, h⟩ := raises_of_mild (mild_require rfl) he h
    obtain ⟨hkey, rfl⟩ := returns_require.mp hret
    obtain ⟨r, _, hret, hstore⟩ := raises_of_mild mild_provider he h
    obtain ⟨hr, rfl⟩ := returns_answer.mp hret
    obtain ⟨hs, rfl⟩ := Db.session?_eq_some.mp hfound
    have hn : r.toJson = none := by
      rcases raises_bind.mp hstore with h | ⟨_, _, -, h⟩
      · exact (raises_require.mp h).1
      · simp only [raises_bind, raises_write, raises_commit, and_false, exists_false, or_false] at h
    exact .transcribe hj hs hsid hkey (mapError_eq_ok.mp hr) hn
  · rintro (⟨-, hs, hsid, hkey, hr, hn⟩ | ⟨hj', -⟩ | ⟨hj', -⟩)
    · have hs := Db.session?_eq_some.mpr ⟨hs, rfl⟩
      have hd : (handleTranscribeJob input j).Raises (Tx.clean n db files)
          (.dataError "jobs.output_payload") (Tx.clean n db files) := by
        simp [handleTranscribeJob, jsonColumn, hsid, hs, hkey, hr, hn, Except.mapError]
      cases congrArg Prod.fst (h.symm.trans hd)
      rfl
    · cases hj.symm.trans hj'
    · cases hj.symm.trans hj'

/-- A summary fails in a flush exactly when its column does not take the answer. -/
theorem fatal_summarize (hj : j.jobType = .summarize)
    (h : (handleSummarizeJob input j).Raises (Tx.clean n db files) e t') :
    e.abortsSession = true ↔ Refused db input j := by
  constructor
  · intro he
    obtain ⟨x, _, hret, h⟩ := raises_of_mild mild_getTranscript he h
    obtain ⟨hx, rfl⟩ := returns_getTranscript hret
    obtain ⟨o, _, hret, h⟩ := raises_of_mild mild_provider he h
    obtain ⟨ho, rfl⟩ := returns_answer.mp hret
    have hn : o = none := by
      rcases raises_bind.mp h with h | ⟨_, _, -, h⟩
      · exact (raises_require.mp h).1
      · obtain ⟨_, _, -, h⟩ := raises_of_mild raisesOnly_write he h
        obtain ⟨_, _, -, h⟩ := raises_of_mild raisesOnly_commit he h
        rw [(raises_ensure.mp h).2.1] at he
        cases he
    exact .summarize hj hx (by rw [← hn]; exact mapError_eq_ok.mp ho)
  · rintro (⟨hj', -⟩ | ⟨-, hx, ho⟩ | ⟨hj', -⟩)
    · cases hj.symm.trans hj'
    · have hx := getTranscript_of_transcribed (t := Tx.clean n db files) hx
      have hd : (handleSummarizeJob input j).Raises (Tx.clean n db files)
          (.dataError "jobs.output_payload") (Tx.clean n db files) := by
        refine raises_bind.mpr (.inr ⟨_, _, hx, ?_⟩)
        simp [jsonColumn, ho, Except.mapError]
      cases congrArg Prod.fst (h.symm.trans hd)
      rfl
    · cases hj.symm.trans hj'

/-- What an extraction with the transcript `x` and the summary `y` needs to get its content. -/
theorem drafted_iff {y : Json} (hj : j.jobType = .extractArtifact)
    (hx : Transcribed db j.sessionId x) (hy : Summarized db j.sessionId y) :
    Drafted db input j ↔ y.isObj = true ∧ ∃ schema content,
      (y.get? "artifact_type").getD (.str "meeting_minutes") = .str schema.value ∧
      input.providers.complete (.extractArtifact x schema
        ((y.get? "title").getD (.str "Untitled"))) = .ok content := by
  constructor
  · rintro ⟨-, x', y', schema, content, hx', hy', ho, ht, hc⟩
    obtain rfl := hx'.unique hx
    obtain rfl := hy'.unique hy
    exact ⟨ho, schema, content, ht, hc⟩
  · rintro ⟨ho, schema, content, ht, hc⟩
    exact ⟨hj, x, y, schema, content, hx, hy, ho, ht, hc⟩

/-- An extraction fails in a flush exactly when its content has been delivered. -/
theorem fatal_extractArtifact (hj : j.jobType = .extractArtifact)
    (h : (handleExtractArtifactJob input j).Raises (Tx.clean n db files) e t') :
    e.abortsSession = true ↔ Drafted db input j := by
  have early (he : e.abortsSession = false) (hn : ¬ Drafted db input j) :
      e.abortsSession = true ↔ Drafted db input j := by simp [he, hn]
  rcases raises_bind.mp h with h | ⟨x, t₁, hr, h⟩
  · refine early (mild_getTranscript _ _ _ h) ?_
    rintro ⟨-, x, _, _, _, hx, -⟩
    have hr : (getTranscript j).Returns (Tx.clean n db files) x _ := getTranscript_of_transcribed hx
    exact hr.not_raises _ _ h
  obtain ⟨hx, rfl⟩ := returns_getTranscript hr
  rcases raises_bind.mp h with h | ⟨y, t₂, hr, h⟩
  · refine early (mild_getSummarizeResult _ _ _ h) ?_
    rintro ⟨-, _, y, _, _, -, hy, -⟩
    have hr : (getSummarizeResult j.sessionId).Returns (Tx.clean n db files) y _ :=
      getSummarizeResult_of_summarized hy
    exact hr.not_raises _ _ h
  obtain ⟨hy, rfl⟩ := returns_getSummarizeResult hr
  rw [Tx.view_clean] at hx hy
  rw [drafted_iff hj hx hy] at early ⊢
  rcases raises_bind.mp h with h | ⟨ty, t₃, hty, h⟩
  · refine early (mild_pyGet _ _ _ h) ?_
    rintro ⟨ho, -⟩
    exact (returns_pyGet.mpr ⟨⟨ho, rfl⟩, rfl⟩).not_raises _ _ h
  obtain ⟨⟨ho, rfl⟩, rfl⟩ := returns_pyGet.mp hty
  rcases raises_bind.mp h with h | ⟨title, t₄, htitle, h⟩
  · exact absurd h ((returns_pyGet.mpr ⟨⟨ho, rfl⟩, rfl⟩).not_raises _ _)
  obtain ⟨⟨-, rfl⟩, rfl⟩ := returns_pyGet.mp htitle
  rcases raises_bind.mp h with h | ⟨schema, t₅, hsc, h⟩
  · refine early (mild_schemaClass _ _ _ h) ?_
    rintro ⟨-, schema, _, ht, -⟩
    exact (returns_schemaClass.mpr ⟨ht, rfl⟩).not_raises _ _ h
  obtain ⟨ht, rfl⟩ := returns_schemaClass.mp hsc
  rcases raises_bind.mp h with h | ⟨content, t₆, hr, h⟩
  · refine early (mild_provider _ _ _ h) ?_
    rintro ⟨-, schema', content, ht', hc⟩
    obtain rfl := ArtifactType.value_injective (Json.str.inj (ht.symm.trans ht'))
    exact (returns_answer.mpr ⟨mapError_eq_ok.mpr hc, rfl⟩).not_raises _ _ h
  obtain ⟨hcon, rfl⟩ := returns_answer.mp hr
  refine iff_of_true ?_ ⟨ho, schema, content, ht, mapError_eq_ok.mp hcon⟩
  rcases raises_bind.mp h with h | ⟨sm, t₇, -, h⟩
  · exact absurd h ((returns_pyGet.mpr ⟨⟨ho, rfl⟩, rfl⟩).not_raises _ _)
  refine RaisesOnly.bind fatal_textValue (fun tt => ?_) _ _ _ h
  exact (fatal_require rfl).bind fun _ => fatal_textValue.bind fun _ => (fatal_require rfl).bind
    fun _ => fatal_insertArtifact.bind fun _ => raisesOnly_write.bind fun _ => raisesOnly_write.bind
      fun _ => raisesOnly_commit

theorem refused_iff_drafted (hj : j.jobType = .extractArtifact) :
    Refused db input j ↔ Drafted db input j := by
  constructor
  · rintro (⟨hj', -⟩ | ⟨hj', -⟩ | hd)
    · cases hj.symm.trans hj'
    · cases hj.symm.trans hj'
    · exact hd
  · exact .extractArtifact

/-- A handler fails in a flush exactly when the database refuses what it was delivered. -/
theorem abortsSession_iff {handler : HandlerInput → Job → DbM Unit}
    (hh : jobHandler j.jobType = some handler)
    (h : (handler input j).Raises (Tx.clean n db files) e t') :
    e.abortsSession = true ↔ Refused db input j := by
  cases hj : j.jobType with
  | transcribe =>
    rw [hj] at hh
    obtain rfl := Option.some.inj hh
    exact fatal_transcribe hj h
  | summarize =>
    rw [hj] at hh
    obtain rfl := Option.some.inj hh
    exact fatal_summarize hj h
  | extractArtifact =>
    rw [hj] at hh
    obtain rfl := Option.some.inj hh
    exact (fatal_extractArtifact hj h).trans (refused_iff_drafted hj).symm
  | publish =>
    rw [hj] at hh
    obtain rfl := Option.some.inj hh
    have he : e.abortsSession = false := mild_publish _ _ _ h
    rw [he]
    refine iff_of_false Bool.false_ne_true ?_
    rintro (⟨hj', -⟩ | ⟨hj', -⟩ | ⟨hj', -⟩)
    · cases hj.symm.trans hj'
    · cases hj.symm.trans hj'
    · cases hj.symm.trans hj'
  | other name => simp [hj, jobHandler] at hh

/-- A publish job that fails on an existing artifact has flushed its mark. -/
theorem marked_of_raises {a : Artifact} (hj : j.inputPayload.artifactId = some a.id)
    (ha : a ∈ db.artifacts) (h : (handlePublishJob input j).Raises (Tx.clean n db files) e t) :
    t = (Tx.clean n db files).flush (markArtifact input.now a.id) := by
  have hf : db.artifact? a.id = some a := Db.artifact?_eq_some.mpr ⟨ha, rfl⟩
  simp only [handlePublishJob, markPublished, hj, raises_bind, raises_require, returns_require,
    raises_read, returns_read, raises_forSome, raises_write, returns_write, raises_commit,
    false_or, or_false, and_false, exists_false] at h
  obtain h | ⟨_, _, ⟨⟨⟩, rfl⟩, _, _, ⟨ho, rfl⟩, b, rfl, _, _, rfl, h⟩ := h
  · cases h.1
  · obtain rfl := Option.some.inj (ho.trans hf)
    exact (raises_transitionSession h).1

end Raises

end AiBadge
