import AiBadge.Artifacts.Schemas
import AiBadge.Providers.OpenAiLlm
import AiBadge.System.HandlerFailure
import AiBadge.System.World

/-! # What an extraction stores

No text of the model is checked against the schema that it was asked for. So an extraction
fails or stores content that conforms exactly as long as the texts do, and a text that is not
JSON never does.
-/

namespace AiBadge

open Lib PyJson Prog DbM SessionStatus

/-- What an extraction takes from the transcript, the summary and its job. -/
structure Extraction where
  transcript : Json
  artifactType : ArtifactType
  title : Option String
  summary : Option String
  sessionId : Uuid

namespace Extraction

def titleJson (x : Extraction) : Json := (x.title.map Json.str).getD .null

def prompt (x : Extraction) : Prompt := .extractArtifact x.transcript x.artifactType x.titleJson

def artifact (x : Extraction) (jobId artifactId : Uuid) (content : Json) : Artifact where
  id := artifactId
  sessionId := x.sessionId
  jobId := jobId
  artifactType := x.artifactType
  title := x.title.map clipTitle
  content := content
  summary := x.summary
  status := .pendingReview

def output (x : Extraction) : Json :=
  .obj [("artifact_type", .str x.artifactType.value), ("title", x.titleJson)]

/-- The job passes every check of its handler but for the content. -/
structure Ready (x : Extraction) (db : Db) (j : Job) (artifactId : Uuid) : Prop where
  transcript : Transcribed db j.sessionId x.transcript
  summary : ∃ y, Summarized db j.sessionId y ∧ y.isObj = true ∧
    (y.get? "artifact_type").getD (.str "meeting_minutes") = .str x.artifactType.value ∧
    (y.get? "title").getD (.str "Untitled") = x.titleJson ∧
    (y.get? "summary").getD (.str "") = (x.summary.map Json.str).getD .null
  session : j.sessionId = some x.sessionId
  fresh : ∀ a ∈ db.artifacts, a.id ≠ artifactId
  title : x.title.all fitsTitle = true

end Extraction

section Handler

variable {input : HandlerInput} {j : Job} {t t₀ : Tx Db Files} {x : Extraction} {db : Db}

theorem returns_extractArtifact {u : Unit} :
    (handleExtractArtifactJob input j).Returns t₀ u t ↔
      ∃ (x : Extraction) (content : Json), x.Ready t₀.view j input.artifactId ∧
        input.providers.complete x.prompt = .ok (some content) ∧
        t = (((t₀.flush fun db => db.addArtifact (x.artifact j.id input.artifactId content)).flush
          fun db => db.setSession x.sessionId (Session.withStatus needsReview)
            (Session.withStatus_id needsReview)).flush
          fun db => db.setJob j.id (Job.withOutput x.output) (Job.withOutput_id x.output)).commit := by
  constructor
  · intro h
    obtain ⟨x, t₁, r₁, h₁⟩ := returns_bind.mp h
    obtain ⟨hx, rfl⟩ := returns_getTranscript r₁
    obtain ⟨y, t₂, r₂, h₂⟩ := returns_bind.mp h₁
    obtain ⟨hy, rfl⟩ := returns_getSummarizeResult r₂
    obtain ⟨_, t₃, r₃, h₃⟩ := returns_bind.mp h₂
    obtain ⟨⟨ho, hty⟩, rfl⟩ := returns_pyGet.mp r₃
    obtain ⟨_, t₄, r₄, h₄⟩ := returns_bind.mp h₃
    obtain ⟨⟨-, htt⟩, rfl⟩ := returns_pyGet.mp r₄
    obtain ⟨schema, t₅, r₅, h₅⟩ := returns_bind.mp h₄
    obtain ⟨rfl, rfl⟩ := returns_schemaClass.mp r₅
    obtain ⟨answered, t₆, r₆, h₆⟩ := returns_bind.mp h₅
    obtain ⟨hc, rfl⟩ := returns_answer.mp r₆
    obtain ⟨_, t₇, r₇, h₇⟩ := returns_bind.mp h₆
    obtain ⟨⟨-, hsm⟩, rfl⟩ := returns_pyGet.mp r₇
    obtain ⟨title, t₈, r₈, h₈⟩ := returns_bind.mp h₇
    obtain ⟨rfl, rfl⟩ := returns_textValue.mp r₈
    obtain ⟨content, t₉, r₉, h₉⟩ := returns_bind.mp h₈
    obtain ⟨rfl, rfl⟩ := returns_jsonColumn.mp r₉
    obtain ⟨summary, t₁₀, r₁₀, h₁₀⟩ := returns_bind.mp h₉
    obtain ⟨rfl, rfl⟩ := returns_textValue.mp r₁₀
    obtain ⟨sid, t₁₁, r₁₁, h₁₁⟩ := returns_bind.mp h₁₀
    obtain ⟨hsid, rfl⟩ := returns_require.mp r₁₁
    obtain ⟨_, t₁₂, r₁₂, h₁₂⟩ := returns_bind.mp h₁₁
    obtain ⟨⟨hf, hv⟩, rfl⟩ := returns_insertArtifact.mp r₁₂
    simp only [returns_bind, returns_write, returns_commit] at h₁₂
    obtain ⟨_, _, rfl, _, _, rfl, rfl⟩ := h₁₂
    refine ⟨⟨x, schema, title, summary, sid⟩, content, ⟨hx, ?_, hsid, hf, hv⟩,
      mapError_eq_ok.mp hc, rfl⟩
    exact ⟨y, hy, ho, hty.symm, htt.symm, hsm.symm⟩
  · rintro ⟨x, content, ⟨hx, ⟨y, hy, ho, hty, htt, hsm⟩, hsid, hf, hv⟩, hc, rfl⟩
    refine returns_bind.mpr ⟨_, _, getTranscript_of_transcribed hx, ?_⟩
    refine returns_bind.mpr ⟨_, _, getSummarizeResult_of_summarized hy, ?_⟩
    refine returns_bind.mpr ⟨_, _, returns_pyGet.mpr ⟨⟨ho, hty.symm⟩, rfl⟩, ?_⟩
    refine returns_bind.mpr ⟨_, _, returns_pyGet.mpr ⟨⟨ho, htt.symm⟩, rfl⟩, ?_⟩
    refine returns_bind.mpr ⟨_, _, returns_schemaClass.mpr ⟨rfl, rfl⟩, ?_⟩
    refine returns_bind.mpr ⟨_, _, returns_answer.mpr ⟨mapError_eq_ok.mpr hc, rfl⟩, ?_⟩
    refine returns_bind.mpr ⟨_, _, returns_pyGet.mpr ⟨⟨ho, hsm.symm⟩, rfl⟩, ?_⟩
    refine returns_bind.mpr ⟨_, _, returns_textValue.mpr ⟨rfl, rfl⟩, ?_⟩
    refine returns_bind.mpr ⟨_, _, returns_jsonColumn.mpr ⟨rfl, rfl⟩, ?_⟩
    refine returns_bind.mpr ⟨_, _, returns_textValue.mpr ⟨rfl, rfl⟩, ?_⟩
    refine returns_bind.mpr ⟨_, _, returns_require.mpr ⟨hsid, rfl⟩, ?_⟩
    refine returns_bind.mpr ⟨(), _, returns_insertArtifact.mpr ⟨⟨hf, hv⟩, rfl⟩, ?_⟩
    rfl

theorem keepsOnRaise_extractArtifact :
    KeepsOnRaise Tx.committed (handleExtractArtifactJob input j) :=
  keeps_getTranscript.bind_onRaise fun _ => keeps_getSummarizeResult.bind_onRaise fun _ =>
    keeps_pyGet.bind_onRaise fun _ => keeps_pyGet.bind_onRaise fun _ =>
    keeps_schemaClass.bind_onRaise fun _ => keeps_answer.bind_onRaise fun _ =>
    keeps_pyGet.bind_onRaise fun _ => keeps_textValue.bind_onRaise fun _ =>
    keeps_require.bind_onRaise fun _ => keeps_textValue.bind_onRaise fun _ =>
    keeps_require.bind_onRaise fun _ =>
    (keeps_read.bind fun _ => keeps_ensure.bind fun _ => keeps_ensure.bind fun _ =>
      keeps_write_committed).bind_onRaise fun _ =>
    keeps_write_committed.bind_onRaise fun _ => keeps_write_committed.bind_onRaise fun _ =>
    keepsOnRaise_commit

end Handler

/-- The call fails without an artifact, or it creates one that conforms to the schema of its
type. -/
def ConformingCall (db : Db) (r : Except Exn Unit × Tx Db Files) : Prop :=
  r.1.isOk = false ∧ r.2.committed.artifacts = db.artifacts ∨
    r.1.isOk = true ∧ ∃ a : Artifact, (∀ b ∈ db.artifacts, b.id ≠ a.id) ∧
      r.2.committed.artifacts = db.artifacts.insert a ∧ a.artifactType ∈ ArtifactType.all ∧
      a.artifactType.conforms a.content = true

theorem ConformingCall.conforms {db : Db} {r : Except Exn Unit × Tx Db Files}
    (h : ConformingCall db r) {a : Artifact} (ha : a ∈ r.2.committed.artifacts) :
    a ∈ db.artifacts ∨ a.artifactType.conforms a.content = true := by
  rcases h with ⟨-, h⟩ | ⟨-, b, -, h, -, hb⟩
  · exact .inl (h ▸ ha)
  · rcases Table.mem_of_mem_insert (h ▸ ha) with hm | rfl
    · exact .inl hm
    · exact .inr hb

/-- The texts that become no content outside the schema: the column refuses their value or it
conforms, or they are not JSON and have a NUL, or the decoder gives up. -/
def TextFits (limits : Limits) (type : ArtifactType) (text : String) : Prop :=
  match loads limits.decoding text with
  | .ok v => ∀ x, columnValue (limits.encoding + 1) v = some x → type.conforms x = true
  | .error .decode => Char.ofNat 0 ∈ text.toList
  | .error _ => True

section Calls

variable {limits : Limits} {type : ArtifactType} {content : Option String} {v : Json}

theorem complete_eq_ok : OpenAILLMProvider.complete limits content = .ok (some v) ↔ ∃ x,
    decodeCompletion limits (completionText content) = .ok x ∧
      columnValue (limits.encoding + 1) x = some v := by
  unfold OpenAILLMProvider.complete
  cases decodeCompletion limits (completionText content) with
  | error e => simp [Bind.bind, Except.bind]
  | ok x => simp [Bind.bind, Except.bind, Pure.pure, Except.pure]

/-- The wrapped text lacks the title. -/
theorem not_conforms_rawText (text : String) :
    ¬ type.conforms (.obj [("raw_text", .str text)]) = true := by
  intro h
  obtain ⟨s, hs⟩ := ArtifactType.title_of_conforms h
  simp [Json.get?] at hs

theorem textFits_iff : TextFits limits type (completionText content) ↔
    ∀ x, OpenAILLMProvider.complete limits content = .ok (some x) → type.conforms x = true := by
  simp only [complete_eq_ok, TextFits, decodeCompletion]
  cases loads limits.decoding (completionText content) with
  | ok v => simp
  | error e =>
    cases e with
    | decode =>
      by_cases hn : Char.ofNat 0 ∈ (completionText content).toList
      · simp [columnValue_rawText, hn]
      · simp [columnValue_rawText, hn, not_conforms_rawText]
    | value => simp
    | recursion => simp

variable {transcribe : AudioKey → Except String TranscriptResult}
  {answers : Prompt → Except String (Option String)} {prompt : Prompt}

theorem openAi_complete_eq_ok :
    (openAiProviders limits transcribe answers).complete prompt = .ok (some v) ↔ ∃ content,
      answers prompt = .ok content ∧ OpenAILLMProvider.complete limits content = .ok (some v) := by
  simp only [openAiProviders]
  cases answers prompt <;> simp [Bind.bind, Except.bind]

end Calls

section Outcome

variable {input : HandlerInput} {j : Job} {n : Nat} {db : Db} {files : Files} {x : Extraction}
  {v : Json}

/-- A job that is ready stores what the model answers. -/
theorem conformingCall_of_ready (hx : x.Ready db j input.artifactId)
    (hc : input.providers.complete x.prompt = .ok (some v)) :
    ConformingCall db (handleExtractArtifactJob input j (Tx.clean n db files)) ↔
      x.artifactType.conforms v = true := by
  have hr : (handleExtractArtifactJob input j).Returns (Tx.clean n db files) () _ :=
    returns_extractArtifact.mpr ⟨x, v, hx, hc, rfl⟩
  have hnew : ∀ b ∈ db.artifacts, b.id ≠ (x.artifact j.id input.artifactId v).id := hx.fresh
  rw [ConformingCall, show handleExtractArtifactJob input j (Tx.clean n db files) = _ from hr]
  constructor
  · rintro (⟨hf, -⟩ | ⟨-, a, -, hins, -, hconf⟩)
    · cases hf
    · have hm : x.artifact j.id input.artifactId v ∈ db.artifacts.insert a :=
        hins ▸ (Table.mem_insert_of_not_mem hnew).mpr (.inr rfl)
      rcases Table.mem_of_mem_insert hm with hm | rfl
      · exact absurd rfl (hnew _ hm)
      · exact hconf
  · intro h
    exact .inr ⟨rfl, _, hnew, rfl, x.artifactType.mem_all, h⟩

theorem conformingCall_iff :
    ConformingCall db (handleExtractArtifactJob input j (Tx.clean n db files)) ↔
      ∀ x : Extraction, x.Ready db j input.artifactId → ∀ v,
        input.providers.complete x.prompt = .ok (some v) → x.artifactType.conforms v = true := by
  constructor
  · intro h x hx v hv
    exact (conformingCall_of_ready hx hv).mp h
  · intro h
    rcases returns_or_raises (handleExtractArtifactJob input j) (Tx.clean n db files) with
      ⟨u, t, hr⟩ | ⟨e, t, hr⟩
    · obtain ⟨x, v, hx, hv, -⟩ := returns_extractArtifact.mp hr
      exact (conformingCall_of_ready hx hv).mpr (h x hx v hv)
    · have hk := keepsOnRaise_extractArtifact _ _ _ hr
      rw [ConformingCall, show handleExtractArtifactJob input j (Tx.clean n db files) = _ from hr]
      exact .inl ⟨rfl, congrArg Db.artifacts hk⟩

end Outcome

/-- Whatever the summary call has left in the database, an extraction call fails or creates an
artifact that conforms exactly when the text for it fits the schema, unless another check of the
handler fails. -/
theorem conformingCall_iff_textFits (limits : Limits)
    (transcribe : AudioKey → Except String TranscriptResult)
    (answers : Prompt → Except String (Option String)) (now : Timestamp) (artifactId : Uuid)
    (j : Job) (n : Nat) (db : Db) (files : Files) :
    ConformingCall db (handleExtractArtifactJob
        ⟨openAiProviders limits transcribe answers, now, artifactId⟩ j (Tx.clean n db files)) ↔
      ∀ x : Extraction, x.Ready db j artifactId → ∀ content, answers x.prompt = .ok content →
        TextFits limits x.artifactType (completionText content) := by
  rw [conformingCall_iff]
  constructor
  · intro h x hx content hc
    rw [textFits_iff]
    intro v hv
    exact h x hx v (openAi_complete_eq_ok.mpr ⟨content, hc, hv⟩)
  · intro h x hx v hv
    obtain ⟨content, hc, hv⟩ := openAi_complete_eq_ok.mp hv
    exact textFits_iff.mp (h x hx content hc) v hv

namespace Replay

/-- The language model answers in prose. -/
def prose : Providers :=
  openAiProviders ⟨900, 900⟩ (fun _ => .ok ⟨"hello", some [], "en"⟩)
    fun _ => .ok (some "I cannot help with that.")

/-- The job 22 of session 5, whose summary is prose, is claimed. -/
def proseSummary : List Action :=
  recorded ++ cycle 20 30 ++
    [.beginCycle 0, .claim 0 (uuid 21) [], .runHandler 0 prose (uuid 31), .endCycle 0,
      .beginCycle 0, .claim 0 (uuid 22) []]

/-- The extraction would store prose as the first artifact. -/
def storesProse (w : World) : Bool :=
  w.db.artifacts.rows.isEmpty && w.db.jobs.any fun j => j.jobType = .extractArtifact &&
    (handleExtractArtifactJob ⟨prose, w.now, uuid 32⟩ j
      (Tx.clean 1 w.db w.files)).2.committed.artifacts.any fun a =>
        !a.artifactType.conforms a.content

end Replay

theorem not_conformingCall : ¬ ∀ limits transcribe answers now tr w, SystemRun now tr w →
    ∀ j ∈ w.db.jobs, j.jobType = .extractArtifact → ∀ artifactId n,
      ConformingCall w.db (handleExtractArtifactJob
        ⟨openAiProviders limits transcribe answers, w.now, artifactId⟩ j
        (Tx.clean n w.db w.files)) := by
  intro hall
  have he : (execute World.step (World.init 0) Replay.proseSummary).any
      (fun p => Replay.storesProse p.2) = true := by decide +kernel
  obtain ⟨tr, w, hr, hp⟩ := exists_run (fun _ w => Replay.storesProse w) he
  simp only [Replay.storesProse, Bool.and_eq_true, Table.any_eq_true, decide_eq_true_eq,
    Bool.not_eq_true'] at hp
  obtain ⟨hempty, j, hj, hty, a, ha, hn⟩ := hp
  rcases (hall _ _ _ 0 tr w hr j hj hty (Replay.uuid 32) 1).conforms ha with hm | hc
  · rw [Table.mem_def, List.isEmpty_iff.mp hempty] at hm
    cases hm
  · exact absurd hc (Bool.eq_false_iff.mp hn)
end AiBadge
