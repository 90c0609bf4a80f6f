import AiBadge.System.HandlerFailure
import AiBadge.System.Invariant

/-! # Guards of the handlers

Every job row has a session with a recording, and every publish job names an artifact. So
the transcription fails only in its provider or its flush, and the publication only in the state
machine.
-/

namespace AiBadge

open Lib Prog DbM SessionStatus

/-- The statuses of a session whose recording has been handed over. -/
def SessionStatus.handedOver : List SessionStatus :=
  [processing, processingFailed, needsReview, reviewing, approved, publishing, publishFailed,
    published, retracting, retracted]

/-- The errors of the three guards of `handle_transcribe_job`. -/
def transcribeGuards (sessionId : Uuid) : List Exn :=
  [.valueError "transcribe job has no session_id", .valueError s!"Session {sessionId.str} not found",
    .valueError s!"Session {sessionId.str} has no audio_key"]

/-- The error of the guard of `handle_publish_job`. -/
def publishGuard : Exn := .valueError "publish job missing artifact_id in input_payload"

/-- What the guards of the handlers check holds, so none of them raises. -/
structure GuardsHold (w : World) : Prop where
  transcribe : ∀ j ∈ w.db.jobs, j.jobType = .transcribe →
    ∃ sid, j.sessionId = some sid ∧ ∃ s, w.db.session? sid = some s ∧ s.audioKey.isSome
  publish : ∀ j ∈ w.db.jobs, j.jobType = .publish →
    ∃ aid, j.inputPayload.artifactId = some aid ∧ aid.str ≠ ""
  transcribeRaises : ∀ j ∈ w.db.jobs, j.jobType = .transcribe → ∀ input e t,
    (handleTranscribeJob input j).Raises (Tx.start w.db w.files) e t →
      ∀ sid, e ∉ transcribeGuards sid
  publishRaises : ∀ j ∈ w.db.jobs, j.jobType = .publish → ∀ input e t,
    (handlePublishJob input j).Raises (Tx.start w.db w.files) e t → e ≠ publishGuard
  audio : ∀ s ∈ w.db.sessions, s.status ∈ handedOver → s.audioKey.isSome

theorem str_ne_empty (u : Uuid) : u.str ≠ "" := by
  intro h
  have hc : '-' ∈ u.str.toList := by simp [Uuid.str]
  rw [h] at hc
  cases hc

section Raises

variable {db : Db} {files : Files} {input : HandlerInput} {j : Job} {e : Exn} {t : Tx Db Files}

/-- With a session and a recording in place, only the transcriber or the flush raises. -/
theorem raised_of_transcribe {s : Session} (hj : j.sessionId = some s.id)
    (hs : db.session? s.id = some s) (ha : s.audioKey.isSome)
    (h : (handleTranscribeJob input j).Raises (Tx.start db files) e t) :
    ∃ message, e = .provider message ∨ e = .dataError message := by
  obtain ⟨key, hkey⟩ := Option.isSome_iff_exists.mp ha
  cases hr : input.providers.transcribe key with
  | ok r =>
    simp [handleTranscribeJob, jsonColumn, hj, hs, hkey, hr, Except.mapError] at h
    exact ⟨_, .inr h.2.1⟩
  | error message =>
    simp [handleTranscribeJob, hj, hs, hkey, hr, Except.mapError] at h
    exact ⟨message, .inl h.1.symm⟩

/-- With an artifact named, only the session transition raises. -/
theorem transition_of_publish {aid : Uuid} (hj : j.inputPayload.artifactId = some aid)
    (h : (handlePublishJob input j).Raises (Tx.start db files) e t) :
    ∃ (x : Artifact) (t₀ t : Tx Db Files),
      (transitionSession x.sessionId published).Raises t₀ e t := by
  simp only [handlePublishJob, markPublished, hj, raises_bind, raises_require, returns_require,
    raises_read, returns_read, raises_forSome, raises_write, returns_write, raises_commit,
    false_or, or_false, and_false, exists_false] at h
  obtain h | ⟨_, _, ⟨⟨⟩, rfl⟩, _, _, ⟨ho, rfl⟩, b, rfl, _, _, rfl, h⟩ := h
  · cases h.1
  · exact ⟨b, _, _, h⟩

/-- The errors of a session transition read differently from that of the guard. -/
theorem ne_publishGuard_of_transition {sid : Uuid} {target : SessionStatus} {t₀ : Tx Db Files}
    (h : (transitionSession sid target).Raises t₀ e t) : e ≠ publishGuard := by
  have differ {text : String} {c : Char} (hc : text.toList.head? = some c) (hp : c ≠ 'p') :
      Exn.valueError text ≠ publishGuard := by
    intro he
    rw [Exn.valueError.inj he] at hc
    exact hp (Option.some.inj hc).symm
  simp only [transitionSession, raises_bind, raises_read, returns_read, raises_require,
    returns_require, raises_ensure, returns_ensure, raises_write, returns_write, false_or,
    and_false, exists_false, or_false] at h
  obtain ⟨_, _, ⟨rfl, rfl⟩, ⟨-, rfl, -⟩ | ⟨_, _, -, -, rfl, -⟩⟩ := h
  · exact differ (c := 'S') (by simp [toString]) (by decide)
  · exact differ (c := 'C') (by simp [toString]) (by decide)

end Raises

theorem World.Sound.guardsHold {w : World} (hw : w.Sound) : GuardsHold w where
  transcribe j hj _ := by
    obtain ⟨s, hs, hjs, ha⟩ := hw.jobSession j hj
    exact ⟨s.id, hjs, s, Db.session?_eq_some.mpr ⟨hs, rfl⟩, ha⟩
  publish j hj ht := by
    obtain ⟨aid, -, hp, -⟩ := hw.publishJob j hj ht
    exact ⟨aid, hp, str_ne_empty aid⟩
  transcribeRaises j hj _ input e t h sid := by
    obtain ⟨s, hs, hjs, ha⟩ := hw.jobSession j hj
    obtain ⟨message, rfl | rfl⟩ :=
      raised_of_transcribe hjs (Db.session?_eq_some.mpr ⟨hs, rfl⟩) ha h
    · simp [transcribeGuards]
    · simp [transcribeGuards]
  publishRaises j hj ht input e t h := by
    obtain ⟨aid, -, hp, -⟩ := hw.publishJob j hj ht
    obtain ⟨x, t₀, t₁, hr⟩ := transition_of_publish hp h
    exact ne_publishGuard_of_transition hr
  audio s hs hst := by
    refine hw.recorded s hs fun he => ?_
    revert hst he
    cases s.status <;> decide

/-- In every reachable state the guards of both handlers hold, for every job that a worker can
claim there, and every session whose recording has been handed over has one. -/
theorem guardsHold_of_run {now : Timestamp} {tr : List (Transition World Action)} {w : World}
    (hr : SystemRun now tr w) : GuardsHold w := (World.sound_of_run hr).guardsHold

/-- A state with a transcription and a publish job. -/
theorem guardsHold_published : ∃ tr w, SystemRun 0 tr w ∧
    (∃ j ∈ w.db.jobs, j.jobType = .transcribe) ∧ (∃ j ∈ w.db.jobs, j.jobType = .publish) ∧
    GuardsHold w := by
  obtain ⟨tr, w, hr, hp⟩ := exists_run (fun _ (w : World) =>
    decide (∃ j ∈ w.db.jobs, j.jobType = .transcribe) &&
      decide (∃ j ∈ w.db.jobs, j.jobType = .publish))
    (show (execute World.step (World.init 0) Replay.published).any _ = true by decide +kernel)
  obtain ⟨ht, hp⟩ := Bool.and_eq_true_iff.mp hp
  exact ⟨tr, w, hr, of_decide_eq_true ht, of_decide_eq_true hp, guardsHold_of_run hr⟩

end AiBadge
