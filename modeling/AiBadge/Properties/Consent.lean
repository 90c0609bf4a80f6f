import AiBadge.System.Invariant

/-! # Consent

The consent flag is checked on the way into `capturing` only. It can be revoked while a
session is being recorded, and nothing looks at it when the recording is handed over.
-/

namespace AiBadge

open Lib SessionStatus

/-- The user, the session and the text of a status patch. -/
def Action.patch? : Action → Option (Uuid × PathId × String)
  | .request (.updateSessionStatus user _ session text) => some (user, session, text)
  | _ => none

/-- The user is logged in, owns `s`, and patches it to `processing`. -/
def PatchesToProcessing (w : World) (a : Action) (s : Session) : Prop :=
  ∃ p ∈ a.patch?, (∃ u ∈ w.db.users, u.id = p.1) ∧ s.userId = p.1 ∧ p.2.1 = some s.id ∧
    parse? p.2.2 = some processing

/-- Such a patch reaches `create_jobs_for_session`. -/
def StartsPipeline (w : World) (a : Action) (s : Session) : Prop :=
  PatchesToProcessing w a s ∧ (canTransition s.status processing s.consentGranted).1 = true ∧
    s.audioKey.isSome

instance (w : World) (a : Action) (s : Session) : Decidable (StartsPipeline w a s) :=
  inferInstanceAs (Decidable ((∃ p ∈ a.patch?, _ ∧ _) ∧ _))

/-- Sessions are recorded with consent only. -/
def RecordsConsented (db : Db) : Prop :=
  ∀ s ∈ db.sessions, s.status = capturing → s.consentGranted = true

instance (db : Db) : Decidable (RecordsConsented db) :=
  inferInstanceAs (Decidable (∀ s ∈ db.sessions, _ → _))

/-- Sessions are recorded, and handed over for processing, with consent only. -/
structure Consented (t : Transition World Action) : Prop where
  capturing : RecordsConsented t.post.db
  processing : ∀ s ∈ t.pre.db.sessions, StartsPipeline t.pre t.act s → s.consentGranted = true

/-- The step revokes no consent during a recording, and does not patch a session to `processing`
that is processed, or failed to be, once its consent is gone. -/
structure ConsentRespected (w : World) (a : Action) : Prop where
  revoke : ∀ s ∈ w.db.sessions, s.status = capturing →
    ∀ user, a = .request (.updateConsent user (some s.id) false) →
      ¬ w.Accepts (.updateConsent user (some s.id) false)
  restart : ∀ s ∈ w.db.sessions, s.status ∈ [processing, processingFailed] →
    s.consentGranted = false → ¬ PatchesToProcessing w a s

theorem consent_of_canTransition {c : SessionStatus} {consent : Bool}
    (h : (canTransition c capturing consent).1 = true) : c = capturing ∨ consent = true := by
  revert h
  cases c <;> cases consent <;> decide

theorem status_of_canTransition {c : SessionStatus} {consent : Bool}
    (h : (canTransition c processing consent).1 = true) :
    c = capturing ∨ c ∈ [processing, processingFailed] := by
  revert h
  cases c <;> cases consent <;> decide

section Step

variable {w w' : World} {a : Action} {s s' : Session}

/-- An accepted revocation takes the consent away and leaves the status alone. -/
theorem revoked_of_accepts {user : Uuid} {db : Db} {files : Files} (hs : s ∈ w.db.sessions)
    (hacc : w.Accepts (.updateConsent user (some s.id) false))
    (h : w.Effect (.request (.updateConsent user (some s.id) false)) db files)
    (hs' : s' ∈ db.sessions) (hi : s'.id = s.id) : s' = s.withConsent false := by
  obtain ⟨_, r, hr, hri, rfl⟩ := World.effect_of_setsConsent ⟨user, rfl, hacc⟩ h
  obtain rfl := Table.eq_of_key_eq hr hs hri
  have hm : s' ∈ w.db.sessions.update (fun q => q.id = r.id) (Session.withConsent false)
    (by intro; rfl) := hs'
  exact Table.eq_of_mem_update hr hm hi

/-- A step that starts in a recording with consent ends in one, or revokes the consent. -/
theorem consented_of_sessionStep (h : w.SessionStep a s s') (hg : s.status = capturing →
    s.consentGranted = true) (hr : s.status = capturing → ∀ user,
      a = .request (.updateConsent user (some s.id) false) →
        ¬ w.Accepts (.updateConsent user (some s.id) false)) (hc : s'.status = capturing) :
    s'.consentGranted = true := by
  cases h with
  | same => exact hg hc
  | @consent user consent ha hacc =>
    cases consent with
    | true => rfl
    | false => exact absurd hacc (hr hc user ha)
  | audio => exact hg hc
  | patched _ _ _ hcan =>
    obtain rfl : _ = capturing := hc
    rcases consent_of_canTransition hcan with hs | hs
    · exact hg hs
    · exact hs
  | cancelled => cases hc
  | retracted => cases hc
  | advanced => cases hc
  | publishing => cases hc
  | extracted => cases hc
  | published => cases hc

theorem consented_iff (hw : w.Sound) (hg : RecordsConsented w.db) (h : w.step a = some w') :
    Consented ⟨w, a, w'⟩ ↔ ConsentRespected w a := by
  constructor
  · intro hc
    constructor
    · rintro s hs hst user rfl hacc
      obtain ⟨s', hs', hi, -⟩ := (hw.sessions h).kept s hs
      obtain rfl := revoked_of_accepts hs hacc (World.effect_of_step h) hs' hi
      cases hc.capturing _ hs' hst
    · intro s hs hst hn hp
      have hcan : (canTransition s.status processing s.consentGranted).1 = true := by
        revert hst
        cases s.status <;> cases s.consentGranted <;> decide
      have haudio : s.audioKey.isSome := hw.recorded s hs (by
        revert hst
        cases s.status <;> decide)
      cases hn.symm.trans (hc.processing s hs ⟨hp, hcan, haudio⟩)
  · intro hc
    constructor
    · intro s' hs' hst
      rcases (hw.sessions h).origin s' hs' with ⟨s, hs, -, hstep⟩ | hnew
      · exact consented_of_sessionStep hstep (hg s hs) (hc.revoke s hs) hst
      · cases hnew with
        | created => cases hst
    · rintro s hs ⟨hp, hcan, -⟩
      rcases status_of_canTransition hcan with hst | hst
      · exact hg s hs hst
      · by_contra hn
        exact hc.restart s hs hst (Bool.eq_false_iff.mpr hn) hp

end Step

/-- A run records and processes with consent only, in every state and at every handover, exactly when
each of its steps respects it. -/
theorem run_consented_iff {now : Timestamp} {tr : List (Transition World Action)} {w : World}
    (hr : SystemRun now tr w) : (∀ t ∈ tr, Consented t) ↔ Meets ConsentRespected tr := by
  rw [← throughout_const]
  refine hr.throughout_iff_meets_of (G := fun _ w => RecordsConsented w.db) (B := fun _ _ => True)
    (fun _ _ => trivial) (fun s hs => (Table.not_mem_empty s hs).elim) ?_
  intro tr w a w' hr hg _ h
  exact ⟨consented_iff (World.sound_of_run hr) hg h, fun hc => hc.capturing⟩

theorem consentRespected_pipeline :
    ∃ tr w, SystemRun 0 tr w ∧ tr.length = 18 ∧ Meets ConsentRespected tr := by
  obtain ⟨tr, w, hr, hp⟩ := exists_run
    (fun (tr : List (Transition World Action)) (_ : World) =>
      decide (tr.length = 18) && decide (∀ t ∈ tr, RecordsConsented t.post.db ∧
      ∀ s ∈ t.pre.db.sessions, StartsPipeline t.pre t.act s → s.consentGranted = true))
    (show (execute World.step (World.init 0) Replay.pipeline).any _ = true by decide +kernel)
  obtain ⟨hl, hc⟩ := Bool.and_eq_true_iff.mp hp
  have hall := of_decide_eq_true hc
  exact ⟨tr, w, hr, of_decide_eq_true hl,
    (run_consented_iff hr).mp fun t ht => ⟨(hall t ht).1, (hall t ht).2⟩⟩

/-- The consent of the session is revoked while it is being recorded, and the recording is handed
over all the same. -/
def revokedRecording : List Action :=
  open Replay in
  [owner, .request (.createSession (uuid 2) (uuid 5) ⟨none, none⟩),
    .request (.updateConsent (uuid 2) (some (uuid 5)) true), patch .capturing 10,
    .request (.uploadAudio (uuid 2) (uuid 6) (some (uuid 5)) ⟨some "x.wav", none, 10⟩),
    .request (.updateConsent (uuid 2) (some (uuid 5)) false), patch .processing 20]

/-- Both halves fail: a session is recorded without consent, and handed over without it. -/
theorem unconsented_recording :
    (¬ ∀ now tr w, SystemRun now tr w → ∀ t ∈ tr, RecordsConsented t.post.db) ∧
      ¬ ∀ now tr w, SystemRun now tr w → ∀ t ∈ tr, ∀ s ∈ t.pre.db.sessions,
        StartsPipeline t.pre t.act s → s.consentGranted = true :=
  ⟨Replay.refute revokedRecording (by decide +kernel),
    Replay.refute revokedRecording (by decide +kernel)⟩

end AiBadge
