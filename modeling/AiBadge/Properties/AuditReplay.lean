import AiBadge.System.Invariant

/-! # The audit log determines consent

The consent flag of a session and the audit rows that grant and revoke it are written by
one endpoint, in one transaction, and by nothing else. So a replay of the rows yields the flag.
-/

namespace AiBadge

open Lib

/-- What one audit row makes of a consent flag. -/
def AuditLog.replay (granted : Bool) (l : AuditLog) : Bool :=
  match l.action with
  | .consentGranted => true
  | .consentRevoked => false
  | .retractInitiated => granted

/-- The consent that the audit rows of a session add up to, in the order of their insertion. -/
def replayedConsent (logs : List AuditLog) (sessionId : Uuid) : Bool :=
  (logs.filter fun l => l.sessionId = some sessionId).foldl AuditLog.replay false

/-- The flag of every session is the replay of its audit rows. -/
def ConsentReplayed (db : Db) : Prop :=
  ∀ s ∈ db.sessions, s.consentGranted = replayedConsent db.auditLogs s.id

/-- The flag is the replay after the transition, which changes neither side for any session but
that of an accepted consent request. -/
structure ConsentLogged (t : Transition World Action) : Prop where
  replayed : ConsentReplayed t.post.db
  untouched : ∀ s ∈ t.pre.db.sessions, (∀ consent, ¬ t.pre.SetsConsent t.act s.id consent) →
    replayedConsent t.post.db.auditLogs s.id = replayedConsent t.pre.db.auditLogs s.id ∧
      ∃ s' ∈ t.post.db.sessions, s'.id = s.id ∧ s'.consentGranted = s.consentGranted

theorem replayedConsent_append {logs new : List AuditLog} {sid : Uuid} :
    replayedConsent (logs ++ new) sid = (new.filter fun l => l.sessionId = some sid).foldl
      AuditLog.replay (replayedConsent logs sid) := by
  rw [replayedConsent, List.filter_append, List.foldl_append, replayedConsent]

/-- Rows that grant and revoke nothing for the session. -/
theorem replayedConsent_of_silent {logs new : List AuditLog} {sid : Uuid}
    (h : ∀ l ∈ new, l.sessionId = some sid → l.action = .retractInitiated) :
    replayedConsent (logs ++ new) sid = replayedConsent logs sid := by
  rw [replayedConsent_append]
  have hl : ∀ l ∈ new.filter fun l => l.sessionId = some sid, l.action = .retractInitiated := by
    intro l hl
    obtain ⟨hm, hs⟩ := List.mem_filter.mp hl
    exact h l hm (of_decide_eq_true hs)
  generalize new.filter (fun l => decide (l.sessionId = some sid)) = rows at hl
  induction rows with
  | nil => rfl
  | cons l rows ih =>
    rw [List.foldl_cons, AuditLog.replay, hl l List.mem_cons_self]
    exact ih fun r hr => hl r (List.mem_cons_of_mem l hr)

section Step

variable {w w' : World} {a : Action} {sid : Uuid} {s s' : Session} {consent : Bool}

/-- A session keeps its flag unless a consent request for it is accepted. -/
theorem consentGranted_of_sessionStep (h : w.SessionStep a s s')
    (hn : ∀ consent, ¬ w.SetsConsent a s.id consent) : s'.consentGranted = s.consentGranted := by
  cases h with
  | consent ha hacc => exact absurd ⟨_, ha, hacc⟩ (hn _)
  | _ => rfl

theorem replayedConsent_of_step (hw : w.Settled) (h : w.step a = some w')
    (hn : ∀ consent, ¬ w.SetsConsent a sid consent) :
    replayedConsent w'.db.auditLogs sid = replayedConsent w.db.auditLogs sid := by
  obtain ⟨new, hl, hnew⟩ := World.auditLogs_of_effect hw (World.effect_of_step h)
  rw [hl]
  apply replayedConsent_of_silent
  intro l hm hs
  cases hnew l hm with
  | consent _ hc => exact absurd (Option.some.inj hs ▸ hc) (hn _)
  | retracted => rfl

/-- An accepted consent request leaves its value on both sides. -/
theorem consent_of_setsConsent {db : Db} {files : Files} (hc : w.SetsConsent a sid consent)
    (h : w.Effect a db files) : replayedConsent db.auditLogs sid = consent ∧
      ∀ s ∈ db.sessions, s.id = sid → s.consentGranted = consent := by
  obtain ⟨user, r, hr, rfl, rfl⟩ := World.effect_of_setsConsent hc h
  constructor
  · have hlogs : replayedConsent (w.db.auditLogs ++ [sessionAudit w.now
        (if consent then .consentGranted else .consentRevoked) r.id user]) r.id = consent := by
      rw [replayedConsent_append]
      cases consent <;> simp [sessionAudit, AuditLog.replay]
    exact hlogs
  · intro s hs hi
    have hm : s ∈ w.db.sessions.update (fun q => q.id = r.id) (Session.withConsent consent)
      (by intro; rfl) := hs
    rw [Table.eq_of_mem_update hr hm hi]
    rfl

theorem ConsentReplayed.step (hw : w.Sound) (h : w.step a = some w') (hp : ConsentReplayed w.db) :
    ConsentReplayed w'.db := by
  intro s' hs'
  by_cases hc : ∃ consent, w.SetsConsent a s'.id consent
  · obtain ⟨consent, hc⟩ := hc
    obtain ⟨hreplay, hflag⟩ := consent_of_setsConsent hc (World.effect_of_step h)
    rw [hreplay, hflag s' hs' rfl]
  · have hn : ∀ consent, ¬ w.SetsConsent a s'.id consent := fun c hs => hc ⟨c, hs⟩
    rw [replayedConsent_of_step hw.settled h hn]
    rcases (hw.sessions h).origin s' hs' with ⟨s, hs, hi, hstep⟩ | hnew
    · rw [hi] at hn ⊢
      rw [consentGranted_of_sessionStep hstep hn]
      exact hp s hs
    · cases hnew with
      | @created _ uuid4 _ _ _ hf =>
        -- no audit row names a session that does not exist yet
        have hnone : w.db.auditLogs.filter (fun l => l.sessionId = some uuid4) = [] := by
          rw [List.filter_eq_nil_iff]
          intro l hl hs
          obtain ⟨r, hr, hlr⟩ := hw.auditSession l hl
          exact hf r hr (Option.some.inj (hlr.symm.trans (of_decide_eq_true hs)))
        rw [replayedConsent, hnone]
        rfl

end Step

/-- In every state of every run the consent of a session is the replay of its audit rows, and only
an accepted consent request for the session changes either. -/
theorem run_consentLogged {now : Timestamp} {tr : List (Transition World Action)} {w : World}
    (hr : SystemRun now tr w) : ∀ t ∈ tr, ConsentLogged t := by
  refine (hr.forall_of_kept (I := fun w => w.Sound ∧ ConsentReplayed w.db) ?_ ?_).2
  · exact ⟨World.sound_init now, fun s hs => (Table.not_mem_empty s hs).elim⟩
  · rintro w a w' ⟨hw, hp⟩ h
    have hp' := hp.step hw h
    refine ⟨⟨hw.step h, hp'⟩, hp', fun s hs hn => ?_⟩
    obtain ⟨s', hs', hi, hstep⟩ := (hw.sessions h).kept s hs
    exact ⟨replayedConsent_of_step hw.settled h hn, s', hs', hi,
      consentGranted_of_sessionStep hstep hn⟩

/-- Granted, then revoked during the recording. -/
theorem consentLogged_revoked : ∃ tr w, SystemRun 0 tr w ∧ w.db.auditLogs.length = 2 ∧
    ∀ t ∈ tr, ConsentLogged t := by
  obtain ⟨tr, w, hr, hp⟩ := exists_run (fun _ (w : World) => decide (w.db.auditLogs.length = 2))
    (show (execute World.step (World.init 0) (Replay.recorded ++ [.request (.updateConsent
      (Replay.uuid 2) (some (Replay.uuid 5)) false)])).any _ = true by decide +kernel)
  exact ⟨tr, w, hr, of_decide_eq_true hp, run_consentLogged hr⟩

end AiBadge
