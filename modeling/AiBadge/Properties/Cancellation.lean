import AiBadge.System.FileStep
import AiBadge.System.Invariant

/-! # Cancellation

Jobs, artifacts and deletion jobs exist only for sessions that have been handed over for
processing, and nothing leads back from there. So a cancelled session has none, and no
endpoint and no worker finds anything to do with it.
-/

namespace AiBadge

open Lib SessionStatus

/-- No job, no artifact and no deletion job belongs to the session. -/
structure Bare (db : Db) (sessionId : Uuid) : Prop where
  jobs : ∀ j ∈ db.jobs, j.sessionId ≠ some sessionId
  artifacts : ∀ x ∈ db.artifacts, x.sessionId ≠ sessionId
  deletionJobs : ∀ d ∈ db.deletionJobs, d.sessionId ≠ some sessionId

/-- Sessions in an early status are bare. -/
def EarlyBare (db : Db) : Prop := ∀ s ∈ db.sessions, s.status ∈ early → Bare db s.id

/-- The row of `s` is cancelled, with the consent of `s`, and bare. -/
def CancelledAs (s : Session) (db : Db) : Prop :=
  (∃ r ∈ db.sessions, r.id = s.id ∧ r.status = cancelled ∧ r.consentGranted = s.consentGranted) ∧
    Bare db s.id

/-- Some job or artifact belongs to the session. -/
def Begun (db : Db) (sessionId : Uuid) : Prop :=
  (∃ j ∈ db.jobs, j.sessionId = some sessionId) ∨ ∃ x ∈ db.artifacts, x.sessionId = sessionId

/-- No edge leads back to an early status. -/
theorem early_of_edge_to {b c : SessionStatus} {consent : Bool} (hc : c ∈ early)
    (h : (canTransition b c consent).1 = true) : b ∈ early := by
  rcases edge_of_canTransition h with rfl | he
  · exact hc
  · revert hc he
    cases b <;> cases c <;> decide

theorem not_canTransition_cancelled {c : SessionStatus} {consent : Bool} :
    ¬ (canTransition cancelled c consent).1 = true := by
  cases c <;> cases consent <;> decide

section Step

variable {w w' : World} {a : Action} {s s' : Session} {sid : Uuid}

/-- The steps into an early status start in one. -/
theorem early_of_sessionStep (h : w.SessionStep a s s') (he : s'.status ∈ early) :
    s.status ∈ early := by
  cases h with
  | same => exact he
  | consent => exact he
  | audio => exact he
  | patched _ _ _ hc => exact early_of_edge_to he hc
  | cancelled _ hc => exact early_of_edge_to he hc
  | retracted => exact absurd he (by decide : retracting ∉ early)
  | advanced => exact absurd he (by decide : approved ∉ early)
  | publishing => exact absurd he (by decide : publishing ∉ early)
  | extracted => exact absurd he (by decide : needsReview ∉ early)
  | published => exact absurd he (by decide : published ∉ early)

variable (hw : w.Sound) (h : w.step a = some w')
include hw h

/-- What belongs to a session belonged to it before, or the step queues its first jobs. -/
theorem Bare.step (hb : Bare w.db sid) (hp : ∀ r ∈ w.db.sessions, r.id = sid → r.status ≠ published)
    (hs : ∃ r ∈ w'.db.sessions, r.id = sid ∧ r.status ≠ processing) : Bare w'.db sid where
  jobs := by
    intro j' hj' hsid
    rcases (hw.jobs h).origin j' hj' with ⟨j, hj, -, hstep⟩ | hnew
    · exact hb.jobs j hj (hstep.sameOrigin.sessionId.symm.trans hsid)
    · cases hnew with
      | stage ha =>
        obtain rfl := Option.some.inj hsid
        have he := World.effect_of_step h
        rw [ha] at he
        rcases World.processing_of_patch he with hsame | hproc
        · exact hb.jobs _ (hsame ▸ hj') hsid
        · obtain ⟨r, hr, hi, hn⟩ := hs
          exact hn (hproc r hr hi)
      | retry _ hx => exact hb.artifacts _ hx (Option.some.inj hsid)
      | publish _ hx => exact hb.artifacts _ hx (Option.some.inj hsid)
  artifacts := by
    intro x' hx' hsid
    rcases hw.artifacts h x' hx' with ⟨x, hx, -, hstep⟩ | hnew
    · exact hb.artifacts x hx (hstep.sessionId.symm.trans hsid)
    · cases hnew with
      | extracted _ hc _ hjs =>
        obtain ⟨_, _, _, _, -, -, hj, -⟩ := hc
        exact hb.jobs _ hj (hjs.trans (congrArg some hsid))
  deletionJobs := by
    intro d' hd' hsid
    rcases (hw.deletions h).origin d' hd' with ⟨d, hd, -, hstep⟩ | hnew
    · exact hb.deletionJobs d hd (hstep.sessionId.symm.trans hsid)
    · cases hnew with
      | queued _ hr hpub => exact hp _ hr (Option.some.inj hsid) hpub

omit h in
/-- A session is created bare, since every reference names an older session. -/
theorem bare_of_fresh (hf : ∀ r ∈ w.db.sessions, r.id ≠ sid) : Bare w.db sid where
  jobs j hj hsid := by
    obtain ⟨r, hr, hjr, -⟩ := hw.jobSession j hj
    exact hf r hr (Option.some.inj (hjr.symm.trans hsid))
  artifacts x hx hsid := by
    obtain ⟨r, hr, hxr, -⟩ := hw.artifactSession x hx
    exact hf r hr (hxr.trans hsid)
  deletionJobs d hd hsid := by
    obtain ⟨r, hr, hdr⟩ := hw.deletionSession d hd
    exact hf r hr (Option.some.inj (hdr.symm.trans hsid))

theorem EarlyBare.step (hb : EarlyBare w.db) : EarlyBare w'.db := by
  intro s' hs' he
  have hproc : s'.status ≠ processing := by
    intro hp
    rw [hp] at he
    exact absurd he (by decide)
  rcases (hw.sessions h).origin s' hs' with ⟨s, hs, hi, hstep⟩ | hnew
  · have hse := early_of_sessionStep hstep he
    refine Bare.step hw h (hi ▸ hb s hs hse) ?_ ⟨s', hs', rfl, hproc⟩
    intro r hr hri hpub
    obtain rfl := Table.eq_of_key_eq hr hs (hri.trans hi)
    rw [hpub] at hse
    exact absurd hse (by decide)
  · cases hnew with
    | created _ hf =>
      refine Bare.step hw h (bare_of_fresh hw hf) ?_ ⟨_, hs', rfl, hproc⟩
      intro r hr hri
      exact absurd hri (hf r hr)

theorem CancelledAs.step (hc : CancelledAs s w.db) : CancelledAs s w'.db := by
  obtain ⟨⟨r, hr, hid, hst, hcons⟩, hb⟩ := hc
  obtain ⟨r', hr', hid', hstep⟩ := (hw.sessions h).kept r hr
  have hkept : r'.status = cancelled ∧ r'.consentGranted = r.consentGranted := by
    cases hstep with
    | same => exact ⟨hst, rfl⟩
    | audio => exact ⟨hst, rfl⟩
    | consent _ _ hn =>
      rw [hst] at hn
      exact absurd (by decide) hn
    | patched _ _ _ hcan =>
      rw [hst] at hcan
      exact absurd hcan not_canTransition_cancelled
    | cancelled _ hcan =>
      rw [hst] at hcan
      exact absurd hcan not_canTransition_cancelled
    | retracted _ hp => cases hst.symm.trans hp
    | advanced _ _ hx hi => exact absurd (hi.symm.trans hid) (hb.artifacts _ hx)
    | publishing _ _ hx hi => exact absurd (hi.symm.trans hid) (hb.artifacts _ hx)
    | extracted hcom _ hjs =>
      obtain ⟨_, _, _, _, -, -, hj, -⟩ := hcom
      exact absurd (hjs.trans (congrArg some hid)) (hb.jobs _ hj)
    | published _ _ _ hx hi => exact absurd (hi.symm.trans hid) (hb.artifacts _ hx)
  refine ⟨⟨r', hr', hid'.trans hid, hkept.1, hkept.2.trans hcons⟩, Bare.step hw h hb ?_ ?_⟩
  · intro q hq hqi hpub
    obtain rfl := Table.eq_of_key_eq hq hr (hqi.trans hid.symm)
    cases hst.symm.trans hpub
  · refine ⟨r', hr', hid'.trans hid, ?_⟩
    rw [hkept.1]
    exact nofun

/-- A session that has left the early statuses stays out of them. -/
theorem notEarly_step (hs : ∀ r ∈ w.db.sessions, r.id = sid → r.status ∉ early)
    (hr : ∃ r ∈ w.db.sessions, r.id = sid) : ∀ r ∈ w'.db.sessions, r.id = sid → r.status ∉ early := by
  intro r' hr' hi he
  obtain ⟨r, hr, hri⟩ := hr
  exact hs r hr hri (early_of_sessionStep ((hw.sessions h).row hr hr' (hi.trans hri.symm)) he)

end Step

theorem earlyBare_of_run {now : Timestamp} {tr : List (Transition World Action)} {w : World}
    (hr : SystemRun now tr w) : w.Sound ∧ EarlyBare w.db :=
  hr.invariant (I := fun w => w.Sound ∧ EarlyBare w.db)
    ⟨World.sound_init now, fun s hs => (Table.not_mem_empty s hs).elim⟩
    fun _ _ _ ⟨hw, hb⟩ h => ⟨hw.step h, hb.step hw h⟩

theorem Begun.not_early {db : Db} {sid : Uuid} (hb : Begun db sid) (he : EarlyBare db) :
    ∀ s ∈ db.sessions, s.id = sid → s.status ∉ early := by
  rintro s hs rfl hst
  have hbare := he s hs hst
  rcases hb with ⟨j, hj, hsid⟩ | ⟨x, hx, hsid⟩
  · exact hbare.jobs j hj hsid
  · exact hbare.artifacts x hx hsid

/-- A cancelled session keeps its status and its consent for good and never has a job, an artifact
or a deletion job; and a session with a job or an artifact is not cancelled, then or later. -/
theorem cancelled_final {now : Timestamp} {tr tr' : List (Transition World Action)} {w w' : World}
    (hr : SystemRun now tr w) (hr' : Run World.step w tr' w') :
    (∀ s ∈ w.db.sessions, s.status = cancelled →
      CancelledAs s w.db ∧ ∀ t ∈ tr', CancelledAs s t.post.db) ∧
    ∀ sid, Begun w.db sid → ∀ db ∈ w.db :: tr'.map (·.post.db),
      ∀ s ∈ db.sessions, s.id = sid → s.status ≠ cancelled := by
  obtain ⟨hw, hb⟩ := earlyBare_of_run hr
  constructor
  · intro s hs hc
    have hbare : Bare w.db s.id := hb s hs (by rw [hc]; decide)
    have h₀ : CancelledAs s w.db := ⟨⟨s, hs, rfl, hc, rfl⟩, hbare⟩
    refine ⟨h₀, (hr'.forall_of_kept (I := fun w => w.Sound ∧ CancelledAs s w.db) ⟨hw, h₀⟩ ?_).2⟩
    rintro v a v' ⟨hv, hc⟩ h
    have hc' := hc.step hv h
    exact ⟨⟨hv.step h, hc'⟩, hc'⟩
  · intro sid hbegun db hdb s hs hi hc
    have hn := hbegun.not_early hb
    have hex : ∃ r ∈ w.db.sessions, r.id = sid := by
      rcases hbegun with ⟨j, hj, hsid⟩ | ⟨x, hx, hsid⟩
      · obtain ⟨r, hrm, hjr, -⟩ := hw.jobSession j hj
        exact ⟨r, hrm, Option.some.inj (hjr.symm.trans hsid)⟩
      · obtain ⟨r, hrm, hxr, -⟩ := hw.artifactSession x hx
        exact ⟨r, hrm, hxr.trans hsid⟩
    have hearly : s.status ∈ early := by
      rw [hc]
      decide
    rcases List.mem_cons.mp hdb with rfl | hdb
    · exact hn s hs hi hearly
    · obtain ⟨t, ht, rfl⟩ := List.mem_map.mp hdb
      have key := (hr'.forall_of_kept
        (I := fun w => w.Sound ∧ (∃ r ∈ w.db.sessions, r.id = sid) ∧
          ∀ r ∈ w.db.sessions, r.id = sid → r.status ∉ early)
        (P := fun t => ∀ r ∈ t.post.db.sessions, r.id = sid → r.status ∉ early)
        ⟨hw, hex, hn⟩ ?_).2
      · exact key t ht s hs hi hearly
      rintro v a v' ⟨hv, ⟨r, hrm, hri⟩, hne⟩ h
      obtain ⟨r', hr', hri', -⟩ := (hv.sessions h).kept r hrm
      have hne' := notEarly_step hv h hne ⟨r, hrm, hri⟩
      exact ⟨⟨hv.step h, ⟨r', hr', hri'.trans hri⟩, hne'⟩, hne'⟩

/-- Session 5 is cancelled before it records anything. -/
def cancelledSession : List Action :=
  open Replay in
  [owner, .request (.createSession (uuid 2) (uuid 5) ⟨none, none⟩),
    .request (.updateConsent (uuid 2) (some (uuid 5)) true),
    .request (.cancelSession (uuid 2) (some (uuid 5)))]

/-- Consent, a patch and an upload come after the cancellation. -/
def afterCancellation : List Action :=
  open Replay in
  [.request (.updateConsent (uuid 2) (some (uuid 5)) false), patch .capturing 10,
    .request (.uploadAudio (uuid 2) (uuid 6) (some (uuid 5)) ⟨some "x.wav", none, 10⟩),
    patch .processing 20]

theorem cancelled_untouched : ∃ tr w tr' w' s, SystemRun 0 tr w ∧ Run World.step w tr' w' ∧
    tr'.length = 4 ∧ s ∈ w.db.sessions ∧ s.consentGranted = true ∧
    ∀ t ∈ tr', CancelledAs s t.post.db := by
  obtain ⟨tr, w, hr, hp⟩ := exists_run
    (fun _ (w : World) => decide (∃ s ∈ w.db.sessions, s.status = cancelled ∧
        s.consentGranted = true) &&
      (execute World.step w afterCancellation).any fun p : List (Transition World Action) × World =>
        decide (p.1.length = 4))
    (show (execute World.step (World.init 0) cancelledSession).any _ = true by decide +kernel)
  obtain ⟨hs, hl⟩ := Bool.and_eq_true_iff.mp hp
  obtain ⟨s, hs, hc, hg⟩ := of_decide_eq_true hs
  obtain ⟨tr', w', hr', hl⟩ := exists_run (fun tr' _ => decide (tr'.length = 4)) hl
  exact ⟨tr, w, tr', w', s, hr, hr', of_decide_eq_true hl, hs, hg,
    ((cancelled_final hr hr').1 s hs hc).2⟩

end AiBadge
