import AiBadge.Properties.Consent

/-! # The endpoints and the trust policy

The policy engine and the endpoints state the same gates independently. Where a request
moves a session, or publishes an artifact, the check of what it moves or publishes
passes. Patches that move nothing, and the other artifacts of a session, go unchecked.
-/

namespace AiBadge

open Lib Prog SessionStatus

/-- The check does not raise in the committed state. -/
def Passes (w : World) (check : DbM Unit) : Prop :=
  (check (Tx.start w.db w.files)).1.isOk = true

instance (w : World) (check : DbM Unit) : Decidable (Passes w check) :=
  inferInstanceAs (Decidable (_ = true))

/-- A publication request that succeeds passes `check_publish` for its session and the artifacts
that `artifacts` lists. -/
def PublishChecked (artifacts : Db → Artifact → List Artifact) (w : World) : Prop :=
  ∀ user uuid4, ∀ x ∈ w.db.artifacts, ∀ s ∈ w.db.sessions, s.id = x.sessionId →
    w.Accepts (.publishArtifact user uuid4 (some x.id)) → Passes w (checkPublish (artifacts w.db x) s)

/-- All artifacts of the session of `x`. -/
def sessionArtifacts (db : Db) (x : Artifact) : List Artifact :=
  db.artifacts.select fun y => y.sessionId = x.sessionId

/-- A patch to `target` that succeeds passes `check`, on the sessions that satisfy `P`. -/
def PatchChecked (P : Session → Prop) (target : SessionStatus) (check : Session → DbM Unit)
    (w : World) : Prop :=
  ∀ user ids text, ∀ s ∈ w.db.sessions, P s → parse? text = some target →
    w.Accepts (.updateSessionStatus user ids (some s.id) text) → Passes w (check s)

/-- A retraction that succeeds passes `check_retract`. -/
def RetractChecked (w : World) : Prop :=
  ∀ user ids, ∀ s ∈ w.db.sessions, w.Accepts (.retractSession user ids (some s.id)) →
    Passes w (checkRetract s)

section Checks

variable {w : World} {s : Session}

theorem passes_iff {check : DbM Unit} :
    Passes w check ↔ ∃ t, check.Returns (Tx.start w.db w.files) () t := by
  unfold Passes Returns
  rcases check (Tx.start w.db w.files) with ⟨_ | _, t⟩ <;> simp [Except.isOk, Except.toBool]

theorem passes_checkCapture (h : s.consentGranted = true) : Passes w (checkCapture s) := by
  simp [passes_iff, checkCapture, checkConsent, enforce, h]

theorem passes_checkRetract (h : s.status = published) : Passes w (checkRetract s) := by
  simp [passes_iff, checkRetract, h]

theorem passes_checkPublish {artifacts : List Artifact} (h : ∀ x ∈ artifacts, x.status = .approved)
    (ha : s.audioKey.isSome = true) : Passes w (checkPublish artifacts s) := by
  simpa [passes_iff, checkPublish, checkReviewed, enforce, ha] using h

/-- The guard of an accepted status patch. -/
theorem canTransition_of_patch {user : Uuid} {ids : PipelineIds} {text : String}
    {target : SessionStatus} (hs : s ∈ w.db.sessions) (ht : parse? text = some target)
    (hacc : w.Accepts (.updateSessionStatus user ids (some s.id) text)) :
    (canTransition s.status target s.consentGranted).1 = true := by
  have h := serve_of_accepts hacc
  generalize (w.serve _).db = db at h
  generalize hid : some s.id = id at h
  cases h with
  | updateStatus hr _ hp hc =>
    obtain rfl := Table.eq_of_key_eq hs hr (Option.some.inj hid)
    obtain rfl := Option.some.inj (hp.symm.trans ht)
    exact hc
  | startProcessing hr _ hp hc =>
    obtain rfl := Table.eq_of_key_eq hs hr (Option.some.inj hid)
    obtain rfl := Option.some.inj (hp.symm.trans ht)
    exact hc

theorem published_of_canTransition {c : SessionStatus} {consent : Bool} (hn : c ≠ retracting)
    (h : (canTransition c retracting consent).1 = true) : c = published := by
  revert hn h
  cases c <;> cases consent <;> decide

end Checks

/-- In every reachable state, a publication request that succeeds passes `check_publish` for the
artifact it publishes, a patch that moves a session to `capturing` or to `retracting` passes
`check_capture` or `check_retract`, and so does a retraction. -/
theorem policy_enforced {now : Timestamp} {tr : List (Transition World Action)} {w : World}
    (hr : SystemRun now tr w) :
    PublishChecked (fun _ x => [x]) w ∧
      PatchChecked (·.status ≠ capturing) capturing checkCapture w ∧
      PatchChecked (·.status ≠ retracting) retracting checkRetract w ∧ RetractChecked w := by
  have hw := World.sound_of_run hr
  refine ⟨?_, ?_, ?_, ?_⟩
  · intro user uuid4 x hx s hs hi hacc
    obtain ⟨r, hrm, hri, haudio⟩ := hw.artifactSession x hx
    obtain rfl := Table.eq_of_key_eq hs hrm (hi.trans hri.symm)
    have h := serve_of_accepts hacc
    generalize (w.serve _).db = db at h
    generalize hid : some x.id = id at h
    cases h with
    | publishArtifact hy hst =>
      obtain rfl := Table.eq_of_key_eq hx hy (Option.some.inj hid)
      refine passes_checkPublish (fun y hy => ?_) haudio
      rw [List.mem_singleton.mp hy]
      exact hst
  · intro user ids text s hs hn ht hacc
    rcases consent_of_canTransition (canTransition_of_patch hs ht hacc) with hc | hc
    · exact absurd hc hn
    · exact passes_checkCapture hc
  · intro user ids text s hs hn ht hacc
    exact passes_checkRetract (published_of_canTransition hn (canTransition_of_patch hs ht hacc))
  · intro user ids s hs hacc
    have h := serve_of_accepts hacc
    generalize (w.serve _).db = db at h
    generalize hid : some s.id = id at h
    cases h with
    | retractSession hr _ hp =>
      obtain rfl := Table.eq_of_key_eq hs hr (Option.some.inj hid)
      exact passes_checkRetract hp

theorem policy_approved : ∃ tr w, SystemRun 0 tr w ∧
    (∃ x ∈ w.db.artifacts, w.Accepts (.publishArtifact (Replay.uuid 2) (Replay.uuid 50) (some x.id))) ∧
    PublishChecked (fun _ x => [x]) w ∧
      PatchChecked (·.status ≠ capturing) capturing checkCapture w ∧
      PatchChecked (·.status ≠ retracting) retracting checkRetract w ∧ RetractChecked w := by
  obtain ⟨tr, w, hr, hp⟩ := exists_run
    (fun _ (w : World) => decide (∃ x ∈ w.db.artifacts,
      w.Accepts (.publishArtifact (Replay.uuid 2) (Replay.uuid 50) (some x.id))))
    (show (execute World.step (World.init 0)
      (Replay.pipeline ++ [Replay.review .approve 32 40])).any _ = true by decide +kernel)
  exact ⟨tr, w, hr, of_decide_eq_true hp, policy_enforced hr⟩

/-- Artifact 33 is rejected after the session was approved with both of its artifacts. -/
def rejectedSibling : List Action :=
  open Replay in
  pipeline ++ [review .reject 32 40] ++ cycle 40 33 ++
    [review .approve 33 42, review .approve 32 44, .request (.reviewArtifact (uuid 2)
      ⟨uuid 46, uuid (2 ^ 127)⟩ (some (uuid 33)) ⟨.reject, ""⟩)]

/-- A patch of session 5 to `target` after `acts` succeeds, although `check` raises. -/
def PatchUnchecked (target : SessionStatus) (check : Session → DbM Unit) (w : World) : Prop :=
  ∃ s ∈ w.db.sessions, w.Accepts (.updateSessionStatus (Replay.uuid 2)
    ⟨Replay.uuid 90, Replay.uuid 91, Replay.uuid 92⟩ (some s.id) target.value) ∧ ¬ Passes w (check s)

instance (target : SessionStatus) (check : Session → DbM Unit) (w : World) :
    Decidable (PatchUnchecked target check w) :=
  inferInstanceAs (Decidable (∃ s ∈ w.db.sessions, _ ∧ _))

theorem not_patchChecked {target : SessionStatus} {check : Session → DbM Unit} (acts : List Action)
    (h : (execute World.step (World.init 0) acts).any
      (fun p => decide (PatchUnchecked target check p.2)) = true) :
    ¬ ∀ now tr w, SystemRun now tr w → PatchChecked (fun _ => True) target check w := by
  intro hall
  obtain ⟨tr, w, hr, hp⟩ := exists_run (fun _ w => decide (PatchUnchecked target check w)) h
  obtain ⟨s, hs, hacc, hn⟩ := of_decide_eq_true hp
  exact hn (hall 0 tr w hr _ _ _ s hs trivial (parse?_value target) hacc)

/-- Artifact 32 is published although 33 is rejected; a session that is recorded without consent is
patched to `capturing`, and one that is being retracted to `retracting`. -/
theorem policy_bypassed :
    (¬ ∀ now tr w, SystemRun now tr w → PublishChecked sessionArtifacts w) ∧
    (¬ ∀ now tr w, SystemRun now tr w → PatchChecked (fun _ => True) capturing checkCapture w) ∧
    ¬ ∀ now tr w, SystemRun now tr w → PatchChecked (fun _ => True) retracting checkRetract w := by
  refine ⟨?_, ?_, ?_⟩
  · intro hall
    obtain ⟨tr, w, hr, hp⟩ := exists_run
      (fun _ (w : World) => decide (∃ x ∈ w.db.artifacts, ∃ s ∈ w.db.sessions, s.id = x.sessionId ∧
        w.Accepts (.publishArtifact (Replay.uuid 2) (Replay.uuid 50) (some x.id)) ∧
          ¬ Passes w (checkPublish (sessionArtifacts w.db x) s)))
      (show (execute World.step (World.init 0) rejectedSibling).any _ = true by decide +kernel)
    obtain ⟨x, hx, s, hs, hi, hacc, hn⟩ := of_decide_eq_true hp
    exact hn (hall 0 tr w hr _ _ x hx s hs hi hacc)
  · exact not_patchChecked revokedRecording.dropLast (by decide +kernel)
  · exact not_patchChecked (Replay.published ++ [Replay.retract 70]) (by decide +kernel)

end AiBadge
