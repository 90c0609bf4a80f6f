import AiBadge.System.Invariant

/-! # Reviewed before published

What the statuses `approved`, `publishing` and `published` of a session say about its
artifacts, and the steps that do not look at the artifacts before they write one of them.
-/

namespace AiBadge

open Lib SessionStatus

/-- The statuses that a session takes once its artifacts are reviewed. -/
def SessionStatus.cleared : List SessionStatus := [approved, publishing, published]

def ArtifactStatus.cleared : List ArtifactStatus := [.approved, .published]

/-- The session has artifacts, and each of them is approved or published. -/
def AllReviewed (db : Db) (sessionId : Uuid) : Prop :=
  (∃ x ∈ db.artifacts, x.sessionId = sessionId) ∧
    ∀ x ∈ db.artifacts, x.sessionId = sessionId → x.status ∈ ArtifactStatus.cleared

def SomePublished (db : Db) (sessionId : Uuid) : Prop :=
  ∃ x ∈ db.artifacts, x.sessionId = sessionId ∧ x.status = .published

def ReviewedFirst (db : Db) (s : Session) : Prop :=
  (s.status ∈ cleared → AllReviewed db s.id) ∧ (s.status = published → SomePublished db s.id)

instance (db : Db) (sessionId : Uuid) : Decidable (AllReviewed db sessionId) :=
  inferInstanceAs (Decidable ((∃ x ∈ db.artifacts, _) ∧ ∀ x ∈ db.artifacts, _ → _))

instance (db : Db) (sessionId : Uuid) : Decidable (SomePublished db sessionId) :=
  inferInstanceAs (Decidable (∃ x ∈ db.artifacts, _ ∧ _))

instance (db : Db) (s : Session) : Decidable (ReviewedFirst db s) :=
  inferInstanceAs (Decidable ((_ → _) ∧ (_ → _)))

/-- What a good step must respect for the session `s`: patches and publication requests find its
artifacts reviewed, and nothing rejects or erases them while its status says that they are. -/
structure ReviewRespected (w : World) (a : Action) (s : Session) : Prop where
  patch : ∀ user ids text target, a = .request (.updateSessionStatus user ids (some s.id) text) →
    w.Accepts (.updateSessionStatus user ids (some s.id) text) → parse? text = some target →
    (target ∈ cleared → AllReviewed w.db s.id) ∧ (target = published → SomePublished w.db s.id)
  publish : ∀ user uuid4, ∀ x ∈ w.db.artifacts, s.id = x.sessionId →
    a = .request (.publishArtifact user uuid4 (some x.id)) →
    w.Accepts (.publishArtifact user uuid4 (some x.id)) → AllReviewed w.db s.id
  reject : ∀ user ids comment, ∀ x ∈ w.db.artifacts, s.id = x.sessionId →
    a = .request (.reviewArtifact user ids (some x.id) ⟨.reject, comment⟩) →
    w.Accepts (.reviewArtifact user ids (some x.id) ⟨.reject, comment⟩) → s.status ∉ cleared
  erase : w.Erases a s.id → s.status ∉ cleared

/-- The step neither rejects, nor adds, nor removes an artifact of the session. -/
structure Undisturbed (w : World) (a : Action) (sessionId : Uuid) : Prop where
  reject : ∀ user ids comment, ∀ x ∈ w.db.artifacts, sessionId = x.sessionId →
    a = .request (.reviewArtifact user ids (some x.id) ⟨.reject, comment⟩) →
    ¬ w.Accepts (.reviewArtifact user ids (some x.id) ⟨.reject, comment⟩)
  extract : ∀ j, w.Commits a j → j.jobType = .extractArtifact → j.sessionId ≠ some sessionId
  erase : ¬ w.Erases a sessionId

section Step

variable {w w' : World} {a : Action} {sid : Uuid} (hw : w.Sound) (h : w.step a = some w')
include hw h

theorem AllReviewed.step (hu : Undisturbed w a sid) (hall : AllReviewed w.db sid) :
    AllReviewed w'.db sid := by
  obtain ⟨⟨x, hx, hxs⟩, hall⟩ := hall
  constructor
  · subst hxs
    obtain ⟨x', hx', hi⟩ := World.artifact_kept hw.settled hx hu.erase (World.effect_of_step h)
    exact ⟨x', hx', (hw.artifact_row h hx hx' hi).sessionId⟩
  · intro y' hy' hys
    rcases hw.artifacts h y' hy' with ⟨y, hy, -, hstep⟩ | hnew
    · have hys : y.sessionId = sid := hstep.sessionId.symm.trans hys
      have hst := hall y hy hys
      cases hstep with
      | same => exact hst
      | edited => exact hst
      | approved => exact List.mem_cons_self
      | rejected ha hacc => exact absurd hacc (hu.reject _ _ _ y hy hys.symm ha)
      | published => exact List.mem_cons_of_mem _ List.mem_cons_self
    · cases hnew with
      | extracted _ hc ht hjs => exact absurd (hys ▸ hjs) (hu.extract _ hc ht)

/-- Approving one artifact of a published session leaves another one published. -/
theorem SomePublished.step {s : Session} (hs : s ∈ w.db.sessions) (hst : s.status = published)
    (hu : Undisturbed w a s.id) (hp : SomePublished w.db s.id) (hall : AllReviewed w.db s.id) :
    SomePublished w'.db s.id := by
  obtain ⟨x, hx, hxs, hxp⟩ := hp
  have kept {y : Artifact} (hy : y ∈ w.db.artifacts) (hys : y.sessionId = s.id) :
      ∃ y' ∈ w'.db.artifacts, y'.sessionId = s.id ∧ w.ArtifactStep a y y' := by
    obtain ⟨y', hy', hi⟩ := World.artifact_kept hw.settled hy (hys ▸ hu.erase)
      (World.effect_of_step h)
    have hstep := hw.artifact_row h hy hy' hi
    exact ⟨y', hy', hstep.sessionId.trans hys, hstep⟩
  obtain ⟨x', hx', hxs', hstep⟩ := kept hx hxs
  cases hstep with
  | same => exact ⟨x, hx', hxs, hxp⟩
  | edited => exact ⟨_, hx', hxs, hxp⟩
  | published => exact ⟨_, hx', hxs, rfl⟩
  | rejected ha hacc => exact absurd hacc (hu.reject _ _ _ x hx hxs.symm ha)
  | @approved user ids comment ha hacc =>
    rcases World.remaining_of_approve hx hacc with ⟨b, hb, hbs, hne, hbp⟩ | ⟨r, hr, hrs, hrev⟩
    · have hbs : b.sessionId = s.id := hbs.trans hxs
      have hbp : b.status = .published := by
        simpa [ArtifactStatus.cleared, hbp] using hall.2 b hb hbs
      obtain ⟨b', hb', hbs', hstep⟩ := kept hb hbs
      have hxb : some b.id ≠ some x.id := fun he => hne (Option.some.inj he)
      cases hstep with
      | same => exact ⟨b, hb', hbs, hbp⟩
      | edited he =>
        rw [ha] at he
        cases he
      | published => exact ⟨_, hb', hbs, rfl⟩
      | approved he =>
        rw [ha] at he
        injection he with he
        injection he with _ _ he
        exact absurd he.symm hxb
      | rejected he => simp [ha] at he
    · obtain rfl := Table.eq_of_key_eq hr hs (hrs.trans hxs)
      rw [hst] at hrev
      exact absurd hrev (by decide)

/-- A session that keeps its status. -/
theorem reviewedFirst_of_kept {s s' : Session} (hs : s ∈ w.db.sessions)
    (hs' : s' ∈ w'.db.sessions) (hi : s'.id = s.id) (hst : s'.status = s.status)
    (hp : ReviewedFirst w.db s) (hc : ReviewRespected w a s) : ReviewedFirst w'.db s' := by
  have hu (hcl : s.status ∈ cleared) : Undisturbed w a s.id :=
    { reject := fun user ids comment x hx hxs ha hacc =>
        hc.reject user ids comment x hx hxs ha hacc hcl
      erase := fun he => hc.erase he hcl
      extract := fun j hj ht hjs => by
        have hn := World.needsReview_of_extract hj ht (hjs.trans (congrArg some hi.symm))
          (World.effect_of_step h) hs'
        rw [← hst, hn] at hcl
        exact absurd hcl (by decide) }
  unfold ReviewedFirst
  rw [hst, hi]
  refine ⟨fun hcl => (hp.1 hcl).step hw h (hu hcl), fun hpub => ?_⟩
  have hcl : s.status ∈ cleared := hpub ▸ (by decide : published ∈ cleared)
  exact (hp.2 hpub).step hw h hs hpub (hu hcl) (hp.1 hcl)

theorem reviewedFirst_of_respected {s s' : Session} (hs : s ∈ w.db.sessions)
    (hs' : s' ∈ w'.db.sessions) (hi : s'.id = s.id) (hk : w.SessionStep a s s')
    (hp : ReviewedFirst w.db s) (hc : ReviewRespected w a s) : ReviewedFirst w'.db s' := by
  have he := World.effect_of_step h
  have other (hcl : s'.status ∉ cleared) : ReviewedFirst w'.db s' :=
    ⟨fun h => absurd h hcl, fun h => absurd (h ▸ (by decide : published ∈ cleared)) hcl⟩
  cases hk with
  | same => exact reviewedFirst_of_kept hw h hs hs' rfl rfl hp hc
  | consent => exact reviewedFirst_of_kept hw h hs hs' rfl rfl hp hc
  | audio => exact reviewedFirst_of_kept hw h hs hs' rfl rfl hp hc
  | @patched user ids text target ha hacc ht =>
    obtain ⟨h₁, h₂⟩ := hc.patch user ids text target ha hacc ht
    rw [ha] at he
    have hx := World.artifacts_of_unsubjected rfl he
    unfold ReviewedFirst AllReviewed SomePublished
    rw [hx]
    exact ⟨h₁, h₂⟩
  | cancelled => exact other (by decide : cancelled ∉ cleared)
  | retracted => exact other (by decide : retracting ∉ cleared)
  | extracted => exact other (by decide : needsReview ∉ cleared)
  | @advanced user ids x comment ha hacc hx hxs _ hall =>
    refine ⟨fun _ => ?_, by rintro ⟨⟩⟩
    have hn : ¬ w.Erases a x.sessionId := by
      rw [ha]
      rintro ⟨_, _, _, _, _, ⟨⟩, -⟩
    obtain ⟨x', hx', hxi⟩ := World.artifact_kept hw.settled hx hn he
    refine ⟨⟨x', hx', (hw.artifact_row h hx hx' hxi).sessionId.trans hxs.symm⟩, ?_⟩
    intro y' hy' hys
    rcases hw.artifacts h y' hy' with ⟨y, hy, -, hstep⟩ | hnew
    · have hys : y.sessionId = x.sessionId := hstep.sessionId.symm.trans (hys.trans hxs)
      cases hstep with
      | same hsub =>
        have hne : y'.id ≠ x.id := fun hyx => hsub _ ha hacc (congrArg some hyx.symm)
        rw [hall y' hy hys hne]
        decide
      | edited hr =>
        rw [ha] at hr
        cases hr
      | approved => exact List.mem_cons_self
      | rejected hr => simp [ha] at hr
      | published => exact List.mem_cons_of_mem _ List.mem_cons_self
    · cases hnew with
      | extracted hr =>
        rw [ha] at hr
        cases hr
  | @publishing user uuid4 x ha hacc hx hxs =>
    have hall := hc.publish user uuid4 x hx hxs ha hacc
    rw [ha] at he
    have hx := World.artifacts_of_unsubjected rfl he
    refine ⟨fun _ => ?_, by rintro ⟨⟩⟩
    unfold AllReviewed at hall ⊢
    rw [hx]
    exact hall
  | @published j x hj ht hjx hx hxs hcan =>
    have hcl : s.status ∈ cleared := by
      rcases edge_of_canTransition hcan with hst | hst
      · rw [hst]
        decide
      · revert hst
        cases s.status <;> decide
    have hu : Undisturbed w a s.id :=
      { reject := fun _ _ _ _ _ _ ha => absurd ha (hj.not_request _)
        extract := fun i hi hit => by
          rw [hi.unique hj, ht] at hit
          cases hit
        erase := by
          obtain ⟨_, _, _, _, rfl, -⟩ := hj
          rintro ⟨_, _, _, _, _, ⟨⟩, -⟩ }
    refine ⟨fun _ => (hp.1 hcl).step hw h hu, fun _ => ?_⟩
    obtain ⟨x', hx', -, hxs', hst⟩ := World.published_of_commit hj ht hx hjx he
    exact ⟨x', hx', hxs'.trans hxs.symm, hst⟩

theorem respected_of_reviewedFirst {s s' : Session} (hs' : s' ∈ w'.db.sessions)
    (hi : s'.id = s.id) (hk : w.SessionStep a s s') (hp : ReviewedFirst w'.db s') :
    ReviewRespected w a s where
  patch user ids text target ha hacc ht := by
    have he := World.effect_of_step h
    rw [ha] at he
    have hst := World.status_of_patch hacc ht (congrArg some hi.symm) he hs'
    have hx := World.artifacts_of_unsubjected rfl he
    unfold ReviewedFirst AllReviewed SomePublished at hp
    rwa [hst, hi, hx] at hp
  publish user uuid4 x hx hxs ha hacc := by
    have he := World.effect_of_step h
    rw [ha] at he
    have hst := World.status_of_publish hx hacc (hi.trans hxs) he hs'
    have hx := World.artifacts_of_unsubjected rfl he
    have hall := hp.1 (hst ▸ (by decide : publishing ∈ cleared))
    unfold AllReviewed at hall ⊢
    rwa [hi, hx] at hall
  reject user ids comment x hx hxs ha hacc := by
    have hst : s'.status = s.status := by
      subst ha
      cases hk with
      | same => rfl
      | patched ha => cases ha
      | retracted hr =>
        obtain ⟨_, _, ⟨⟩, -⟩ := hr
      | advanced ha => simp at ha
      | extracted hj => exact absurd rfl (hj.not_request _)
      | published hj => exact absurd rfl (hj.not_request _)
      | _ ha => cases ha
    intro hcl
    have hn : ¬ w.Erases a x.sessionId := by
      rw [ha]
      rintro ⟨_, _, _, _, _, ⟨⟩, -⟩
    obtain ⟨x', hx', hxi⟩ := World.artifact_kept hw.settled hx hn (World.effect_of_step h)
    have hstep := hw.artifact_row h hx hx' hxi
    have hrej : x'.status = .rejected := by
      cases hstep with
      | same hsub => exact absurd rfl (hsub _ ha hacc)
      | edited hr =>
        rw [ha] at hr
        cases hr
      | approved hr => simp [ha] at hr
      | rejected => rfl
      | published hr => exact absurd ha (hr _)
    have hxc := (hp.1 (hst ▸ hcl)).2 x' hx' (hstep.sessionId.trans (hxs.symm.trans hi.symm))
    rw [hrej] at hxc
    exact absurd hxc (by decide)
  erase her hcl := by
    have hst : s'.status = s.status := by
      obtain ⟨_, _, _, _, _, rfl, -⟩ := her
      cases hk with
      | same => rfl
      | retracted hr =>
        obtain ⟨_, _, ⟨⟩, -⟩ := hr
      | extracted hj =>
        obtain ⟨_, _, _, _, ⟨⟩, -⟩ := hj
      | published hj =>
        obtain ⟨_, _, _, _, ⟨⟩, -⟩ := hj
      | _ ha => cases ha
    obtain ⟨⟨x, hx, hxs⟩, -⟩ := hp.1 (hst ▸ hcl)
    exact World.artifacts_of_erases hw.settled her (World.effect_of_step h) x hx (hxs.trans hi)

end Step

/-- Every session is reviewed first in a state. -/
def AllReviewedFirst (w : World) : Prop := ∀ s ∈ w.db.sessions, ReviewedFirst w.db s

instance (w : World) : Decidable (AllReviewedFirst w) :=
  inferInstanceAs (Decidable (∀ s ∈ w.db.sessions, ReviewedFirst w.db s))

/-- A step respects the reviews of every session. -/
def ReviewsRespected (w : World) (a : Action) : Prop := ∀ s ∈ w.db.sessions, ReviewRespected w a s

/-- Throughout a run a session is approved, publishing or published only once it is reviewed,
exactly when no step disregards the reviews. -/
theorem run_reviewedFirst_iff {now : Timestamp} {tr : List (Transition World Action)} {w : World}
    (hr : SystemRun now tr w) : (∀ t ∈ tr, AllReviewedFirst t.post) ↔ Meets ReviewsRespected tr := by
  refine hr.forall_post_iff_meets (G := AllReviewedFirst) ?_ ?_
  · exact fun s hs => (Table.not_mem_empty s hs).elim
  · intro tr w a w' hr hp h
    have hw := World.sound_of_run hr
    refine ⟨⟨fun hp' s hs => ?_, fun hc s' hs' => ?_⟩, fun h => h⟩
    · obtain ⟨s', hs', hi, hk⟩ := (hw.sessions h).kept s hs
      exact respected_of_reviewedFirst hw h hs' hi hk (hp' s' hs')
    · rcases (hw.sessions h).origin s' hs' with ⟨s, hs, hi, hk⟩ | hn
      · exact reviewedFirst_of_respected hw h hs hs' hi hk (hp s hs) (hc s hs)
      · cases hn with
        | created => exact ⟨fun hcl => absurd hcl (by decide : idle ∉ cleared), by rintro ⟨⟩⟩

/-- Reviewed, then published by the worker. -/
theorem reviewsRespected_published : ∃ tr w, SystemRun 0 tr w ∧
    (∃ s ∈ w.db.sessions, s.status = published) ∧ Meets ReviewsRespected tr := by
  obtain ⟨tr, w, hr, hp⟩ := exists_run
    (fun tr (w : World) => decide (∃ s ∈ w.db.sessions, s.status = published) &&
      decide (∀ t ∈ tr, AllReviewedFirst t.post))
    (show (execute World.step (World.init 0) Replay.published).any _ = true by decide +kernel)
  obtain ⟨hs, hc⟩ := Bool.and_eq_true_iff.mp hp
  exact ⟨tr, w, hr, of_decide_eq_true hs, (run_reviewedFirst_iff hr).mp (of_decide_eq_true hc)⟩

/-- No session that counts as reviewed has a rejected artifact. -/
def NoneRejected (w : World) : Prop :=
  ∀ s ∈ w.db.sessions, s.status ∈ cleared →
    ∀ x ∈ w.db.artifacts, x.sessionId = s.id → x.status ≠ .rejected

instance (w : World) : Decidable (NoneRejected w) :=
  inferInstanceAs (Decidable (∀ s ∈ w.db.sessions, _ → ∀ x ∈ w.db.artifacts, _ → _))

/-- The owner patches the status while the only artifact waits for its review. -/
def patchedApproval : List Action :=
  Replay.pipeline ++ [Replay.patch reviewing 40, Replay.patch approved 50]

/-- The only artifact is rejected after its approval. -/
def rejectedLater : List Action :=
  Replay.pipeline ++ [Replay.review .approve 32 40, Replay.review .reject 32 50]

theorem approved_unreviewed :
    (¬ ∀ now tr w, SystemRun now tr w → ∀ t ∈ tr, AllReviewedFirst t.post) ∧
      ¬ ∀ now tr w, SystemRun now tr w → ∀ t ∈ tr, NoneRejected t.post :=
  ⟨Replay.refute patchedApproval (by decide +kernel), Replay.refute rejectedLater (by decide +kernel)⟩

end AiBadge
