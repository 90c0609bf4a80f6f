import AiBadge.System.Invariant
import AiBadge.System.WorkerStep

/-! # The life cycle of an artifact

The status of an artifact and its publication time over a run. The review endpoint does
not look at the status it overwrites, and takes a published artifact back.
-/

namespace AiBadge

open Lib

/-- The flow `draft → pending_review → {approved, rejected} → published`, with new reviews among the
three statuses in the middle. -/
def ArtifactStatus.flow : ArtifactStatus → List ArtifactStatus
  | draft => [pendingReview]
  | pendingReview => [approved, rejected]
  | approved => [pendingReview, rejected, published]
  | rejected => [pendingReview, approved, published]
  | published => []

/-- The publication time is set exactly on published artifacts. -/
def StampedOnly (db : Db) : Prop :=
  ∀ x ∈ db.artifacts, x.publishedAt.isSome = true ↔ x.status = .published

instance (db : Db) : Decidable (StampedOnly db) :=
  inferInstanceAs (Decidable (∀ x ∈ db.artifacts, _ ↔ _))

/-- Every artifact keeps its status, moves on in the flow, or is erased by a retraction. -/
structure InFlow (t : Transition World Action) : Prop where
  flow : ∀ x ∈ t.pre.db.artifacts, ∀ x' ∈ t.post.db.artifacts, x'.id = x.id →
    x'.status = x.status ∨ x'.status ∈ x.status.flow
  erased : ∀ x ∈ t.pre.db.artifacts, (∀ x' ∈ t.post.db.artifacts, x'.id ≠ x.id) →
    t.pre.Erases t.act x.sessionId
  stamped : StampedOnly t.post.db

/-- No published artifact is reviewed again. -/
def ReviewsUnpublished (w : World) (a : Action) : Prop :=
  ∀ x ∈ w.db.artifacts, x.status = .published → ∀ user ids body,
    a = .request (.reviewArtifact user ids (some x.id) body) →
      ¬ w.Accepts (.reviewArtifact user ids (some x.id) body)

/-- What a worker may carry over into the deletion half of its poll cycle, where every publication
mark comes from a publish job. -/
inductive Carried (db : Db) : List (Db → Db) → Prop where
  | nothing : Carried db []
  | released {t : Timestamp} : Carried db [releaseTimedOutJobs t]
  | marked {t : Timestamp} {artifactId : Uuid} {j : Job} : j ∈ db.jobs → j.jobType = .publish →
      j.inputPayload.artifactId = some artifactId → Carried db [markArtifact t artifactId]

/-- No artifact is a draft, and only reviewed artifacts have publish jobs. -/
structure PastReview (w : World) : Prop where
  carried : ∀ k, Carried w.db (w.workers k).phase.pending
  notDraft : ∀ x ∈ w.db.artifacts, x.status ≠ .draft
  queued : ∀ j ∈ w.db.jobs, j.jobType = .publish → ∀ x ∈ w.db.artifacts,
    j.inputPayload.artifactId = some x.id → x.status ≠ .pendingReview

theorem pastReview_init (now : Timestamp) : PastReview (World.init now) where
  carried _ := .nothing
  notDraft x hx := (Table.not_mem_empty x hx).elim
  queued j hj := (Table.not_mem_empty j hj).elim

section Step

variable {w w' : World} {a : Action} {x x' : Artifact}

theorem Carried.mono {db db' : Db} {pending : List (Db → Db)} (h : Carried db pending)
    (hj : ∀ j ∈ db.jobs, ∃ j' ∈ db'.jobs, j'.jobType = j.jobType ∧
      j'.inputPayload = j.inputPayload) : Carried db' pending := by
  cases h with
  | nothing => exact .nothing
  | released => exact .released
  | marked hm ht hi =>
    obtain ⟨j', hj', ht', hi'⟩ := hj _ hm
    exact .marked hj' (ht'.trans ht) (by rw [hi', hi])

/-- What a handler call leaves flushed. -/
theorem carried_of_call {k : WorkerId} {providers : Providers} {aid : Uuid} {j : Job} {db : Db}
    {pending : List (Db → Db)} (hj : j ∈ w.db.jobs)
    (h : World.CallEffect w k providers aid j db pending) : Carried w.db pending := by
  cases h with
  | committed => exact .nothing
  | raised _ _ hres =>
    cases hres with
    | nothing => exact .nothing
    | marked ht hi => exact .marked hj ht hi
  | unknown => exact .nothing

/-- The artifacts that a publication mark leaves. -/
theorem mem_markArtifact {t : Timestamp} {id : Uuid} {db : Db}
    (h : x' ∈ (markArtifact t id db).artifacts) :
    x' ∈ db.artifacts ∨ ∃ x ∈ db.artifacts, x.id = id ∧ x' = x.withPublication t := by
  rw [markArtifact_artifacts, Table.mem_update] at h
  obtain ⟨x, hx, rfl⟩ := h
  by_cases he : x.id = id
  · rw [if_pos (by simpa using he)]
    exact .inr ⟨x, hx, he, rfl⟩
  · rw [if_neg (by simpa using he)]
    exact .inl hx

/-- A worker step publishes no artifact but those that have a publish job. -/
theorem artifacts_of_worker {db : Db} {files : Files} (hr : PastReview w) (h : w.Effect a db files)
    (ha : ∀ r, a ≠ .request r) (hx' : x' ∈ db.artifacts) :
    x' ∈ w.db.artifacts ∨ w.ArtifactNew a x' ∨
      ∃ x ∈ w.db.artifacts, (∃ t, x' = x.withPublication t) ∧
        ∃ j ∈ w.db.jobs, j.jobType = .publish ∧ j.inputPayload.artifactId = some x.id := by
  have marked {t : Timestamp} {id : Uuid} {j : Job} (hj : j ∈ w.db.jobs) (ht : j.jobType = .publish)
      (hi : j.inputPayload.artifactId = some id) (hm : x' ∈ (markArtifact t id w.db).artifacts) :
      x' ∈ w.db.artifacts ∨ w.ArtifactNew a x' ∨
        ∃ x ∈ w.db.artifacts, (∃ t, x' = x.withPublication t) ∧
          ∃ j ∈ w.db.jobs, j.jobType = .publish ∧ j.inputPayload.artifactId = some x.id := by
    rcases mem_markArtifact hm with hx | ⟨x, hx, hid, he⟩
    · exact .inl hx
    · exact .inr (.inr ⟨x, hx, ⟨t, he⟩, j, hj, ht, hid ▸ hi⟩)
  cases h with
  | refused => exact absurd rfl (ha _)
  | served => exact absurd rfl (ha _)
  | @committed k providers aid j _ hp hj hc h =>
    by_cases ht : j.jobType = .extractArtifact
    · exact (World.artifacts_of_extract hc ht h x' hx').imp_right .inl
    · cases h with
      | transcribe => exact .inl hx'
      | summarize => exact .inl hx'
      | extractArtifact ht' => exact absurd ht' ht
      | publishMissing => exact .inl hx'
      | publish hty hi => exact marked hj hty hi hx'
  | @deletion k d locked remove pending db files hp hd h =>
    have hx := World.artifacts_of_deletionEffect h x' hx'
    have hc : Carried w.db pending := by
      have hc := hr.carried k
      rwa [hp] at hc
    cases hc with
    | nothing => exact .inl hx
    | released => exact .inl hx
    | marked hj ht hi => exact marked hj ht hi hx
  | _ => exact .inl hx'

variable (hw : w.Sound) (hr : PastReview w) (h : w.step a = some w')
include hw h

theorem artifact_of_new (hx : x ∈ w.db.artifacts) (hi : x'.id = x.id) : ¬ w.ArtifactNew a x' := by
  intro hnew
  cases hnew with
  | extracted ha =>
    refine (World.fresh_of_step h).2 x'.id ?_ (hi ▸ hw.artifactId x hx)
    rw [ha]
    exact List.mem_singleton.mpr rfl

/-- What an accepted review leaves of its artifact. -/
theorem status_of_review {user : Uuid} {ids : RetryIds} {body : ReviewRequest}
    (ha : a = .request (.reviewArtifact user ids (some x.id) body))
    (hacc : w.Accepts (.reviewArtifact user ids (some x.id) body)) (hx : x ∈ w.db.artifacts) :
    ∃ x' ∈ w'.db.artifacts, x'.id = x.id ∧ x'.status ∈ [.approved, .rejected] := by
  have hne : ¬ w.Erases a x.sessionId := by
    rintro ⟨_, _, _, _, -, hb, -⟩
    cases ha.symm.trans hb
  obtain ⟨x', hx', hi⟩ := World.artifact_kept hw.settled hx hne (World.effect_of_step h)
  refine ⟨x', hx', hi, ?_⟩
  cases hw.artifact_row h hx hx' hi with
  | same hn => exact absurd rfl (hn _ ha hacc)
  | edited hb => cases ha.symm.trans hb
  | approved => exact List.mem_cons_self
  | rejected => exact List.mem_cons_of_mem _ List.mem_cons_self
  | published hn => exact absurd ha (hn _)

include hr

theorem PastReview.carried_step (k : WorkerId) : Carried w'.db (w'.workers k).phase.pending := by
  have mono {pending : List (Db → Db)} (hc : Carried w.db pending) : Carried w'.db pending := by
    refine hc.mono fun j hj => ?_
    obtain ⟨j', hj', -, hstep⟩ := (hw.jobs h).kept j hj
    exact ⟨j', hj', hstep.sameOrigin.jobType, hstep.sameOrigin.inputPayload⟩
  have hc := hr.carried k
  have hstep := World.worker_of_step (k := k) h
  generalize w'.workers k = worker at hstep ⊢
  cases hstep with
  | same => exact mono hc
  | began => exact .nothing
  | claimed => exact .nothing
  | rested => exact .released
  | called _ _ hj ho hcall =>
    cases ho with
    | returned => exact mono (carried_of_call hj hcall)
    | raised => exact mono (carried_of_call hj hcall)
    | escaped => exact .nothing
  | marked _ hp =>
    rw [hp] at hc
    exact mono hc
  | beaten => exact mono hc
  | signalled => exact mono hc
  | ended => exact .nothing
  | crashed => exact .nothing

theorem PastReview.notDraft_step : ∀ x ∈ w'.db.artifacts, x.status ≠ .draft := by
  intro x' hx'
  rcases hw.artifacts h x' hx' with ⟨x, hx, -, hstep⟩ | hnew
  · exact fun hd => hr.notDraft x hx (hstep.unreviewed (.inl rfl) hd)
  · cases hnew with
    | extracted _ _ _ _ hst =>
      rw [hst]
      exact nofun

theorem PastReview.queued_step : ∀ j ∈ w'.db.jobs, j.jobType = .publish → ∀ x ∈ w'.db.artifacts,
    j.inputPayload.artifactId = some x.id → x.status ≠ .pendingReview := by
  intro j' hj' ht x' hx' hi
  rcases hw.artifacts h x' hx' with ⟨x, hx, hxi, hstep⟩ | hnew
  · refine mt (hstep.unreviewed (.inr rfl)) ?_
    rcases (hw.jobs h).origin j' hj' with ⟨j, hj, -, hjs⟩ | hjn
    · have ho := hjs.sameOrigin
      exact hr.queued j hj (ho.jobType ▸ ht) x hx (by rw [← ho.inputPayload, hi, hxi])
    · cases hjn with
      | stage _ _ _ _ hty =>
        obtain rfl : _ = JobType.publish := ht
        cases hty
      | retry => cases ht
      | publish _ hy hst =>
        obtain rfl := Table.eq_of_key_eq hy hx ((Option.some.inj hi).trans hxi)
        rw [hst]
        exact nofun
  · have hid : x'.id ∈ a.draws := by
      cases hnew with
      | extracted ha =>
        rw [ha]
        exact List.mem_singleton.mpr rfl
    have hfresh := (World.fresh_of_step h).2 x'.id hid
    rcases (hw.jobs h).origin j' hj' with ⟨j, hj, -, hjs⟩ | hjn
    · have ho := hjs.sameOrigin
      obtain ⟨aid, haid, hin, -⟩ := hw.publishJob j hj (ho.jobType ▸ ht)
      obtain rfl : aid = x'.id := Option.some.inj (by rw [← hin, ← ho.inputPayload, hi])
      exact absurd haid hfresh
    · cases hjn with
      | stage _ _ _ _ hty =>
        obtain rfl : _ = JobType.publish := ht
        cases hty
      | retry => cases ht
      | publish _ hy =>
        obtain he := Option.some.inj hi
        exact absurd (he ▸ hw.artifactId _ hy) hfresh

theorem PastReview.step : PastReview w' where
  carried := hr.carried_step hw h
  notDraft := hr.notDraft_step hw h
  queued := hr.queued_step hw h

theorem flow_of_artifactStep (hc : ReviewsUnpublished w a) (hx : x ∈ w.db.artifacts)
    (hx' : x' ∈ w'.db.artifacts) (hi : x'.id = x.id) :
    x'.status = x.status ∨ x'.status ∈ x.status.flow := by
  have hdraft := hr.notDraft x hx
  have review {c : ArtifactStatus} (hcm : c ∈ [.approved, .rejected])
      (hp : x.status ≠ .published) : c = x.status ∨ c ∈ x.status.flow := by
    revert hcm hp hdraft
    cases x.status <;> cases c <;> decide
  cases hw.artifact_row h hx hx' hi with
  | same => exact .inl rfl
  | edited => exact .inl rfl
  | approved ha hacc =>
    exact review (c := .approved) (by decide) fun hp => hc x hx hp _ _ _ ha hacc
  | rejected ha hacc =>
    exact review (c := .rejected) (by decide) fun hp => hc x hx hp _ _ _ ha hacc
  | published hn =>
    rcases artifacts_of_worker hr (World.effect_of_step h) hn hx' with hm | hnew | hm
    · rw [Table.eq_of_key_eq hm hx hi]
      exact .inl rfl
    · exact absurd hnew (artifact_of_new hw h hx hi)
    · obtain ⟨y, hy, ⟨t, he⟩, j, hj, ht, hji⟩ := hm
      have hid : x.id = y.id := by simpa using congrArg Artifact.id he
      obtain rfl := Table.eq_of_key_eq hx hy hid
      have hpend := hr.queued j hj ht x hx hji
      revert hpend hdraft
      rw [Artifact.withPublication_status]
      cases x.status <;> decide

theorem inFlow_iff (hs : StampedOnly w.db) :
    InFlow ⟨w, a, w'⟩ ↔ ReviewsUnpublished w a := by
  constructor
  · rintro hf x hx hp user ids body ha hacc
    obtain ⟨x', hx', hi, hst⟩ := status_of_review hw h ha hacc hx
    have hflow := hf.flow x hx x' hx' hi
    rw [hp] at hflow
    revert hst hflow
    cases x'.status <;> decide
  · intro hc
    constructor
    · intro x hx x' hx' hi
      exact flow_of_artifactStep hw hr h hc hx hx' hi
    · intro x hx hgone
      by_contra hn
      obtain ⟨x', hx', hi⟩ := World.artifact_kept hw.settled hx hn (World.effect_of_step h)
      exact hgone x' hx' hi
    · intro x' hx'
      rcases hw.artifacts h x' hx' with ⟨x, hx, -, hstep⟩ | hnew
      · have hiff := hs x hx
        -- a review of an unpublished artifact leaves the unset time unset
        have review {c : ArtifactStatus} {comment : String} (hn : c ≠ .published)
            (hp : x.status ≠ .published) : (x.withReview c comment).publishedAt.isSome = true ↔
              (x.withReview c comment).status = .published :=
          iff_of_false (fun ht => hp (hiff.mp ht)) hn
        cases hstep with
        | same => exact hiff
        | edited => exact hiff
        | approved ha hacc => exact review nofun fun hp => hc x hx hp _ _ _ ha hacc
        | rejected ha hacc => exact review nofun fun hp => hc x hx hp _ _ _ ha hacc
        | published => exact iff_of_true rfl rfl
      · cases hnew with
        | extracted _ _ _ _ hst _ hpub =>
          rw [hst, hpub]
          decide

end Step

/-- The artifacts of a run keep to the flow, and their publication times to their statuses, exactly
when no published artifact is reviewed again. -/
theorem run_inFlow_iff {now : Timestamp} {tr : List (Transition World Action)} {w : World}
    (hr : SystemRun now tr w) : (∀ t ∈ tr, InFlow t) ↔ Meets ReviewsUnpublished tr := by
  rw [← throughout_const]
  refine hr.throughout_iff_meets_of (G := fun _ w => PastReview w ∧ StampedOnly w.db)
    (B := fun _ _ => True) (fun _ _ => trivial)
    ⟨pastReview_init now, fun x hx => (Table.not_mem_empty x hx).elim⟩ ?_
  rintro tr w a w' hrun ⟨hrv, hs⟩ - h
  have hw := World.sound_of_run hrun
  exact ⟨inFlow_iff hw hrv h hs, fun hf => ⟨hrv.step hw h, hf.stamped⟩⟩

/-- The part of `InFlow` that can be computed, for a step that erases nothing. -/
def KeepsFlow (t : Transition World Action) : Prop :=
  (∀ x ∈ t.pre.db.artifacts, ∀ x' ∈ t.post.db.artifacts, x'.id = x.id →
    x'.status = x.status ∨ x'.status ∈ x.status.flow) ∧
  (∀ x ∈ t.pre.db.artifacts, ∃ x' ∈ t.post.db.artifacts, x'.id = x.id) ∧ StampedOnly t.post.db

instance (t : Transition World Action) : Decidable (KeepsFlow t) :=
  inferInstanceAs (Decidable ((∀ x ∈ t.pre.db.artifacts, ∀ x' ∈ t.post.db.artifacts, _ → _) ∧
    (∀ x ∈ t.pre.db.artifacts, ∃ x' ∈ t.post.db.artifacts, _) ∧ _))

theorem KeepsFlow.inFlow {t : Transition World Action} (h : KeepsFlow t) : InFlow t where
  flow := h.1
  erased x hx hgone := by
    obtain ⟨x', hx', hi⟩ := h.2.1 x hx
    exact absurd hi (hgone x' hx')
  stamped := h.2.2

theorem reviewsUnpublished_published : ∃ tr w, SystemRun 0 tr w ∧
    (∃ x ∈ w.db.artifacts, x.status = .published) ∧ Meets ReviewsUnpublished tr := by
  obtain ⟨tr, w, hr, hp⟩ := exists_run
    (fun tr (w : World) => decide (∃ x ∈ w.db.artifacts, x.status = .published) &&
      decide (∀ t ∈ tr, KeepsFlow t))
    (show (execute World.step (World.init 0) Replay.published).any _ = true by decide +kernel)
  obtain ⟨hx, hf⟩ := Bool.and_eq_true_iff.mp hp
  have hall := of_decide_eq_true hf
  exact ⟨tr, w, hr, of_decide_eq_true hx, (run_inFlow_iff hr).mp fun t ht => (hall t ht).inFlow⟩

/-- The published artifact 32 is rejected, and keeps its publication time. -/
theorem published_rejected :
    (¬ ∀ now tr w, SystemRun now tr w → ∀ t ∈ tr, ∀ x ∈ t.pre.db.artifacts,
      ∀ x' ∈ t.post.db.artifacts, x'.id = x.id → x.status = .published → x'.status = .published) ∧
    ¬ ∀ now tr w, SystemRun now tr w → ∀ t ∈ tr, StampedOnly t.post.db :=
  ⟨Replay.refute (Replay.published ++ [Replay.review .reject 32 70]) (by decide +kernel),
    Replay.refute (Replay.published ++ [Replay.review .reject 32 70]) (by decide +kernel)⟩

end AiBadge
