import AiBadge.System.Invariant
import AiBadge.System.WorkerStep

/-! # Completed publish jobs

The handler of a publish job completes the job also when its artifact is gone. An artifact
goes only with a `delete_artifact_rows` job, so what a completed job says is true as long as
no publish job is run after the erasure of its artifact.
-/

namespace AiBadge

open Lib Prog DbM

/-- A publish job that the transition completes has its artifact and its session published. -/
def TruthfulPublish (t : Transition World Action) : Prop :=
  ∀ j, t.pre.Commits t.act j → j.jobType = .publish →
    ∃ x ∈ t.post.db.artifacts, j.inputPayload.artifactId = some x.id ∧ x.status = .published ∧
      j.sessionId = some x.sessionId ∧
      ∃ s ∈ t.post.db.sessions, s.id = x.sessionId ∧ s.status = .published

/-- A `delete_artifact_rows` job has removed the artifact. -/
def ArtifactErased (tr : List (Transition World Action)) (artifact : Uuid) : Prop :=
  ∃ t ∈ tr, ∃ x ∈ t.pre.db.artifacts, x.id = artifact ∧ t.pre.Erases t.act x.sessionId

instance (tr : List (Transition World Action)) (artifact : Uuid) :
    Decidable (ArtifactErased tr artifact) :=
  inferInstanceAs (Decidable (∃ t ∈ tr, ∃ x ∈ t.pre.db.artifacts, _ ∧ _))

/-- The transition does not call the handler of a publish job whose artifact is erased. -/
def PublishedInTime (tr : List (Transition World Action)) (t : Transition World Action) : Prop :=
  ∀ j ∈ t.pre.db.jobs, t.pre.calls? t.act = some j.id → j.jobType = .publish →
    ∀ artifact ∈ j.inputPayload.artifactId, ¬ ArtifactErased tr artifact

instance (tr : List (Transition World Action)) (t : Transition World Action) :
    Decidable (PublishedInTime tr t) :=
  inferInstanceAs (Decidable (∀ j ∈ t.pre.db.jobs, _ → _ → ∀ artifact ∈ j.inputPayload.artifactId, _))

/-- The artifact of a publish job exists, or is erased for good. -/
structure PublishTraced (tr : List (Transition World Action)) (w : World) : Prop where
  present : ∀ j ∈ w.db.jobs, j.jobType = .publish → ∀ aid, j.inputPayload.artifactId = some aid →
    (∃ x ∈ w.db.artifacts, x.id = aid) ∨ ArtifactErased tr aid
  gone : ∀ aid, ArtifactErased tr aid → aid ∈ w.issued ∧ ∀ x ∈ w.db.artifacts, x.id ≠ aid

section Step

variable {tr : List (Transition World Action)} {w w' : World} {a : Action} {j : Job} {aid : Uuid}

theorem artifactErased_snoc {t : Transition World Action} :
    ArtifactErased (tr ++ [t]) aid ↔
      ArtifactErased tr aid ∨
        ∃ x ∈ t.pre.db.artifacts, x.id = aid ∧ t.pre.Erases t.act x.sessionId := by
  simp only [ArtifactErased, List.mem_append, List.mem_singleton]
  constructor
  · rintro ⟨u, hu | rfl, h⟩
    · exact .inl ⟨u, hu, h⟩
    · exact .inr h
  · rintro (⟨u, hu, h⟩ | h)
    · exact ⟨u, .inl hu, h⟩
    · exact ⟨t, .inr rfl, h⟩

/-- The handler of a publish job without its artifact reaches its commit. -/
theorem commits_of_missing {db : Db} {files : Files} {input : HandlerInput}
    (hj : j.inputPayload.artifactId = some aid) (hn : ∀ x ∈ db.artifacts, x.id ≠ aid) :
    (handlePublishJob input j (Tx.start db files)).2.commits ≠ 0 := by
  have hnone : db.artifact? aid = none := by
    cases h : db.artifact? aid with
    | none => rfl
    | some x =>
      obtain ⟨hx, hi⟩ := Db.artifact?_eq_some.mp h
      exact absurd hi (hn x hx)
  have hr : ∃ t, (handlePublishJob input j).Returns (Tx.start db files) () t ∧ t.commits ≠ 0 := by
    simp [handlePublishJob, hj, hnone, Tx.commit]
  obtain ⟨t, hr, hc⟩ := hr
  rwa [show (handlePublishJob input j (Tx.start db files)).2 = t from congrArg Prod.snd hr]

variable (hw : w.Sound) (ht : PublishTraced tr w) (h : w.step a = some w')
include hw ht h

theorem PublishTraced.step : PublishTraced (tr ++ [⟨w, a, w'⟩]) w' where
  present := by
    intro j' hj' hjt aid hja
    have lift (hx : ∃ x ∈ w.db.artifacts, x.id = aid) : (∃ x ∈ w'.db.artifacts, x.id = aid) ∨
        ArtifactErased (tr ++ [⟨w, a, w'⟩]) aid := by
      obtain ⟨x, hx, rfl⟩ := hx
      by_cases he : w.Erases a x.sessionId
      · exact .inr (artifactErased_snoc.mpr (.inr ⟨x, hx, rfl, he⟩))
      · exact .inl (World.artifact_kept hw.settled hx he (World.effect_of_step h))
    rcases (hw.jobs h).origin j' hj' with ⟨j, hj, -, hstep⟩ | hnew
    · have ho := hstep.sameOrigin
      rcases ht.present j hj (ho.jobType ▸ hjt) aid (ho.inputPayload ▸ hja) with hx | he
      · exact lift hx
      · exact .inr (artifactErased_snoc.mpr (.inl he))
    · cases hnew with
      | stage _ _ _ _ hty =>
        obtain rfl : _ = JobType.publish := hjt
        cases hty
      | retry => cases hjt
      | publish _ hx => exact lift ⟨_, hx, Option.some.inj hja⟩
  gone := by
    intro aid he
    have old : aid ∈ w.issued ∧ ∀ x' ∈ w'.db.artifacts, x'.id = aid →
        ∃ x ∈ w.db.artifacts, x.id = aid ∧ x'.sessionId = x.sessionId := by
      have hid : aid ∈ w.issued := by
        rcases artifactErased_snoc.mp he with he | ⟨x, hx, rfl, -⟩
        · exact (ht.gone aid he).1
        · exact hw.artifactId x hx
      refine ⟨hid, fun x' hx' hi => ?_⟩
      rcases hw.artifacts h x' hx' with ⟨x, hx, hxi, hstep⟩ | hnew
      · exact ⟨x, hx, hxi.symm.trans hi, hstep.sessionId⟩
      · cases hnew with
        | extracted ha =>
          have hfresh := (World.fresh_of_step h).2 x'.id (by rw [ha]; exact List.mem_singleton.mpr rfl)
          exact absurd (hi ▸ hid) hfresh
    obtain ⟨hid, old⟩ := old
    refine ⟨?_, fun x' hx' hi => ?_⟩
    · rw [World.issued_of_step h]
      exact List.mem_append_left _ hid
    obtain ⟨x, hx, hxi, hxs⟩ := old x' hx' hi
    rcases artifactErased_snoc.mp he with he | ⟨y, hy, hyi, hera⟩
    · exact (ht.gone aid he).2 x hx hxi
    · obtain rfl := Table.eq_of_key_eq hx hy (hxi.trans hyi.symm)
      exact World.artifacts_of_erases hw.settled hera (World.effect_of_step h) x' hx' hxs

/-- A completed publish job tells the truth exactly when its artifact was not erased before. -/
theorem truthfulPublish_iff : TruthfulPublish ⟨w, a, w'⟩ ↔ PublishedInTime tr ⟨w, a, w'⟩ := by
  have he := World.effect_of_step h
  constructor
  · intro hp j hj hcall hjt artifact hja herased
    obtain ⟨k, providers, aid, rfl, hk⟩ := calls?_eq_some.mp hcall
    have hn := (ht.gone artifact herased).2
    have hc : w.Commits (.runHandler k providers aid) j :=
      ⟨k, providers, aid, _, rfl, hk, hj, by rw [hjt]; rfl, commits_of_missing hja hn⟩
    obtain ⟨x, hx, hxa, -⟩ := hp j hc hjt
    obtain rfl := Option.some.inj (hja.symm.trans hxa)
    have hgone := (ht.step hw h).gone x.id (artifactErased_snoc.mpr (.inl herased))
    exact hgone.2 x hx rfl
  · intro hp j hc hjt
    obtain ⟨k, providers, aid, -, ha, hk, hj, -⟩ := id hc
    obtain ⟨artifact, -, hja, hown⟩ := hw.publishJob j hj hjt
    rcases ht.present j hj hjt artifact hja with ⟨x, hx, rfl⟩ | herased
    · obtain ⟨x', hx', hi, hxs, hst⟩ := World.published_of_commit hc hjt hx hja he
      obtain ⟨s, hs, hsx, -⟩ := hw.artifactSession x hx
      obtain ⟨s', hs', hsi, -⟩ := (hw.sessions h).kept s hs
      refine ⟨x', hx', by rw [hja, hi], hst, by rw [hown x hx rfl, hxs], s', hs', ?_, ?_⟩
      · rw [hsi, hsx, hxs]
      · exact World.status_of_publication hc hjt hx hja (hsi.trans hsx) he hs'
    · have hcall := calls?_eq_some.mpr ⟨k, providers, aid, ha, hk⟩
      exact absurd herased (hp j hj hcall hjt artifact hja)

end Step

/-- In a run every completed publish job tells the truth exactly when no publish job is run whose
artifact was erased before. -/
theorem run_truthfulPublish_iff {now : Timestamp} {tr : List (Transition World Action)} {w : World}
    (hr : SystemRun now tr w) : (∀ t ∈ tr, TruthfulPublish t) ↔ Throughout PublishedInTime tr := by
  rw [← throughout_const]
  refine hr.throughout_iff fun tr w a w' hr _ h => ?_
  have ht : w.Sound ∧ PublishTraced tr w := by
    refine hr.invariant_of_meets (I := fun tr w => w.Sound ∧ PublishTraced tr w)
      (C := fun _ _ => True) (fun _ _ => trivial) ⟨World.sound_init now, ?_, ?_⟩ ?_
    · exact fun j hj => (Table.not_mem_empty j hj).elim
    · rintro aid ⟨t, ht, -⟩
      exact (List.not_mem_nil ht).elim
    · rintro tr w a w' - ⟨hw, ht⟩ - h
      exact ⟨hw.step h, ht.step hw h⟩
  exact truthfulPublish_iff ht.1 ht.2 h

/-- Two artifacts, both published, retracted and erased after that. -/
def publishedThenErased : List Action :=
  open Replay in
  twoApproved ++ [publish 32 50, publish 42 51] ++ cycle 50 60 ++ cycle 51 61 ++ [retract 70] ++
    erase 70

theorem truthful_publishedThenErased : ∃ tr w, SystemRun 0 tr w ∧
    (∃ s ∈ w.db.sessions, s.status = .retracting) ∧
    (∀ x ∈ w.db.artifacts, x.sessionId ≠ Replay.uuid 5) ∧ ∀ t ∈ tr, TruthfulPublish t := by
  obtain ⟨tr, w, hr, hp⟩ := exists_run (fun tr (w : World) =>
    decide (∃ s ∈ w.db.sessions, s.status = .retracting) &&
      decide (∀ x ∈ w.db.artifacts, x.sessionId ≠ Replay.uuid 5) &&
      decide (Throughout PublishedInTime tr))
    (show (execute World.step (World.init 0) publishedThenErased).any _ = true by decide +kernel)
  obtain ⟨hp, hin⟩ := Bool.and_eq_true_iff.mp hp
  obtain ⟨hs, hx⟩ := Bool.and_eq_true_iff.mp hp
  exact ⟨tr, w, hr, of_decide_eq_true hs, of_decide_eq_true hx,
    (run_truthfulPublish_iff hr).mpr (of_decide_eq_true hin)⟩

/-- Worker 0 holds the second publish job while worker 1 erases the artifacts. -/
def erasedThenPublished : List Action :=
  open Replay in
  twoApproved ++ [publish 32 50, publish 42 51] ++ cycle 50 60 ++
    [retract 70, .beginCycle 0, .claim 0 (uuid 51) [], .beginCycle 1, .claimNone 1 [],
      .processDeletion 1 (uuid 70) [] fun _ => .ok (), .runHandler 0 providers (uuid 61)]

/-- The step completes a publish job, and no artifact is left. -/
def PublishesNothing (t : Transition World Action) : Prop :=
  ∃ j ∈ t.pre.db.jobs, j.jobType = .publish ∧ j.status ≠ .completed ∧
    (∃ j' ∈ t.post.db.jobs, j'.id = j.id ∧ j'.status = .completed) ∧
    ∀ x ∈ t.post.db.artifacts, x.sessionId ≠ Replay.uuid 5

instance (t : Transition World Action) : Decidable (PublishesNothing t) :=
  inferInstanceAs (Decidable (∃ j ∈ t.pre.db.jobs, _ ∧ _ ∧ (∃ j' ∈ t.post.db.jobs, _) ∧ _))

theorem not_truthfulPublish :
    ¬ ∀ now tr w, SystemRun now tr w → ∀ t ∈ tr, TruthfulPublish t := by
  intro hall
  obtain ⟨tr, w, hr, hp⟩ := exists_run (fun tr (_ : World) => decide (∃ t ∈ tr, PublishesNothing t ∧
      ∀ s ∈ t.post.db.sessions, s.id = Replay.uuid 5))
    (show (execute World.step (World.init 0) erasedThenPublished).any _ = true by decide +kernel)
  obtain ⟨t, ht, ⟨j, hj, hjt, hn, ⟨j', hj', hi, hc⟩, hx⟩, hs⟩ := of_decide_eq_true hp
  obtain ⟨tr₁, tr₂, -, hr₁, hstep⟩ := hr.of_mem ht
  have hw := World.sound_of_run hr₁
  rcases ((hw.jobs hstep).row hj hj' hi).commits hc with hcj | hcom
  · exact hn hcj
  · obtain ⟨x, hxm, -, -, -, s, hsm, hsx, -⟩ := hall 0 tr w hr t ht j hcom hjt
    exact hx x hxm (hsx.symm.trans (hs s hsm))

end AiBadge
