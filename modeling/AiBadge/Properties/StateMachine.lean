import AiBadge.System.SessionStep

/-! # Conformity with the session state machine

Every write of `sessions.status` follows the table `TRANSITIONS`, except the one of
`handle_extract_artifact_job`, which does not look at the status it overwrites.
-/

namespace AiBadge

open Lib SessionStatus

/-- The approval of an artifact. -/
def Action.isApproval : Action → Bool
  | .request (.reviewArtifact _ _ _ body) => body.action = .approve
  | _ => false

/-- A session keeps its status, takes an edge of `TRANSITIONS`, or takes the two edges through
`reviewing` that an approval may take. -/
def Conforms (t : Transition World Action) : Prop :=
  ∀ s ∈ t.pre.db.sessions, ∀ s' ∈ t.post.db.sessions, s'.id = s.id →
    s'.status = s.status ∨ Edge s.status s'.status ∨
      t.act.isApproval = true ∧ Edge s.status reviewing ∧ Edge reviewing s'.status

instance (t : Transition World Action) : Decidable (Conforms t) :=
  inferInstanceAs (Decidable (∀ s ∈ t.pre.db.sessions, ∀ s' ∈ t.post.db.sessions, _ → _))

/-- An extraction that commits finds its session in `processing` or `needs_review`. -/
def ExtractsInTime (w : World) (a : Action) : Prop :=
  ∀ j, w.Commits a j → j.jobType = .extractArtifact →
    ∀ s ∈ w.db.sessions, j.sessionId = some s.id → s.status ∈ [processing, needsReview]

theorem conforms_iff {w w' : World} {a : Action} (hw : w.Settled) (h : w.step a = some w') :
    Conforms ⟨w, a, w'⟩ ↔ ExtractsInTime w a := by
  have he := World.effect_of_step h
  have hs := World.sessions_of_effect hw he
  constructor
  · intro hc j hj ht s hs₀ hi
    obtain ⟨s', hs', hid, -⟩ := hs.kept s hs₀
    have hn : s'.status = needsReview :=
      World.needsReview_of_extract hj ht (hi.trans (congrArg some hid.symm)) he hs'
    have ha : a.isApproval = false := by
      obtain ⟨k, providers, aid, _, rfl, -⟩ := hj
      rfl
    have hcs := hc s hs₀ s' hs' hid
    simp only [hn, ha] at hcs
    revert hcs
    cases s.status <;> decide
  · intro hc s hs₀ s' hs' hid
    have hstep := hs.row hs₀ hs' hid
    cases hstep with
    | same => exact .inl rfl
    | consent => exact .inl rfl
    | audio => exact .inl rfl
    | patched _ _ _ hcan => exact (edge_of_canTransition hcan).imp Eq.symm .inl
    | cancelled _ hcan => exact (edge_of_canTransition hcan).imp Eq.symm .inl
    | retracted _ hp =>
      rw [hp]
      exact .inr (.inl (by decide : Edge published retracting))
    | advanced ha _ _ _ hst _ =>
      have happ : a.isApproval = true := by
        rw [ha]
        rfl
      simp only [List.mem_cons, List.not_mem_nil, or_false] at hst
      rcases hst with hst | hst | hst
      · rw [hst]
        exact .inr (.inr ⟨happ, by decide, (by decide : Edge reviewing approved)⟩)
      · rw [hst]
        exact .inr (.inl (by decide : Edge reviewing approved))
      · exact .inl hst.symm
    | publishing _ _ _ _ hcan => exact (edge_of_canTransition hcan).imp Eq.symm .inl
    | extracted hj ht hi =>
      have hst := hc _ hj ht s hs₀ hi
      simp only [List.mem_cons, List.not_mem_nil, or_false] at hst
      rcases hst with hst | hst
      · rw [hst]
        exact .inr (.inl (by decide : Edge processing needsReview))
      · exact .inl hst.symm
    | published _ _ _ _ _ hcan => exact (edge_of_canTransition hcan).imp Eq.symm .inl

theorem run_conforms_iff {now : Timestamp} {tr : List (Transition World Action)} {w : World}
    (hr : SystemRun now tr w) : (∀ t ∈ tr, Conforms t) ↔ Meets ExtractsInTime tr := by
  refine forall₂_congr fun t ht => ?_
  obtain ⟨tr₁, tr₂, -, hr₁, hstep⟩ := hr.of_mem ht
  exact conforms_iff (World.settled_of_run hr₁) hstep

/-- The pipeline in order, one cycle for each stage. -/
theorem extractsInTime_pipeline :
    ∃ tr w, SystemRun 0 tr w ∧ tr.length = 18 ∧ Meets ExtractsInTime tr := by
  obtain ⟨tr, w, hr, hp⟩ := exists_run
    (fun tr _ => decide (tr.length = 18) && decide (∀ t ∈ tr, Conforms t))
    (show (execute World.step (World.init 0) Replay.pipeline).any _ = true by decide +kernel)
  obtain ⟨hl, hc⟩ := Bool.and_eq_true_iff.mp hp
  exact ⟨tr, w, hr, of_decide_eq_true hl, (run_conforms_iff hr).mp (of_decide_eq_true hc)⟩

/-- Everything is published by status patches while the extraction still waits. -/
def lateExtraction : List Action :=
  open Replay in
  recorded ++ cycle 20 30 ++ cycle 21 31 ++
    [patch .needsReview 40, patch .reviewing 50, patch .approved 60, patch .publishing 70,
      patch .published 80] ++ cycle 22 32

/-- A session leaves `published` only for `retracting`. -/
def StaysPublished (t : Transition World Action) : Prop :=
  ∀ s ∈ t.pre.db.sessions, ∀ s' ∈ t.post.db.sessions, s'.id = s.id → s.status = published →
    s'.status ∈ [published, retracting]

instance (t : Transition World Action) : Decidable (StaysPublished t) :=
  inferInstanceAs (Decidable (∀ s ∈ t.pre.db.sessions, ∀ s' ∈ t.post.db.sessions, _ → _))

/-- A session goes from `published` to `needs_review`, where no path of `TRANSITIONS` leads. -/
theorem published_to_needsReview :
    (¬ ∀ now tr w, SystemRun now tr w → ∀ t ∈ tr, Conforms t) ∧
      ¬ ∀ now tr w, SystemRun now tr w → ∀ t ∈ tr, StaysPublished t :=
  ⟨Replay.refute lateExtraction (by decide +kernel), Replay.refute lateExtraction (by decide +kernel)⟩

end AiBadge
