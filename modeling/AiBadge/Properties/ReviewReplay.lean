import AiBadge.System.EventStep

/-! # The workflow events determine the reviews

The log records the accepted reviews of an artifact in their order, and nothing else as one. The
last of them is the review status of the row, also after edits, publications and retries.
-/

namespace AiBadge

open Lib Prog DbM

/-- The review that an event records. -/
def EventType.review? : EventType → Option ReviewAction
  | artifactApproved => some .approve
  | artifactRejected => some .reject
  | _ => none

/-- The review of the artifact that an event records. -/
def WorkflowEvent.reviewOf? (aid : Uuid) (e : WorkflowEvent) : Option ReviewAction :=
  if e.artifactId = some aid then e.eventType.review? else none

/-- The reviews of the artifact in the log, oldest first. -/
def reviewEvents (db : Db) (aid : Uuid) : List ReviewAction :=
  db.workflowEvents.filterMap (WorkflowEvent.reviewOf? aid)

/-- The verdict of an action on the artifact, if it is an accepted review of it. -/
def World.verdict? (w : World) (aid : Uuid) : Action → Option ReviewAction
  | .request (.reviewArtifact user ids (some id) ⟨v, comment⟩) =>
    if id = aid ∧ w.Accepts (.reviewArtifact user ids (some id) ⟨v, comment⟩) then some v else none
  | _ => none

/-- The accepted reviews of the artifact in a run, in order. -/
def verdicts (tr : List (Transition World Action)) (aid : Uuid) : List ReviewAction :=
  tr.filterMap fun t => t.pre.verdict? aid t.act

namespace World

variable {w w' : World} {a : Action} {aid : Uuid} {tr : List (Transition World Action)}

theorem verdict?_eq_some {v : ReviewAction} : w.verdict? aid a = some v ↔ w.Reviews a aid v := by
  constructor
  · intro h
    unfold verdict? at h
    split at h
    next user ids id v' comment =>
      split at h
      next hc =>
        obtain ⟨rfl, hacc⟩ := hc
        obtain rfl := Option.some.inj h
        exact ⟨user, ids, comment, rfl, hacc⟩
      next => cases h
    next => cases h
  · rintro ⟨user, ids, comment, rfl, hacc⟩
    exact if_pos ⟨rfl, hacc⟩

theorem verdict?_eq_none (h : ∀ v, ¬ w.Reviews a aid v) : w.verdict? aid a = none := by
  apply Option.eq_none_iff_forall_ne_some.mpr
  intro v hv
  exact h v (verdict?_eq_some.mp hv)

@[simp] theorem verdicts_snoc {t : Transition World Action} :
    verdicts (tr ++ [t]) aid = verdicts tr aid ++ (t.pre.verdict? aid t.act).toList := by
  rw [verdicts, List.filterMap_append]
  cases h : t.pre.verdict? aid t.act <;> simp [verdicts, h]

theorem reviewOf?_eventType {x : Artifact} {user : Uuid} {v : ReviewAction} :
    (reviewEvent x user v.eventType).reviewOf? x.id = some v := by
  have hid : (reviewEvent x user v.eventType).artifactId = some x.id := rfl
  rw [WorkflowEvent.reviewOf?, if_pos hid]
  cases v <;> rfl

/-- The rows that a step appends record its review. -/
theorem EventsNew.reviews {db : Db} {new : List WorkflowEvent} (h : w.EventsNew a db new) :
    new.filterMap (WorkflowEvent.reviewOf? aid) = (w.verdict? aid a).toList := by
  have none_of {es : List WorkflowEvent} (hes : ∀ e ∈ es, e.artifactId = none) :
      es.filterMap (WorkflowEvent.reviewOf? aid) = [] := by
    apply List.filterMap_eq_nil_iff.mpr
    intro e he
    rw [WorkflowEvent.reviewOf?, hes e he]
    rfl
  cases h with
  | nothing hn => rw [verdict?_eq_none (hn aid)]; rfl
  | created hn =>
    rw [verdict?_eq_none (hn aid)]
    apply none_of
    intro e he
    obtain ⟨_, -, rfl⟩ := List.mem_map.mp he
    rfl
  | @reviewed user x v targets hr =>
    have hmoves : (targets.map (sessionEvent x.sessionId)).filterMap
        (WorkflowEvent.reviewOf? aid) = [] := by
      apply none_of
      intro e he
      obtain ⟨_, -, rfl⟩ := List.mem_map.mp he
      rfl
    by_cases hi : x.id = aid
    · subst hi
      rw [List.filterMap_cons_some reviewOf?_eventType, hmoves, verdict?_eq_some.mpr hr]
      rfl
    · have hnone : (reviewEvent x user v.eventType).reviewOf? aid = none :=
        if_neg fun h => hi (Option.some.inj h)
      rw [List.filterMap_cons_none hnone, hmoves,
        verdict?_eq_none fun v' hv => hi (hr.unique hv).1]
      rfl
  | moved hn =>
    rw [verdict?_eq_none (hn aid)]
    exact none_of fun e he => by rw [List.mem_singleton.mp he]; rfl

section Extraction

variable {n : Nat} {db : Db} {files : Files} {input : HandlerInput} {j : Job}

/-- An extraction adds no row that is reviewed already. -/
theorem unreviewed_of_handler : ∀ x ∈ (handleExtractArtifactJob input j
    (Tx.clean n db files)).2.committed.artifacts, x ∈ db.artifacts ∨ x.reviewStatus = none := by
  let E := fun r : Except Exn Unit × Tx Db Files =>
    ∀ x ∈ r.2.committed.artifacts, x ∈ db.artifacts ∨ x.reviewStatus = none
  have stop : ∀ e, E (.error e, Tx.clean n db files) := fun e x hx => .inl hx
  refine bind_of_readOnly (E := E) keeps_getTranscript (fun e _ => stop e) fun x _ => ?_
  refine bind_of_readOnly (E := E) keeps_getSummarizeResult (fun e _ => stop e) fun y _ => ?_
  refine bind_of_readOnly (E := E) keeps_pyGet (fun e _ => stop e) fun ty _ => ?_
  refine bind_of_readOnly (E := E) keeps_pyGet (fun e _ => stop e) fun title _ => ?_
  refine bind_of_readOnly (E := E) keeps_schemaClass (fun e _ => stop e) fun schema _ => ?_
  refine bind_of_readOnly (E := E) keeps_answer (fun e _ => stop e) fun o _ => ?_
  refine bind_of_readOnly (E := E) keeps_pyGet (fun e _ => stop e) fun sm _ => ?_
  refine bind_of_readOnly (E := E) keeps_textValue (fun e _ => stop e) fun tt _ => ?_
  refine bind_of_readOnly (E := E) keeps_require (fun e _ => stop e) fun content _ => ?_
  refine bind_of_readOnly (E := E) keeps_textValue (fun e _ => stop e) fun st _ => ?_
  refine bind_of_readOnly (E := E) keeps_require (fun e _ => stop e) fun sid _ => ?_
  rcases returns_or_raises (insertArtifact _) (Tx.clean n db files) with ⟨_, t, h⟩ | ⟨e, t, h⟩
  · rw [bind_of_returns h]
    obtain ⟨-, rfl⟩ := returns_insertArtifact.mp h
    intro x hx
    rcases Table.mem_of_mem_insert hx with hx | rfl
    · exact .inl hx
    · exact .inr rfl
  · rw [bind_of_raises h]
    obtain rfl := raises_insertArtifact h
    exact stop e

end Extraction

/-- A row that a step adds is not reviewed yet. -/
theorem unreviewed_of_step {x : Artifact} (h : w.step a = some w') (hx : x ∈ w'.db.artifacts)
    (hn : w.ArtifactNew a x) (hnew : ∀ y ∈ w.db.artifacts, y.id ≠ x.id) : x.reviewStatus = none := by
  cases hn with
  | @extracted k providers i _ ha hc ht =>
    subst ha
    obtain ⟨-, w₁, hact, rfl⟩ := step_eq_some.mp h
    obtain ⟨j, hj, hp, rfl⟩ := act_runHandler hact
    obtain rfl : i = j := by
      obtain ⟨_, _, _, _, ⟨⟩, hpi, hi, -⟩ := hc
      exact Table.eq_of_key_eq hi hj (Phase.handling.inj (hpi.symm.trans hp))
    have hdb : (w.runHandler k providers x.id i).db = (handleExtractArtifactJob
        ⟨providers, w.now, x.id⟩ i (Tx.start w.db w.files)).2.committed := by
      rw [runHandler, ht]
      simp only [jobHandler]
      split
      next he => rw [he]
      next he => rw [he]
    have hx' : x ∈ (handleExtractArtifactJob ⟨providers, w.now, x.id⟩ i
      (Tx.start w.db w.files)).2.committed.artifacts := hdb ▸ hx
    rcases unreviewed_of_handler x hx' with hold | hnone
    · exact absurd rfl (hnew x hold)
    · exact hnone

/-- What the reviews of a run say about a state. -/
structure Reviewed (tr : List (Transition World Action)) (w : World) : Prop where
  log : ∀ aid, reviewEvents w.db aid = verdicts tr aid
  issued : ∀ aid, aid ∉ w.issued → verdicts tr aid = []
  status : ∀ x ∈ w.db.artifacts, x.reviewStatus = (verdicts tr x.id).getLast?.map ReviewAction.status
  flow : ∀ x ∈ w.db.artifacts, x.status ≠ .published → x.status = x.reviewStatus.getD .pendingReview

theorem reviewed_init (now : Timestamp) : Reviewed [] (World.init now) where
  log _ := rfl
  issued _ _ := rfl
  status _ h := (Table.not_mem_empty _ h).elim
  flow _ h := (Table.not_mem_empty _ h).elim

section Step

variable (hw : w.Sound) (h : w.step a = some w') (hi : Reviewed tr w)
include hw h hi

theorem Reviewed.log_step : reviewEvents w'.db aid = verdicts (tr ++ [⟨w, a, w'⟩]) aid := by
  obtain ⟨new, he, hnew⟩ := events_of_step hw.settled h
  rw [reviewEvents, he, List.filterMap_append, hnew.reviews, verdicts_snoc]
  exact congrArg (· ++ _) (hi.log aid)

theorem Reviewed.issued_step (haid : aid ∉ w'.issued) :
    verdicts (tr ++ [⟨w, a, w'⟩]) aid = [] := by
  rw [issued_of_step h, List.mem_append, not_or] at haid
  rw [verdicts_snoc, hi.issued aid haid.1, verdict?_eq_none]
  · rfl
  · rintro v ⟨user, ids, comment, rfl, hacc⟩
    obtain ⟨x, hx, rfl⟩ := subject_mem hacc rfl
    exact haid.1 (hw.artifactId x hx)

/-- One row over one step: its review status, and its status beside it. -/
theorem Reviewed.row_step : ∀ x ∈ w'.db.artifacts,
    x.reviewStatus = (verdicts (tr ++ [⟨w, a, w'⟩]) x.id).getLast?.map ReviewAction.status ∧
      (x.status ≠ .published → x.status = x.reviewStatus.getD .pendingReview) := by
  intro x' hx'
  rw [verdicts_snoc]
  have unreviewed (hid : Uuid) (hv : ∀ v, ¬ w.Reviews a hid v) :
      verdicts tr hid ++ (w.verdict? hid a).toList = verdicts tr hid := by
    rw [verdict?_eq_none hv]
    exact List.append_nil _
  have reviewed {x : Artifact} {v : ReviewAction} (hv : w.Reviews a x.id v) :
      (verdicts tr x.id ++ (w.verdict? x.id a).toList).getLast?.map ReviewAction.status =
        some v.status := by
    rw [verdict?_eq_some.mpr hv, Option.toList_some, List.getLast?_concat]
    rfl
  rcases hw.artifacts h x' hx' with ⟨x, hx, hid, hstep⟩ | hnew
  · rw [hid]
    cases hstep with
    | same hn =>
      rw [unreviewed x'.id]
      · exact ⟨hi.status x' hx, hi.flow x' hx⟩
      · rintro v ⟨_, _, _, rfl, hacc⟩
        exact hn _ rfl hacc rfl
    | edited ha =>
      rw [unreviewed x.id]
      · exact ⟨hi.status x hx, hi.flow x hx⟩
      · rintro v ⟨_, _, _, rfl, -⟩
        cases ha
    | approved ha hacc =>
      rw [reviewed ⟨_, _, _, ha, hacc⟩]
      exact ⟨rfl, fun _ => rfl⟩
    | rejected ha hacc =>
      rw [reviewed ⟨_, _, _, ha, hacc⟩]
      exact ⟨rfl, fun _ => rfl⟩
    | published hn =>
      rw [unreviewed x.id]
      · exact ⟨hi.status x hx, fun hp => absurd rfl hp⟩
      · rintro v ⟨_, _, _, rfl, -⟩
        exact hn _ rfl
  · have hfresh : x'.id ∉ w.issued := by
      cases hnew with
      | extracted ha =>
        apply (fresh_of_step h).2
        rw [ha]
        exact List.mem_singleton.mpr rfl
    have hnone : x'.reviewStatus = none := by
      apply unreviewed_of_step h hx' hnew
      rintro y hy hyi
      exact hfresh (hyi ▸ hw.artifactId y hy)
    have hpending : x'.status = .pendingReview := by
      cases hnew with
      | extracted _ _ _ _ hst => exact hst
    rw [unreviewed x'.id, hi.issued x'.id hfresh, hnone, hpending]
    · exact ⟨rfl, fun _ => rfl⟩
    · rintro v ⟨_, _, _, rfl, -⟩
      cases hnew with
      | extracted ha => cases ha

theorem Reviewed.step : Reviewed (tr ++ [⟨w, a, w'⟩]) w' where
  log _ := hi.log_step hw h
  issued _ := hi.issued_step hw h
  status x hx := (hi.row_step hw h x hx).1
  flow x hx := (hi.row_step hw h x hx).2

end Step

theorem reviewed_of_run {now : Timestamp} (hr : SystemRun now tr w) : w.Sound ∧ Reviewed tr w := by
  induction hr with
  | init => exact ⟨sound_init now, reviewed_init now⟩
  | snoc _ hstep ih => exact ⟨ih.1.step hstep, ih.2.step ih.1 hstep⟩

end World

/-- After every run the log holds the accepted reviews of each artifact, in order; the last one is
its review status, and its status too, unless it has been published. -/
theorem reviews_replay {now : Timestamp} {tr : List (Transition World Action)} {w : World}
    (hr : SystemRun now tr w) : (∀ aid, reviewEvents w.db aid = verdicts tr aid) ∧
      ∀ x ∈ w.db.artifacts,
        x.reviewStatus = (reviewEvents w.db x.id).getLast?.map ReviewAction.status ∧
          (x.status ≠ .published → x.status = x.reviewStatus.getD .pendingReview) := by
  obtain ⟨-, hi⟩ := World.reviewed_of_run hr
  refine ⟨hi.log, fun x hx => ⟨?_, hi.flow x hx⟩⟩
  rw [hi.log]
  exact hi.status x hx

/-- An artifact is rejected, edited, approved with that of the retry, and published. -/
def reviewedTwice : List Action :=
  Replay.twoApproved ++ [Replay.edit 32 { title := some "again" }, Replay.publish 32 50] ++
    Replay.cycle 50 60

theorem reviews_replay_twice : ∃ tr w, SystemRun 0 tr w ∧ (w.db.artifacts.any fun x =>
    x.status = .published && reviewEvents w.db x.id = [.reject, .approve]) = true ∧
      (∀ aid, reviewEvents w.db aid = verdicts tr aid) ∧ ∀ x ∈ w.db.artifacts,
        x.reviewStatus = (reviewEvents w.db x.id).getLast?.map ReviewAction.status ∧
          (x.status ≠ .published → x.status = x.reviewStatus.getD .pendingReview) := by
  obtain ⟨tr, w, hr, hp⟩ := exists_run
    (fun _ w => w.db.artifacts.any fun x =>
      x.status = .published && reviewEvents w.db x.id = [.reject, .approve])
    (by decide +kernel : (execute World.step (World.init 0) reviewedTwice).any _ = true)
  exact ⟨tr, w, hr, hp, reviews_replay hr⟩

end AiBadge
