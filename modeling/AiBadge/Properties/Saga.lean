import AiBadge.System.Invariant

/-! # Consistency of the retraction saga

The statuses `retracting` and `retracted` against the tombstone columns, the deletion
jobs and the audit row that the saga writes.
-/

namespace AiBadge

open Lib SessionStatus

/-- The statuses of a session that is being or has been retracted. -/
def SessionStatus.retraction : List SessionStatus := [retracting, retracted]

def sagaJobs (db : Db) (sessionId : Uuid) : List DeletionJob :=
  db.deletionJobs.select fun d => d.sessionId = some sessionId

def sagaTypes (db : Db) (sessionId : Uuid) : List DeletionType :=
  (sagaJobs db sessionId).map (·.resourceType)

/-- An audit row `retract_initiated` of the session. -/
def Audited (db : Db) (sessionId : Uuid) : Prop :=
  ∃ l ∈ db.auditLogs, l.action = .retractInitiated ∧ l.sessionId = some sessionId

instance (db : Db) (sessionId : Uuid) : Decidable (Audited db sessionId) :=
  inferInstanceAs (Decidable (∃ l ∈ db.auditLogs, _ ∧ _))

/-- Everything the saga writes for a session is there. -/
structure Tombstoned (db : Db) (s : Session) : Prop where
  deletedAt : s.deletedAt.isSome
  retractedBy : s.retractedBy.isSome
  jobs : (sagaTypes db s.id).Perm [.deleteArtifactRows, .deleteLocalAudio, .deleteFeishuDocs]
  audit : Audited db s.id

theorem tombstoned_iff {db : Db} {s : Session} : Tombstoned db s ↔
    s.deletedAt.isSome ∧ s.retractedBy.isSome ∧
      (sagaTypes db s.id).Perm [.deleteArtifactRows, .deleteLocalAudio, .deleteFeishuDocs] ∧
      Audited db s.id :=
  ⟨fun h => ⟨h.1, h.2, h.3, h.4⟩, fun h => ⟨h.1, h.2.1, h.2.2.1, h.2.2.2⟩⟩

instance (db : Db) (s : Session) : Decidable (Tombstoned db s) :=
  decidable_of_iff _ tombstoned_iff.symm

/-- Nothing the saga writes for a session is there. -/
structure Untouched (db : Db) (s : Session) : Prop where
  deletedAt : s.deletedAt = none
  jobs : sagaTypes db s.id = []
  audit : ¬ Audited db s.id

def Erased (db : Db) (sessionId : Uuid) : Prop := ∀ d ∈ sagaJobs db sessionId, d.status = .completed

instance (db : Db) (sessionId : Uuid) : Decidable (Erased db sessionId) :=
  inferInstanceAs (Decidable (∀ d ∈ sagaJobs db sessionId, _))

/-- The session is in a retraction status exactly when the saga has run, and `retracted` only when
its deletion jobs are completed. -/
def SagaConsistent (db : Db) (s : Session) : Prop :=
  (s.status ∈ retraction ↔ Tombstoned db s) ∧ (s.status = retracted → Erased db s.id)

instance (db : Db) (s : Session) : Decidable (SagaConsistent db s) :=
  inferInstanceAs (Decidable ((_ ↔ _) ∧ (_ → _)))

theorem Untouched.not_tombstoned {db : Db} {s : Session} (h : Untouched db s) :
    ¬ Tombstoned db s := by
  intro ht
  have hd := ht.deletedAt
  rw [h.deletedAt] at hd
  cases hd

/-- What a good step must respect for the session `s`: no status patch starts a retraction or ends
one whose deletion jobs are not all completed, and no extraction takes the session out of it. -/
structure SagaRespected (w : World) (a : Action) (s : Session) : Prop where
  patch : ∀ user ids text, a = .request (.updateSessionStatus user ids (some s.id) text) →
    w.Accepts (.updateSessionStatus user ids (some s.id) text) →
    (parse? text = some retracting → s.status = retracting) ∧
      (parse? text = some retracted → Erased w.db s.id)
  extract : ∀ j, w.Commits a j → j.jobType = .extractArtifact → j.sessionId = some s.id →
    s.status ∉ retraction

/-- A session that agrees with the saga in full. -/
def InSaga (db : Db) (s : Session) : Prop :=
  s.status ∈ retraction ∧ Tombstoned db s ∧ (s.status = retracted → Erased db s.id) ∨
    s.status ∉ retraction ∧ Untouched db s

theorem InSaga.consistent {db : Db} {s : Session} (h : InSaga db s) : SagaConsistent db s := by
  rcases h with ⟨hst, ht, he⟩ | ⟨hst, hu⟩
  · exact ⟨⟨fun _ => ht, fun _ => hst⟩, he⟩
  · refine ⟨⟨fun h => absurd h hst, fun ht => absurd ht hu.not_tombstoned⟩, fun hr => ?_⟩
    exact absurd (hr ▸ (by decide : retracted ∈ retraction)) hst

theorem InSaga.status_iff {db : Db} {s : Session} (h : InSaga db s) :
    s.status ∈ retraction ↔ Tombstoned db s := h.consistent.1

/-- Only the retraction endpoint and a status patch lead from other statuses into a retraction. -/
theorem not_retraction_of_canTransition {b c : SessionStatus} {consent : Bool}
    (hc : c ∉ retraction) (h : (canTransition b c consent).1 = true) : b ∉ retraction := by
  rcases edge_of_canTransition h with rfl | he
  · exact hc
  · revert hc he
    cases b <;> cases c <;> decide

theorem eq_retracted_of_edge {b c : SessionStatus} (hb : b ∈ retraction) (he : Edge b c) :
    b = retracting ∧ c = retracted := by
  revert hb he
  cases b <;> cases c <;> decide

theorem eq_retracting_of_edge {b : SessionStatus} (he : Edge b retracted) : b = retracting := by
  revert he
  cases b <;> decide

section Step

variable {w w' : World} {a : Action} {db : Db} {files : Files} {sid : Uuid}

theorem sagaTypes_setDeletionJob {id : Uuid} {f : DeletionJob → DeletionJob}
    (hf : ∀ d, (f d).id = d.id) (hs : ∀ d, (f d).sessionId = d.sessionId)
    (ht : ∀ d, (f d).resourceType = d.resourceType) :
    sagaTypes (db.setDeletionJob id f hf) sid = sagaTypes db sid := by
  simp only [sagaTypes, sagaJobs, Db.setDeletionJob_deletionJobs]
  rw [Table.select_update (by intro d; rw [hs]), List.map_map]
  refine List.map_congr_left fun d _ => ?_
  simp only [Function.comp]
  split
  · exact ht d
  · rfl

theorem sagaTypes_addDeletionJob {d : DeletionJob} (hd : ∀ r ∈ db.deletionJobs, r.id ≠ d.id) :
    sagaTypes (db.addDeletionJob d) sid =
      sagaTypes db sid ++ if d.sessionId = some sid then [d.resourceType] else [] := by
  rw [sagaTypes, sagaJobs, Db.addDeletionJob_deletionJobs, Table.select_insert_of_not_mem hd,
    List.map_append]
  simp only [decide_eq_true_eq]
  split <;> rfl

theorem sagaTypes_congr {db' : Db} (h : db'.deletionJobs = db.deletionJobs) :
    sagaTypes db' sid = sagaTypes db sid := by
  rw [sagaTypes, sagaJobs, h, sagaTypes, sagaJobs]

theorem sagaTypes_addSaga {ids : SagaIds} {now : Timestamp} {s : Session}
    (hf : db.SagaFree ids) :
    sagaTypes (addSaga ids now s db) sid = sagaTypes db sid ++
      if s.id = sid then [.deleteArtifactRows, .deleteLocalAudio, .deleteFeishuDocs] else [] := by
  have new {d e : DeletionJob} {db : Db} (hd : ∀ r ∈ db.deletionJobs, r.id ≠ d.id)
      (he : e.id ≠ d.id) : ∀ r ∈ (db.addDeletionJob e).deletionJobs, r.id ≠ d.id := by
    intro r hr
    rcases Table.mem_of_mem_insert hr with hr | rfl
    · exact hd r hr
    · exact he
  rw [addSaga, sagaTypes_addDeletionJob (new (new hf.feishuDocs hf.ne₂) hf.ne₃),
    sagaTypes_addDeletionJob (new hf.localAudio hf.ne₁), sagaTypes_addDeletionJob hf.artifactRows]
  simp only [sagaJob, Option.some.injEq]
  split <;> simp

/-- The types of the deletion jobs of a session change only by a retraction of that session. -/
theorem sagaTypes_of_effect (hw : w.Settled) (h : w.Effect a db files)
    (hn : ∀ user ids, a = .request (.retractSession user ids (some sid)) →
      ¬ w.Accepts (.retractSession user ids (some sid))) :
    sagaTypes db sid = sagaTypes w.db sid := by
  cases h with
  | served hacc h =>
    cases h with
    | register _ _ _ _ hd => exact sagaTypes_congr hd
    | startProcessing => exact sagaTypes_congr (addPipeline_deletionJobs ..)
    | @retractSession user ids s _ _ _ hf =>
      have hne : s.id ≠ sid := by
        rintro rfl
        exact hn user ids rfl hacc
      have ht : sagaTypes (addSaga ids w.now s w.db) sid = sagaTypes w.db sid := by
        rw [sagaTypes_addSaga hf, if_neg hne, List.append_nil]
      exact (sagaTypes_congr rfl).trans ht
    | approveAll => exact sagaTypes_congr (advanceSession_deletionJobs _ _)
    | _ => rfl
  | committed _ _ _ h => cases h <;> rfl
  | @deletion k d locked remove pending db files hp hd h =>
    have hl := hw.tail hp
    have hview : sagaTypes (w.session pending).view sid = sagaTypes w.db sid :=
      sagaTypes_congr hl.deletionJobs
    rw [← hview]
    cases h with
    | artifactRows =>
      rw [completeDeletion, sagaTypes_setDeletionJob (by intro; rfl) (by intro; rfl) (by intro; rfl)]
      cases d.sessionId <;> rfl
    | localAudio => exact sagaTypes_setDeletionJob (by intro; rfl) (by intro; rfl) (by intro; rfl)
    | feishuDocs => exact sagaTypes_setDeletionJob (by intro; rfl) (by intro; rfl) (by intro; rfl)
    | failed => exact sagaTypes_setDeletionJob (by intro; rfl) (by intro; rfl) (by intro; rfl)
  | _ => rfl

theorem mem_sagaJobs {d : DeletionJob} :
    d ∈ sagaJobs db sid ↔ d ∈ db.deletionJobs ∧ d.sessionId = some sid := by
  simp [sagaJobs]

section Frame

variable (hw : w.Sound) (h : w.step a = some w') (hn : ¬ w.Retracts a sid)
include hw h hn

theorem sagaTypes_of_step : sagaTypes w'.db sid = sagaTypes w.db sid :=
  sagaTypes_of_effect hw.settled (World.effect_of_step h) fun user ids ha hacc =>
    hn ⟨user, ids, ha, hacc⟩

theorem erased_of_step (he : Erased w.db sid) : Erased w'.db sid := by
  intro d' hd'
  obtain ⟨hd', hs⟩ := mem_sagaJobs.mp hd'
  rcases (hw.deletions h).origin d' hd' with ⟨d, hd, -, hstep⟩ | hnew
  · cases hstep with
    | same => exact he d' (mem_sagaJobs.mpr ⟨hd, hs⟩)
    | completed => rfl
    | failed _ hp =>
      have hc := he d (mem_sagaJobs.mpr ⟨hd, hs⟩)
      rw [hp] at hc
      cases hc
  · cases hnew with
    | queued hr =>
      obtain rfl := Option.some.inj hs
      exact absurd hr hn

theorem audited_of_step : Audited w'.db sid ↔ Audited w.db sid := by
  obtain ⟨new, hl, hnew⟩ := World.auditLogs_of_effect hw.settled (World.effect_of_step h)
  constructor
  · rintro ⟨l, hm, hact, hs⟩
    rw [hl] at hm
    rcases List.mem_append.mp hm with hm | hm
    · exact ⟨l, hm, hact, hs⟩
    · cases hnew l hm with
      | @consent _ _ consent => cases consent <;> cases hact
      | retracted _ hr => exact absurd (Option.some.inj hs ▸ hr) hn
  · rintro ⟨l, hm, hact, hs⟩
    exact ⟨l, hl ▸ List.mem_append_left _ hm, hact, hs⟩

end Frame

/-- Nothing leads from `retracted` to `retracting`. -/
theorem retracting_of_step {s s' : Session} (hk : w.SessionStep a s s')
    (hs : s.status ∈ retraction) (hst : s'.status = retracting) : s.status = retracting := by
  have none {target : SessionStatus} (ht : target = retracting)
      (hcan : (canTransition s.status target s.consentGranted).1 = true) : s.status = retracting := by
    rcases edge_of_canTransition hcan with he | he
    · exact he.trans ht
    · exact (eq_retracted_of_edge hs he).1
  cases hk with
  | same => exact hst
  | consent => exact hst
  | audio => exact hst
  | patched _ _ _ hcan => exact none hst hcan
  | cancelled => cases hst
  | retracted _ hp =>
    rw [hp] at hs
    exact absurd hs (by decide)
  | advanced => cases hst
  | publishing => cases hst
  | extracted => cases hst
  | published => cases hst

section Row

variable {s s' : Session} (hw : w.Sound) (h : w.step a = some w') (hk : w.SessionStep a s s')
  (hi : s'.id = s.id)
include hw h hk hi

theorem tombstoned_of_step (hn : ¬ w.Retracts a s.id) :
    Tombstoned w'.db s' ↔ Tombstoned w.db s := by
  obtain ⟨hd, hr⟩ := hk.tombstone hn
  have ht := sagaTypes_of_step hw h hn
  have ha := audited_of_step hw h hn
  rw [← hi] at ht ha
  constructor
  · rintro ⟨h₁, h₂, h₃, h₄⟩
    exact ⟨hd ▸ h₁, hr ▸ h₂, hi ▸ ht ▸ h₃, hi ▸ ha.mp h₄⟩
  · rintro ⟨h₁, h₂, h₃, h₄⟩
    exact ⟨hd ▸ h₁, hr ▸ h₂, ht ▸ hi ▸ h₃, ha.mpr (hi ▸ h₄)⟩

theorem untouched_of_step (hn : ¬ w.Retracts a s.id) (hu : Untouched w.db s) :
    Untouched w'.db s' where
  deletedAt := (hk.tombstone hn).1.trans hu.deletedAt
  jobs := by
    rw [hi, sagaTypes_of_step hw h hn]
    exact hu.jobs
  audit := by
    rw [hi, audited_of_step hw h hn]
    exact hu.audit

/-- A session that keeps its status, or moves among the other statuses, stays in the saga. -/
theorem inSaga_of_step (hn : ¬ w.Retracts a s.id) (hs : InSaga w.db s)
    (hst : s'.status = s.status ∨ s.status ∉ retraction ∧ s'.status ∉ retraction) :
    InSaga w'.db s' := by
  rcases hs with ⟨hr, ht, he⟩ | ⟨hr, hu⟩
  · obtain hst : s'.status = s.status := hst.resolve_right fun hst => hst.1 hr
    refine .inl ⟨hst ▸ hr, (tombstoned_of_step hw h hk hi hn).mpr ht, fun hst' => ?_⟩
    rw [hi]
    exact erased_of_step hw h hn (he (hst.symm.trans hst'))
  · refine .inr ⟨?_, untouched_of_step hw h hk hi hn hu⟩
    rcases hst with hst | hst
    · rwa [hst]
    · exact hst.2

theorem inSaga_of_respected (hn : ¬ w.Retracts a s.id) (hs : InSaga w.db s)
    (hc : SagaRespected w a s) : InSaga w'.db s' := by
  have moved {target : SessionStatus} (ht : target ∉ retraction) (hst : s'.status = target)
      (hcan : (canTransition s.status target).1 = true) : InSaga w'.db s' :=
    inSaga_of_step hw h hk hi hn hs
      (.inr ⟨not_retraction_of_canTransition ht hcan, hst ▸ ht⟩)
  cases hk with
  | same => exact inSaga_of_step hw h .same hi hn hs (.inl rfl)
  | consent ha hacc hc => exact inSaga_of_step hw h (.consent ha hacc hc) hi hn hs (.inl rfl)
  | audio ha hacc => exact inSaga_of_step hw h (.audio ha hacc) hi hn hs (.inl rfl)
  | @patched user ids text target ha hacc ht hcan haud =>
    have hk : w.SessionStep a s (s.withStatus target) := .patched ha hacc ht hcan haud
    obtain ⟨h₁, h₂⟩ := hc.patch user ids text ha hacc
    by_cases hr : s.status ∈ retraction
    · have htr : target ∈ retraction := by
        rcases edge_of_canTransition hcan with rfl | he
        · exact hr
        · rw [(eq_retracted_of_edge hr he).2]
          decide
      have hT := (tombstoned_of_step hw h hk hi hn).mpr (hs.status_iff.mp hr)
      exact .inl ⟨htr, hT, fun hst => erased_of_step hw h hn (h₂ (ht.trans (congrArg some hst)))⟩
    · by_cases htr : target ∈ retraction
      · simp only [SessionStatus.retraction, List.mem_cons, List.not_mem_nil, or_false] at htr
        rcases htr with rfl | rfl
        · exact absurd (h₁ ht ▸ (by decide : retracting ∈ retraction)) hr
        · rcases edge_of_canTransition hcan with he | he
          · exact absurd (he ▸ (by decide : retracted ∈ retraction)) hr
          · exact absurd (eq_retracting_of_edge he ▸ (by decide : retracting ∈ retraction)) hr
      · exact inSaga_of_step hw h hk hi hn hs (.inr ⟨hr, htr⟩)
  | cancelled ha hcan => exact moved (by decide : cancelled ∉ retraction) rfl hcan
  | retracted hr => exact absurd hr hn
  | advanced ha hacc hx hxs hst hall =>
    refine inSaga_of_step hw h (.advanced ha hacc hx hxs hst hall) hi hn hs
      (.inr ⟨?_, (by decide : approved ∉ retraction)⟩)
    revert hst
    cases s.status <;> decide
  | publishing _ _ _ _ hcan => exact moved (by decide : publishing ∉ retraction) rfl hcan
  | extracted hj hjt hjs =>
    exact inSaga_of_step hw h (.extracted hj hjt hjs) hi hn hs
      (.inr ⟨hc.extract _ hj hjt hjs, (by decide : needsReview ∉ retraction)⟩)
  | published _ _ _ _ _ hcan => exact moved (by decide : published ∉ retraction) rfl hcan

theorem respected_of_consistent (hs' : s' ∈ w'.db.sessions) (hn : ¬ w.Retracts a s.id)
    (hs : InSaga w.db s) (hc : SagaConsistent w'.db s') : SagaRespected w a s := by
  have hT := tombstoned_of_step hw h hk hi hn
  have he := World.effect_of_step h
  refine ⟨fun user ids text ha hacc => ⟨fun ht => ?_, fun ht => ?_⟩, fun j hj hjt hjs => ?_⟩
  · rw [ha] at he
    have hst := World.status_of_patch hacc ht (congrArg some hi.symm) he hs'
    have hr : s'.status ∈ retraction := hst ▸ (by decide : retracting ∈ retraction)
    exact retracting_of_step hk (hs.status_iff.mpr (hT.mp (hc.1.mp hr))) hst
  · rw [ha] at he
    have hst := World.status_of_patch hacc ht (congrArg some hi.symm) he hs'
    have hd := World.deletionJobs_of_patch he
    have her := hc.2 hst
    unfold Erased sagaJobs at her ⊢
    rwa [hd, hi] at her
  · have hst := World.needsReview_of_extract hj hjt (hjs.trans (congrArg some hi.symm)) he hs'
    intro hr
    have hr' := hc.1.mpr (hT.mpr (hs.status_iff.mp hr))
    rw [hst] at hr'
    exact absurd hr' (by decide)

end Row

theorem inSaga_of_retracts {s s' : Session} (hr : w.Retracts a s.id) (hs : s ∈ w.db.sessions)
    (hsaga : InSaga w.db s) (h : w.Effect a db files) (hs' : s' ∈ db.sessions) (hi : s'.id = s.id) :
    InSaga db s' := by
  obtain ⟨user, ids, r, hrm, hri, hp, hf, rfl⟩ := World.effect_of_retracts hr h
  obtain rfl := Table.eq_of_key_eq hrm hs hri
  have hu : Untouched w.db r := by
    rcases hsaga with ⟨hst, -⟩ | ⟨-, hu⟩
    · rw [hp] at hst
      exact absurd hst (by decide)
    · exact hu
  have hm : s' ∈ w.db.sessions.update (fun s => s.id = r.id)
      (Session.withTombstone w.now user "") := hs'
  obtain ⟨x, -, hx⟩ := Table.mem_update.mp hm
  have hxi : x.id = r.id := by
    rw [← hi, hx]
    split <;> rfl
  rw [if_pos (by simpa using hxi)] at hx
  have hst : s'.status = retracting := by rw [hx, Session.withTombstone_status]
  refine .inl ⟨?_, ⟨?_, ?_, ?_, ?_⟩, ?_⟩
  · rw [hst]
    decide
  · rw [hx]
    rfl
  · rw [hx]
    rfl
  · have hf' : (w.db.setSession r.id (Session.withTombstone w.now user "")).SagaFree ids := ⟨hf.1,
      hf.2, hf.3, hf.4, hf.5, hf.6⟩
    have ht : sagaTypes (addSaga ids w.now r (w.db.setSession r.id
        (Session.withTombstone w.now user ""))) s'.id = _ := sagaTypes_addSaga hf'
    have h₀ : sagaTypes (w.db.setSession r.id (Session.withTombstone w.now user "")) s'.id = [] := by
      rw [hi]
      exact hu.jobs
    rw [h₀, hi, if_pos rfl, List.nil_append, ← hi] at ht
    exact List.Perm.of_eq ht
  · exact ⟨_, List.mem_append_right _ (List.mem_singleton.mpr rfl), rfl, congrArg some hi.symm⟩
  · rw [hst]
    rintro ⟨⟩

/-- A session that has just been created is untouched. -/
theorem inSaga_of_created {s' : Session} (hw : w.Sound) (h : w.step a = some w')
    (hn : w.SessionNew a s') : InSaga w'.db s' := by
  cases hn with
  | @created user uuid4 deviceId body ha hf =>
    have hr : ¬ w.Retracts a uuid4 := by
      rw [ha]
      rintro ⟨_, _, ⟨⟩, -⟩
    refine .inr ⟨(by decide : idle ∉ retraction), rfl, ?_, ?_⟩
    · rw [sagaTypes_of_step hw h hr, sagaTypes, List.map_eq_nil_iff,
        List.eq_nil_iff_forall_not_mem]
      intro d hd
      obtain ⟨hd, hds⟩ := mem_sagaJobs.mp hd
      obtain ⟨s, hs, hsi⟩ := hw.deletionSession d hd
      exact hf s hs (Option.some.inj (hsi.symm.trans hds))
    · rw [audited_of_step hw h hr]
      rintro ⟨l, hl, -, hls⟩
      obtain ⟨s, hs, hsi⟩ := hw.auditSession l hl
      exact hf s hs (Option.some.inj (hsi.symm.trans hls))

end Step

/-- Every session agrees with the saga in a state. -/
def AllConsistent (w : World) : Prop := ∀ s ∈ w.db.sessions, SagaConsistent w.db s

instance (w : World) : Decidable (AllConsistent w) :=
  inferInstanceAs (Decidable (∀ s ∈ w.db.sessions, SagaConsistent w.db s))

/-- A step respects the saga of every session. -/
def AllRespected (w : World) (a : Action) : Prop := ∀ s ∈ w.db.sessions, SagaRespected w a s

theorem allConsistent_iff {w w' : World} {a : Action} (hw : w.Sound)
    (hs : ∀ s ∈ w.db.sessions, InSaga w.db s) (h : w.step a = some w') :
    (AllConsistent w' ↔ AllRespected w a) ∧
      (AllRespected w a → ∀ s ∈ w'.db.sessions, InSaga w'.db s) := by
  have hr {s : Session} (hr : w.Retracts a s.id) : SagaRespected w a s := by
    obtain ⟨_, _, rfl, -⟩ := hr
    exact ⟨by rintro _ _ _ ⟨⟩, fun j hj => absurd rfl (hj.not_request _)⟩
  have hall (hc : AllRespected w a) : ∀ s ∈ w'.db.sessions, InSaga w'.db s := by
    intro s' hs'
    rcases (hw.sessions h).origin s' hs' with ⟨s, hsm, hi, hk⟩ | hn
    · by_cases hret : w.Retracts a s.id
      · exact inSaga_of_retracts hret hsm (hs s hsm) (World.effect_of_step h) hs' hi
      · exact inSaga_of_respected hw h hk hi hret (hs s hsm) (hc s hsm)
    · exact inSaga_of_created hw h hn
  refine ⟨⟨fun hp s hsm => ?_, fun hc s hsm => (hall hc s hsm).consistent⟩, hall⟩
  obtain ⟨s', hs', hi, hk⟩ := (hw.sessions h).kept s hsm
  by_cases hret : w.Retracts a s.id
  · exact hr hret
  · exact respected_of_consistent hw h hk hi hs' hret (hs s hsm) (hp s' hs')

/-- The saga is consistent throughout a run exactly when no step disregards it. -/
theorem run_sagaConsistent_iff {now : Timestamp} {tr : List (Transition World Action)} {w : World}
    (hr : SystemRun now tr w) : (∀ t ∈ tr, AllConsistent t.post) ↔ Meets AllRespected tr := by
  refine hr.forall_post_iff_meets (G := fun w => ∀ s ∈ w.db.sessions, InSaga w.db s) ?_ ?_
  · exact fun s hs => (Table.not_mem_empty s hs).elim
  · intro tr s a s' hr hs h
    obtain ⟨hiff, hall⟩ := allConsistent_iff (World.sound_of_run hr) hs h
    exact ⟨hiff, fun hp => hall (hiff.mp hp)⟩

/-- A retraction to its end: the saga, its three deletion jobs, and the patch to `retracted`. -/
theorem allRespected_retraction : ∃ tr w, SystemRun 0 tr w ∧
    (∃ s ∈ w.db.sessions, s.status = retracted) ∧ Meets AllRespected tr := by
  obtain ⟨tr, w, hr, hp⟩ := exists_run
    (fun tr (w : World) => decide (∃ s ∈ w.db.sessions, s.status = retracted) &&
      decide (∀ t ∈ tr, AllConsistent t.post))
    (show (execute World.step (World.init 0) (Replay.published ++ [Replay.retract 70] ++
      Replay.erase 70 ++ Replay.erase 71 ++ Replay.erase 72 ++ [Replay.patch retracted 80])).any _ =
        true by decide +kernel)
  obtain ⟨hs, hc⟩ := Bool.and_eq_true_iff.mp hp
  exact ⟨tr, w, hr, of_decide_eq_true hs, (run_sagaConsistent_iff hr).mp (of_decide_eq_true hc)⟩

/-- A session in `retracting` has been deleted. -/
def RetractingDeleted (w : World) : Prop :=
  ∀ s ∈ w.db.sessions, s.status = retracting → s.deletedAt.isSome

instance (w : World) : Decidable (RetractingDeleted w) :=
  inferInstanceAs (Decidable (∀ s ∈ w.db.sessions, _ → _))

/-- A deleted session is in a retraction status. -/
def DeletedRetracting (w : World) : Prop :=
  ∀ s ∈ w.db.sessions, s.deletedAt.isSome → s.status ∈ retraction

instance (w : World) : Decidable (DeletedRetracting w) :=
  inferInstanceAs (Decidable (∀ s ∈ w.db.sessions, _ → _))

/-- The status patch reaches `retracting` without the saga. -/
def patchedRetraction : List Action := Replay.published ++ [Replay.patch retracting 70]

/-- A rejected artifact is extracted again after the retraction. -/
def lateRetry : List Action :=
  Replay.published ++ [Replay.review .reject 32 70, Replay.retract 80] ++ Replay.cycle 70 90

theorem retracting_undeleted :
    (¬ ∀ now tr w, SystemRun now tr w → ∀ t ∈ tr, AllConsistent t.post) ∧
      (¬ ∀ now tr w, SystemRun now tr w → ∀ t ∈ tr, RetractingDeleted t.post) ∧
      ¬ ∀ now tr w, SystemRun now tr w → ∀ t ∈ tr, DeletedRetracting t.post :=
  ⟨Replay.refute patchedRetraction (by decide +kernel),
    Replay.refute patchedRetraction (by decide +kernel), Replay.refute lateRetry (by decide +kernel)⟩

end AiBadge
