import AiBadge.System.FileStep

/-! # Erasure after a retraction

What is left of a session once its deletion jobs are completed. The saga erases
the artifacts there are when it runs and the one file that the session names.
-/

namespace AiBadge

open Lib

/-- The session is deleted, and its deletion jobs, at least one of each type, are completed. -/
structure SagaDone (db : Db) (sid : Uuid) : Prop where
  deleted : ∃ s ∈ db.sessions, s.id = sid ∧ s.deletedAt.isSome
  queued : ∀ ty ∈ [DeletionType.deleteArtifactRows, .deleteLocalAudio, .deleteFeishuDocs],
    ∃ d ∈ db.deletionJobs, d.sessionId = some sid ∧ d.resourceType = ty
  completed : ∀ d ∈ db.deletionJobs, d.sessionId = some sid → d.status = .completed

theorem sagaDone_iff {db : Db} {sid : Uuid} : SagaDone db sid ↔
    (∃ s ∈ db.sessions, s.id = sid ∧ s.deletedAt.isSome) ∧
      (∀ ty ∈ [DeletionType.deleteArtifactRows, .deleteLocalAudio, .deleteFeishuDocs],
        ∃ d ∈ db.deletionJobs, d.sessionId = some sid ∧ d.resourceType = ty) ∧
      ∀ d ∈ db.deletionJobs, d.sessionId = some sid → d.status = .completed :=
  ⟨fun h => ⟨h.1, h.2, h.3⟩, fun h => ⟨h.1, h.2.1, h.2.2⟩⟩

instance (db : Db) (sid : Uuid) : Decidable (SagaDone db sid) :=
  decidable_of_iff _ sagaDone_iff.symm

/-- The files that uploads have saved for the session. -/
def savedKeys (tr : List (Transition World Action)) (sid : Uuid) : List AudioKey :=
  tr.filterMap fun t => (t.pre.saved? t.act).bind fun p => if p.1 = sid then some p.2 else none

/-- No artifact of the session is left, and no file that was saved for it. -/
structure Clean (tr : List (Transition World Action)) (w : World) (sid : Uuid) : Prop where
  artifacts : ∀ x ∈ w.db.artifacts, x.sessionId ≠ sid
  files : ∀ key ∈ savedKeys tr sid, key ∉ w.files

instance (tr : List (Transition World Action)) (w : World) (sid : Uuid) :
    Decidable (Clean tr w sid) :=
  decidable_of_iff ((∀ x ∈ w.db.artifacts, x.sessionId ≠ sid) ∧
    ∀ key ∈ savedKeys tr sid, key ∉ w.files) ⟨fun h => ⟨h.1, h.2⟩, fun h => ⟨h.1, h.2⟩⟩

/-- The saga of the session has been done by the end of the transition `t` that follows `tr`. -/
def Done (sid : Uuid) (tr : List (Transition World Action)) (t : Transition World Action) : Prop :=
  ∃ u ∈ tr ++ [t], SagaDone u.post.db sid

instance (sid : Uuid) (tr : List (Transition World Action)) (t : Transition World Action) :
    Decidable (Done sid tr t) := inferInstanceAs (Decidable (∃ u ∈ tr ++ [t], _))

/-- Once the saga is done, nothing of the session is left. -/
def NothingLeft (sid : Uuid) (tr : List (Transition World Action)) (t : Transition World Action) :
    Prop :=
  Done sid tr t → Clean (tr ++ [t]) t.post sid

instance (sid : Uuid) (tr : List (Transition World Action)) (t : Transition World Action) :
    Decidable (NothingLeft sid tr t) := inferInstanceAs (Decidable (_ → _))

/-- The transition retracts the session while `key` is its recording. -/
def RetractsWith (sid : Uuid) (key : AudioKey) (t : Transition World Action) : Prop :=
  t.pre.Retracts t.act sid ∧ ∃ s ∈ t.pre.db.sessions, s.id = sid ∧ s.audioKey = some key

/-- The transition commits an extraction of the session. -/
def Extracts (sid : Uuid) (t : Transition World Action) : Prop :=
  ∃ j, t.pre.Commits t.act j ∧ j.jobType = .extractArtifact ∧ j.sessionId = some sid

/-- The transition runs a `delete_artifact_rows` job of the session. -/
def ErasesRows (sid : Uuid) (t : Transition World Action) : Prop := t.pre.Erases t.act sid

/-- Once the saga is done, every file saved for the session was its recording at a retraction, and
every committed extraction of the session came before a `delete_artifact_rows` job. -/
def Covered (sid : Uuid) (tr : List (Transition World Action)) (t : Transition World Action) :
    Prop :=
  Done sid tr t →
    (∀ key ∈ savedKeys (tr ++ [t]) sid, ∃ u ∈ tr ++ [t], RetractsWith sid key u) ∧
      ¬ Since (Extracts sid) (ErasesRows sid) (tr ++ [t])

/-- What the history says about the artifacts, the recordings and the files of a state. -/
structure Traced (tr : List (Transition World Action)) (w : World) : Prop where
  issued : ∀ sid, ∀ key ∈ savedKeys tr sid, key.uuid ∈ w.issued
  recording : ∀ s ∈ w.db.sessions, ∀ key, s.audioKey = some key → key ∈ savedKeys tr s.id
  targeted : ∀ d ∈ w.db.deletionJobs, ∀ key, d.target? = some key →
    ∃ sid, d.sessionId = some sid ∧ key ∈ savedKeys tr sid ∧ ∃ u ∈ tr, RetractsWith sid key u
  queued : ∀ sid key, ∀ u ∈ tr, RetractsWith sid key u →
    ∃ d ∈ w.db.deletionJobs, d.sessionId = some sid ∧ d.target? = some key
  removed : ∀ d ∈ w.db.deletionJobs, ∀ key, d.target? = some key → d.status = .completed →
    key ∉ w.files
  unique : ∀ sid sid', ∀ key ∈ savedKeys tr sid, key ∈ savedKeys tr sid' → sid = sid'
  kept : ∀ sid, ∀ key ∈ savedKeys tr sid, key ∈ w.files ∨ ∃ u ∈ tr, RetractsWith sid key u
  artifacts : ∀ sid, (∃ x ∈ w.db.artifacts, x.sessionId = sid) ↔
    Since (Extracts sid) (ErasesRows sid) tr

theorem traced_init (now : Timestamp) : Traced [] (World.init now) where
  issued _ _ h := (List.not_mem_nil h).elim
  recording _ h := (Table.not_mem_empty _ h).elim
  targeted _ h := (Table.not_mem_empty _ h).elim
  queued _ _ _ h := (List.not_mem_nil h).elim
  removed _ h := (Table.not_mem_empty _ h).elim
  unique _ _ _ h := (List.not_mem_nil h).elim
  kept _ _ h := (List.not_mem_nil h).elim
  artifacts sid := by
    refine iff_of_false ?_ not_since_nil
    rintro ⟨x, hx, -⟩
    exact Table.not_mem_empty _ hx

section Step

variable {tr : List (Transition World Action)} {w w' : World} {a : Action} {sid : Uuid}
  {key : AudioKey}

theorem mem_savedKeys_snoc {t : Transition World Action} : key ∈ savedKeys (tr ++ [t]) sid ↔
    key ∈ savedKeys tr sid ∨ t.pre.saved? t.act = some (sid, key) := by
  simp only [savedKeys, List.filterMap_append, List.mem_append, List.mem_filterMap,
    List.mem_singleton, exists_eq_left, Option.bind_eq_some_iff, Prod.exists]
  refine or_congr_right ?_
  constructor
  · rintro ⟨sid', key', hs, he⟩
    split at he
    next hi => rwa [← hi, ← Option.some.inj he]
    next => cases he
  · exact fun hs => ⟨sid, key, hs, by simp⟩

variable (hw : w.Sound) (ht : Traced tr w) (h : w.step a = some w')
include hw ht h

omit hw in
theorem Traced.fresh (hs : w.saved? a = some (sid, key)) (sid' : Uuid) :
    key ∉ savedKeys tr sid' := by
  intro hk
  exact (World.saved?_fresh (World.fresh_of_step h) hs).1 (ht.issued sid' key hk)

omit hw in
theorem Traced.issued_step : ∀ sid, ∀ key ∈ savedKeys (tr ++ [⟨w, a, w'⟩]) sid,
    key.uuid ∈ w'.issued := by
  intro sid key hk
  rw [World.issued_of_step h]
  rcases mem_savedKeys_snoc.mp hk with hk | hs
  · exact List.mem_append_left _ (ht.issued sid key hk)
  · exact List.mem_append_right _ (World.saved?_fresh (World.fresh_of_step h) hs).2

theorem Traced.recording_step : ∀ s ∈ w'.db.sessions, ∀ key, s.audioKey = some key →
    key ∈ savedKeys (tr ++ [⟨w, a, w'⟩]) s.id := by
  intro s' hs' key hk
  rcases (hw.sessions h).origin s' hs' with ⟨s, hs, hi, hstep⟩ | hnew
  · rw [hi]
    rcases hstep.audioKey with he | ⟨user, uuid4, file, ha, hacc, he⟩
    · exact mem_savedKeys_snoc.mpr (.inl (ht.recording s hs key (he.symm.trans hk)))
    · obtain rfl := Option.some.inj (he.symm.trans hk)
      refine mem_savedKeys_snoc.mpr (.inr ?_)
      rw [ha]
      exact World.saved?_of_accepts hacc
  · cases hnew with
    | created => cases hk

theorem Traced.targeted_step : ∀ d ∈ w'.db.deletionJobs, ∀ key, d.target? = some key →
    ∃ sid, d.sessionId = some sid ∧ key ∈ savedKeys (tr ++ [⟨w, a, w'⟩]) sid ∧
      ∃ u ∈ tr ++ [⟨w, a, w'⟩], RetractsWith sid key u := by
  intro d' hd' key hk
  rcases (hw.deletions h).origin d' hd' with ⟨d, hd, -, hstep⟩ | hnew
  · obtain ⟨sid, hds, hs, u, hu, hr⟩ := ht.targeted d hd key (hstep.target?.symm.trans hk)
    exact ⟨sid, hstep.sessionId.trans hds, mem_savedKeys_snoc.mpr (.inl hs), u,
      List.mem_append_left _ hu, hr⟩
  · cases hnew with
    | @queued id s ty targets hr hs _ hty =>
      unfold DeletionJob.target? at hk
      split at hk
      next hl =>
        have ha : s.audioKey = some key := (hty hl).symm.trans hk
        exact ⟨s.id, rfl, mem_savedKeys_snoc.mpr (.inl (ht.recording s hs key ha)), _,
          List.mem_append_right _ (List.mem_singleton.mpr rfl), hr, s, hs, rfl, ha⟩
      next => cases hk

theorem Traced.queued_step : ∀ sid key, ∀ u ∈ tr ++ [⟨w, a, w'⟩], RetractsWith sid key u →
    ∃ d ∈ w'.db.deletionJobs, d.sessionId = some sid ∧ d.target? = some key := by
  intro sid key u hu hr
  rcases List.mem_append.mp hu with hu | hu
  · obtain ⟨d, hd, hs, hk⟩ := ht.queued sid key u hu hr
    obtain ⟨d', hd', -, hstep⟩ := (hw.deletions h).kept d hd
    exact ⟨d', hd', hstep.sessionId.trans hs, hstep.target?.trans hk⟩
  · obtain rfl := List.mem_singleton.mp hu
    obtain ⟨hr, s, hs, rfl, hk⟩ := hr
    obtain ⟨d, hd, hds, hdk⟩ := World.target_of_retracts hr hs (World.effect_of_step h)
    exact ⟨d, hd, hds, hdk.trans hk⟩

/-- A file that was saved before and is gone does not come back. -/
theorem Traced.absent (hs : key ∈ savedKeys tr sid) (hk : key ∉ w.files) : key ∉ w'.files :=
  (World.files_of_effect hw.settled (World.effect_of_step h)).absent (World.fresh_of_step h)
    (ht.issued sid key hs) hk

theorem Traced.removed_step : ∀ d ∈ w'.db.deletionJobs, ∀ key, d.target? = some key →
    d.status = .completed → key ∉ w'.files := by
  intro d' hd' key hk hs'
  rcases (hw.deletions h).origin d' hd' with ⟨d, hd, hi, hstep⟩ | hnew
  · have ht' := hstep.target?.symm.trans hk
    by_cases hs : d.status = .completed
    · obtain ⟨sid, -, hsaved, -⟩ := ht.targeted d hd key ht'
      exact ht.absent hw h hsaved (ht.removed d hd key ht' hs)
    · exact World.absent_of_completed hw.settled (World.effect_of_step h) hd hd' hi hs hs' ht'
  · cases hnew with
    | queued => cases hs'

omit hw in
theorem Traced.unique_step : ∀ sid sid', ∀ key ∈ savedKeys (tr ++ [⟨w, a, w'⟩]) sid,
    key ∈ savedKeys (tr ++ [⟨w, a, w'⟩]) sid' → sid = sid' := by
  intro sid sid' key hk hk'
  rcases mem_savedKeys_snoc.mp hk with hk | hs <;> rcases mem_savedKeys_snoc.mp hk' with hk' | hs'
  · exact ht.unique sid sid' key hk hk'
  · exact absurd hk (ht.fresh h hs' sid)
  · exact absurd hk' (ht.fresh h hs sid')
  · exact congrArg Prod.fst (Option.some.inj (hs.symm.trans hs'))

theorem Traced.kept_step : ∀ sid, ∀ key ∈ savedKeys (tr ++ [⟨w, a, w'⟩]) sid,
    key ∈ w'.files ∨ ∃ u ∈ tr ++ [⟨w, a, w'⟩], RetractsWith sid key u := by
  intro sid key hk
  have hf := World.files_of_effect hw.settled (World.effect_of_step h)
  have lift (hr : ∃ u ∈ tr, RetractsWith sid key u) :
      ∃ u ∈ tr ++ [⟨w, a, w'⟩], RetractsWith sid key u := by
    obtain ⟨u, hu, hr⟩ := hr
    exact ⟨u, List.mem_append_left _ hu, hr⟩
  rcases mem_savedKeys_snoc.mp hk with hk | hs
  · rcases ht.kept sid key hk with hm | hr
    · generalize w'.files = files at hf ⊢
      cases hf with
      | same => exact .inl hm
      | saved => exact .inl (List.mem_cons_of_mem _ hm)
      | @removed d key' _ hd hd' =>
        by_cases he : key = key'
        · subst he
          obtain ⟨sid', -, hs', hr⟩ := ht.targeted d hd key hd'
          obtain rfl := ht.unique sid sid' key hk hs'
          exact .inr (lift hr)
        · exact .inl (List.mem_filter.mpr ⟨hm, by simpa using he⟩)
    · exact .inr (lift hr)
  · generalize w'.files = files at hf ⊢
    cases hf with
    | same hn => cases hn.symm.trans hs
    | removed hn => cases hn.symm.trans hs
    | saved hs' =>
      obtain ⟨-, rfl⟩ := Prod.mk.inj (Option.some.inj (hs.symm.trans hs'))
      exact .inl List.mem_cons_self

theorem Traced.artifacts_step : ∀ sid, (∃ x ∈ w'.db.artifacts, x.sessionId = sid) ↔
    Since (Extracts sid) (ErasesRows sid) (tr ++ [⟨w, a, w'⟩]) := by
  intro sid
  have he := World.effect_of_step h
  rw [since_snoc, ← ht.artifacts sid]
  constructor
  · rintro ⟨x', hx', rfl⟩
    rcases hw.artifacts h x' hx' with ⟨x, hx, -, hstep⟩ | hnew
    · refine .inr ⟨⟨x, hx, hstep.sessionId.symm⟩, fun ha => ?_⟩
      exact World.artifacts_of_erases hw.settled ha he x' hx' rfl
    · cases hnew with
      | extracted _ hc hty hj => exact .inl ⟨_, hc, hty, hj⟩
  · rintro (⟨j, hc, hty, hj⟩ | ⟨⟨x, hx, rfl⟩, ha⟩)
    · obtain ⟨x, hx, hxs, -⟩ := World.artifact_of_extract hc hty he
      exact ⟨x, hx, Option.some.inj (hxs.symm.trans hj)⟩
    · obtain ⟨x', hx', hi⟩ := World.artifact_kept hw.settled hx ha he
      exact ⟨x', hx', (hw.artifact_row h hx hx' hi).sessionId⟩

theorem Traced.step : Traced (tr ++ [⟨w, a, w'⟩]) w' where
  issued := ht.issued_step h
  recording := ht.recording_step hw h
  targeted := ht.targeted_step hw h
  queued := ht.queued_step hw h
  removed := ht.removed_step hw h
  unique := ht.unique_step h
  kept := ht.kept_step hw h
  artifacts := ht.artifacts_step hw h

/-- Once the saga is done, a file is gone exactly when a retraction found it as the recording. -/
theorem absent_iff (hc : (∃ u ∈ tr, SagaDone u.post.db sid) → Clean tr w sid)
    (hd : Done sid tr ⟨w, a, w'⟩) (hk : key ∈ savedKeys (tr ++ [⟨w, a, w'⟩]) sid) :
    key ∉ w'.files ↔ ∃ u ∈ tr ++ [⟨w, a, w'⟩], RetractsWith sid key u := by
  have ht' := ht.step hw h
  constructor
  · intro hn
    exact (ht'.kept sid key hk).resolve_left hn
  rintro ⟨u, hu, hr⟩
  obtain ⟨v, hv, hdone⟩ := hd
  rcases List.mem_append.mp hv with hv | hv
  · rcases mem_savedKeys_snoc.mp hk with hk | hs
    · exact ht.absent hw h hk ((hc ⟨v, hv, hdone⟩).files key hk)
    -- a file that is saved only now has not been retracted before
    · rcases List.mem_append.mp hu with hu | hu
      · obtain ⟨d, hd, -, hdk⟩ := ht.queued sid key u hu hr
        obtain ⟨sid', -, hk', -⟩ := ht.targeted d hd key hdk
        exact absurd hk' (ht.fresh h hs sid')
      · obtain rfl := List.mem_singleton.mp hu
        obtain ⟨-, s, hsm, -, ha⟩ := hr
        exact absurd (ht.recording s hsm key ha) (ht.fresh h hs s.id)
  · obtain rfl := List.mem_singleton.mp hv
    obtain ⟨d, hd, hds, hdk⟩ := ht'.queued sid key u hu hr
    exact ht'.removed d hd key hdk (hdone.completed d hd hds)

theorem nothingLeft_iff (hc : (∃ u ∈ tr, SagaDone u.post.db sid) → Clean tr w sid) :
    NothingLeft sid tr ⟨w, a, w'⟩ ↔ Covered sid tr ⟨w, a, w'⟩ := by
  refine imp_congr_right fun hd => ?_
  have hart := (ht.step hw h).artifacts sid
  constructor
  · intro hcl
    refine ⟨fun key hk => (absent_iff hw ht h hc hd hk).mp (hcl.files key hk), fun hs => ?_⟩
    obtain ⟨x, hx, hxs⟩ := hart.mpr hs
    exact hcl.artifacts x hx hxs
  · rintro ⟨hf, hs⟩
    exact ⟨fun x hx hxs => hs (hart.mp ⟨x, hx, hxs⟩),
      fun key hk => (absent_iff hw ht h hc hd hk).mpr (hf key hk)⟩

end Step

theorem traced_of_run {now : Timestamp} {tr : List (Transition World Action)} {w : World}
    (hr : SystemRun now tr w) : Traced tr w := by
  induction hr with
  | init => exact traced_init now
  | snoc hr hstep ih => exact ih.step (World.sound_of_run hr) hstep

/-- A retracted session is erased for good exactly when the saga covers its files and its
extractions. -/
theorem run_erased_iff {now : Timestamp} {tr : List (Transition World Action)} {w : World}
    (hr : SystemRun now tr w) (sid : Uuid) :
    Throughout (NothingLeft sid) tr ↔ Throughout (Covered sid) tr := by
  refine hr.throughout_iff fun tr w a w' hr hp h => ?_
  refine nothingLeft_iff (World.sound_of_run hr) (traced_of_run hr) h fun hd => ?_
  cases hr with
  | init => exact absurd hd (by simp)
  | snoc => exact (throughout_snoc.mp hp).2 hd

/-- One upload, one retraction, and the three deletion jobs. -/
theorem covered_retraction : ∃ tr w, SystemRun 0 tr w ∧
    SagaDone w.db (Replay.uuid 5) ∧ Throughout (Covered (Replay.uuid 5)) tr := by
  obtain ⟨tr, w, hr, hp⟩ := exists_run
    (fun tr (w : World) => decide (SagaDone w.db (Replay.uuid 5)) &&
      decide (Throughout (NothingLeft (Replay.uuid 5)) tr))
    (show (execute World.step (World.init 0) (Replay.published ++ [Replay.retract 70] ++
      Replay.erase 70 ++ Replay.erase 71 ++ Replay.erase 72)).any _ = true by decide +kernel)
  obtain ⟨hs, hc⟩ := Bool.and_eq_true_iff.mp hp
  exact ⟨tr, w, hr, of_decide_eq_true hs, (run_erased_iff hr _).mp (of_decide_eq_true hc)⟩

/-- The audio is uploaded a second time before the retraction. -/
def replacedUpload : List Action :=
  Replay.published ++
    [.request (.uploadAudio (Replay.uuid 2) (Replay.uuid 7) (some (Replay.uuid 5))
      ⟨some "y.wav", none, 10⟩), Replay.retract 70] ++
    Replay.erase 70 ++ Replay.erase 71 ++ Replay.erase 72

/-- A rejected artifact is extracted again once its rows are deleted. -/
def extractionAfterErasure : List Action :=
  Replay.published ++ [Replay.review .reject 32 80, Replay.retract 70] ++
    [.beginCycle 0, .beginCycle 1, .claim 1 (Replay.uuid 80) []] ++
    [.claimNone 0 [], .processDeletion 0 (Replay.uuid 70) [] fun _ => .ok ()] ++
    Replay.erase 71 ++ Replay.erase 72 ++ [.runHandler 1 Replay.providers (Replay.uuid 90)]

theorem left_behind :
    (¬ ∀ now tr w, SystemRun now tr w → ∀ t ∈ tr, SagaDone t.post.db (Replay.uuid 5) →
      ∀ key ∈ savedKeys tr (Replay.uuid 5), key ∉ w.files) ∧
    (¬ ∀ now tr w, SystemRun now tr w → ∀ t ∈ tr, SagaDone t.post.db (Replay.uuid 5) →
      ∀ x ∈ w.db.artifacts, x.sessionId ≠ Replay.uuid 5) :=
  ⟨Replay.refute replacedUpload (by decide +kernel),
    Replay.refute extractionAfterErasure (by decide +kernel)⟩

end AiBadge
