import AiBadge.Concurrency.Deletion
import AiBadge.System.FileStep

/-! # Deletion jobs survive crashes

Wherever the workers of the deletion queue die, no row stays `running`, a completed row
has had its effect, and a job that is run again ends as if it had run once.
-/

namespace AiBadge

open Lib Prog DeletionCut

/-- The two rows name the same task. -/
structure DeletionJob.SameTask (d d' : DeletionJob) : Prop where
  id : d'.id = d.id
  resourceType : d'.resourceType = d.resourceType
  sessionId : d'.sessionId = d.sessionId
  cascadeTargets : d'.cascadeTargets = d.cascadeTargets

theorem DeletionJob.SameTask.target? {d d' : DeletionJob} (h : d.SameTask d') :
    d'.target? = d.target? := by
  rw [DeletionJob.target?, h.resourceType, h.cascadeTargets, DeletionJob.target?]

/-- The commit that ends the processing of `d`, with these files. -/
inductive Closes (d : DeletionJob) (files : Files) (db : Db) : Db → Prop where
  | artifactRows : d.resourceType = .deleteArtifactRows →
      Closes d files db (completeDeletion d.id (eraseRows d.sessionId db))
  | localAudio : d.resourceType = .deleteLocalAudio → (∀ key, d.target? = some key → key ∉ files) →
      Closes d files db (completeDeletion d.id db)
  | feishuDocs : d.resourceType = .deleteFeishuDocs →
      Closes d files db (completeDeletion d.id db)
  | failed {message : String} :
      Closes d files db (db.setDeletionJob d.id (DeletionJob.withFailure message))

/-- The flushed writes end the processing of `d`, whatever they are committed to. -/
def Closing (d : DeletionJob) (ws : List (Db → Db)) (files : Files) : Prop :=
  ∀ db, Closes d files db (Tx.view { committed := db, pending := ws, outside := files })

/-- Files only disappear. -/
def Shrinks (files files' : Files) : Prop := files' ⊆ files

section Sound

variable {os : Os} {d : DeletionJob} {ws : List (Db → Db)} {files : Files}
  {R T : Files → Files → Prop} {G : List (Db → Db) → Files → Prop}

theorem sound_complete (ht : ∀ a b c, R a b → R b c → R a c)
    (h : ∀ files', R files files' → G (ws ++ [completeDeletion d.id]) files') :
    (complete d.id).Sound R T G ws files :=
  fun _ h₁ _ h₂ => ⟨h _ (ht _ _ _ h₁ h₂), trivial⟩

theorem sound_fail {message : String} (ht : ∀ a b c, R a b → R b c → R a c)
    (h : ∀ files', R files files' →
      G (ws ++ [fun db => db.setDeletionJob d.id (DeletionJob.withFailure message)]) files') :
    (fail d.id message).Sound R T G ws files :=
  fun _ h₁ _ h₂ => ⟨h _ (ht _ _ _ h₁ h₂), trivial⟩

theorem removed_subset {key : AudioKey} : removed os key files ⊆ files := by
  unfold removed
  split
  · exact List.filter_subset_self _
  · exact List.Subset.refl files

theorem removed_of_ok {key : AudioKey} (h : os.remove key = .ok ()) :
    removed os key files = files.filter (· ≠ key) := by
  rw [removed, h]

theorem removed_of_error {key : AudioKey} {e : Exn} (h : os.remove key = .error e) :
    removed os key files = files := by
  rw [removed, h]

theorem Shrinks.trans {a b c : Files} (h : Shrinks a b) (h' : Shrinks b c) : Shrinks a c :=
  List.Subset.trans h' h

theorem closing_fail {message : String} : Closing d
    ([fun db => db.setDeletionJob d.id (DeletionJob.withStatus .running)] ++
      [fun db => db.setDeletionJob d.id (DeletionJob.withFailure message)]) files := by
  intro db
  have h : (db.setDeletionJob d.id (DeletionJob.withStatus .running)).setDeletionJob d.id
      (DeletionJob.withFailure message) = db.setDeletionJob d.id (DeletionJob.withFailure message) :=
    setDeletionJob_running fun _ => rfl
  have hc : Closes d files db (db.setDeletionJob d.id (DeletionJob.withFailure message)) := .failed
  rwa [← h] at hc

theorem closing_complete (h : ∀ db, Closes d files db (completeDeletion d.id db)) : Closing d
    ([fun db => db.setDeletionJob d.id (DeletionJob.withStatus .running)] ++
      [completeDeletion d.id]) files := by
  intro db
  have hc := h db
  rwa [← completeDeletion_running] at hc

theorem closing_erase {sid : Uuid} (hd : d.resourceType = .deleteArtifactRows)
    (hs : d.sessionId = some sid) : Closing d
      ([fun db => db.setDeletionJob d.id (DeletionJob.withStatus .running),
        fun db => db.deleteArtifacts sid] ++ [completeDeletion d.id]) files := by
  intro db
  have he : completeDeletion d.id (eraseRows d.sessionId db) =
      completeDeletion d.id (db.deleteArtifacts sid) := by
    rw [hs]
    rfl
  have hc : Closes d files db (completeDeletion d.id (eraseRows d.sessionId db)) := .artifactRows hd
  have h : completeDeletion d.id ((db.deleteArtifacts sid).setDeletionJob d.id
      (DeletionJob.withStatus .running)) = completeDeletion d.id (db.deleteArtifacts sid) :=
    completeDeletion_running
  rwa [he, ← h] at hc

/-- Other workers of the deletion queue cannot spoil what the script commits. -/
theorem sound_script : (script os d).Sound Shrinks Shrinks (Closing d) [] files := by
  have trans : ∀ a b c, Shrinks a b → Shrinks b c → Shrinks a c := fun _ _ _ => Shrinks.trans
  intro files₁ _
  show (handle os d).Sound Shrinks Shrinks (Closing d) [_] files₁
  unfold handle
  split
  next hd =>
    split
    next sid hs => exact fun _ _ => sound_complete trans fun _ _ => closing_erase hd hs
    next hs =>
      refine sound_complete trans fun files₂ _ => closing_complete fun db => ?_
      have hc : Closes d files₂ db (completeDeletion d.id (eraseRows d.sessionId db)) :=
        .artifactRows hd
      rwa [hs] at hc
  next hd =>
    have target {key : AudioKey} (hk : d.cascadeTargets.bind (·.audioKey) = some key) :
        d.target? = some key := by
      rw [DeletionJob.target?, if_pos hd, hk]
    split
    next key hkey =>
      -- a file that is gone does not come back
      have gone {files : Files} (h : key ∉ files) {files' : Files} (hs : Shrinks files files') :
          Closing d ([fun db => db.setDeletionJob d.id (DeletionJob.withStatus .running)] ++
            [completeDeletion d.id]) files' := by
        refine closing_complete fun db => .localAudio hd fun key' hk => ?_
        obtain rfl := Option.some.inj ((target hkey).symm.trans hk)
        exact fun hm => h (hs hm)
      intro files₂ _
      refine ⟨List.Subset.refl _, ?_⟩
      show Cut.Sound _ _ _ (if key ∈ files₂ then remove os d.id key else complete d.id) [_] files₂
      split
      next =>
        intro files₃ _
        refine ⟨removed_subset, ?_⟩
        simp only
        split
        next =>
          split
          next hok =>
            refine sound_complete trans fun _ hs => gone ?_ hs
            rw [removed_of_ok hok]
            simp
          next => exact sound_fail trans fun _ _ => closing_fail
        next => exact sound_fail trans fun _ _ => closing_fail
      next hn => exact sound_complete trans fun _ hs => gone hn hs
    next hkey =>
      refine sound_complete trans fun _ _ => closing_complete fun db => .localAudio hd fun key hk => ?_
      rw [DeletionJob.target?, if_pos hd, hkey] at hk
      cases hk
  next hd => exact sound_complete trans fun _ _ => closing_complete fun db => .feishuDocs hd
  next => exact sound_fail trans fun _ _ => closing_fail

end Sound

/-- A row is committed as completed only together with its effect. -/
def CompletesTask (t : Transition DeletionSite DeletionAction) : Prop :=
  ∀ d ∈ t.pre.store.deletionJobs, ∀ d' ∈ t.post.store.deletionJobs, d'.id = d.id →
    d.status ≠ .completed → d'.status = .completed →
    (d.resourceType = .deleteArtifactRows →
      ∀ x ∈ t.post.store.artifacts, d.sessionId ≠ some x.sessionId) ∧
    ∀ key, d.target? = some key → key ∉ t.post.outside

section Rows

variable {d r r' : DeletionJob} {files : Files} {db db' : Db}

theorem DeletionJob.SameTask.refl : d.SameTask d := ⟨rfl, rfl, rfl, rfl⟩

theorem DeletionJob.SameTask.trans {d₁ d₂ d₃ : DeletionJob} (h : d₁.SameTask d₂)
    (h' : d₂.SameTask d₃) : d₁.SameTask d₃ :=
  ⟨h'.id.trans h.id, h'.resourceType.trans h.resourceType, h'.sessionId.trans h.sessionId,
    h'.cascadeTargets.trans h.cascadeTargets⟩

/-- The rows behind a closing commit: one ends completed or failed, the others stay. -/
theorem Closes.rows (h : Closes d files db db') (hr : r' ∈ db'.deletionJobs) :
    ∃ r ∈ db.deletionJobs, r.SameTask r' ∧
      (r' = r ∨ r.id = d.id ∧ (r'.status = .completed ∨ r'.status = .failed)) := by
  have set {f : DeletionJob → DeletionJob} {hf : ∀ d, (f d).id = d.id}
      (hu : r' ∈ db.deletionJobs.update (fun r => r.id = d.id) f hf)
      (ht : ∀ d : DeletionJob, d.SameTask (f d))
      (hs : ∀ d : DeletionJob, (f d).status = .completed ∨ (f d).status = .failed) :
      ∃ r ∈ db.deletionJobs, r.SameTask r' ∧
        (r' = r ∨ r.id = d.id ∧ (r'.status = .completed ∨ r'.status = .failed)) := by
    obtain ⟨r, hm, rfl⟩ := Table.mem_update.mp hu
    refine ⟨r, hm, ?_⟩
    split
    next hid => exact ⟨ht r, .inr ⟨of_decide_eq_true hid, hs r⟩⟩
    next => exact ⟨.refl, .inl rfl⟩
  have completed {db₁ : Db} (he : db₁.deletionJobs = db.deletionJobs)
      (hr : r' ∈ (completeDeletion d.id db₁).deletionJobs) :
      ∃ r ∈ db.deletionJobs, r.SameTask r' ∧
        (r' = r ∨ r.id = d.id ∧ (r'.status = .completed ∨ r'.status = .failed)) := by
    have hu : r' ∈ db₁.deletionJobs.update (fun r => r.id = d.id) (DeletionJob.withStatus .completed)
      (by intro; rfl) := hr
    rw [he] at hu
    exact set hu (fun _ => ⟨rfl, rfl, rfl, rfl⟩) fun _ => .inl rfl
  cases h with
  | artifactRows =>
    refine completed ?_ hr
    cases d.sessionId <;> rfl
  | localAudio => exact completed rfl hr
  | feishuDocs => exact completed rfl hr
  | failed =>
    have hu : r' ∈ db.deletionJobs.update (fun r => r.id = d.id) (DeletionJob.withFailure _)
      (by intro; rfl) := hr
    exact set hu (fun _ => ⟨rfl, rfl, rfl, rfl⟩) fun _ => .inr rfl

/-- A closing commit that completes a row has had the effect of the row. -/
theorem Closes.completes (h : Closes d files db db') (hr : r ∈ db.deletionJobs)
    (hr' : r' ∈ db'.deletionJobs) (hi : r'.id = r.id) (hrd : r.id = d.id → d.SameTask r)
    (hs : r.status ≠ .completed) (hs' : r'.status = .completed) :
    (r.resourceType = .deleteArtifactRows → ∀ x ∈ db'.artifacts, r.sessionId ≠ some x.sessionId) ∧
      ∀ key, r.target? = some key → key ∉ files := by
  obtain ⟨r₀, hr₀, hsame, hst⟩ := h.rows hr'
  obtain rfl : r₀ = r := Table.eq_of_key_eq hr₀ hr (hsame.id.symm.trans hi)
  have htask : d.SameTask r₀ := by
    rcases hst with rfl | ⟨hid, -⟩
    · exact absurd hs' hs
    · exact hrd hid
  have hno (hne : d.resourceType ≠ .deleteLocalAudio) (key : AudioKey) :
      ¬ r₀.target? = some key := by
    intro hk
    rw [DeletionJob.target?, htask.resourceType, if_neg hne] at hk
    cases hk
  cases h with
  | artifactRows hd =>
    constructor
    · intro _ x hx hsid
      rw [htask.sessionId] at hsid
      replace hx : x ∈ (eraseRows d.sessionId db).artifacts := hx
      rw [hsid] at hx
      exact absurd (Table.mem_delete.mp hx).2 (by simp)
    · intro key hk
      exact absurd hk (hno (by rw [hd]; decide) key)
  | localAudio hd habs =>
    constructor
    · intro ht
      cases (hd.symm.trans htask.resourceType.symm).trans ht
    · intro key hk
      exact habs key (htask.target? ▸ hk)
  | feishuDocs hd =>
    constructor
    · intro ht
      cases (hd.symm.trans htask.resourceType.symm).trans ht
    · intro key hk
      exact absurd hk (hno (by rw [hd]; decide) key)
  | failed =>
    have hu : r' ∈ db.deletionJobs.update (fun x => x.id = d.id) (DeletionJob.withFailure _)
      (by intro; rfl) := hr'
    obtain ⟨x, hx, rfl⟩ := Table.mem_update.mp hu
    split at hs'
    · cases hs'
    next hn =>
      rw [if_neg hn] at hi
      obtain rfl := Table.eq_of_key_eq hx hr hi
      exact absurd hs' hs

end Rows

/-- What the steps of the deletion workers keep. -/
structure CrashSafe (db₀ : Db) (s : DeletionSite) : Prop where
  sound : s.Sound Shrinks Shrinks fun ws files =>
    ∃ d, (∃ d₀ ∈ db₀.deletionJobs, d₀.SameTask d) ∧ Closing d ws files
  task : ∀ d ∈ s.store.deletionJobs, ∃ d₀ ∈ db₀.deletionJobs, d₀.SameTask d
  stopped : ∀ d ∈ s.store.deletionJobs, d.status ≠ .running

section Step

variable {db₀ : Db} {s s' : DeletionSite} {a : DeletionAction}

theorem CrashSafe.step (h : CrashSafe db₀ s) (hs : DeletionSite.step s a = some s') :
    CrashSafe db₀ s' ∧ CompletesTask ⟨s, a, s'⟩ := by
  have same {s' : DeletionSite} (he : s'.store = s.store) : CompletesTask ⟨s, a, s'⟩ := by
    intro d hd d' hd' hi hn hc
    replace hd' : d' ∈ s'.store.deletionJobs := hd'
    rw [he] at hd'
    obtain rfl := Table.eq_of_key_eq hd' hd hi
    exact absurd hc hn
  cases a with
  | claim k job now locked os =>
    rw [DeletionSite.step] at hs
    split at hs
    next =>
      obtain ⟨d, hd, rfl⟩ := Option.map_eq_some_iff.mp hs
      have hm : d ∈ s.store.deletionJobs := by
        have hc : d ∈ deletionCandidates locked now s.store := List.mem_of_find?_eq_some hd
        exact (Table.mem_select.mp (List.mem_filter.mp hc).1).1
      refine ⟨⟨h.sound.begin ?_, h.task, h.stopped⟩, same rfl⟩
      exact Cut.Sound.imp (fun ws o hc => ⟨d, h.task d hm, hc⟩) sound_script
    next => cases hs
  | crash k =>
    cases hs
    exact ⟨⟨h.sound.drop, h.task, h.stopped⟩, same rfl⟩
  | advance k =>
    obtain ⟨hsound, ws, hprog⟩ := h.sound.advance (fun _ => List.Subset.refl _)
      (fun _ _ _ => Shrinks.trans) (fun _ _ _ _ _ _ _ ht => ht) hs
    obtain ⟨db, files, flights⟩ := s'
    cases hprog with
    | kept => exact ⟨⟨hsound, h.task, h.stopped⟩, same rfl⟩
    | touched => exact ⟨⟨hsound, h.task, h.stopped⟩, same rfl⟩
    | committed hg =>
      obtain ⟨d, ⟨d₀, hd₀, htask⟩, hc⟩ := hg
      have hcl : Closes d s.outside s.store (s.session ws).view := hc s.store
      refine ⟨⟨hsound, fun r' hr' => ?_, fun r' hr' => ?_⟩, fun r hr r' hr' hi => ?_⟩
      · obtain ⟨r, hr, hsame, -⟩ := hcl.rows hr'
        obtain ⟨r₀, hr₀, hsame₀⟩ := h.task r hr
        exact ⟨r₀, hr₀, hsame₀.trans hsame⟩
      · obtain ⟨r, hr, -, rfl | ⟨-, hst⟩⟩ := hcl.rows hr'
        · exact h.stopped _ hr
        · intro hrun
          rcases hst with hst | hst <;> cases hst.symm.trans hrun
      · refine hcl.completes hr hr' hi fun hid => ?_
        obtain ⟨r₀, hr₀, hsame₀⟩ := h.task r hr
        obtain rfl := Table.eq_of_key_eq hr₀ hd₀ (hsame₀.id.symm.trans (hid.trans htask.id))
        exact ⟨hid, hsame₀.resourceType.trans htask.resourceType.symm,
          hsame₀.sessionId.trans htask.sessionId.symm,
          hsame₀.cascadeTargets.trans htask.cascadeTargets.symm⟩

end Step

end AiBadge
