import AiBadge.System.Leftover

/-! # Artifact, deletion and audit rows over one step

Every way a step can change a row of `artifacts` or `deletion_jobs`, and every way
it can add one. Artifacts may also vanish.
-/

namespace AiBadge

open Lib Prog

/-- The artifact that a request edits or reviews. -/
def Request.subject : Request → Option Uuid
  | updateArtifact _ artifact _ => artifact
  | reviewArtifact _ _ artifact _ => artifact
  | _ => none

/-- The deletion job that an action processes. -/
def Action.deletion? : Action → Option Uuid
  | .processDeletion _ job _ _ => some job
  | _ => none

namespace World

inductive ArtifactStep (w : World) (a : Action) (x : Artifact) : Artifact → Prop where
  | same : (∀ r, a = .request r → w.Accepts r → r.subject ≠ some x.id) → ArtifactStep w a x x
  | edited {user : Uuid} {body : ArtifactUpdateRequest} :
      a = .request (.updateArtifact user (some x.id) body) →
      w.Accepts (.updateArtifact user (some x.id) body) → ArtifactStep w a x (body.apply x)
  | approved {user : Uuid} {ids : RetryIds} {comment : String} :
      a = .request (.reviewArtifact user ids (some x.id) ⟨.approve, comment⟩) →
      w.Accepts (.reviewArtifact user ids (some x.id) ⟨.approve, comment⟩) →
      ArtifactStep w a x (x.withReview .approved comment)
  | rejected {user : Uuid} {ids : RetryIds} {comment : String} :
      a = .request (.reviewArtifact user ids (some x.id) ⟨.reject, comment⟩) →
      w.Accepts (.reviewArtifact user ids (some x.id) ⟨.reject, comment⟩) →
      ArtifactStep w a x (x.withReview .rejected comment)
  | published {t : Timestamp} : (∀ r, a ≠ .request r) → ArtifactStep w a x (x.withPublication t)

/-- The row that a committed extraction adds. -/
inductive ArtifactNew (w : World) (a : Action) : Artifact → Prop where
  | extracted {k : WorkerId} {providers : Providers} {j : Job} {x : Artifact} :
      a = .runHandler k providers x.id → w.Commits a j → j.jobType = .extractArtifact →
      j.sessionId = some x.sessionId → x.status = .pendingReview → x.jobId = some j.id →
      x.publishedAt = none → ArtifactNew w a x

variable {w w' : World} {a : Action}

/-- Where the rows of `artifacts` after a step come from. -/
def ArtifactsFrom (w : World) (a : Action) (db : Db) : Prop :=
  ∀ x' ∈ db.artifacts,
    (∃ x ∈ w.db.artifacts, x'.id = x.id ∧ w.ArtifactStep a x x') ∨ w.ArtifactNew a x'

theorem artifactsFrom_of_kept {db : Db} (h : ∀ x ∈ db.artifacts, x ∈ w.db.artifacts)
    (ha : ∀ r, a = .request r → w.Accepts r → r.subject = none) : w.ArtifactsFrom a db := by
  intro x hx
  refine .inl ⟨x, h x hx, rfl, .same fun r hr hacc => ?_⟩
  rw [ha r hr hacc]
  exact nofun

/-- A step that rewrites the one row with the id of `y`. -/
theorem artifactsFrom_of_setArtifact {db : Db} {y : Artifact} {f : Artifact → Artifact}
    (hy : y ∈ w.db.artifacts) (hstep : w.ArtifactStep a y (f y))
    (ha : ∀ r, a = .request r → r.subject = some y.id ∨ r.subject = none)
    (hf : ∀ x, (f x).id = x.id)
    (h : db.artifacts = (w.db.setArtifact y.id f hf).artifacts) : w.ArtifactsFrom a db := by
  intro x' hx'
  simp only [h, Db.setArtifact_artifacts, Table.mem_update] at hx'
  obtain ⟨x, hx, rfl⟩ := hx'
  refine .inl ⟨x, hx, ?_, ?_⟩
  · exact Table.key_apply (p := fun x => decide (x.id = y.id)) hf x
  by_cases hi : x.id = y.id
  · obtain rfl := Table.eq_of_key_eq hx hy hi
    simpa using hstep
  · rw [if_neg (by simpa using hi)]
    refine .same fun r hr _ => ?_
    rcases ha r hr with hs | hs
    · rw [hs]
      simpa using Ne.symm hi
    · rw [hs]
      rintro ⟨⟩

theorem artifacts_of_request {r : Request} {db : Db} (hr : w.Accepts r) (h : RequestEffect w r db) :
    w.ArtifactsFrom (.request r) db := by
  have keep {db : Db} (hs : r.subject = none) (hd : db.artifacts = w.db.artifacts) :
      w.ArtifactsFrom (.request r) db := by
    refine artifactsFrom_of_kept (fun x hx => hd ▸ hx) ?_
    rintro _ ⟨⟩ -
    exact hs
  have review {db : Db} {y : Artifact} {f : Artifact → Artifact} (hs : r.subject = some y.id)
      (hy : y ∈ w.db.artifacts) (hstep : w.ArtifactStep (.request r) y (f y))
      (hf : ∀ x, (f x).id = x.id)
      (hd : db.artifacts = (w.db.setArtifact y.id f hf).artifacts) :
      w.ArtifactsFrom (.request r) db := by
    refine artifactsFrom_of_setArtifact hy hstep ?_ hf hd
    rintro _ ⟨⟩
    exact .inl hs
  cases h with
  | register _ _ ha => exact keep rfl ha
  | createSession => exact keep rfl rfl
  | updateConsent => exact keep rfl rfl
  | updateStatus => exact keep rfl rfl
  | startProcessing => exact keep rfl (addPipeline_artifacts ..)
  | uploadAudio => exact keep rfl rfl
  | cancelSession => exact keep rfl rfl
  | retractSession => exact keep rfl rfl
  | updateArtifact hy => exact review rfl hy (.edited rfl hr) (fun _ => rfl) rfl
  | approve hy => exact review rfl hy (.approved rfl hr) (fun _ => rfl) rfl
  | approveAll hy =>
    exact review rfl hy (.approved rfl hr) (fun _ => rfl) (advanceSession_artifacts _ _)
  | reject hy => exact review rfl hy (.rejected rfl hr) (fun _ => rfl) rfl
  | publishArtifact => exact keep rfl rfl

/-- A committed extraction adds one artifact and leaves the others alone. -/
theorem artifacts_of_extract {k : WorkerId} {providers : Providers} {aid : Uuid} {j : Job} {db : Db}
    (hc : w.Commits (.runHandler k providers aid) j) (ht : j.jobType = .extractArtifact)
    (h : HandlerCommit w.db ⟨providers, w.now, aid⟩ j db) :
    ∀ x ∈ db.artifacts, x ∈ w.db.artifacts ∨ w.ArtifactNew (.runHandler k providers aid) x := by
  cases h with
  | transcribe ht' => cases ht.symm.trans ht'
  | summarize ht' => cases ht.symm.trans ht'
  | publishMissing ht' => cases ht.symm.trans ht'
  | publish ht' => cases ht.symm.trans ht'
  | @extractArtifact _ _ y _ _ _ _ _ _ _ _ _ _ hsid hid hjob hst _ hpub =>
    intro x hx
    rw [extractWrites_artifacts] at hx
    rcases Table.mem_of_mem_insert hx with hx | rfl
    · exact .inl hx
    · exact .inr (.extracted (by rw [hid]) hc ht hsid hst hjob hpub)

theorem artifacts_of_commit {k : WorkerId} {providers : Providers} {aid : Uuid} {j : Job} {db : Db}
    (hc : w.Commits (.runHandler k providers aid) j)
    (h : HandlerCommit w.db ⟨providers, w.now, aid⟩ j db) :
    w.ArtifactsFrom (.runHandler k providers aid) db := by
  have keep {db : Db} (hd : ∀ x ∈ db.artifacts, x ∈ w.db.artifacts) :
      w.ArtifactsFrom (.runHandler k providers aid) db := by
    refine artifactsFrom_of_kept hd ?_
    rintro _ ⟨⟩
  by_cases ht : j.jobType = .extractArtifact
  · intro x hx
    rcases artifacts_of_extract hc ht h x hx with hx | hnew
    · exact .inl ⟨x, hx, rfl, .same (by rintro _ ⟨⟩)⟩
    · exact .inr hnew
  cases h with
  | transcribe => exact keep fun _ hx => hx
  | summarize => exact keep fun _ hx => hx
  | publishMissing => exact keep fun _ hx => hx
  | publish _ hx hxm =>
    refine artifactsFrom_of_setArtifact hxm (.published (by rintro _ ⟨⟩)) ?_ (fun _ => rfl) rfl
    rintro _ ⟨⟩
  | extractArtifact ht' => exact absurd ht' ht

/-- Processing a deletion job adds no artifact. -/
theorem artifacts_of_deletionEffect {d : DeletionJob} {db db' : Db} {files files' : Files}
    (h : DeletionEffect d db files db' files') : ∀ x ∈ db'.artifacts, x ∈ db.artifacts := by
  cases h with
  | artifactRows =>
    cases hs : d.sessionId with
    | none => exact fun _ hx => hx
    | some sid => exact fun _ hx => (Table.mem_delete.mp hx).1
  | localAudio => exact fun _ hx => hx
  | feishuDocs => exact fun _ hx => hx
  | failed => exact fun _ hx => hx

/-- The artifacts table over one step. -/
theorem artifacts_of_effect {db : Db} {files : Files} (hw : w.Settled) (h : w.Effect a db files) :
    w.ArtifactsFrom a db := by
  cases h with
  | refused hr =>
    refine artifactsFrom_of_kept (fun _ hx => hx) ?_
    rintro _ ⟨⟩ hacc
    exact absurd hacc hr
  | served hr h => exact artifacts_of_request hr h
  | silent hs =>
    refine artifactsFrom_of_kept (fun _ hx => hx) ?_
    rintro r rfl
    exact hs.elim
  | committed _ _ hc h => exact artifacts_of_commit hc h
  | @deletion k d locked remove pending db files hp hd h =>
    have hl := hw.tail hp
    intro x' hx'
    have hx := artifacts_of_deletionEffect h x' hx'
    have keep {x : Artifact} : w.ArtifactStep (.processDeletion k d.id locked remove) x x :=
      .same (by rintro _ ⟨⟩)
    cases hl with
    | nothing => exact .inl ⟨x', hx, rfl, keep⟩
    | released => exact .inl ⟨x', hx, rfl, keep⟩
    | @marked t aid =>
      have hm : x' ∈ (markArtifact t aid w.db).artifacts := hx
      rw [markArtifact_artifacts, Table.mem_update] at hm
      obtain ⟨y, hy, rfl⟩ := hm
      refine .inl ⟨y, hy, ?_, ?_⟩
      · split <;> rfl
      · split
        · exact .published (by rintro _ ⟨⟩)
        · exact keep
  | claimed => exact artifactsFrom_of_kept (fun _ hx => hx) (by rintro _ ⟨⟩)
  | raised => exact artifactsFrom_of_kept (fun _ hx => hx) (by rintro _ ⟨⟩)
  | unknown => exact artifactsFrom_of_kept (fun _ hx => hx) (by rintro _ ⟨⟩)
  | failed => exact artifactsFrom_of_kept (fun _ hx => hx) (by rintro _ ⟨⟩)
  | heartbeat => exact artifactsFrom_of_kept (fun _ hx => hx) (by rintro _ ⟨⟩)
  | crashedDeletion => exact artifactsFrom_of_kept (fun _ hx => hx) (by rintro _ ⟨⟩)

/-- The action processes a `delete_artifact_rows` job of the session. -/
def Erases (w : World) (a : Action) (sessionId : Uuid) : Prop :=
  ∃ k locked remove, ∃ d ∈ w.db.deletionJobs, a = .processDeletion k d.id locked remove ∧
    d.resourceType = .deleteArtifactRows ∧ d.sessionId = some sessionId

theorem erases_iff {sid : Uuid} : w.Erases a sid ↔ ∃ job ∈ a.deletion?, ∃ d ∈ w.db.deletionJobs,
    d.id = job ∧ d.resourceType = .deleteArtifactRows ∧ d.sessionId = some sid := by
  constructor
  · rintro ⟨k, locked, remove, d, hd, rfl, ht, hs⟩
    exact ⟨d.id, rfl, d, hd, rfl, ht, hs⟩
  · rintro ⟨job, hj, d, hd, rfl, ht, hs⟩
    cases a with
    | processDeletion k job locked remove =>
      obtain rfl := Option.some.inj hj
      exact ⟨k, locked, remove, d, hd, rfl, ht, hs⟩
    | _ => cases hj

instance (sid : Uuid) : Decidable (w.Erases a sid) := decidable_of_iff _ erases_iff.symm

/-- No artifact of a session survives its `delete_artifact_rows` job. -/
theorem artifacts_of_erases {sid : Uuid} {db : Db} {files : Files} (hw : w.Settled)
    (ha : w.Erases a sid) (h : w.Effect a db files) : ∀ x ∈ db.artifacts, x.sessionId ≠ sid := by
  obtain ⟨k, locked, remove, e, he, rfl, hty, hsid⟩ := ha
  generalize hid : e.id = id at h
  cases h with
  | silent hs => exact hs.elim
  | @deletion _ d _ _ pending _ _ hp hd h =>
    obtain rfl := Table.eq_of_key_eq he (hw.candidate hp hd).1 hid
    cases h with
    | artifactRows =>
      intro x hx
      simp only [completeDeletion, Db.setDeletionJob_artifacts, hsid] at hx
      simpa using (Table.mem_delete.mp hx).2
    | localAudio ht => cases hty.symm.trans ht
    | feishuDocs ht => cases hty.symm.trans ht
    | failed ht => exact absurd (hty ▸ ht) (by decide)

theorem artifact_kept_setArtifact {db : Db} {x : Artifact} {y : Uuid} {f : Artifact → Artifact}
    (hx : x ∈ db.artifacts) (hf : ∀ x, (f x).id = x.id) :
    ∃ x' ∈ (db.setArtifact y f hf).artifacts, x'.id = x.id :=
  ⟨_, Table.mem_update_of_mem hf hx, Table.key_apply (p := fun x => decide (x.id = y)) hf x⟩

/-- Only a `delete_artifact_rows` job removes artifacts. -/
theorem artifact_kept {x : Artifact} {db : Db} {files : Files} (hw : w.Settled)
    (hx : x ∈ w.db.artifacts) (ha : ¬ w.Erases a x.sessionId) (h : w.Effect a db files) :
    ∃ x' ∈ db.artifacts, x'.id = x.id := by
  cases h with
  | served _ h =>
    cases h with
    | register _ _ hd => exact ⟨x, hd ▸ hx, rfl⟩
    | updateArtifact => exact artifact_kept_setArtifact hx (by intro; rfl)
    | approve => exact artifact_kept_setArtifact hx (by intro; rfl)
    | approveAll =>
      rw [advanceSession_artifacts]
      exact artifact_kept_setArtifact hx (by intro; rfl)
    | reject => exact artifact_kept_setArtifact hx (by intro; rfl)
    | _ => exact ⟨x, hx, rfl⟩
  | committed _ _ _ h =>
    cases h with
    | extractArtifact => exact ⟨x, Table.mem_insert_of_mem hx, rfl⟩
    | publish => exact artifact_kept_setArtifact hx (by intro; rfl)
    | _ => exact ⟨x, hx, rfl⟩
  | @deletion k d locked remove pending db files hp hd h =>
    have hl := hw.tail hp
    obtain ⟨x', hx', hi, hxs⟩ : ∃ x' ∈ (w.session pending).view.artifacts, x'.id = x.id ∧
        x'.sessionId = x.sessionId := by
      cases hl with
      | nothing => exact ⟨x, hx, rfl, rfl⟩
      | released => exact ⟨x, hx, rfl, rfl⟩
      | marked =>
        refine ⟨_, Table.mem_update_of_mem (by intro; rfl) hx, ?_, ?_⟩ <;> split <;> rfl
    refine ⟨x', ?_, hi⟩
    cases h with
    | artifactRows hty =>
      simp only [completeDeletion, Db.setDeletionJob_artifacts]
      cases hs : d.sessionId with
      | none => exact hx'
      | some sid =>
        refine Table.mem_delete.mpr ⟨hx', ?_⟩
        rw [hxs, decide_eq_false_iff_not]
        rintro rfl
        exact ha ⟨k, locked, remove, d, (hw.candidate hp hd).1, rfl, hty, hs⟩
    | _ => exact hx'
  | _ => exact ⟨x, hx, rfl⟩

/-- Only edits and reviews touch artifacts, among the requests. -/
theorem artifacts_of_unsubjected {r : Request} {db : Db} {files : Files} (hs : r.subject = none)
    (h : w.Effect (.request r) db files) : db.artifacts = w.db.artifacts := by
  cases h with
  | refused => rfl
  | silent hn => exact hn.elim
  | served _ h =>
    cases h with
    | register _ _ ha => exact ha
    | startProcessing => exact addPipeline_artifacts ..
    | updateArtifact => cases hs
    | approve => cases hs
    | approveAll => cases hs
    | reject => cases hs
    | _ => rfl

/-- An approval leaves something to approve, or finds the session under review. -/
theorem remaining_of_approve {user : Uuid} {ids : RetryIds} {x : Artifact} {comment : String}
    (hx : x ∈ w.db.artifacts)
    (hacc : w.Accepts (.reviewArtifact user ids (some x.id) ⟨.approve, comment⟩)) :
    (∃ b ∈ w.db.artifacts, b.sessionId = x.sessionId ∧ b.id ≠ x.id ∧ b.status ≠ .approved) ∨
      ∃ s ∈ w.db.sessions, s.id = x.sessionId ∧
        s.status ∈ [SessionStatus.needsReview, .reviewing, .approved] := by
  have h := serve_of_accepts hacc
  generalize (w.serve _).db = db at h
  generalize hid : some x.id = id at h
  cases h with
  | approve hy hb =>
    obtain rfl := Table.eq_of_key_eq hx hy (Option.some.inj hid)
    exact .inl hb
  | approveAll hy hs hi hst =>
    obtain rfl := Table.eq_of_key_eq hx hy (Option.some.inj hid)
    exact .inr ⟨_, hs, hi, hst⟩

/-- A publish job that commits publishes its artifact. -/
theorem published_of_commit {a : Action} {j : Job} {x : Artifact} {db : Db} {files : Files}
    (hc : w.Commits a j) (ht : j.jobType = .publish) (hx : x ∈ w.db.artifacts)
    (hj : j.inputPayload.artifactId = some x.id) (h : w.Effect a db files) :
    ∃ x' ∈ db.artifacts, x'.id = x.id ∧ x'.sessionId = x.sessionId ∧ x'.status = .published := by
  obtain ⟨s, -, -, hd, -⟩ := db_of_publication hc ht hx hj h
  have hm := Table.mem_update_of_mem (p := fun y => decide (y.id = x.id))
    (f := Artifact.withPublication w.now) (by intro; rfl) hx
  rw [if_pos (by simp)] at hm
  exact ⟨x.withPublication w.now, hd ▸ hm, rfl, rfl, rfl⟩

/-- A committed extraction leaves an artifact of its session. -/
theorem artifact_of_extract {a : Action} {j : Job} (hc : w.Commits a j)
    (ht : j.jobType = .extractArtifact) {db : Db} {files : Files} (h : w.Effect a db files) :
    ∃ x ∈ db.artifacts, j.sessionId = some x.sessionId ∧ x.jobId = some j.id := by
  obtain ⟨x, output, rfl, hsid, hjob, hf⟩ := db_of_extraction hc ht h
  refine ⟨x, ?_, hsid, hjob⟩
  rw [extractWrites_artifacts]
  exact (Table.mem_insert_of_not_mem hf).mpr (.inr rfl)

/-- An accepted edit or review finds its artifact. -/
theorem subject_mem {r : Request} {id : Uuid} (hr : w.Accepts r) (hs : r.subject = some id) :
    ∃ x ∈ w.db.artifacts, x.id = id := by
  have h := serve_of_accepts hr
  generalize (w.serve r).db = db at h
  cases h with
  | updateArtifact hx => exact ⟨_, hx, Option.some.inj hs⟩
  | approve hx => exact ⟨_, hx, Option.some.inj hs⟩
  | approveAll hx => exact ⟨_, hx, Option.some.inj hs⟩
  | reject hx => exact ⟨_, hx, Option.some.inj hs⟩
  | _ => cases hs

inductive DeletionStep (w : World) (a : Action) (d : DeletionJob) : DeletionJob → Prop where
  | same : DeletionStep w a d d
  | completed {k : WorkerId} {locked : List Uuid} {remove : Remove} :
      a = .processDeletion k d.id locked remove → d.status = .pending →
      DeletionStep w a d (d.withStatus .completed)
  | failed {k : WorkerId} {locked : List Uuid} {remove : Remove} {message : String} :
      a = .processDeletion k d.id locked remove → d.status = .pending →
      DeletionStep w a d (d.withFailure message)

/-- The rows that a retraction adds. -/
inductive DeletionNew (w : World) (a : Action) : DeletionJob → Prop where
  | queued {id : Uuid} {s : Session} {ty : DeletionType} {targets : CascadeTargets} :
      w.Retracts a s.id → s ∈ w.db.sessions → s.status = .published →
      (ty = .deleteLocalAudio → targets.audioKey = s.audioKey) →
      DeletionNew w a (sagaJob id w.now s.id ty targets)

theorem deletions_of_request {r : Request} {db : Db} (hr : w.Accepts r)
    (h : RequestEffect w r db) :
    Table.Evolves (w.DeletionStep (.request r)) (w.DeletionNew (.request r)) w.db.deletionJobs
      db.deletionJobs := by
  have keep : Table.Evolves (w.DeletionStep (.request r)) (w.DeletionNew (.request r))
      w.db.deletionJobs w.db.deletionJobs := .refl fun d _ => .same
  cases h with
  | register _ _ _ _ hd => exact hd ▸ keep
  | startProcessing =>
    rw [addPipeline_deletionJobs]
    exact keep
  | @retractSession user ids s hs _ hp =>
    have new {id : Uuid} {ty : DeletionType} {targets : CascadeTargets}
        (ht : ty = .deleteLocalAudio → targets.audioKey = s.audioKey) :
        w.DeletionNew (.request (.retractSession user ids (some s.id)))
          (sagaJob id w.now s.id ty targets) := .queued ⟨_, _, rfl, hr⟩ hs hp ht
    exact ((keep.insert (new (by rintro ⟨⟩))).insert (new fun _ => rfl)).insert
      (new (by rintro ⟨⟩))
  | approveAll =>
    rw [advanceSession_deletionJobs]
    exact keep
  | _ => exact keep

/-- The deletion queue over one step. -/
theorem deletions_of_effect {db : Db} {files : Files} (hw : w.Settled) (h : w.Effect a db files) :
    Table.Evolves (w.DeletionStep a) (w.DeletionNew a) w.db.deletionJobs db.deletionJobs := by
  have keep : Table.Evolves (w.DeletionStep a) (w.DeletionNew a) w.db.deletionJobs
      w.db.deletionJobs := .refl fun d _ => .same
  cases h with
  | served hr h => exact deletions_of_request hr h
  | committed _ _ _ h => cases h <;> exact keep
  | @deletion k d locked remove pending db files hp hd h =>
    have hl := hw.tail hp
    have hview : (w.session pending).view.deletionJobs = w.db.deletionJobs := hl.deletionJobs
    obtain ⟨hdm, hpend⟩ := hw.candidate hp hd
    have done {f : DeletionJob → DeletionJob} (hf : ∀ r, (f r).id = r.id)
        (hstep : w.DeletionStep (.processDeletion k d.id locked remove) d (f d))
        {db : Db} (hdb : db.deletionJobs = w.db.deletionJobs) :
        Table.Evolves (w.DeletionStep (.processDeletion k d.id locked remove))
          (w.DeletionNew (.processDeletion k d.id locked remove)) w.db.deletionJobs
          (db.setDeletionJob d.id f hf).deletionJobs := by
      simp only [Db.setDeletionJob_deletionJobs, hdb]
      refine .update hf fun r hr => ?_
      split
      next he =>
        obtain rfl := Table.eq_of_key_eq hr hdm (by simpa using he)
        exact hstep
      next => exact .same
    cases h with
    | artifactRows =>
      refine done (by intro; rfl) (.completed rfl hpend) ?_
      rw [← hview]
      cases d.sessionId <;> rfl
    | localAudio => exact done (by intro; rfl) (.completed rfl hpend) hview
    | feishuDocs => exact done (by intro; rfl) (.completed rfl hpend) hview
    | failed => exact done (by intro; rfl) (.failed rfl hpend) hview
  | _ => exact keep

/-- A status patch leaves the deletion queue alone. -/
theorem deletionJobs_of_patch {user : Uuid} {ids : PipelineIds} {session : PathId} {text : String}
    {db : Db} {files : Files}
    (h : w.Effect (.request (.updateSessionStatus user ids session text)) db files) :
    db.deletionJobs = w.db.deletionJobs := by
  cases h with
  | refused => rfl
  | silent hs => exact hs.elim
  | served _ h =>
    cases h with
    | updateStatus => rfl
    | startProcessing => exact addPipeline_deletionJobs ..

/-- The action is an accepted request that sets the consent of the session. -/
def SetsConsent (w : World) (a : Action) (sessionId : Uuid) (consent : Bool) : Prop :=
  ∃ user, a = .request (.updateConsent user (some sessionId) consent) ∧
    w.Accepts (.updateConsent user (some sessionId) consent)

/-- The rows that the action `a` adds to `audit_logs`. -/
inductive AuditNew (w : World) (a : Action) : AuditLog → Prop where
  | consent {user : Uuid} {s : Session} {consent : Bool} : s ∈ w.db.sessions →
      w.SetsConsent a s.id consent → AuditNew w a (sessionAudit w.now
        (if consent then .consentGranted else .consentRevoked) s.id user)
  | retracted {user : Uuid} {s : Session} : s ∈ w.db.sessions → w.Retracts a s.id →
      AuditNew w a (sessionAudit w.now .retractInitiated s.id user)

theorem AuditNew.session {l : AuditLog} (h : w.AuditNew a l) :
    ∃ s ∈ w.db.sessions, l.sessionId = some s.id := by
  cases h with
  | consent hs => exact ⟨_, hs, rfl⟩
  | retracted hs => exact ⟨_, hs, rfl⟩

/-- The audit rows before a step stay, in their order, in front of those that it adds. -/
theorem auditLogs_of_effect {db : Db} {files : Files} (hw : w.Settled) (h : w.Effect a db files) :
    ∃ new, db.auditLogs = w.db.auditLogs ++ new ∧ ∀ l ∈ new, w.AuditNew a l := by
  have keep {db : Db} (hd : db.auditLogs = w.db.auditLogs) :
      ∃ new, db.auditLogs = w.db.auditLogs ++ new ∧ ∀ l ∈ new, w.AuditNew a l :=
    ⟨[], by simp [hd], nofun⟩
  cases h with
  | served hr h =>
    cases h with
    | register _ _ _ ha => exact keep ha
    | startProcessing => exact keep (addPipeline_auditLogs ..)
    | @updateConsent user s consent hs =>
      refine ⟨_, rfl, fun l hl => ?_⟩
      obtain rfl := List.mem_singleton.mp hl
      exact .consent hs ⟨user, rfl, hr⟩
    | @retractSession user ids s hs =>
      refine ⟨_, rfl, fun l hl => ?_⟩
      obtain rfl := List.mem_singleton.mp hl
      exact .retracted hs ⟨user, ids, rfl, hr⟩
    | approveAll => exact keep (advanceSession_auditLogs _ _)
    | _ => exact keep rfl
  | committed _ _ _ h => cases h <;> exact keep rfl
  | @deletion k d locked remove pending db files hp hd h =>
    have hl := hw.tail hp
    refine keep ?_
    have hview : (w.session pending).view.auditLogs = w.db.auditLogs := hl.auditLogs
    rw [← hview]
    cases h with
    | artifactRows => cases d.sessionId <;> rfl
    | _ => rfl
  | _ => exact keep rfl

/-- An accepted consent request writes the flag and one audit row. -/
theorem effect_of_setsConsent {sid : Uuid} {consent : Bool} {db : Db} {files : Files}
    (hc : w.SetsConsent a sid consent) (h : w.Effect a db files) :
    ∃ user, ∃ s ∈ w.db.sessions, s.id = sid ∧
      db = (w.db.setSession s.id (Session.withConsent consent)).addAudit (sessionAudit w.now
        (if consent then .consentGranted else .consentRevoked) s.id user) := by
  obtain ⟨user, rfl, hacc⟩ := hc
  generalize hid : some sid = id at h
  cases h with
  | refused hn => exact absurd (hid ▸ hacc) hn
  | silent hn => exact hn.elim
  | served _ h =>
    cases h with
    | updateConsent hs => exact ⟨user, _, hs, (Option.some.inj hid).symm, rfl⟩

end World

end AiBadge
