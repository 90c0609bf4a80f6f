import AiBadge.System.Leftover

/-! # One job row over one step

Every way a step can change a row of `jobs`, and every way it can add one.
-/

namespace AiBadge

open Lib Prog

namespace World

/-- The change of one row by the action `a`. -/
inductive JobStep (w : World) (a : Action) (j : Job) : Job → Prop where
  | same : (∀ k locked, a ≠ .claim k j.id locked) → JobStep w a j j
  | started {k : WorkerId} {locked : List Uuid} : a = .claim k j.id locked →
      (w.workers k).phase = .polling →
      claimable w.now (if timedOut w.now j then j.withRelease else j) = true →
      JobStep w a j (j.withStart w.now)
  | released {t : Timestamp} : (∀ k locked, a ≠ .claim k j.id locked) → t ≤ w.now →
      timedOut t j = true → JobStep w a j j.withRelease
  | output {payload : Json} : w.Commits a j → JobStep w a j (j.withOutput payload)
  | failed {k : WorkerId} {e : Exn} {pending : List (Db → Db)} : a = .markFailed k →
      (w.workers k).phase = .failed j.id e pending → JobStep w a j (recordFailure w.now e j)
  | unknown {k : WorkerId} {providers : Providers} {aid : Uuid} : a = .runHandler k providers aid →
      (w.workers k).phase = .handling j.id → jobHandler j.jobType = none →
      JobStep w a j (j.withUnknownType w.now)
  | heartbeat {k : WorkerId} : a = .heartbeat k → (w.workers k).beat.isSome →
      (w.workers k).phase.job? = some j.id → j.status = .running →
      JobStep w a j (j.withHeartbeat w.now)

/-- The rows that the action `a` adds. -/
inductive JobNew (w : World) (a : Action) : Job → Prop where
  | stage {user id : Uuid} {ids : PipelineIds} {s : Session} {text : String} {ty : JobType} :
      a = .request (.updateSessionStatus user ids (some s.id) text) → s ∈ w.db.sessions →
      s.audioKey.isSome → id ∈ a.draws → ty.isPipeline = true →
      JobNew w a (stageJob id w.now s.id ty)
  | retry {user : Uuid} {ids : RetryIds} {x : Artifact} {comment : String} :
      a = .request (.reviewArtifact user ids (some x.id) ⟨.reject, comment⟩) →
      x ∈ w.db.artifacts → JobNew w a (retryJob ids w.now x comment)
  | publish {user uuid4 : Uuid} {x : Artifact} :
      a = .request (.publishArtifact user uuid4 (some x.id)) →
      x ∈ w.db.artifacts → x.status = .approved → JobNew w a (publishJob uuid4 w.now x)

variable {w w' : World} {a : Action}

theorem jobs_of_request {r : Request} {db : Db} (h : RequestEffect w r db) :
    Table.Evolves (w.JobStep (.request r)) (w.JobNew (.request r)) w.db.jobs db.jobs := by
  have keep : Table.Evolves (w.JobStep (.request r)) (w.JobNew (.request r)) w.db.jobs w.db.jobs :=
    .refl fun j _ => .same (by rintro _ _ ⟨⟩)
  cases h with
  | register _ hj => exact hj ▸ keep
  | createSession => exact keep
  | updateConsent => exact keep
  | updateStatus => exact keep
  | @startProcessing user ids s text hs _ _ _ ha =>
    have stage {id : Uuid} {ty : JobType} (hid : id ∈ [ids.transcribe, ids.summarize,
        ids.extractArtifact]) (ht : ty.isPipeline = true) :
        w.JobNew (.request (.updateSessionStatus user ids (some s.id) text))
          (stageJob id w.now s.id ty) := .stage rfl hs ha hid ht
    exact ((keep.insert (stage (by simp) rfl)).insert (stage (by simp) rfl)).insert
      (stage (by simp) rfl)
  | uploadAudio => exact keep
  | cancelSession => exact keep
  | retractSession => exact keep
  | updateArtifact => exact keep
  | approve => exact keep
  | approveAll =>
    rw [advanceSession_jobs]
    exact keep
  | reject ha => exact keep.insert (.retry rfl ha)
  | publishArtifact ha hp => exact keep.insert (.publish rfl ha hp)

theorem jobs_of_setJob {id : Uuid} {f : Job → Job} {hf : ∀ j, (f j).id = j.id}
    (ha : ∀ k job locked, a ≠ .claim k job locked)
    (h : ∀ j ∈ w.db.jobs, j.id = id → w.JobStep a j (f j)) :
    Table.Evolves (w.JobStep a) (w.JobNew a) w.db.jobs (w.db.setJob id f hf).jobs := by
  refine .update hf fun j hj => ?_
  by_cases hi : j.id = id
  · simpa [hi] using h j hj hi
  · simpa [hi] using JobStep.same fun k locked => ha k j.id locked

theorem jobs_of_commit {input : HandlerInput} {i : Job} {db : Db}
    (hi : i ∈ w.db.jobs) (hc : w.Commits a i) (ha : ∀ k job locked, a ≠ .claim k job locked)
    (h : HandlerCommit w.db input i db) :
    Table.Evolves (w.JobStep a) (w.JobNew a) w.db.jobs db.jobs := by
  have out {payload : Json} : Table.Evolves (w.JobStep a) (w.JobNew a) w.db.jobs
      (w.db.setJob i.id (Job.withOutput payload)).jobs := by
    refine jobs_of_setJob ha fun j hj he => ?_
    rw [Table.eq_of_key_eq hj hi he]
    exact .output hc
  cases h <;> exact out

/-- The jobs table over one step. -/
theorem jobs_of_effect {db : Db} {files : Files} (hw : w.Settled) (h : w.Effect a db files) :
    Table.Evolves (w.JobStep a) (w.JobNew a) w.db.jobs db.jobs := by
  cases h with
  | refused => exact .refl fun j _ => .same (by rintro _ _ ⟨⟩)
  | served _ h => exact jobs_of_request h
  | silent hs =>
    refine .refl fun j _ => .same ?_
    rintro k locked rfl
    exact hs
  | @claimed k i locked hp hi =>
    obtain ⟨hi, -⟩ := List.mem_filter.mp hi
    obtain ⟨hi, hq⟩ := Table.mem_select.mp hi
    have hcl : claimable w.now i = true := (Bool.and_eq_true_iff.mp hq).1
    refine .update₂ (by intro; rfl) (by intro; rfl) fun j hj j₁ hj₁ => ?_
    have hid : j₁.id = j.id := by
      rw [hj₁]
      split <;> rfl
    by_cases he : j₁.id = i.id
    · have hm : j₁ ∈ (releaseTimedOutJobs w.now w.db).jobs := by
        rw [hj₁]
        exact Table.mem_update_of_mem (by intro; rfl) hj
      obtain rfl : j₁ = i := Table.eq_of_key_eq hm hi he
      have hs : j₁.withStart w.now = j.withStart w.now := by
        rw [hj₁]
        split <;> rfl
      rw [if_pos (by simp), hs]
      exact .started (by rw [hid]) hp (hj₁ ▸ hcl)
    · have hne : ∀ k' locked', Action.claim k i.id locked ≠ .claim k' j.id locked' := by
        intro k' locked' h
        obtain ⟨-, h, -⟩ := Action.claim.inj h
        exact he (hid.trans h.symm)
      rw [if_neg (by simpa using he), hj₁]
      split
      next ht => exact .released hne (Int.le_refl _) ht
      next => exact .same hne
  | @committed k providers aid i _ hp hi hc h => exact jobs_of_commit hi hc (by rintro _ _ _ ⟨⟩) h
  | raised => exact .refl fun j _ => .same (by rintro _ _ ⟨⟩)
  | @unknown k providers aid i hp hi hu =>
    refine jobs_of_setJob (by rintro _ _ _ ⟨⟩) fun j hj he => ?_
    rw [Table.eq_of_key_eq hj hi he]
    exact .unknown rfl hp hu
  | @failed k i e pending hp =>
    refine jobs_of_setJob (by rintro _ _ _ ⟨⟩) fun j hj he => ?_
    exact .failed rfl (he ▸ hp)
  | @heartbeat k i hb hp =>
    refine .update (by intro; rfl) fun j hj => ?_
    split
    next he =>
      obtain ⟨he, hr⟩ : j.id = i ∧ j.status = .running := by simpa using he
      exact .heartbeat rfl hb (he ▸ hp) hr
    next => exact .same (by rintro _ _ ⟨⟩)
  | @deletion k d locked remove pending db files hp hd h =>
    have hv : db.jobs = (w.session pending).view.jobs := by
      cases h with
      | artifactRows => cases d.sessionId <;> rfl
      | localAudio => rfl
      | feishuDocs => rfl
      | failed => rfl
    have hne : ∀ k' job locked', Action.processDeletion k d.id locked remove ≠
        .claim k' job locked' := by rintro _ _ _ ⟨⟩
    have hl := hw.tail hp
    rw [hv]
    cases hl with
    | nothing => exact .refl fun j _ => .same fun k' locked' => hne k' j.id locked'
    | marked => exact .refl fun j _ => .same fun k' locked' => hne k' j.id locked'
    | @released t ht =>
      refine .update (by intro; rfl) fun j hj => ?_
      split
      next hto => exact .released (fun k' locked' => hne k' j.id locked') ht hto
      next => exact .same fun k' locked' => hne k' j.id locked'
  | crashedDeletion => exact .refl fun j _ => .same (by rintro _ _ ⟨⟩)

/-- A status patch adds no job, or the transcription job among the stages. -/
theorem jobs_of_patch {user : Uuid} {ids : PipelineIds} {session : PathId} {text : String} {db : Db}
    {files : Files} (h : w.Effect (.request (.updateSessionStatus user ids session text)) db files) :
    db.jobs = w.db.jobs ∨
      ∃ sid, session = some sid ∧ stageJob ids.transcribe w.now sid .transcribe ∈ db.jobs := by
  cases h with
  | refused => exact .inl rfl
  | silent hs => exact hs.elim
  | served _ h =>
    cases h with
    | updateStatus => exact .inl rfl
    | @startProcessing _ _ s _ _ _ _ _ _ hf =>
      refine .inr ⟨s.id, rfl, Table.mem_insert_of_mem (Table.mem_insert_of_mem ?_)⟩
      exact (Table.mem_insert_of_not_mem fun r hr => (hf.transcribe r hr).1).mpr (.inr rfl)

/-- A candidate of a poll cycle is a claimable row of the table after the releases. -/
theorem claimable_of_candidate {i : Job} {locked : List Uuid}
    (h : i ∈ claimCandidates locked w.now (releaseTimedOutJobs w.now w.db)) :
    ∃ j ∈ w.db.jobs, i.id = j.id ∧ i = (if timedOut w.now j then j.withRelease else j) ∧
      claimable w.now i = true := by
  obtain ⟨hi, -⟩ := List.mem_filter.mp h
  obtain ⟨hi, hq⟩ := Table.mem_select.mp hi
  have hm : i ∈ w.db.jobs.update (timedOut w.now) Job.withRelease (by intro; rfl) := hi
  obtain ⟨j, hj, he⟩ := Table.mem_update.mp hm
  refine ⟨j, hj, ?_, he, (Bool.and_eq_true_iff.mp hq).1⟩
  rw [he]
  split <;> rfl

/-- A claim finds its job claimable in the table, after the release of the job if it timed out. -/
theorem claimable_of_claim {k : WorkerId} {job : Uuid} {locked : List Uuid} {db : Db}
    {files : Files} (h : w.Effect (.claim k job locked) db files) :
    ∃ j ∈ w.db.jobs, j.id = job ∧
      claimable w.now (if timedOut w.now j then j.withRelease else j) = true := by
  cases h with
  | silent hs => exact hs.elim
  | claimed _ hi =>
    obtain ⟨j, hj, hid, rfl, hcl⟩ := claimable_of_candidate hi
    exact ⟨j, hj, hid.symm, hcl⟩

theorem mem_of_claim {k : WorkerId} {job : Uuid} {locked : List Uuid} {db : Db} {files : Files}
    (h : w.Effect (.claim k job locked) db files) : ∃ j ∈ w.db.jobs, j.id = job := by
  obtain ⟨j, hj, hid, -⟩ := claimable_of_claim h
  exact ⟨j, hj, hid⟩

/-- The patch to `processing` adds the three stages, whose ids and keys are free, and no artifact. -/
theorem pipeline_of_patch {user : Uuid} {ids : PipelineIds} {sid : Uuid} {text : String} {db : Db}
    {files : Files} (hacc : w.Accepts (.updateSessionStatus user ids (some sid) text))
    (ht : SessionStatus.parse? text = some .processing)
    (h : w.Effect (.request (.updateSessionStatus user ids (some sid) text)) db files) :
    w.db.PipelineFree ids w.now sid ∧ db.artifacts = w.db.artifacts ∧ ∀ j, j ∈ db.jobs ↔
      j ∈ w.db.jobs ∨ j = stageJob ids.transcribe w.now sid .transcribe ∨
        j = stageJob ids.summarize w.now sid .summarize ∨
        j = stageJob ids.extractArtifact w.now sid .extractArtifact := by
  cases h with
  | refused hn => exact absurd hacc hn
  | silent hs => exact hs.elim
  | served _ h =>
    cases h with
    | updateStatus _ _ hp _ hne => exact absurd (Option.some.inj (hp.symm.trans ht)) hne
    | @startProcessing _ _ s _ _ _ _ _ _ hf =>
      have hf' : (w.db.setSession s.id (Session.withStatus .processing)).PipelineFree ids w.now s.id :=
        ⟨hf.transcribe, hf.summarize, hf.extractArtifact, hf.ne₁, hf.ne₂, hf.ne₃⟩
      exact ⟨hf, rfl, fun j => hf'.mem_addPipeline⟩

/-- The patch to `processing` adds the transcription job. -/
theorem stage_of_patch {user : Uuid} {ids : PipelineIds} {sid : Uuid} {text : String} {db : Db}
    {files : Files} (hacc : w.Accepts (.updateSessionStatus user ids (some sid) text))
    (ht : SessionStatus.parse? text = some .processing)
    (h : w.Effect (.request (.updateSessionStatus user ids (some sid) text)) db files) :
    stageJob ids.transcribe w.now sid .transcribe ∈ db.jobs :=
  ((pipeline_of_patch hacc ht h).2.2 _).mpr (.inr (.inl rfl))

/-- An accepted publication request adds its job. -/
theorem job_of_publish {user uuid4 : Uuid} {x : Artifact} {db : Db} {files : Files}
    (hx : x ∈ w.db.artifacts) (hacc : w.Accepts (.publishArtifact user uuid4 (some x.id)))
    (h : w.Effect (.request (.publishArtifact user uuid4 (some x.id))) db files) :
    publishJob uuid4 w.now x ∈ db.jobs := by
  generalize hid : some x.id = id at h
  cases h with
  | refused hn => exact absurd (hid ▸ hacc) hn
  | silent hs => exact hs.elim
  | served _ h =>
    cases h with
    | publishArtifact hy _ _ _ _ hf =>
      obtain rfl := Table.eq_of_key_eq hx hy (Option.some.inj hid)
      exact (Table.mem_insert_of_not_mem fun r hr => (hf r hr).1).mpr (.inr rfl)

/-- The step completes the job, or marks it failed while it is running. -/
def Closes (w : World) (a : Action) (j : Job) : Prop :=
  w.Commits a j ∨ j.status = .running ∧
    ∃ k e pending, a = .markFailed k ∧ (w.workers k).phase = .failed j.id e pending

theorem Closes.unique {i j : Job} (hi : i ∈ w.db.jobs) (hj : j ∈ w.db.jobs) (hci : w.Closes a i)
    (hcj : w.Closes a j) : i = j := by
  rcases hci with hci | ⟨-, k, e, pending, rfl, hp⟩
  · rcases hcj with hcj | ⟨-, _, _, _, rfl, -⟩
    · exact hci.unique hcj
    · obtain ⟨_, _, _, _, ⟨⟩, -⟩ := hci
  · rcases hcj with hcj | ⟨-, _, _, _, ⟨⟩, hq⟩
    · obtain ⟨_, _, _, _, ⟨⟩, -⟩ := hcj
    · rw [hp] at hq
      injection hq with hid
      exact Table.eq_of_key_eq hi hj hid

theorem Closes.not_request {j : Job} (h : w.Closes a j) (r : Request) : a ≠ .request r := by
  rcases h with h | ⟨-, _, _, _, rfl, -⟩
  · exact h.not_request r
  · rintro ⟨⟩

theorem recordFailure_status (now : Timestamp) (e : Exn) (j : Job) :
    (recordFailure now e j).status = if j.status = .running then .failed else j.status := by
  unfold recordFailure
  split
  · split <;> rfl
  · rfl

/-- A job whose handler exists stays open until a step closes it. -/
theorem JobStep.isOpen {j j' : Job} (h : w.JobStep a j j') (hh : jobHandler j.jobType ≠ none)
    (hc : ¬ w.Closes a j) (ho : j.status.isOpen = true) : j'.status.isOpen = true := by
  cases h with
  | same => exact ho
  | started => rfl
  | released => rfl
  | output hj => exact absurd (.inl hj) hc
  | failed ha hp =>
    have hr : j.status ≠ .running := fun hr => hc (.inr ⟨hr, _, _, _, ha, hp⟩)
    rw [recordFailure_status, if_neg hr]
    exact ho
  | unknown _ _ hn => exact absurd hn hh
  | heartbeat => exact ho

theorem status_of_timedOut {now : Timestamp} {j : Job} (h : timedOut now j = true) :
    j.status = .running := by
  simp only [timedOut, Bool.and_eq_true, decide_eq_true_eq] at h
  exact h.1

theorem status_of_claimable {now : Timestamp} {j : Job} (h : claimable now j = true) :
    j.status = .pending := by
  simp only [claimable, Bool.and_eq_true, decide_eq_true_eq] at h
  exact h.1

/-- What is claimed was pending, or running for too long. -/
theorem isOpen_of_claimable {now : Timestamp} {j : Job}
    (h : claimable now (if timedOut now j then j.withRelease else j) = true) :
    j.status.isOpen = true := by
  split at h
  next ht =>
    rw [status_of_timedOut ht]
    rfl
  next =>
    rw [status_of_claimable h]
    rfl

/-- No step opens a closed job again. -/
theorem JobStep.isOpen_of_isOpen {j j' : Job} (h : w.JobStep a j j')
    (ho : j'.status.isOpen = true) : j.status.isOpen = true := by
  cases h with
  | same => exact ho
  | started _ _ hcl => exact isOpen_of_claimable hcl
  | released _ _ ht =>
    rw [status_of_timedOut ht]
    rfl
  | output => cases ho
  | failed =>
    rw [recordFailure_status] at ho
    split at ho
    · cases ho
    · exact ho
  | unknown => cases ho
  | heartbeat => exact ho

/-- The job whose handler call commits is completed. -/
theorem completed_of_commits {j j' : Job} {db : Db} {files : Files} (hj : j ∈ w.db.jobs)
    (hc : w.Commits a j) (h : w.Effect a db files) (hj' : j' ∈ db.jobs) (hi : j'.id = j.id) :
    j'.status = .completed := by
  obtain ⟨k, providers, aid, rfl, hcom⟩ := handlerCommit_of_effect hc h
  have out {payload : Json} (hm : j' ∈ w.db.jobs.update (fun i => i.id = j.id)
      (Job.withOutput payload) (by intro; rfl)) : j'.status = .completed := by
    rw [Table.eq_of_mem_update hj hm hi]
    rfl
  cases hcom <;> exact out hj'

/-- A row is completed after a step when it was before, and the same, or when the step commits. -/
theorem JobStep.eq_or_commits {j j' : Job} (h : w.JobStep a j j') (hc : j'.status = .completed) :
    j' = j ∨ w.Commits a j := by
  cases h with
  | same => exact .inl rfl
  | started => cases hc
  | released => cases hc
  | output hcom => exact .inr hcom
  | failed =>
    rw [recordFailure_status] at hc
    split at hc
    next => cases hc
    next hr => exact .inl (if_neg hr)
  | unknown => cases hc
  | heartbeat _ _ _ hr => cases hr.symm.trans hc

/-- A step completes no other job than the one it commits. -/
theorem JobStep.commits {j j' : Job} (h : w.JobStep a j j') (hc : j'.status = .completed) :
    j.status = .completed ∨ w.Commits a j := by
  rcases h.eq_or_commits hc with rfl | hcom
  · exact .inl hc
  · exact .inr hcom

/-- The job that a step closes is closed after it. -/
theorem not_isOpen_of_closes {j j' : Job} {db : Db} {files : Files} (hj : j ∈ w.db.jobs)
    (hc : w.Closes a j) (h : w.Effect a db files) (hj' : j' ∈ db.jobs) (hi : j'.id = j.id) :
    j'.status.isOpen = false := by
  rcases hc with hc | ⟨hr, k, e, pending, rfl, hp⟩
  · rw [completed_of_commits hj hc h hj' hi]
    rfl
  · cases h with
    | silent hs => exact hs.elim
    | failed hq =>
      rw [hp] at hq
      injection hq with hid
      subst hid
      have hm : j' ∈ w.db.jobs.update (fun i => i.id = j.id) (recordFailure w.now _)
        (recordFailure_id _ _) := hj'
      rw [Table.eq_of_mem_update hj hm hi, recordFailure_status, if_pos hr]
      rfl

end World

end AiBadge
