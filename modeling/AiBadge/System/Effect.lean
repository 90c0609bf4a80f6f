import AiBadge.System.WorkerEffect

/-! # What a step commits

The database and the files after a step of the system, by cases on the action.
-/

namespace AiBadge

open Lib Prog

/-- The actions that write neither to the database nor to the audio directory. -/
def Action.Silent : Action → Prop
  | .tick _ | .beginCycle _ | .claimNone .. | .signal _ | .endCycle _ | .crash _ => True
  | _ => False

namespace World

/-- Worker `k` calls the handler of its job `j` and the call reaches its commit. -/
def Commits (w : World) (a : Action) (j : Job) : Prop :=
  ∃ k providers artifactId handler, a = .runHandler k providers artifactId ∧
    (w.workers k).phase = .handling j.id ∧ j ∈ w.db.jobs ∧ jobHandler j.jobType = some handler ∧
    (handler ⟨providers, w.now, artifactId⟩ j (Tx.start w.db w.files)).2.commits ≠ 0

/-- The job of a committing call is the one its worker handles. -/
theorem Commits.unique {w : World} {a : Action} {i j : Job} (hi : w.Commits a i)
    (hj : w.Commits a j) : i = j := by
  obtain ⟨k, providers, aid, _, rfl, hp, him, -⟩ := hi
  obtain ⟨_, _, _, _, ⟨⟩, hq, hjm, -⟩ := hj
  exact Table.eq_of_key_eq him hjm (Phase.handling.inj (hp.symm.trans hq))

theorem Commits.not_request {w : World} {a : Action} {j : Job} (h : w.Commits a j) (r : Request) :
    a ≠ .request r := by
  obtain ⟨_, _, _, _, rfl, -⟩ := h
  rintro ⟨⟩

/-- The action is an accepted retraction of the session. -/
def Retracts (w : World) (a : Action) (sessionId : Uuid) : Prop :=
  ∃ user ids, a = .request (.retractSession user ids (some sessionId)) ∧
    w.Accepts (.retractSession user ids (some sessionId))

inductive Effect (w : World) : Action → Db → Files → Prop where
  | refused {r : Request} : ¬ w.Accepts r → Effect w (.request r) w.db (w.serve r).files
  | served {r : Request} {db : Db} : w.Accepts r → RequestEffect w r db →
      Effect w (.request r) db (w.serve r).files
  | silent {a : Action} : a.Silent → Effect w a w.db w.files
  | claimed {k : WorkerId} {j : Job} {locked : List Uuid} : (w.workers k).phase = .polling →
      j ∈ claimCandidates locked w.now (releaseTimedOutJobs w.now w.db) →
      Effect w (.claim k j.id locked)
        (markRunning w.now j.id (releaseTimedOutJobs w.now w.db)) w.files
  | committed {k : WorkerId} {providers : Providers} {aid : Uuid} {j : Job} {db : Db} :
      (w.workers k).phase = .handling j.id → j ∈ w.db.jobs →
      w.Commits (.runHandler k providers aid) j →
      HandlerCommit w.db ⟨providers, w.now, aid⟩ j db →
      Effect w (.runHandler k providers aid) db w.files
  | raised {k : WorkerId} {providers : Providers} {aid : Uuid} {j : Job} :
      (w.workers k).phase = .handling j.id → j ∈ w.db.jobs → (jobHandler j.jobType).isSome →
      ¬ w.Commits (.runHandler k providers aid) j →
      Effect w (.runHandler k providers aid) w.db w.files
  | unknown {k : WorkerId} {providers : Providers} {aid : Uuid} {j : Job} :
      (w.workers k).phase = .handling j.id → j ∈ w.db.jobs → jobHandler j.jobType = none →
      Effect w (.runHandler k providers aid) (AiBadge.markUnknown w.now j.id w.db) w.files
  | failed {k : WorkerId} {job : Uuid} {e : Exn} {pending : List (Db → Db)} :
      (w.workers k).phase = .failed job e pending →
      Effect w (.markFailed k) (AiBadge.markFailed w.now e job w.db) w.files
  | heartbeat {k : WorkerId} {job : Uuid} :
      (w.workers k).beat.isSome → (w.workers k).phase.job? = some job →
      Effect w (.heartbeat k) (sendHeartbeat w.now job w.db) w.files
  | deletion {k : WorkerId} {d : DeletionJob} {locked : List Uuid} {remove : Remove}
      {pending : List (Db → Db)} {db : Db} {files : Files} :
      (w.workers k).phase = .tail pending →
      d ∈ deletionCandidates locked w.now (w.session pending).view →
      DeletionEffect d (w.session pending).view w.files db files →
      Effect w (.processDeletion k d.id locked remove) db files
  | crashedDeletion {k : WorkerId} {d : DeletionJob} {locked : List Uuid} {remove : Remove}
      {pending : List (Db → Db)} {db : Db} {files : Files} :
      (w.workers k).phase = .tail pending →
      d ∈ deletionCandidates locked w.now (w.session pending).view →
      DeletionEffect d (w.session pending).view w.files db files →
      Effect w (.crashDeleting k d.id locked remove) w.db files

section Inversion

variable {w w' : World} {k : WorkerId} {job : Uuid} {locked : List Uuid}

theorem act_beginCycle (h : w.act (.beginCycle k) = some w') :
    ((w.workers k).phase = .idle ∧ (w.workers k).shutdown = false) ∧
      w' = w.setWorker k { w.workers k with phase := .polling } := by
  simp only [act] at h
  split at h
  next hp hs => exact ⟨⟨hp, hs⟩, (Option.some.inj h).symm⟩
  next => cases h

theorem act_claim (h : w.act (.claim k job locked) = some w') :
    (w.workers k).phase = .polling ∧
      (∃ j ∈ claimCandidates locked w.now (releaseTimedOutJobs w.now w.db), j.id = job) ∧
      w' = w.claim k job := by
  simp only [act] at h
  split at h
  next hp =>
    split at h
    next hc => exact ⟨hp, by simpa using hc, (Option.some.inj h).symm⟩
    next => cases h
  next => cases h

theorem act_claimNone (h : w.act (.claimNone k locked) = some w') :
    (w.workers k).phase = .polling ∧
      w' = w.setWorker k { w.workers k with phase := .tail [releaseTimedOutJobs w.now] } := by
  simp only [act] at h
  split at h
  next hp =>
    split at h
    next => exact ⟨hp, (Option.some.inj h).symm⟩
    next => cases h
  next => cases h

theorem act_runHandler {providers : Providers} {aid : Uuid}
    (h : w.act (.runHandler k providers aid) = some w') :
    ∃ j ∈ w.db.jobs, (w.workers k).phase = .handling j.id ∧
      w' = w.runHandler k providers aid j := by
  simp only [act] at h
  split at h
  next job hp =>
    obtain ⟨j, hf, rfl⟩ := Option.map_eq_some_iff.mp h
    obtain ⟨hj, rfl⟩ := Db.job?_eq_some.mp hf
    exact ⟨j, hj, hp, rfl⟩
  next => cases h

theorem act_markFailed (h : w.act (.markFailed k) = some w') :
    ∃ job e pending, (w.workers k).phase = .failed job e pending ∧
      w' = { w.setWorker k { w.workers k with phase := .tail pending, beat := none } with
        db := AiBadge.markFailed w.now e job w.db } := by
  simp only [act] at h
  split at h
  next job e pending hp => exact ⟨job, e, pending, hp, (Option.some.inj h).symm⟩
  next => cases h

theorem act_heartbeat (h : w.act (.heartbeat k) = some w') :
    ∃ job, (w.workers k).beat.isSome ∧ (w.workers k).phase.job? = some job ∧
      w' = { w.setWorker k { w.workers k with
          beat := if (w.workers k).shutdown then none else some w.now } with
        db := sendHeartbeat w.now job w.db } := by
  simp only [act] at h
  split at h
  next job hb hp => exact ⟨job, by rw [hb]; rfl, hp, (Option.some.inj h).symm⟩
  next => cases h

theorem deletionCandidate_eq_some {pending : List (Db → Db)} {d : DeletionJob}
    (h : w.deletionCandidate pending job locked = some d) :
    d ∈ deletionCandidates locked w.now (w.session pending).view ∧ d.id = job := by
  exact ⟨List.mem_of_find?_eq_some h, by simpa using List.find?_some h⟩

theorem act_processDeletion {remove : Remove}
    (h : w.act (.processDeletion k job locked remove) = some w') :
    ∃ pending d, (w.workers k).phase = .tail pending ∧
      (d ∈ deletionCandidates locked w.now (w.session pending).view ∧ d.id = job) ∧
      w' = { w.setWorker k { w.workers k with phase := .idle } with
        db := (w.deletionTx pending d remove).committed
        files := (w.deletionTx pending d remove).outside } := by
  simp only [act] at h
  split at h
  next pending hp =>
    obtain ⟨d, hd, rfl⟩ := Option.map_eq_some_iff.mp h
    exact ⟨pending, d, hp, deletionCandidate_eq_some hd, rfl⟩
  next => cases h

theorem act_endCycle (h : w.act (.endCycle k) = some w') :
    (∃ pending, (w.workers k).phase = .tail pending) ∧
      w' = w.setWorker k { w.workers k with phase := .idle } := by
  simp only [act] at h
  split at h
  next pending hp => exact ⟨⟨pending, hp⟩, (Option.some.inj h).symm⟩
  next => cases h

theorem act_crashDeleting {remove : Remove}
    (h : w.act (.crashDeleting k job locked remove) = some w') :
    ∃ pending d, (w.workers k).phase = .tail pending ∧
      (d ∈ deletionCandidates locked w.now (w.session pending).view ∧ d.id = job) ∧
      w' = { w.setWorker k { w.workers k with phase := .crashed, beat := none } with
        files := (w.deletionTx pending d remove).outside } := by
  simp only [act] at h
  split at h
  next pending hp =>
    obtain ⟨d, hd, rfl⟩ := Option.map_eq_some_iff.mp h
    exact ⟨pending, d, hp, deletionCandidate_eq_some hd, rfl⟩
  next => cases h

/-- The worker after a handler call that left `pending` flushed: the call returned, or it raised,
or the exception escaped from the poll cycle. -/
inductive CallOutcome (worker : Worker) (job : Uuid) (pending : List (Db → Db)) : Worker → Prop where
  | returned : CallOutcome worker job pending { worker with phase := .tail pending, beat := none }
  | raised {e : Exn} :
      CallOutcome worker job pending { worker with phase := .failed job e pending }
  | escaped : CallOutcome worker job pending { worker with phase := .idle, beat := none }

/-- What a handler call of `_execute_job` commits, and what it leaves flushed. -/
inductive CallEffect (w : World) (k : WorkerId) (providers : Providers) (aid : Uuid) (j : Job) :
    Db → List (Db → Db) → Prop where
  | committed {db : Db} : w.Commits (.runHandler k providers aid) j →
      HandlerCommit w.db ⟨providers, w.now, aid⟩ j db → CallEffect w k providers aid j db []
  | raised {pending : List (Db → Db)} : (jobHandler j.jobType).isSome →
      ¬ w.Commits (.runHandler k providers aid) j →
      HandlerResidue w.db ⟨providers, w.now, aid⟩ j pending →
      CallEffect w k providers aid j w.db pending
  | unknown : jobHandler j.jobType = none →
      CallEffect w k providers aid j (AiBadge.markUnknown w.now j.id w.db) []

theorem runHandler_cases {providers : Providers} {aid : Uuid} {j : Job} (hj : j ∈ w.db.jobs)
    (hp : (w.workers k).phase = .handling j.id) :
    ∃ worker db pending, CallOutcome (w.workers k) j.id pending worker ∧
      CallEffect w k providers aid j db pending ∧
      w.runHandler k providers aid j = { w.setWorker k worker with db } := by
  unfold runHandler
  cases hh : jobHandler j.jobType with
  | none => exact ⟨_, _, _, .returned, .unknown hh, rfl⟩
  | some handler =>
    have he : HandlerEffect 0 w.db w.files ⟨providers, w.now, aid⟩ j
        (handler ⟨providers, w.now, aid⟩ j (Tx.start w.db w.files)).1
        (handler ⟨providers, w.now, aid⟩ j (Tx.start w.db w.files)).2 := handlerEffect hh
    have hc {r : Except Exn Unit} {t : Tx Db Files}
        (hr : handler ⟨providers, w.now, aid⟩ j (Tx.start w.db w.files) = (r, t)) :
        w.Commits (.runHandler k providers aid) j ↔ t.commits ≠ 0 := by
      constructor
      · rintro ⟨_, _, _, handler', ⟨⟩, -, -, hh', hn⟩
        obtain rfl := Option.some.inj (hh.symm.trans hh')
        rwa [hr] at hn
      · intro hn
        exact ⟨k, providers, aid, handler, rfl, hp, hj, hh, by rwa [hr]⟩
    generalize hr : handler ⟨providers, w.now, aid⟩ j (Tx.start w.db w.files) = rt at he hc
    obtain ⟨r, t⟩ := rt
    replace hc := hc rfl
    have hcall : CallEffect w k providers aid j t.committed t.pending := by
      cases he with
      | committed he => exact .committed (hc.mpr (Nat.succ_ne_zero 0)) he
      | raised he => exact .raised (by simp [hh]) (fun h => hc.mp h rfl) he
    cases r with
    | ok => exact ⟨_, _, _, .returned, hcall, by simp only [hr]⟩
    | error e =>
      cases hb : e.abortsSession with
      | true => exact ⟨_, _, _, .escaped, hcall, by simp [hr, hb]⟩
      | false => exact ⟨_, _, _, .raised, hcall, by simp only [hr, hb]; rfl⟩

theorem effect_of_act {a : Action} (h : w.act a = some w') : w.Effect a w'.db w'.files := by
  cases a with
  | request r =>
    obtain rfl : w.serve r = w' := Option.some.inj h
    by_cases ha : w.Accepts r
    · exact .served ha (serve_of_accepts ha)
    · rw [serve_of_not_accepts ha]
      exact .refused ha
  | tick d =>
    obtain rfl := Option.some.inj h
    exact .silent trivial
  | beginCycle k =>
    obtain ⟨-, rfl⟩ := act_beginCycle h
    exact .silent trivial
  | claim k job locked =>
    obtain ⟨hp, ⟨j, hj, rfl⟩, rfl⟩ := act_claim h
    exact .claimed hp hj
  | claimNone k locked =>
    obtain ⟨-, rfl⟩ := act_claimNone h
    exact .silent trivial
  | runHandler k providers aid =>
    obtain ⟨j, hj, hp, rfl⟩ := act_runHandler h
    obtain ⟨worker, db, pending, -, hc, he⟩ := runHandler_cases hj hp
    rw [he]
    cases hc with
    | committed hc he => exact .committed hp hj hc he
    | raised hh hc => exact .raised hp hj hh hc
    | unknown hu => exact .unknown hp hj hu
  | markFailed k =>
    obtain ⟨job, e, pending, hp, rfl⟩ := act_markFailed h
    exact .failed hp
  | heartbeat k =>
    obtain ⟨job, hb, hp, rfl⟩ := act_heartbeat h
    exact .heartbeat hb hp
  | signal k =>
    obtain rfl := Option.some.inj h
    exact .silent trivial
  | processDeletion k job locked remove =>
    obtain ⟨pending, d, hp, ⟨hd, rfl⟩, rfl⟩ := act_processDeletion h
    exact .deletion hp hd deletionEffect
  | endCycle k =>
    obtain ⟨-, rfl⟩ := act_endCycle h
    exact .silent trivial
  | crash k =>
    obtain rfl := Option.some.inj h
    exact .silent trivial
  | crashDeleting k job locked remove =>
    obtain ⟨pending, d, hp, ⟨hd, rfl⟩, rfl⟩ := act_crashDeleting h
    exact .crashedDeletion hp hd deletionEffect

theorem effect_of_step {a : Action} (h : w.step a = some w') : w.Effect a w'.db w'.files := by
  obtain ⟨-, w₁, hw, rfl⟩ := step_eq_some.mp h
  have he : w.Effect a w₁.db w₁.files := effect_of_act hw
  exact he

/-- A step whose handler call commits writes what the handler of that job writes. -/
theorem handlerCommit_of_effect {a : Action} {j : Job} {db : Db} {files : Files}
    (hc : w.Commits a j) (h : w.Effect a db files) :
    ∃ k providers aid, a = .runHandler k providers aid ∧
      HandlerCommit w.db ⟨providers, w.now, aid⟩ j db := by
  obtain ⟨k, providers, aid, handler, rfl, hp, hj, hh, hn⟩ := hc
  have same {i : Job} (hi : i ∈ w.db.jobs) (hpi : (w.workers k).phase = .handling i.id) :
      i = j := by
    obtain he : i.id = j.id := Phase.handling.inj (hpi.symm.trans hp)
    exact Table.eq_of_key_eq hi hj he
  refine ⟨k, providers, aid, rfl, ?_⟩
  cases h with
  | silent hs => exact hs.elim
  | committed hpi hi _ h =>
    obtain rfl := same hi hpi
    exact h
  | raised hpi hi _ hnc =>
    obtain rfl := same hi hpi
    exact absurd ⟨k, providers, aid, handler, rfl, hp, hj, hh, hn⟩ hnc
  | unknown hpi hi hu =>
    obtain rfl := same hi hpi
    rw [hu] at hh
    cases hh

/-- What a publish job writes when its artifact is there. -/
theorem db_of_publication {a : Action} {j : Job} {x : Artifact} {db : Db} {files : Files}
    (hc : w.Commits a j) (ht : j.jobType = .publish) (hx : x ∈ w.db.artifacts)
    (hj : j.inputPayload.artifactId = some x.id) (h : w.Effect a db files) :
    ∃ s ∈ w.db.sessions, s.id = x.sessionId ∧
      db.artifacts = (markArtifact w.now x.id w.db).artifacts ∧
      db.sessions = (w.db.setSession s.id (Session.withStatus .published)).sessions := by
  obtain ⟨k, providers, aid, rfl, hcom⟩ := handlerCommit_of_effect hc h
  cases hcom with
  | transcribe ht' => cases ht.symm.trans ht'
  | summarize ht' => cases ht.symm.trans ht'
  | extractArtifact ht' => cases ht.symm.trans ht'
  | publishMissing _ hj' hn =>
    obtain rfl := Option.some.inj (hj'.symm.trans hj)
    exact absurd (Db.artifact?_eq_some.mpr ⟨hx, rfl⟩) (by rw [hn]; exact nofun)
  | publish _ hj' hy hs hi =>
    obtain rfl := Table.eq_of_key_eq hx hy (Option.some.inj (hj.symm.trans hj'))
    exact ⟨_, hs, hi, rfl, rfl⟩

/-- What an extraction writes. -/
theorem db_of_extraction {a : Action} {j : Job} {db : Db} {files : Files} (hc : w.Commits a j)
    (ht : j.jobType = .extractArtifact) (h : w.Effect a db files) :
    ∃ x output, db = extractWrites j x output w.db ∧ j.sessionId = some x.sessionId ∧
      x.jobId = some j.id ∧ ∀ b ∈ w.db.artifacts, b.id ≠ x.id := by
  obtain ⟨k, providers, aid, rfl, hcom⟩ := handlerCommit_of_effect hc h
  cases hcom with
  | transcribe ht' => cases ht.symm.trans ht'
  | summarize ht' => cases ht.symm.trans ht'
  | publishMissing ht' => cases ht.symm.trans ht'
  | publish ht' => cases ht.symm.trans ht'
  | @extractArtifact _ _ x _ _ _ _ _ _ _ _ _ _ hsid _ hjob _ hf =>
    exact ⟨x, _, rfl, hsid, hjob, hf⟩

/-- An accepted retraction runs the whole saga on a published session. -/
theorem effect_of_retracts {a : Action} {sid : Uuid} {db : Db} {files : Files}
    (hr : w.Retracts a sid) (h : w.Effect a db files) :
    ∃ user ids, ∃ s ∈ w.db.sessions, s.id = sid ∧ s.status = .published ∧ w.db.SagaFree ids ∧
      db = (addSaga ids w.now s (w.db.setSession s.id (Session.withTombstone w.now user ""))).addAudit
        (sessionAudit w.now .retractInitiated s.id user) := by
  obtain ⟨user, ids, rfl, hacc⟩ := hr
  cases h with
  | refused hn => exact absurd hacc hn
  | silent hs => exact hs.elim
  | served _ h =>
    cases h with
    | @retractSession _ _ s hs _ hp hf => exact ⟨user, ids, s, hs, rfl, hp, hf, rfl⟩

end Inversion

end World

end AiBadge
