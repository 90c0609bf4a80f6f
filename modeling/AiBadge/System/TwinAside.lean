import AiBadge.System.TwinReady

/-! # Workers on another session

A worker with a job of another session, or with none, leaves the session alone until it is through with
its poll cycle.
-/

namespace AiBadge

open Lib Prog DbM

namespace World

theorem setWorker_self {w : World} {k : WorkerId} {u : Worker} :
    (w.setWorker k u).workers k = u := by
  simp [setWorker]

/-- A step of a worker that is aside keeps the rows of the session and all files. -/
structure StepsAside (c : Scope) (k : WorkerId) (w w' : World) : Prop where
  db : w.db.Alike c w'.db
  files : w'.files = w.files
  phase : Aside c w' (w'.workers k).phase
  shutdown : (w'.workers k).shutdown = (w.workers k).shutdown

/-- The steps of a worker on its way out of a poll cycle. -/
inductive Leaving (k : WorkerId) : Action → Prop where
  | runHandler {providers : Providers} {aid : Uuid} : Leaving k (.runHandler k providers aid)
  | markFailed : Leaving k (.markFailed k)
  | heartbeat : Leaving k (.heartbeat k)
  | endCycle : Leaving k (.endCycle k)

section StepsAside

variable {c : Scope} {v : User} {w w' u : World} {a : Action} {k : WorkerId} {j : Job}

theorem alike_of_commit {db db' : Db} {input : HandlerInput} (h : HandlerCommit db input j db')
    (hj : j ∈ db.jobs) (hs : j.sessionId ≠ some c.sessionId)
    (hown : ∀ x ∈ db.artifacts, j.jobType = .publish → j.inputPayload.artifactId = some x.id →
      j.sessionId = some x.sessionId) : db.Alike c db' := by
  have out {db₁ : Db} (hjobs : db₁.jobs = db.jobs) {payload : Json} :
      db₁.Alike c (db₁.setJob j.id (Job.withOutput payload)) := by
    refine alike_setJob (fun _ => rfl) fun i hi hid => ?_
    rw [hjobs] at hi
    rwa [Table.eq_of_key_eq hi hj hid]
  cases h with
  | transcribe => exact out rfl
  | summarize => exact out rfl
  | publishMissing => exact out rfl
  | @extractArtifact _ _ x _ _ _ _ _ _ _ _ _ _ hsid =>
    have hne : x.sessionId ≠ c.sessionId := fun he => hs (hsid.trans (congrArg some he))
    have hadd : db.Alike c (db.addArtifact x) := alike_addArtifact hne
    have hset : (db.addArtifact x).Alike c ((db.addArtifact x).setSession x.sessionId
        (Session.withStatus .needsReview) (Session.withStatus_id .needsReview)) :=
      alike_setSession fun _ _ _ he => absurd he hne
    exact (hadd.trans hset).trans (out (by rfl))
  | @publish x s ht hx hxm hsm hsi =>
    have hxs := hown x hxm ht hx
    have hne : x.sessionId ≠ c.sessionId := fun he => hs (hxs.trans (congrArg some he))
    have hmark : db.Alike c (markArtifact input.now x.id db) := by
      refine alike_mark.mpr fun y hy hyc hyi => ?_
      rw [Table.eq_of_key_eq hy hxm hyi] at hyc
      exact absurd hyc hne
    have hset : (markArtifact input.now x.id db).Alike c ((markArtifact input.now x.id db).setSession
        s.id (Session.withStatus .published) (Session.withStatus_id .published)) :=
      alike_setSession fun _ _ _ he => absurd (hsi.symm.trans he) hne
    have hevent : ((markArtifact input.now x.id db).setSession s.id (Session.withStatus .published)
        (Session.withStatus_id .published)).Alike c
          (((markArtifact input.now x.id db).setSession s.id (Session.withStatus .published)
            (Session.withStatus_id .published)).addEvent (sessionEvent s.id .published)) :=
      ⟨rfl, rfl, rfl, rfl⟩
    exact ((hmark.trans hset).trans hevent).trans (out (by rfl))

theorem clean_of_residue {input : HandlerInput} {pending : List (Db → Db)} (hw : w.Sound)
    (h : HandlerResidue w.db input j pending) (hj : j ∈ w.db.jobs)
    (hs : j.sessionId ≠ some c.sessionId) : Clean c w pending := by
  cases h with
  | nothing => exact .nothing
  | @marked x ht hx hxm =>
    refine .marked (hw.artifactId x hxm) fun y hy hid hc => ?_
    obtain rfl := Table.eq_of_key_eq hy hxm hid
    obtain ⟨aid, -, ha, hown⟩ := hw.publishJob j hj ht
    exact hs ((hown y hy (Option.some.inj (hx.symm.trans ha))).trans (congrArg some hc))

theorem StepsAside.of_eq {worker : Worker} {db : Db} {i : List Uuid} (hw : w.Sound)
    (h : w.step a = some w') (he : w' = { w.setWorker k worker with db, issued := i })
    (hdb : w.db.Alike c db) (hp : Aside c w worker.phase)
    (hs : worker.shutdown = (w.workers k).shutdown) : StepsAside c k w w' := by
  have hk : w'.workers k = worker := by
    rw [he]
    exact setWorker_self
  refine ⟨?_, ?_, ?_, ?_⟩
  · rw [he]
    exact hdb
  · rw [he]
    rfl
  · rw [hk]
    exact hp.step hw h
  · rwa [hk]

/-- The job in the hands of a worker that is aside belongs to another session. -/
theorem Aside.other {phase : Phase} {job : Uuid} (ha : Aside c w phase) (hp : phase.job? = some job) :
    ∀ i ∈ w.db.jobs, i.id = job → i.sessionId ≠ some c.sessionId := by
  rintro i hi rfl
  cases ha with
  | idle => cases hp
  | handling hj hs => rwa [Table.eq_of_key_eq hi hj (Option.some.inj hp).symm]
  | failed hj hs => rwa [Table.eq_of_key_eq hi hj (Option.some.inj hp).symm]
  | tail => cases hp

theorem Leaving.stepsAside (ha : Leaving k a) (hw : w.Sound) (hp : Aside c w (w.workers k).phase)
    (h : w.step a = some w') : StepsAside c k w w' := by
  obtain ⟨-, u, hact, he⟩ := step_eq_some.mp h
  cases ha with
  | @runHandler providers aid =>
    obtain ⟨j, hj, hph, rfl⟩ := act_runHandler hact
    have hs : j.sessionId ≠ some c.sessionId := hp.other (by rw [hph]; rfl) j hj rfl
    obtain ⟨worker, db, pending, hout, hcall, hrun⟩ : ∃ worker db pending, _ ∧
        CallEffect w k providers aid j db pending ∧ _ := runHandler_cases hj hph
    rw [hrun] at he
    have hdb : w.db.Alike c db ∧ Clean c w pending := by
      cases hcall with
      | committed _ hcom =>
        refine ⟨alike_of_commit hcom hj hs fun x hx ht hi => ?_, .nothing⟩
        obtain ⟨aid, -, ha, hown⟩ := hw.publishJob j hj ht
        exact hown x hx (Option.some.inj (hi.symm.trans ha))
      | raised _ _ hres => exact ⟨.refl _, clean_of_residue hw hres hj hs⟩
      | unknown =>
        refine ⟨alike_setJob (fun _ => rfl) fun i hi hid => ?_, .nothing⟩
        rwa [Table.eq_of_key_eq hi hj hid]
    refine .of_eq hw h he hdb.1 ?_ ?_
    · cases hout with
      | returned => exact .tail hdb.2
      | raised => exact .failed hj hs hdb.2
      | escaped => exact .idle
    · cases hout <;> rfl
  | markFailed =>
    obtain ⟨job, e, pending, hph, rfl⟩ := act_markFailed hact
    have hother : ∀ i ∈ w.db.jobs, i.id = job → i.sessionId ≠ some c.sessionId :=
      hp.other (by rw [hph]; rfl)
    rw [hph] at hp
    cases hp with
    | failed _ _ hc =>
      exact .of_eq hw h he (alike_setJob (fun i => (recordFailure_sameOrigin _ e i).sessionId) hother)
        (.tail hc) rfl
  | heartbeat =>
    obtain ⟨job, -, hph, rfl⟩ := act_heartbeat hact
    refine .of_eq hw h he (alike_heartbeat (hp.other hph)) hp rfl
  | endCycle =>
    obtain ⟨-, rfl⟩ := act_endCycle hact
    exact .of_eq hw h he (.refl _) .idle rfl

theorem StepsAside.refl (hp : Aside c w (w.workers k).phase) : StepsAside c k w w :=
  ⟨.refl _, rfl, hp, rfl⟩

theorem StepsAside.trans (h : StepsAside c k w u) (h' : StepsAside c k u w') :
    StepsAside c k w w' :=
  ⟨h.db.trans h'.db, h'.files.trans h.files, h'.phase, h'.shutdown.trans h.shutdown⟩

/-- A step of the worker, where it is possible. -/
theorem Leaving.first (ha : Leaving k a) (hw : w.Sound) (hp : Aside c w (w.workers k).phase) :
    StepsAside c k w (w.first [a]) := by
  cases h : w.step a with
  | none =>
    rw [first_of_none h]
    exact .refl hp
  | some w' =>
    rw [first_of_step h]
    exact ha.stepsAside hw hp h

end StepsAside

section Catching

variable {c : Scope} {w : World} {k : WorkerId}

/-- A deletion job of another session. -/
theorem Ready.writes_other {v : User} {d : DeletionJob} {now : Timestamp}
    {pending : List (Db → Db)} (hw : Ready c v w) (remove : Remove) (hd : d ∈ w.db.deletionJobs)
    (hs : d.sessionId ≠ some c.sessionId) (hl : Leftover now pending) :
    (w.session pending).view.Alike c ((deletionWrites remove d w.files).1 (w.session pending).view) ∧
      ∀ key, c.keys key → (key ∈ (deletionWrites remove d w.files).2 ↔ key ∈ w.files) := by
  constructor
  · refine alike_deletionWrites hs fun r hr hi => ?_
    rw [hl.deletionJobs] at hr
    rwa [Table.eq_of_key_eq hr hd hi]
  · exact fun key hk => mem_files_deletionWrites fun ht => hs ((hw.targets d hd key ht).mp hk)

/-- Marking a job failed concerns neither the deletion jobs nor the clock. -/
theorem first_markFailed : (w.first [.markFailed k]).db.deletionJobs = w.db.deletionJobs ∧
    (w.first [.markFailed k]).now = w.now ∧ (w.first [.markFailed k]).files = w.files := by
  cases h : w.step (.markFailed k) with
  | none =>
    rw [first_of_none h]
    exact ⟨rfl, rfl, rfl⟩
  | some w' =>
    rw [first_of_step h]
    obtain ⟨-, u, hact, rfl⟩ := step_eq_some.mp h
    obtain ⟨job, e, pending, -, rfl⟩ := act_markFailed hact
    exact ⟨rfl, rfl, rfl⟩

/-- A worker that is not about to mark a job failed. -/
theorem first_markFailed_of_ne (h : ∀ job e pending, (w.workers k).phase ≠ .failed job e pending) :
    w.first [.markFailed k] = w := by
  refine first_of_none ?_
  cases hs : w.step (.markFailed k) with
  | none => rfl
  | some w' =>
    obtain ⟨-, u, hact, -⟩ := step_eq_some.mp hs
    obtain ⟨job, e, pending, hp, -⟩ := act_markFailed hact
    exact absurd hp (h job e pending)

theorem first_markFailed_of_idle (h : (w.workers k).phase = .idle) : w.first [.markFailed k] = w :=
  first_markFailed_of_ne (by simp [h])

/-- A worker that is aside, once its job is marked. -/
theorem Aside.marked (hp : Aside c w (w.workers k).phase) (hn : (w.workers k).phase.handled? = none) :
    (w.workers k).phase = .idle ∧ w.first [.markFailed k] = w ∨
      ∃ pending, ((w.first [.markFailed k]).workers k).phase = .tail pending := by
  generalize hph : (w.workers k).phase = phase at hp hn
  cases hp with
  | idle => exact .inl ⟨rfl, first_markFailed_of_idle hph⟩
  | handling => cases hn
  | @failed j e pending =>
    have h : w.first [.markFailed k] = { w.setWorker k { w.workers k with
        phase := .tail pending, beat := none } with
          db := AiBadge.markFailed w.now e j.id w.db } := by
      refine first_of_step (step_of_act rfl ?_ rfl)
      simp only [act, hph]
    refine .inr ⟨pending, ?_⟩
    rw [h]
    exact congrArg Worker.phase setWorker_self
  | @tail pending =>
    refine .inr ⟨pending, ?_⟩
    rw [first_markFailed_of_ne (by simp [hph])]
    exact hph

/-- A worker gets into a handler by its claims only. -/
theorem first_handled {a : Action} (hn : (w.workers k).phase.handled? = none)
    (ha : ∀ job locked, a ≠ .claim k job locked) :
    ((w.first [a]).workers k).phase.handled? = none := by
  cases h : w.step a with
  | none =>
    rw [first_of_none h]
    exact hn
  | some w' =>
    rw [first_of_step h, Option.eq_none_iff_forall_ne_some]
    intro job hj
    rcases (worker_of_step h).handling (handled?_eq_some.mp hj) with hp | ⟨locked, hc⟩
    · rw [hp] at hn
      cases hn
    · exact ha job locked hc

end Catching

end World

end AiBadge
