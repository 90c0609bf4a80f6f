import AiBadge.System.TwinAside

/-! # Worker steps beside each other

The steps of the workers on the queue of jobs keep both sides of a run alike.
-/

namespace AiBadge

open Lib Prog DbM

namespace World

/-- Both sides of a run agree, and hold what they rely on. -/
structure Beside (c : Scope) (v : User) (w₀ w₁ : World) : Prop where
  alike : World.Alike c w₀ w₁
  ready₀ : Ready c v w₀
  ready₁ : Ready c v w₁
  issued : ∀ u ∈ w₀.issued, u ∈ w₁.issued

namespace Beside

variable {c : Scope} {v : User} {w₀ w₁ w₁' : World} {a : Action} {k : WorkerId}

section Assembly

variable (hb : Beside c v w₀ w₁) (h : w₁.step a = some w₁') (ha : a.worker? = some k)
include hb h ha

/-- What the step of a worker has to keep. -/
theorem alike_of (hdb : (w₀.follow a).db.Alike c w₁'.db)
    (hf : ∀ key, c.keys key → (key ∈ (w₀.follow a).files ↔ key ∈ w₁'.files))
    (hk : Abreast c (w₀.follow a) w₁' k) : World.Alike c (w₀.follow a) w₁' where
  now := by
    rw [follow_now ha, now_of_step h, elapsed_of_worker ha, hb.alike.now]
    exact Int.add_zero _
  db := hdb
  files := hf
  workers i := by
    by_cases hi : i = k
    · exact hi ▸ hk
    · obtain ⟨tr, hr, -⟩ := follow_run w₀ a
      have hne : a.worker? ≠ some i := fun he => hi (Option.some.inj (he.symm.trans ha))
      exact (hb.alike.workers i).run hb.ready₀.sound hb.ready₁.sound hr h (follow_workers ha hi)
        ((worker_of_step h).eq_of_other hne)

/-- The worker ends with the same point, and no job in hand. -/
theorem alike_at {p : Phase} (hp : p.job? = none) (h₀ : ((w₀.follow a).workers k).phase = p)
    (h₁ : (w₁'.workers k).phase = p)
    (hs : (w₁'.workers k).shutdown = ((w₀.follow a).workers k).shutdown)
    (hdb : (w₀.follow a).db.Alike c w₁'.db)
    (hf : ∀ key, c.keys key → (key ∈ (w₀.follow a).files ↔ key ∈ w₁'.files)) :
    World.Alike c (w₀.follow a) w₁' := by
  exact hb.alike_of h ha hdb hf (.same (.of_job?_eq_none (h₁.trans h₀.symm) hs (h₀ ▸ hp)))

/-- The worker does the same on both sides. -/
theorem alike_same {u₀ u₁ : Worker} {db₀ db₁ : Db} {f₀ f₁ : Files} {i₀ i₁ : List Uuid}
    (h₀ : w₀.follow a = { w₀.setWorker k u₀ with db := db₀, files := f₀, issued := i₀ })
    (h₁ : w₁' = { w₁.setWorker k u₁ with db := db₁, files := f₁, issued := i₁ })
    (hdb : db₀.Alike c db₁) (hf : ∀ key, c.keys key → (key ∈ f₀ ↔ key ∈ f₁))
    (hu : SameWorker u₀ u₁) : World.Alike c (w₀.follow a) w₁' := by
  refine hb.alike_of h ha ?_ ?_ (.same ?_)
  · rw [h₀, h₁]
    exact hdb
  · rw [h₀, h₁]
    exact hf
  · have hu₀ : (w₀.follow a).workers k = u₀ := by
      rw [h₀]
      exact setWorker_self
    have hu₁ : w₁'.workers k = u₁ := by
      rw [h₁]
      exact setWorker_self
    rwa [hu₀, hu₁]

/-- The worker is aside on both sides. -/
theorem alike_aside (s₀ : StepsAside c k w₀ (w₀.follow a))
    (hn : ((w₀.follow a).workers k).phase.handled? = none) (s₁ : StepsAside c k w₁ w₁')
    (hs : (w₁.workers k).shutdown = (w₀.workers k).shutdown) : World.Alike c (w₀.follow a) w₁' := by
  refine hb.alike_of h ha (s₀.db.symm.trans (hb.alike.db.trans s₁.db)) ?_ (.aside s₀.phase hn s₁.phase ?_)
  · rw [s₀.files, s₁.files]
    exact hb.alike.files
  · rw [s₀.shutdown, s₁.shutdown, hs]

end Assembly

section Cases

variable (hb : Beside c v w₀ w₁)
include hb

theorem beginCycle (h : w₁.step (.beginCycle k) = some w₁') :
    World.Alike c (w₀.follow (.beginCycle k)) w₁' := by
  obtain ⟨-, u, hact, he⟩ := step_eq_some.mp h
  obtain ⟨⟨hp, hs⟩, rfl⟩ := act_beginCycle hact
  have hw₁ : w₁'.workers k = { w₁.workers k with phase := .polling } := by
    rw [he]
    exact setWorker_self
  -- on the other side the worker is idle by then as well
  suffices hidle : ∃ u : World, w₀.follow (.beginCycle k) = u.first [.beginCycle k] ∧
      w₀.db.Alike c u.db ∧ u.files = w₀.files ∧ (u.workers k).phase = .idle ∧
        (u.workers k).shutdown = (w₁.workers k).shutdown by
    obtain ⟨u, hu, hdb, hf, hup, hus⟩ := hidle
    have h₀ : w₀.follow (.beginCycle k) = u.setWorker k { u.workers k with phase := .polling } := by
      rw [hu]
      refine first_of_step (step_of_act rfl ?_ rfl)
      simp only [act, hup, hus.trans hs]
    have hw₀ : (w₀.follow (.beginCycle k)).workers k = { u.workers k with phase := .polling } := by
      rw [h₀]
      exact setWorker_self
    refine hb.alike_of h rfl ?_ ?_ (.same ?_)
    · rw [h₀, he]
      exact hdb.symm.trans hb.alike.db
    · rw [h₀, he]
      exact hf ▸ hb.alike.files
    · rw [hw₀, hw₁]
      exact .of_job?_eq_none rfl hus.symm rfl
  cases hb.alike.workers k with
  | same hsame =>
    have hp₀ := hsame.phase.symm.trans hp
    have hnone : w₀.step (.endCycle k) = none := step_of_act_none (by simp only [act, hp₀])
    have hmark : w₀.first [.markFailed k] = w₀ := first_markFailed_of_idle hp₀
    have hend : w₀.first [.endCycle k] = w₀ := first_of_none hnone
    refine ⟨w₀, ?_, .refl _, rfl, hp₀, hsame.shutdown.symm⟩
    rw [follow, hmark, hend]
  | aside ha₀ hn _ hsd =>
    have hmark : StepsAside c k w₀ (w₀.first [.markFailed k]) :=
      Leaving.markFailed.first hb.ready₀.sound ha₀
    have hready : Ready c v (w₀.first [.markFailed k]) := hb.ready₀.first (by simp)
    have hend : StepsAside c k w₀ ((w₀.first [.markFailed k]).first [.endCycle k]) :=
      hmark.trans (Leaving.endCycle.first hready.sound hmark.phase)
    refine ⟨_, rfl, hend.db, hend.files, ?_, hend.shutdown.trans hsd.symm⟩
    rcases ha₀.marked hn with ⟨hp₀, hm⟩ | ⟨pending, hp₀⟩
    · have hnone : w₀.step (.endCycle k) = none := step_of_act_none (by simp only [act, hp₀])
      rw [hm, first_of_none hnone]
      exact hp₀
    · generalize w₀.first [.markFailed k] = u at hp₀
      have h₀ : u.first [.endCycle k] = u.setWorker k { u.workers k with phase := .idle } := by
        refine first_of_step (step_of_act rfl ?_ rfl)
        simp only [act, hp₀]
      rw [h₀]
      exact congrArg Worker.phase setWorker_self

/-- A worker that leaves its cycle on the side with the requests, while it is aside. -/
theorem leaving (hl : Leaving k a) (hfol : w₀.follow a = w₀.first [a]) (h : w₁.step a = some w₁')
    (ha : a.worker? = some k) (ha₀ : Aside c w₀ (w₀.workers k).phase)
    (hn : ((w₀.first [a]).workers k).phase.handled? = none) (ha₁ : Aside c w₁ (w₁.workers k).phase)
    (hs : (w₁.workers k).shutdown = (w₀.workers k).shutdown) : World.Alike c (w₀.follow a) w₁' := by
  refine hb.alike_aside h ha ?_ (hfol ▸ hn) (hl.stepsAside hb.ready₁.sound ha₁ h) hs
  rw [hfol]
  exact hl.first hb.ready₀.sound ha₀

theorem endCycle (h : w₁.step (.endCycle k) = some w₁') :
    World.Alike c (w₀.follow (.endCycle k)) w₁' := by
  cases hb.alike.workers k with
  | same hsame =>
    obtain ⟨-, u, hact, rfl⟩ := step_eq_some.mp h
    obtain ⟨⟨pending, hp⟩, rfl⟩ := act_endCycle hact
    have hp₀ := hsame.phase.symm.trans hp
    have h₀ : w₀.follow (.endCycle k) = w₀.setWorker k { w₀.workers k with phase := .idle } := by
      refine first_of_step (step_of_act rfl ?_ rfl)
      simp only [act, hp₀]
    exact hb.alike_same h rfl h₀ rfl hb.alike.db hb.alike.files (.of_job?_eq_none rfl hsame.shutdown rfl)
  | aside ha₀ hn ha₁ hsd =>
    exact hb.leaving .endCycle rfl h rfl ha₀ (first_handled hn (by rintro _ _ ⟨⟩)) ha₁ hsd

/-- A worker that polls, polls on both sides. -/
theorem polling (hp : (w₁.workers k).phase = .polling) : SameWorker (w₀.workers k) (w₁.workers k) := by
  cases hb.alike.workers k with
  | same hsame => exact hsame
  | aside _ _ ha _ =>
    rw [hp] at ha
    cases ha

theorem claimNone {locked : List Uuid} (h : w₁.step (.claimNone k locked) = some w₁') :
    World.Alike c (w₀.follow (.claimNone k locked)) w₁' := by
  obtain ⟨-, u, hact, rfl⟩ := step_eq_some.mp h
  obtain ⟨hp, rfl⟩ := act_claimNone hact
  have hsame := hb.polling hp
  have h₀ : w₀.follow (.claimNone k locked) = w₀.setWorker k
      { w₀.workers k with phase := .tail [releaseTimedOutJobs w₀.now] } :=
    first_of_step (step_claimNone (hsame.phase.symm.trans hp))
  refine hb.alike_same h rfl h₀ rfl hb.alike.db hb.alike.files (.of_job?_eq_none ?_ hsame.shutdown rfl)
  rw [hb.alike.now]

theorem signal (h : w₁.step (.signal k) = some w₁') : World.Alike c (w₀.follow (.signal k)) w₁' := by
  obtain ⟨-, u, hact, he⟩ := step_eq_some.mp h
  obtain rfl := Option.some.inj hact
  have h₀ : w₀.follow (.signal k) = w₀.setWorker k { w₀.workers k with shutdown := true } :=
    first_of_step (step_of_act rfl rfl rfl)
  cases hb.alike.workers k with
  | same hsame =>
    exact hb.alike_same h rfl h₀ he hb.alike.db hb.alike.files ⟨hsame.phase, rfl, hsame.beat⟩
  | aside ha₀ hn ha₁ =>
    obtain ⟨tr, hr, -⟩ := follow_run w₀ (.signal k)
    have hw₀ : (w₀.follow (.signal k)).workers k = { w₀.workers k with shutdown := true } := by
      rw [h₀]
      exact setWorker_self
    have hw₁ : w₁'.workers k = { w₁.workers k with shutdown := true } := by
      rw [he]
      exact setWorker_self
    refine hb.alike_of h rfl ?_ ?_ (.aside ?_ ?_ ?_ ?_)
    · rw [h₀, he]
      exact hb.alike.db
    · rw [h₀, he]
      exact hb.alike.files
    · rw [hw₀]
      exact ha₀.run hb.ready₀.sound hr
    · rw [hw₀]
      exact hn
    · rw [hw₁]
      exact ha₁.step hb.ready₁.sound h
    · rw [hw₀, hw₁]

/-- Both sides of a worker heed the same signals. -/
theorem shutdown (k : WorkerId) : (w₁.workers k).shutdown = (w₀.workers k).shutdown := by
  cases hb.alike.workers k with
  | same hsame => exact hsame.shutdown
  | aside _ _ _ hsd => exact hsd

theorem crash (h : w₁.step (.crash k) = some w₁') : World.Alike c (w₀.follow (.crash k)) w₁' := by
  obtain ⟨-, u, hact, rfl⟩ := step_eq_some.mp h
  obtain rfl := Option.some.inj hact
  have h₀ : w₀.follow (.crash k) = w₀.setWorker k { w₀.workers k with phase := .crashed, beat := none } :=
    first_of_step (step_of_act rfl rfl rfl)
  exact hb.alike_same h rfl h₀ rfl hb.alike.db hb.alike.files (.of_job?_eq_none rfl (hb.shutdown k) rfl)

theorem markFailed (h : w₁.step (.markFailed k) = some w₁') :
    World.Alike c (w₀.follow (.markFailed k)) w₁' := by
  cases hb.alike.workers k with
  | same hsame =>
    obtain ⟨-, u, hact, rfl⟩ := step_eq_some.mp h
    obtain ⟨job, e, pending, hp, rfl⟩ := act_markFailed hact
    have hp₀ := hsame.phase.symm.trans hp
    have h₀ : w₀.follow (.markFailed k) = { w₀.setWorker k { w₀.workers k with
        phase := .tail pending, beat := none } with
          db := AiBadge.markFailed w₀.now e job w₀.db } := by
      refine first_of_step (step_of_act rfl ?_ rfl)
      simp only [act, hp₀]
    have hdb : (AiBadge.markFailed w₀.now e job w₀.db).Alike c
        (AiBadge.markFailed w₁.now e job w₁.db) := by
      rw [hb.alike.now]
      exact hb.alike.db.updateJobs (recordFailure_id _ _) fun j =>
        (recordFailure_sameOrigin _ e j).sessionId
    exact hb.alike_same h rfl h₀ rfl hdb hb.alike.files (.of_job?_eq_none rfl hsame.shutdown rfl)
  | aside ha₀ hn ha₁ hsd =>
    exact hb.leaving .markFailed rfl h rfl ha₀ (first_handled hn (by rintro _ _ ⟨⟩)) ha₁ hsd

theorem heartbeat (h : w₁.step (.heartbeat k) = some w₁') :
    World.Alike c (w₀.follow (.heartbeat k)) w₁' := by
  cases hb.alike.workers k with
  | same hsame =>
    obtain ⟨-, u, hact, rfl⟩ := step_eq_some.mp h
    obtain ⟨job, hbeat, hp, rfl⟩ := act_heartbeat hact
    have hp₀ : (w₀.workers k).phase.job? = some job := hsame.phase ▸ hp
    have hbeat₀ : (w₀.workers k).beat.isSome := by
      rw [← hsame.beat (by rw [hp₀]; rfl)]
      exact hbeat
    obtain ⟨t, ht⟩ := Option.isSome_iff_exists.mp hbeat₀
    have h₀ : w₀.follow (.heartbeat k) = { w₀.setWorker k { w₀.workers k with
        beat := if (w₀.workers k).shutdown then none else some w₀.now } with
          db := sendHeartbeat w₀.now job w₀.db } := by
      refine first_of_step (step_of_act rfl ?_ rfl)
      simp only [act, hp₀, ht]
    have hdb : (sendHeartbeat w₀.now job w₀.db).Alike c (sendHeartbeat w₁.now job w₁.db) := by
      rw [hb.alike.now]
      exact hb.alike.db.updateJobs (by intro; rfl) fun _ => rfl
    refine hb.alike_same h rfl h₀ rfl hdb hb.alike.files ⟨hsame.phase, hsame.shutdown, fun _ => ?_⟩
    simp only [hb.alike.now, hsame.shutdown]
  | aside ha₀ hn ha₁ hsd =>
    exact hb.leaving .heartbeat rfl h rfl ha₀ (first_handled hn (by rintro _ _ ⟨⟩)) ha₁ hsd

/-- The jobs of the session stay alike when both sides release what is timed out. -/
theorem released :
    (releaseTimedOutJobs w₀.now w₀.db).Alike c (releaseTimedOutJobs w₁.now w₁.db) := by
  rw [hb.alike.now]
  exact hb.alike.db.updateJobs (by intro; rfl) fun _ => rfl

/-- A job that both sides can claim. -/
theorem claim_both {job : Uuid} {locked : List Uuid} (hc : w₀.Claimable job)
    (h : w₁.step (.claim k job locked) = some w₁') :
    World.Alike c (w₀.follow (.claim k job locked)) w₁' := by
  obtain ⟨-, u, hact, rfl⟩ := step_eq_some.mp h
  obtain ⟨hp, -, rfl⟩ := act_claim hact
  obtain ⟨j, hj, rfl, hcl⟩ := hc
  have hsame := hb.polling hp
  have h₀ : w₀.follow (.claim k j.id locked) = w₀.claim k j.id :=
    first_of_step (step_claim (hsame.phase.symm.trans hp) hj hcl)
  have hdb : (markRunning w₀.now j.id (releaseTimedOutJobs w₀.now w₀.db)).Alike c
      (markRunning w₁.now j.id (releaseTimedOutJobs w₁.now w₁.db)) := by
    have hrel := hb.released
    rw [hb.alike.now] at hrel ⊢
    exact hrel.updateJobs (by intro; rfl) fun _ => rfl
  refine hb.alike_same h rfl h₀ rfl hdb hb.alike.files ⟨rfl, hsame.shutdown, fun _ => ?_⟩
  simp only [hb.alike.now, hsame.shutdown]

/-- A job that only one side can claim: the worker rests on the other. -/
theorem claim_brought {job : Uuid} {locked : List Uuid} (hn : ¬ w₀.Claimable job)
    (h : w₁.step (.claim k job locked) = some w₁') :
    ((∀ j ∈ w₁.db.jobs, j.sessionId = some c.sessionId → timedOut w₁.now j = false) →
        World.Alike c (w₀.follow (.claim k job locked)) w₁') ∧
      ((w₀.follow (.claim k job locked)).db.Alike c w₁'.db →
        ∀ j ∈ w₁.db.jobs, j.sessionId = some c.sessionId → timedOut w₁.now j = false) := by
  obtain ⟨j, hj, hid, hcl⟩ := claimable_of_step h
  obtain ⟨-, u, hact, he⟩ := step_eq_some.mp h
  obtain ⟨hp, -, rfl⟩ := act_claim hact
  have hsame := hb.polling hp
  have hs : j.sessionId ≠ some c.sessionId := by
    intro hs
    exact hn ⟨j, (hb.released.mem_job hs).mpr hj, hid, hb.alike.now ▸ hcl⟩
  have hmark : (releaseTimedOutJobs w₁.now w₁.db).Alike c
      (markRunning w₁.now job (releaseTimedOutJobs w₁.now w₁.db)) := by
    refine alike_setJob (fun _ => rfl) fun i hi hii => ?_
    rwa [Table.eq_of_key_eq hi hj (hii.trans hid.symm)]
  have hnone : w₀.step (.claim k job (w₀.jobIds.filter (· ≠ job))) = none :=
    Option.eq_none_iff_forall_ne_some.mpr fun _ hc => hn (claimable_of_step hc)
  have h₀ : w₀.follow (.claim k job locked) = w₀.setWorker k
      { w₀.workers k with phase := .tail [releaseTimedOutJobs w₀.now] } :=
    (first_of_none hnone).trans (first_of_step (step_claimNone (hsame.phase.symm.trans hp)))
  constructor
  · intro ht
    obtain ⟨tr, hr, -⟩ := follow_run w₀ (.claim k job locked)
    have hw₀ : (w₀.follow (.claim k job locked)).workers k =
        { w₀.workers k with phase := .tail [releaseTimedOutJobs w₀.now] } := by
      rw [h₀]
      exact setWorker_self
    have hclean : Clean c w₀ [releaseTimedOutJobs w₀.now] := by
      refine .released (Int.le_refl _) fun r hr hrs => ?_
      rw [← hb.alike.now]
      exact ht r ((hb.alike.db.mem_job hrs).mp hr) hrs
    have s₀ : StepsAside c k w₀ (w₀.follow (.claim k job locked)) := by
      refine ⟨?_, ?_, ?_, ?_⟩
      · rw [h₀]
        exact .refl _
      · rw [h₀]
        rfl
      · rw [hw₀]
        exact (Aside.tail hclean).run hb.ready₀.sound hr
      · rw [hw₀]
    obtain ⟨i, hi, rfl⟩ := mem_of_claim (effect_of_step h)
    have his : i.sessionId ≠ some c.sessionId := by
      have hm := Table.mem_update_of_mem (p := timedOut w₁.now) (f := Job.withRelease)
        (by intro; rfl) hi
      have he' : (if timedOut w₁.now i then i.withRelease else i).id = i.id ∧
          (if timedOut w₁.now i then i.withRelease else i).sessionId = i.sessionId := by
        split <;> exact ⟨rfl, rfl⟩
      rw [← he'.2, Table.eq_of_key_eq hm hj (he'.1.trans hid.symm)]
      exact hs
    have s₁ : StepsAside c k w₁ w₁' :=
      .of_eq hb.ready₁.sound h he ((alike_release.mpr ht).trans hmark) (.handling hi his) rfl
    refine hb.alike_aside h rfl s₀ ?_ s₁ hsame.shutdown
    rw [hw₀]
    rfl
  · intro hdb
    rw [h₀, he] at hdb
    exact alike_release.mp ((hb.alike.db.symm.trans hdb).trans hmark.symm)

/-- The handler call of a job of the session. -/
theorem runHandler_own {providers : Providers} {aid : Uuid} {j : Job}
    (hsame : SameWorker (w₀.workers k) (w₁.workers k)) (hj : j ∈ w₁.db.jobs)
    (hp : (w₁.workers k).phase = .handling j.id) (hs : j.sessionId = some c.sessionId)
    (h : w₁.step (.runHandler k providers aid) = some w₁') :
    World.Alike c (w₀.follow (.runHandler k providers aid)) w₁' := by
  have hj₀ : j ∈ w₀.db.jobs := (hb.alike.db.mem_job hs).mpr hj
  have hp₀ := hsame.phase.symm.trans hp
  have hf₁ : aid ∉ w₁.issued := (fresh_of_step h).2 aid (List.mem_singleton.mpr rfl)
  have hf₀ : aid ∉ w₀.issued := fun hm => hf₁ (hb.issued aid hm)
  obtain ⟨-, u, hact, he⟩ := step_eq_some.mp h
  obtain ⟨i, hi, hpi, rfl⟩ := act_runHandler hact
  obtain rfl := Table.eq_of_key_eq hj hi (Phase.handling.inj (hp.symm.trans hpi))
  have h₀ : w₀.follow (.runHandler k providers aid) =
      { w₀.runHandler k providers aid j with issued := w₀.issued ++ [aid] } := by
    refine first_of_step (step_runHandler ⟨List.nodup_singleton aid, ?_⟩ hp₀ hj₀)
    rintro _ hm
    rwa [List.mem_singleton.mp hm]
  have lacks {w : World} (hw : w.Sound) (hf : aid ∉ w.issued) : w.db.Lacks aid := by
    rintro x hx rfl
    exact hf (hw.artifactId x hx)
  have owns {w : World} (hw : w.Sound) (hm : j ∈ w.db.jobs) (ht : j.jobType = .publish) :
      w.db.Owns c j.inputPayload.artifactId := by
    intro x hx hi
    obtain ⟨a, -, ha, hown⟩ := hw.publishJob j hm ht
    exact Option.some.inj ((hown x hx (Option.some.inj (hi.trans ha))).symm.trans hs)
  simp only [World.runHandler] at h₀ he
  cases hh : jobHandler j.jobType with
  | none =>
    simp only [hh] at h₀ he
    have hdb : (AiBadge.markUnknown w₀.now j.id w₀.db).Alike c
        (AiBadge.markUnknown w₁.now j.id w₁.db) := by
      rw [hb.alike.now]
      exact hb.alike.db.updateJobs (by intro; rfl) fun _ => rfl
    exact hb.alike_same h rfl h₀ he hdb hb.alike.files (.of_job?_eq_none rfl hsame.shutdown rfl)
  | some handler =>
    have htx : TxAlike c (Tx.start w₀.db w₀.files) (Tx.start w₁.db w₁.files) :=
      ⟨hb.alike.db, hb.alike.db, rfl, hb.alike.files⟩
    obtain ⟨hres, hend⟩ := agree_handler ⟨providers, w₀.now, aid⟩ hh hs _ _
      ⟨htx, ⟨lacks hb.ready₀.sound hf₀, owns hb.ready₀.sound hj₀⟩, lacks hb.ready₁.sound hf₁,
        owns hb.ready₁.sound hj⟩
    rw [hb.alike.now] at he
    rcases hr₀ : handler ⟨providers, w₀.now, aid⟩ j (Tx.start w₀.db w₀.files) with ⟨x, t⟩
    rcases hr₁ : handler ⟨providers, w₀.now, aid⟩ j (Tx.start w₁.db w₁.files) with ⟨y, u⟩
    rw [hr₀, hr₁] at hres hend
    obtain rfl : x = y := hres
    have hpend : u.pending = t.pending := hend.pending
    cases x with
    | ok =>
      simp only [hh, hr₀, hr₁, hpend] at h₀ he
      exact hb.alike_same h rfl h₀ he hend.committed hb.alike.files (.of_job?_eq_none rfl hsame.shutdown rfl)
    | error e =>
      simp only [hh, hr₀, hr₁, hpend] at h₀ he
      refine hb.alike_same h rfl h₀ he hend.committed hb.alike.files ⟨rfl, hsame.shutdown, fun hk => ?_⟩
      cases hab : e.abortsSession with
      | true => rfl
      | false => exact hsame.beat (by rw [hp₀]; rfl)

theorem runHandler {providers : Providers} {aid : Uuid}
    (h : w₁.step (.runHandler k providers aid) = some w₁') :
    World.Alike c (w₀.follow (.runHandler k providers aid)) w₁' := by
  cases hb.alike.workers k with
  | aside ha₀ hn ha₁ hsd =>
    exact hb.leaving .runHandler rfl h rfl ha₀ (first_handled hn (by rintro _ _ ⟨⟩)) ha₁ hsd
  | same hsame =>
    obtain ⟨-, u, hact, -⟩ := step_eq_some.mp h
    obtain ⟨j, hj, hp, -⟩ := act_runHandler hact
    by_cases hs : j.sessionId = some c.sessionId
    · exact hb.runHandler_own hsame hj hp hs h
    have hp₀ := hsame.phase.symm.trans hp
    obtain ⟨j₀, hj₀, hid⟩ := hb.ready₀.held k j.id (by rw [hp₀]; rfl)
    have hs₀ : j₀.sessionId ≠ some c.sessionId := by
      intro hs₀
      exact hs (Table.eq_of_key_eq ((hb.alike.db.mem_job hs₀).mp hj₀) hj hid ▸ hs₀)
    have hfresh : w₀.Fresh (.runHandler k providers aid) := by
      obtain ⟨hnd, hf⟩ := fresh_of_step h
      exact ⟨hnd, fun u hu hm => hf u hu (hb.issued u hm)⟩
    have h₀ := step_runHandler hfresh (hid.symm ▸ hp₀) hj₀
    refine hb.leaving .runHandler rfl h rfl ?_ ?_ ?_ hsame.shutdown
    · rw [hp₀, ← hid]
      exact .handling hj₀ hs₀
    · rw [first_of_step h₀, Option.eq_none_iff_forall_ne_some]
      intro job hjob
      exact not_handling_of_runHandler h₀ (handled?_eq_some.mp hjob)
    · rw [hp]
      exact .handling hj hs

theorem tick {d : Nat} (h : w₁.step (.tick d) = some w₁') :
    World.Alike c (w₀.follow (.tick d)) w₁' := by
  obtain ⟨-, u, hact, he⟩ := step_eq_some.mp h
  obtain rfl := Option.some.inj hact
  have h₀ : w₀.follow (.tick d) = { w₀ with now := w₀.now + d } :=
    first_of_step (step_of_act rfl rfl rfl)
  obtain ⟨tr, hr, -⟩ := follow_run w₀ (.tick d)
  refine ⟨?_, ?_, ?_, fun k => ?_⟩
  · rw [h₀, he, hb.alike.now]
  · rw [h₀, he]
    exact hb.alike.db
  · rw [h₀, he]
    exact hb.alike.files
  · refine (hb.alike.workers k).run hb.ready₀.sound hb.ready₁.sound hr h ?_ ?_
    · rw [h₀]
    · rw [he]

end Cases

end Beside

end World

end AiBadge
