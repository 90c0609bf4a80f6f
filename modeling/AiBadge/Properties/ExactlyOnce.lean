import AiBadge.Properties.Completion
import AiBadge.Properties.Retry
import Mathlib.Data.List.Pairwise

/-! # Exactly-once extraction

If a job is released only when its last claimer has crashed, then every job is in the
hands of one worker at most. The commit that completes an extraction adds its artifact,
so each job leaves one artifact, and leaves it exactly when it is completed.
-/

namespace AiBadge

open Lib

/-- The worker that claimed the job last. -/
def lastClaimer (tr : List (Transition World Action)) (job : Uuid) : Option WorkerId :=
  tr.foldl (fun last t =>
    match t.act with
    | .claim k i _ => if i = job then some k else last
    | _ => last) none

def Phase.isCrashed : Phase → Bool
  | .crashed => true
  | _ => false

/-- A job times out, and is released, only when its last claimer has crashed. -/
def ReleasedAfterCrash (tr : List (Transition World Action)) (t : Transition World Action) : Prop :=
  ∀ j ∈ t.pre.db.jobs, TimesOut t j.id →
    ∀ k ∈ lastClaimer tr j.id, (t.pre.workers k).phase.isCrashed = true

instance (tr : List (Transition World Action)) (t : Transition World Action) :
    Decidable (ReleasedAfterCrash tr t) :=
  inferInstanceAs (Decidable (∀ j ∈ t.pre.db.jobs, _ → ∀ k ∈ lastClaimer tr j.id, _))

/-- The step commits the handler of the job, which completes it. -/
def Completes (t : Transition World Action) (job : Uuid) : Prop :=
  ∃ j, t.pre.Commits t.act j ∧ j.id = job

/-- An artifact with this id and this job is committed at some point of the run. -/
def Produced (tr : List (Transition World Action)) (job artifact : Uuid) : Prop :=
  ∃ t ∈ tr, ∃ x ∈ t.post.db.artifacts, x.id = artifact ∧ x.jobId = some job

/-- One artifact at most, one exactly when the job is completed, and one completion at most. -/
structure ExactlyOnce (tr : List (Transition World Action)) (j : Job) : Prop where
  unique : ∀ x y, Produced tr j.id x → Produced tr j.id y → x = y
  produced_iff : (∃ x, Produced tr j.id x) ↔ j.status = .completed
  once : tr.Pairwise fun t u => ¬ (Completes t j.id ∧ Completes u j.id)

/-- Who has which job in its hands, and which steps completed what. -/
structure Owned (tr : List (Transition World Action)) (w : World) : Prop where
  claimer : ∀ k job, (w.workers k).phase.job? = some job → lastClaimer tr job = some k
  taken : ∀ k job, (w.workers k).phase.job? = some job →
    ∃ j ∈ w.db.jobs, j.id = job ∧ j.status ≠ .pending
  running : ∀ k job, (w.workers k).phase = .handling job →
    ∃ j ∈ w.db.jobs, j.id = job ∧ j.status = .running
  completed : ∀ j ∈ w.db.jobs, j.status = .completed → ∃ t ∈ tr, Completes t j.id
  done : ∀ t ∈ tr, ∀ i, t.pre.Commits t.act i →
    ∃ j ∈ w.db.jobs, j.id = i.id ∧ j.jobType = i.jobType ∧ j.status = .completed
  once : ∀ job, tr.Pairwise fun t u => ¬ (Completes t job ∧ Completes u job)
  artifact : ∀ x ∈ w.db.artifacts, ∀ job, x.jobId = some job →
    ∃ t ∈ tr, Completes t job ∧ ∃ k providers, t.act = .runHandler k providers x.id
  produced : ∀ job x, Produced tr job x →
    ∃ t ∈ tr, Completes t job ∧ ∃ k providers, t.act = .runHandler k providers x
  extracted : ∀ t ∈ tr, ∀ j, t.pre.Commits t.act j → j.jobType = .extractArtifact →
    ∃ x, Produced tr j.id x

theorem lastClaimer_snoc {tr : List (Transition World Action)} {t : Transition World Action}
    {job : Uuid} (h : ∀ k locked, t.act ≠ .claim k job locked) :
    lastClaimer (tr ++ [t]) job = lastClaimer tr job := by
  rw [lastClaimer, List.foldl_append, List.foldl_cons, List.foldl_nil]
  split
  next k i locked ha =>
    have hi : i ≠ job := by
      rintro rfl
      exact h k locked ha
    rw [if_neg hi]
    rfl
  next => rfl

theorem lastClaimer_claim {tr : List (Transition World Action)} {t : Transition World Action}
    {k : WorkerId} {job : Uuid} {locked : List Uuid} (h : t.act = .claim k job locked) :
    lastClaimer (tr ++ [t]) job = some k := by
  rw [lastClaimer, List.foldl_append, List.foldl_cons, List.foldl_nil, h]
  exact if_pos rfl

theorem owned_init (now : Timestamp) : Owned [] (World.init now) where
  claimer _ _ h := by cases h
  taken _ _ h := by cases h
  running _ _ h := by cases h
  completed j h := (Table.not_mem_empty _ h).elim
  done _ h := (List.not_mem_nil h).elim
  once _ := .nil
  artifact _ h := (Table.not_mem_empty _ h).elim
  produced _ _ h := by
    obtain ⟨t, ht, -⟩ := h
    exact (List.not_mem_nil ht).elim
  extracted _ h := (List.not_mem_nil h).elim

section Step

variable {tr : List (Transition World Action)} {w w' : World} {a : Action} {k : WorkerId}
  {job : Uuid} {j j' : Job} (hs : w.Settled) (hu : UnknownDropped w) (ho : Owned tr w)
  (hr : ReleasedAfterCrash tr ⟨w, a, w'⟩) (h : w.step a = some w')

theorem Produced.mono {t : Transition World Action} {x : Uuid} (hp : Produced tr job x) :
    Produced (tr ++ [t]) job x := by
  obtain ⟨u, hm, hx⟩ := hp
  exact ⟨u, List.mem_append_left _ hm, hx⟩

/-- The row of a claimed job is running after the claim. -/
theorem running_of_claim {i : WorkerId} {locked : List Uuid} (ha : a = .claim i j.id locked)
    (hstep : w.JobStep a j j') : j'.status = .running := by
  cases hstep with
  | same hn => exact absurd ha (hn i locked)
  | started => rfl
  | released hn => exact absurd ha (hn i locked)
  | output hc =>
    obtain ⟨_, _, _, _, hb, -⟩ := hc
    cases ha.symm.trans hb
  | failed hb => cases ha.symm.trans hb
  | unknown hb => cases ha.symm.trans hb
  | heartbeat hb => cases ha.symm.trans hb

include ho hr in
/-- Nobody takes a running job away from the worker that has it in its hands. -/
theorem Owned.not_timesOut (hk : (w.workers k).phase.job? = some job) :
    ¬ TimesOut ⟨w, a, w'⟩ job := by
  intro hto
  have hrow := hto
  obtain ⟨j, hj, rfl, -⟩ := hrow
  have hc := hr j hj hto k (ho.claimer k j.id hk)
  revert hk hc
  cases (w.workers k).phase <;> simp [Phase.job?, Phase.isCrashed]

include ho hr h

theorem Owned.not_claimed (hk : (w.workers k).phase.job? = some job) (i : WorkerId)
    (locked : List Uuid) : a ≠ .claim i job locked := by
  rintro rfl
  obtain ⟨r, hrm, rfl, hcl⟩ := World.claimable_of_claim (World.effect_of_step h)
  by_cases hto : timedOut w.now r = true
  · exact ho.not_timesOut hr hk ⟨r, hrm, rfl, World.status_of_timedOut hto, .inl rfl⟩
  · obtain ⟨q, hq, hqi, hne⟩ := ho.taken k _ hk
    obtain rfl := Table.eq_of_key_eq hq hrm hqi
    rw [if_neg hto] at hcl
    exact hne (World.status_of_claimable hcl)

theorem Owned.claimer_step (hk : (w'.workers k).phase.job? = some job) :
    lastClaimer (tr ++ [⟨w, a, w'⟩]) job = some k := by
  rcases (World.worker_of_step h).job? hk with hk | ⟨locked, ha⟩
  · rw [lastClaimer_snoc (ho.not_claimed hr h hk)]
    exact ho.claimer k job hk
  · exact lastClaimer_claim ha

include hs

theorem Owned.taken_step (hk : (w'.workers k).phase.job? = some job) :
    ∃ j ∈ w'.db.jobs, j.id = job ∧ j.status ≠ .pending := by
  have hev := World.jobs_of_effect hs (World.effect_of_step h)
  rcases (World.worker_of_step h).job? hk with hk | ⟨locked, rfl⟩
  · obtain ⟨j, hj, rfl, hn⟩ := ho.taken k job hk
    obtain ⟨j', hj', hid, hstep⟩ := hev.kept j hj
    refine ⟨j', hj', hid, ?_⟩
    cases hstep with
    | same => exact hn
    | started ha => exact absurd ha (ho.not_claimed hr h hk _ _)
    | released _ _ hto =>
      intro hp
      refine ho.not_timesOut hr hk ⟨j, hj, rfl, World.status_of_timedOut hto, ?_⟩
      exact .inr ⟨_, hj', hid, hp⟩
    | output => exact nofun
    | failed =>
      rw [World.recordFailure_status]
      split
      · exact nofun
      · exact hn
    | unknown => exact nofun
    | heartbeat => exact hn
  · obtain ⟨j, hj, rfl⟩ := World.mem_of_claim (World.effect_of_step h)
    obtain ⟨j', hj', hid, hstep⟩ := hev.kept j hj
    refine ⟨j', hj', hid, ?_⟩
    rw [running_of_claim rfl hstep]
    exact nofun

theorem Owned.running_step (hk : (w'.workers k).phase = .handling job) :
    ∃ j ∈ w'.db.jobs, j.id = job ∧ j.status = .running := by
  have hev := World.jobs_of_effect hs (World.effect_of_step h)
  rcases (World.worker_of_step h).handling hk with hp | ⟨locked, rfl⟩
  · have hk₀ : (w.workers k).phase.job? = some job := by
      rw [hp]
      rfl
    -- the worker that has the job in its hands is the only one
    have alone {i : WorkerId} (hi : (w.workers i).phase.job? = some job) : i = k :=
      Option.some.inj ((ho.claimer i job hi).symm.trans (ho.claimer k job hk₀))
    obtain ⟨j, hj, rfl, hrun⟩ := ho.running k job hp
    obtain ⟨j', hj', hid, hstep⟩ := hev.kept j hj
    refine ⟨j', hj', hid, ?_⟩
    cases hstep with
    | same => exact hrun
    | started => rfl
    | released _ _ hto =>
      exact absurd ⟨j, hj, rfl, hrun, .inr ⟨_, hj', hid, rfl⟩⟩ (ho.not_timesOut hr hk₀)
    | output hc =>
      obtain ⟨i, _, _, _, rfl, hpi, -⟩ := hc
      obtain rfl := alone (by rw [hpi]; rfl)
      exact absurd hk (World.not_handling_of_runHandler h)
    | failed _ hpi =>
      obtain rfl := alone (by rw [hpi]; rfl)
      cases hp.symm.trans hpi
    | unknown ha hpi =>
      obtain rfl := alone (by rw [hpi]; rfl)
      rw [ha] at h
      exact absurd hk (World.not_handling_of_runHandler h)
    | heartbeat => exact hrun
  · obtain ⟨j, hj, rfl⟩ := World.mem_of_claim (World.effect_of_step h)
    obtain ⟨j', hj', hid, hstep⟩ := hev.kept j hj
    exact ⟨j', hj', hid, running_of_claim rfl hstep⟩

omit ho hr in
theorem completed_kept (hu : UnknownDropped w) (hj : j ∈ w.db.jobs) (hc : j.status = .completed) :
    ∃ j' ∈ w'.db.jobs, j'.id = j.id ∧ j'.jobType = j.jobType ∧ j'.status = .completed := by
  obtain ⟨j', hj', hid, hstep⟩ := (World.jobs_of_effect hs (World.effect_of_step h)).kept j hj
  exact ⟨j', hj', hid, hstep.sameOrigin.jobType, (hstep.completed hj hu hc).1⟩

omit hr in
theorem Owned.completed_step : ∀ j ∈ w'.db.jobs, j.status = .completed →
    ∃ t ∈ tr ++ [⟨w, a, w'⟩], Completes t j.id := by
  intro j' hj' hc
  rcases (World.jobs_of_effect hs (World.effect_of_step h)).origin j' hj' with
    ⟨j, hj, hid, hstep⟩ | hnew
  · rw [hid]
    rcases hstep.commits hc with hcj | hcom
    · obtain ⟨t, ht, hcom⟩ := ho.completed j hj hcj
      exact ⟨t, List.mem_append_left _ ht, hcom⟩
    · exact ⟨_, List.mem_append_right _ List.mem_cons_self, j, hcom, rfl⟩
  · cases hnew <;> cases hc

omit hr in
theorem Owned.done_step (hu : UnknownDropped w) : ∀ t ∈ tr ++ [⟨w, a, w'⟩], ∀ i,
    t.pre.Commits t.act i →
      ∃ j ∈ w'.db.jobs, j.id = i.id ∧ j.jobType = i.jobType ∧ j.status = .completed := by
  intro t ht i hc
  rcases List.mem_append.mp ht with ht | ht
  · obtain ⟨j, hj, hid, hty, hcj⟩ := ho.done t ht i hc
    obtain ⟨j', hj', hid', hty', hcj'⟩ := completed_kept hs h hu hj hcj
    exact ⟨j', hj', hid'.trans hid, hty'.trans hty, hcj'⟩
  · obtain rfl := List.mem_singleton.mp ht
    have hi : i ∈ w.db.jobs := by
      obtain ⟨_, _, _, _, -, -, hi, -⟩ := hc
      exact hi
    have he := World.effect_of_step h
    obtain ⟨j', hj', hid, hstep⟩ := (World.jobs_of_effect hs he).kept i hi
    exact ⟨j', hj', hid, hstep.sameOrigin.jobType, World.completed_of_commits hi hc he hj' hid⟩

omit hs hr h in
/-- A job that commits is running, so no earlier step completed it. -/
theorem Owned.not_completed (hc : Completes ⟨w, a, w'⟩ job) : ∀ t ∈ tr, ¬ Completes t job := by
  rintro t ht ⟨i, hi, rfl⟩
  obtain ⟨j, hj, hid, -, hcj⟩ := ho.done t ht i hi
  obtain ⟨q, ⟨k, _, _, _, -, hp, hq, -⟩, hqi⟩ := hc
  obtain ⟨r, hr, hri, hrun⟩ := ho.running k _ hp
  obtain rfl := Table.eq_of_key_eq hr hj (hri.trans (hqi.trans hid.symm))
  cases hrun.symm.trans hcj

omit hs hr h in
theorem Owned.once_step (a : Action) (w' : World) (job : Uuid) :
    (tr ++ [(⟨w, a, w'⟩ : Transition World Action)]).Pairwise fun t u =>
      ¬ (Completes t job ∧ Completes u job) := by
  refine List.pairwise_append.mpr ⟨ho.once job, List.pairwise_singleton _ _, ?_⟩
  rintro t ht u hu ⟨h₁, h₂⟩
  obtain rfl := List.mem_singleton.mp hu
  exact ho.not_completed h₂ t ht h₁

omit hr in
theorem Owned.artifact_step : ∀ x ∈ w'.db.artifacts, ∀ job, x.jobId = some job →
    ∃ t ∈ tr ++ [⟨w, a, w'⟩], Completes t job ∧
      ∃ k providers, t.act = .runHandler k providers x.id := by
  intro x hx job hjob
  rcases World.artifacts_of_effect hs (World.effect_of_step h) x hx with
    ⟨y, hy, hid, hstep⟩ | hnew
  · obtain ⟨t, ht, hcom, hact⟩ := ho.artifact y hy job (hstep.jobId ▸ hjob)
    rw [hid]
    exact ⟨t, List.mem_append_left _ ht, hcom, hact⟩
  · cases hnew with
    | extracted ha hc _ _ _ hj =>
      have he := Option.some.inj (hj.symm.trans hjob)
      exact ⟨_, List.mem_append_right _ List.mem_cons_self, ⟨_, hc, he⟩, _, _, ha⟩

omit hr in
theorem Owned.produced_step (x : Uuid) (hp : Produced (tr ++ [⟨w, a, w'⟩]) job x) :
    ∃ t ∈ tr ++ [⟨w, a, w'⟩], Completes t job ∧
      ∃ k providers, t.act = .runHandler k providers x := by
  obtain ⟨t, ht, y, hy, rfl, hjob⟩ := hp
  rcases List.mem_append.mp ht with ht | ht
  · obtain ⟨u, hu, hcom⟩ := ho.produced job y.id ⟨t, ht, y, hy, rfl, hjob⟩
    exact ⟨u, List.mem_append_left _ hu, hcom⟩
  · obtain rfl := List.mem_singleton.mp ht
    exact ho.artifact_step hs h y hy job hjob

omit hs hr in
theorem Owned.extracted_step : ∀ t ∈ tr ++ [⟨w, a, w'⟩], ∀ j, t.pre.Commits t.act j →
    j.jobType = .extractArtifact → ∃ x, Produced (tr ++ [⟨w, a, w'⟩]) j.id x := by
  intro t ht j hc hty
  rcases List.mem_append.mp ht with ht | ht
  · obtain ⟨x, hx⟩ := ho.extracted t ht j hc hty
    exact ⟨x, hx.mono⟩
  · obtain rfl := List.mem_singleton.mp ht
    obtain ⟨x, hx, -, hjob⟩ := World.artifact_of_extract hc hty (World.effect_of_step h)
    exact ⟨x.id, _, List.mem_append_right _ List.mem_cons_self, x, hx, rfl, hjob⟩

theorem Owned.step (hu : UnknownDropped w) : Owned (tr ++ [⟨w, a, w'⟩]) w' where
  claimer _ _ := ho.claimer_step hr h
  taken _ _ := ho.taken_step hs hr h
  running _ _ := ho.running_step hs hr h
  completed := ho.completed_step hs h
  done := ho.done_step hs h hu
  once := ho.once_step a w'
  artifact := ho.artifact_step hs h
  produced _ := ho.produced_step hs h
  extracted := ho.extracted_step h

end Step

theorem owned_of_run {now : Timestamp} {tr : List (Transition World Action)} {w : World}
    (hr : SystemRun now tr w) (hc : Throughout ReleasedAfterCrash tr) : Owned tr w := by
  induction hr with
  | init => exact owned_init now
  | snoc hr h ih =>
    rw [throughout_snoc] at hc
    obtain ⟨hs, hu⟩ := World.unknownDropped_of_run (fun _ => rfl) hr
    exact (ih hc.1).step hs hc.2 h hu

/-- As long as a job is released only when its last claimer has crashed, every extraction leaves one
artifact over the whole run, and leaves it exactly when it is completed, which happens once. -/
theorem exactlyOnce_of_run {now : Timestamp} {tr : List (Transition World Action)} {w : World}
    {j : Job} (hr : SystemRun now tr w) (hc : Throughout ReleasedAfterCrash tr)
    (hj : j ∈ w.db.jobs) (ht : j.jobType = .extractArtifact) : ExactlyOnce tr j := by
  have ho := owned_of_run hr hc
  constructor
  · intro x y hx hy
    obtain ⟨t, htm, hct, k, providers, hat⟩ := ho.produced j.id x hx
    obtain ⟨u, hum, hcu, k', providers', hau⟩ := ho.produced j.id y hy
    have hsym : Std.Symm fun t u : Transition World Action =>
        ¬ (Completes t j.id ∧ Completes u j.id) := ⟨fun _ _ hn h => hn h.symm⟩
    obtain rfl : t = u := by
      by_contra hne
      exact (ho.once j.id).forall htm hum hne ⟨hct, hcu⟩
    exact (Action.runHandler.inj (hat.symm.trans hau)).2.2
  · constructor
    · rintro ⟨x, hx⟩
      obtain ⟨t, htm, ⟨i, hi, hid⟩, -⟩ := ho.produced j.id x hx
      obtain ⟨q, hq, hqi, -, hcq⟩ := ho.done t htm i hi
      rwa [← Table.eq_of_key_eq hq hj (hqi.trans hid)]
    · intro hcj
      obtain ⟨t, htm, i, hi, hid⟩ := ho.completed j hj hcj
      obtain ⟨q, hq, hqi, hty, -⟩ := ho.done t htm i hi
      obtain rfl := Table.eq_of_key_eq hq hj (hqi.trans hid)
      obtain ⟨x, hx⟩ := ho.extracted t htm i hi (hty.symm.trans ht)
      exact ⟨x, hid ▸ hx⟩
  · exact ho.once j.id

/-- Worker 0 crashes with the extraction in its hands, and worker 1 takes it over. -/
def crashedExtraction : List Action :=
  open Replay in
  recorded ++ cycle 20 30 ++ cycle 21 31 ++ [.beginCycle 0, .claim 0 (uuid 22) [], .crash 0,
    .tick 121000000, .beginCycle 1, .claim 1 (uuid 22) [], .runHandler 1 providers (uuid 32)]

theorem exactlyOnce_afterCrash : ∃ tr w j, SystemRun 0 tr w ∧ j ∈ w.db.jobs ∧
    j.status = .completed ∧ (∃ t ∈ tr, TimesOut t j.id) ∧ ExactlyOnce tr j := by
  obtain ⟨tr, w, hr, hp⟩ := exists_run
    (fun tr (w : World) => decide (∃ j ∈ w.db.jobs, j.jobType = .extractArtifact ∧
      j.status = .completed ∧ ∃ t ∈ tr, TimesOut t j.id) &&
        decide (Throughout ReleasedAfterCrash tr))
    (show (execute World.step (World.init 0) crashedExtraction).any _ = true by decide +kernel)
  obtain ⟨hj, hc⟩ := Bool.and_eq_true_iff.mp hp
  obtain ⟨j, hj, ht, hcj, hto⟩ := of_decide_eq_true hj
  exact ⟨tr, w, j, hr, hj, hcj, hto, exactlyOnce_of_run hr (of_decide_eq_true hc) hj ht⟩

end AiBadge
