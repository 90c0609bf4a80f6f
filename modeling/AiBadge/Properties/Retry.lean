import AiBadge.System.Invariant

/-! # The retry contract of the worker

What becomes of an attempt that fails or times out. A job that is marked failed never gets back
to `pending`, an attempt that ends in a refused flush leaves no mark at all, and a timeout release
does not count as an attempt.
-/

namespace AiBadge

open Lib

/-- The job that a claim starts. -/
def Action.claimed? : Action → Option Uuid
  | .claim _ job _ => some job
  | _ => none

/-- The job whose attempt the action marks failed, if the job is still running. -/
def World.marking? (w : World) : Action → Option Uuid
  | .markFailed k =>
    match (w.workers k).phase with
    | .failed job _ _ => some job
    | _ => none
  | .runHandler k _ _ =>
    match (w.workers k).phase with
    | .handling job => (w.db.job? job).bind fun j =>
      if (jobHandler j.jobType).isNone then some job else none
    | _ => none
  | _ => none

/-- The job whose handler the action calls, if the call ends in a flush that the database refuses.
The worker then loses its session with the mark unwritten, and the row stays as the claim left it. -/
def World.refusing? (w : World) : Action → Option Uuid
  | .runHandler k providers aid =>
    match (w.workers k).phase with
    | .handling job => (w.db.job? job).bind fun j => (jobHandler j.jobType).bind fun handler =>
      match (handler ⟨providers, w.now, aid⟩ j (Tx.start w.db w.files)).1 with
      | .error e => if e.abortsSession then some job else none
      | .ok _ => none
    | _ => none
  | _ => none

/-- An attempt of the job is marked failed in the step. -/
def World.Marks (w : World) (a : Action) (j : Job) : Prop :=
  j.status = .running ∧ w.marking? a = some j.id

/-- An attempt of the job ends in a refused flush in the step. -/
def World.Refuses (w : World) (a : Action) (j : Job) : Prop :=
  j.status = .running ∧ w.refusing? a = some j.id

/-- An attempt of the job fails in the step. -/
def World.Fails (w : World) (a : Action) (j : Job) : Prop := w.Marks a j ∨ w.Refuses a j

instance (w : World) (a : Action) (j : Job) : Decidable (w.Marks a j) :=
  inferInstanceAs (Decidable (_ ∧ _))

instance (w : World) (a : Action) (j : Job) : Decidable (w.Refuses a j) :=
  inferInstanceAs (Decidable (_ ∧ _))

instance (w : World) (a : Action) (j : Job) : Decidable (w.Fails a j) :=
  inferInstanceAs (Decidable (_ ∨ _))

/-- An attempt of the job times out in the transition: its row is released, or claimed anew. -/
def TimesOut (t : Transition World Action) (job : Uuid) : Prop :=
  ∃ j ∈ t.pre.db.jobs, j.id = job ∧ j.status = .running ∧
    (t.act.claimed? = some job ∨ ∃ j' ∈ t.post.db.jobs, j'.id = job ∧ j'.status = .pending)

instance (t : Transition World Action) (job : Uuid) : Decidable (TimesOut t job) :=
  inferInstanceAs (Decidable (∃ j ∈ t.pre.db.jobs, _ ∧ _ ∧ (_ ∨ ∃ j' ∈ t.post.db.jobs, _)))

/-- How often the job is set to `running`. -/
def starts (tr : List (Transition World Action)) (job : Uuid) : Nat :=
  tr.countP fun t => t.act.claimed? = some job

/-- How many of its attempts time out. -/
def timeouts (tr : List (Transition World Action)) (job : Uuid) : Nat :=
  tr.countP fun t => TimesOut t job

/-- The contract at the transition `t` that follows `tr`. -/
structure RetryContract (tr : List (Transition World Action)) (t : Transition World Action) :
    Prop where
  retried : ∀ j ∈ t.pre.db.jobs, t.pre.Fails t.act j → j.retryCount < j.maxRetries →
    ∀ j' ∈ t.post.db.jobs, j'.id = j.id →
      ∃ next, j'.nextRunAt = some next ∧ ∀ now, next ≤ now → claimable now j' = true
  buried : ∀ u ∈ tr, ∀ j ∈ u.pre.db.jobs, u.pre.Fails u.act j → j.retryCount = j.maxRetries →
    t.act.claimed? ≠ some j.id
  bounded : ∀ j ∈ t.post.db.jobs, starts (tr ++ [t]) j.id ≤ j.maxRetries + 1

/-- No attempt fails while retries are left, no job is claimed after a refused flush with all its
retries used, and none once more than `max_retries` of its attempts have timed out. -/
structure RetryRespected (tr : List (Transition World Action)) (t : Transition World Action) :
    Prop where
  failed : ∀ j ∈ t.pre.db.jobs, t.pre.Fails t.act j → j.maxRetries ≤ j.retryCount
  refused : ∀ u ∈ tr, ∀ j ∈ u.pre.db.jobs, u.pre.Refuses u.act j → j.retryCount = j.maxRetries →
    t.act.claimed? ≠ some j.id
  timedOut : ∀ j ∈ t.pre.db.jobs, t.act.claimed? = some j.id →
    timeouts (tr ++ [t]) j.id ≤ j.maxRetries

theorem retryRespected_iff {tr : List (Transition World Action)} {t : Transition World Action} :
    RetryRespected tr t ↔
      (∀ j ∈ t.pre.db.jobs, t.pre.Fails t.act j → j.maxRetries ≤ j.retryCount) ∧
        (∀ u ∈ tr, ∀ j ∈ u.pre.db.jobs, u.pre.Refuses u.act j → j.retryCount = j.maxRetries →
          t.act.claimed? ≠ some j.id) ∧
        ∀ j ∈ t.pre.db.jobs, t.act.claimed? = some j.id →
          timeouts (tr ++ [t]) j.id ≤ j.maxRetries :=
  ⟨fun h => ⟨h.1, h.2, h.3⟩, fun h => ⟨h.1, h.2.1, h.2.2⟩⟩

instance (tr : List (Transition World Action)) (t : Transition World Action) :
    Decidable (RetryRespected tr t) := decidable_of_iff _ retryRespected_iff.symm

/-- No worker is in a poll cycle and no job is running. -/
structure World.Quiet (w : World) : Prop where
  workers : ∀ k, (w.workers k).phase = .idle
  jobs : ∀ j ∈ w.db.jobs, j.status ≠ .running

theorem World.Quiet.settled {w : World} (h : w.Quiet) : w.Settled := settled_of_idle h.workers

theorem World.quiet_init (now : Timestamp) : (World.init now).Quiet where
  workers _ := rfl
  jobs j hj := (Table.not_mem_empty j hj).elim

/-- Every start of a job ends in a timeout, goes on, or is the last one. -/
def Balanced : JobStatus → Nat → Nat → Prop
  | .pending, started, timedOut => started = timedOut
  | .running, started, timedOut => started = timedOut + 1
  | _, started, timedOut => started ≤ timedOut + 1

/-- The counts of every job balance, and a job that was marked failed is closed for good. -/
structure Counted (tr : List (Transition World Action)) (w : World) : Prop where
  rows : ∀ j ∈ w.db.jobs, Balanced j.status (starts tr j.id) (timeouts tr j.id)
  absent : ∀ job, (∀ j ∈ w.db.jobs, j.id ≠ job) → starts tr job = 0 ∧ timeouts tr job = 0
  marked : ∀ u ∈ tr, ∀ i ∈ u.pre.db.jobs, u.pre.Marks u.act i →
    ∃ j ∈ w.db.jobs, j.id = i.id ∧ j.status.isOpen = false

section Step

variable {tr : List (Transition World Action)} {w w' : World} {a : Action} {job : Uuid}
  {j j' : Job}

@[simp] theorem starts_snoc {t : Transition World Action} :
    starts (tr ++ [t]) job = starts tr job + if t.act.claimed? = some job then 1 else 0 := by
  simp [starts, List.countP_append, List.countP_singleton]

@[simp] theorem timeouts_snoc {t : Transition World Action} :
    timeouts (tr ++ [t]) job = timeouts tr job + if TimesOut t job then 1 else 0 := by
  simp [timeouts, List.countP_append, List.countP_singleton]

theorem claimed?_eq_some : a.claimed? = some job ↔ ∃ k locked, a = .claim k job locked := by
  constructor
  · intro h
    cases a <;> simp_all [Action.claimed?]
  · rintro ⟨k, locked, rfl⟩
    rfl

theorem timesOut_iff (hj : j ∈ w.db.jobs) (hj' : j' ∈ w'.db.jobs) (hi : j'.id = j.id) :
    TimesOut ⟨w, a, w'⟩ j.id ↔
      j.status = .running ∧ (a.claimed? = some j.id ∨ j'.status = .pending) := by
  constructor
  · rintro ⟨i, him, hid, hr, hc⟩
    obtain rfl := Table.eq_of_key_eq him hj hid
    refine ⟨hr, hc.imp id ?_⟩
    rintro ⟨i', him', hid', hp⟩
    rwa [Table.eq_of_key_eq hj' him' (hi.trans hid'.symm)]
  · rintro ⟨hr, hc⟩
    exact ⟨j, hj, rfl, hr, hc.imp id fun hp => ⟨j', hj', hi, hp⟩⟩

/-- A step that does not claim the job keeps its status, closes it, or releases it. -/
theorem balanced_of_unclaimed {started timedOut : Nat} (hj : j ∈ w.db.jobs)
    (hj' : j' ∈ w'.db.jobs) (hi : j'.id = j.id) (hc : a.claimed? ≠ some j.id)
    (hb : Balanced j.status started timedOut)
    (hst : j'.status = j.status ∨ j'.status.isOpen = false ∨
      j.status = .running ∧ j'.status = .pending) :
    Balanced j'.status (started + if a.claimed? = some j.id then 1 else 0)
      (timedOut + if TimesOut ⟨w, a, w'⟩ j.id then 1 else 0) := by
  simp only [timesOut_iff hj hj' hi, hc, false_or]
  rcases hst with hst | hst | ⟨hr, hp⟩
  · rw [hst]
    cases hs : j.status <;> simp_all [Balanced]
  · cases hs : j.status <;> cases hs' : j'.status <;> simp_all [Balanced, JobStatus.isOpen]
  · simp_all [Balanced]

theorem balanced_of_claimed {started timedOut : Nat} (hj : j ∈ w.db.jobs) (hj' : j' ∈ w'.db.jobs)
    (hi : j'.id = j.id) (hc : a.claimed? = some j.id) (hb : Balanced j.status started timedOut)
    (hr : j'.status = .running) (ho : j.status.isOpen = true) :
    Balanced j'.status (started + if a.claimed? = some j.id then 1 else 0)
      (timedOut + if TimesOut ⟨w, a, w'⟩ j.id then 1 else 0) := by
  simp only [timesOut_iff hj hj' hi, hc, true_or, and_true, hr]
  cases hs : j.status <;> simp_all [Balanced, JobStatus.isOpen]

/-- The status of the row after the step, apart from a claim of the job. -/
theorem status_of_unclaimed (hstep : w.JobStep a j j') (hc : a.claimed? ≠ some j.id) :
    j'.status = j.status ∨ j'.status.isOpen = false ∨
      j.status = .running ∧ j'.status = .pending := by
  cases hstep with
  | same => exact .inl rfl
  | started ha => exact absurd (claimed?_eq_some.mpr ⟨_, _, ha⟩) hc
  | released _ _ ht => exact .inr (.inr ⟨World.status_of_timedOut ht, rfl⟩)
  | output => exact .inr (.inl rfl)
  | failed =>
    rw [World.recordFailure_status]
    split
    · exact .inr (.inl rfl)
    · exact .inl rfl
  | unknown => exact .inr (.inl rfl)
  | heartbeat => exact .inl rfl

theorem status_of_claimed (hstep : w.JobStep a j j') (hc : a.claimed? = some j.id) :
    j'.status = .running ∧ j.status.isOpen = true := by
  obtain ⟨k, locked, rfl⟩ := claimed?_eq_some.mp hc
  cases hstep with
  | same hn => exact absurd rfl (hn k locked)
  | started _ _ hcl => exact ⟨rfl, World.isOpen_of_claimable hcl⟩
  | released hn => exact absurd rfl (hn k locked)
  | output ho =>
    obtain ⟨_, _, _, _, ⟨⟩, -⟩ := ho
  | failed ha => cases ha
  | unknown ha => cases ha
  | heartbeat ha => cases ha

theorem balanced_of_step {started timedOut : Nat} (hj : j ∈ w.db.jobs) (hj' : j' ∈ w'.db.jobs)
    (hi : j'.id = j.id) (hstep : w.JobStep a j j') (hb : Balanced j.status started timedOut) :
    Balanced j'.status (started + if a.claimed? = some j.id then 1 else 0)
      (timedOut + if TimesOut ⟨w, a, w'⟩ j.id then 1 else 0) := by
  by_cases hc : a.claimed? = some j.id
  · obtain ⟨hr, ho⟩ := status_of_claimed hstep hc
    exact balanced_of_claimed hj hj' hi hc hb hr ho
  · exact balanced_of_unclaimed hj hj' hi hc hb (status_of_unclaimed hstep hc)

/-- The row of a job whose attempt has just been marked. -/
theorem status_of_marks {db : Db} {files : Files} (hj : j ∈ w.db.jobs) (hf : w.Marks a j)
    (h : w.Effect a db files) (hj' : j' ∈ db.jobs) (hi : j'.id = j.id) : j'.status = .failed := by
  obtain ⟨hr, hf⟩ := hf
  cases h with
  | @failed k job e pending hp =>
    simp only [World.marking?, hp, Option.some.injEq] at hf
    subst hf
    have hm : j' ∈ w.db.jobs.update (fun i => i.id = j.id) (recordFailure w.now e)
      (recordFailure_id _ _) := hj'
    rw [Table.eq_of_mem_update hj hm hi, World.recordFailure_status, if_pos hr]
  | @unknown k providers aid i hp him hn =>
    have hfind : w.db.job? i.id = some i := Db.job?_eq_some.mpr ⟨him, rfl⟩
    simp only [World.marking?, hp, hfind, hn, Option.bind_some, Option.isNone_none, if_true,
      Option.some.injEq] at hf
    obtain rfl := Table.eq_of_key_eq him hj hf
    have hm : j' ∈ w.db.jobs.update (fun r => r.id = i.id) (Job.withUnknownType w.now)
      (by intro; rfl) := hj'
    rw [Table.eq_of_mem_update hj hm hi]
    rfl
  | silent hs => cases a <;> first | exact hs.elim | cases hf
  | @committed k providers aid i _ hp him hc =>
    obtain ⟨_, _, _, handler, ⟨⟩, -, -, hh, -⟩ := hc
    have hfind : w.db.job? i.id = some i := Db.job?_eq_some.mpr ⟨him, rfl⟩
    simp [World.marking?, hp, hfind, hh] at hf
  | @raised k providers aid i hp him hh =>
    have hfind : w.db.job? i.id = some i := Db.job?_eq_some.mpr ⟨him, rfl⟩
    obtain ⟨handler, hh⟩ := Option.isSome_iff_exists.mp hh
    simp [World.marking?, hp, hfind, hh] at hf
  | refused => cases hf
  | served => cases hf
  | claimed => cases hf
  | heartbeat => cases hf
  | deletion => cases hf
  | crashedDeletion => cases hf

/-- A failed attempt does not get its job back into the queue. -/
theorem status_of_fails {db : Db} {files : Files} (hj : j ∈ w.db.jobs) (hf : w.Fails a j)
    (h : w.Effect a db files) (hj' : j' ∈ db.jobs) (hi : j'.id = j.id) : j'.status ≠ .pending := by
  rcases hf with hf | ⟨hr, hf⟩
  · rw [status_of_marks hj hf h hj' hi]
    exact nofun
  cases h with
  | @committed k providers aid i _ hp him hc hcom =>
    -- the handler of the job itself has committed
    have hid : i.id = j.id := by
      have hfind : w.db.job? i.id = some i := Db.job?_eq_some.mpr ⟨him, rfl⟩
      simp only [World.refusing?, hp, hfind, Option.bind_some, Option.bind_eq_some_iff] at hf
      obtain ⟨handler, -, hf⟩ := hf
      split at hf
      · exact Option.some.inj (Option.ite_none_right_eq_some.mp hf).2
      · cases hf
    obtain rfl := Table.eq_of_key_eq him hj hid
    have out {payload : Json} (hm : j' ∈ w.db.jobs.update (fun r => r.id = i.id)
        (Job.withOutput payload) (by intro; rfl)) : j'.status ≠ .pending := by
      rw [Table.eq_of_mem_update hj hm hi]
      exact nofun
    cases hcom <;> exact out hj'
  | raised =>
    rw [Table.eq_of_key_eq hj' hj hi, hr]
    exact nofun
  | @unknown k providers aid i hp him hn =>
    have hfind : w.db.job? i.id = some i := Db.job?_eq_some.mpr ⟨him, rfl⟩
    simp [World.refusing?, hp, hfind, hn] at hf
  | silent hs => cases a <;> first | exact hs.elim | cases hf
  | refused => cases hf
  | served => cases hf
  | claimed => cases hf
  | failed => cases hf
  | heartbeat => cases hf
  | deletion => cases hf
  | crashedDeletion => cases hf

theorem mem_of_claimed (h : w.step a = some w') (hc : a.claimed? = some job) :
    ∃ j ∈ w.db.jobs, j.id = job := by
  obtain ⟨k, locked, rfl⟩ := claimed?_eq_some.mp hc
  exact World.mem_of_claim (World.effect_of_step h)

theorem counted_step (hw : w.Settled) (h : w.step a = some w') (hcnt : Counted tr w) :
    Counted (tr ++ [⟨w, a, w'⟩]) w' := by
  have hev := World.jobs_of_effect hw (World.effect_of_step h)
  -- a job that is not in the table has never been claimed
  have absent {job : Uuid} (hn : ∀ j ∈ w.db.jobs, j.id ≠ job) :
      starts (tr ++ [⟨w, a, w'⟩]) job = 0 ∧ timeouts (tr ++ [⟨w, a, w'⟩]) job = 0 := by
    obtain ⟨hs, ht⟩ := hcnt.absent job hn
    rw [starts_snoc, timeouts_snoc, hs, ht, if_neg, if_neg]
    · exact ⟨rfl, rfl⟩
    · rintro ⟨j, hj, hid, -⟩
      exact hn j hj hid
    · intro hc
      obtain ⟨j, hj, hid⟩ := mem_of_claimed h hc
      exact hn j hj hid
  constructor
  · intro j' hj'
    by_cases hex : ∃ j ∈ w.db.jobs, j.id = j'.id
    · obtain ⟨j, hj, hi⟩ := hex
      rw [starts_snoc, timeouts_snoc, ← hi]
      exact balanced_of_step hj hj' hi.symm (hev.row hj hj' hi.symm) (hcnt.rows j hj)
    · push Not at hex
      obtain ⟨hs, ht⟩ := absent hex
      rw [hs, ht]
      rcases hev.origin j' hj' with ⟨j, hj, hi, -⟩ | hnew
      · exact absurd hi.symm (hex j hj)
      · cases hnew <;> rfl
  · intro id hn
    refine absent fun j hj hid => ?_
    obtain ⟨j', hj', hi, -⟩ := hev.kept j hj
    exact hn j' hj' (hi.trans hid)
  · intro u hu i hi hf
    rcases List.mem_append.mp hu with hu | hu
    · obtain ⟨j, hj, hid, hc⟩ := hcnt.marked u hu i hi hf
      obtain ⟨j', hj', hi', hstep⟩ := hev.kept j hj
      refine ⟨j', hj', hi'.trans hid, Bool.eq_false_iff.mpr fun ho => ?_⟩
      rw [hstep.isOpen_of_isOpen ho] at hc
      cases hc
    · obtain rfl := List.mem_singleton.mp hu
      obtain ⟨i', hi', hid, -⟩ := hev.kept i hi
      refine ⟨i', hi', hid, ?_⟩
      rw [status_of_marks hi hf (World.effect_of_step h) hi' hid]
      rfl

theorem counted_of_run {w₀ : World} (hq : w₀.Quiet) (hr : Run World.step w₀ tr w) :
    Counted tr w := by
  induction hr with
  | init =>
    refine ⟨fun j hj => ?_, fun _ _ => ⟨rfl, rfl⟩, fun _ hu => (List.not_mem_nil hu).elim⟩
    have hn := hq.jobs j hj
    cases hs : j.status <;> simp_all [Balanced, starts, timeouts]
  | snoc hr hstep ih => exact counted_step (hq.settled.run hr) hstep ih

theorem bounded_of_run {w₀ : World} (hr : Run World.step w₀ tr w)
    (hp : Throughout RetryContract tr) : ∀ j ∈ w.db.jobs, starts tr j.id ≤ j.maxRetries + 1 := by
  cases hr with
  | init => exact fun _ _ => Nat.zero_le _
  | snoc => exact (throughout_snoc.mp hp).2.bounded

theorem retryContract_iff {w₀ : World} (hq : w₀.Quiet) (hr : Run World.step w₀ tr w)
    (hp : Throughout RetryContract tr) (h : w.step a = some w') :
    RetryContract tr ⟨w, a, w'⟩ ↔ RetryRespected tr ⟨w, a, w'⟩ := by
  have hw := hq.settled.run hr
  have hev := World.jobs_of_effect hw (World.effect_of_step h)
  have hcnt := counted_of_run hq hr
  have hcnt' := counted_step hw h hcnt
  -- right after its claim a job has been started once more than it has timed out
  have claimed {j j' : Job} (hj : j ∈ w.db.jobs) (hj' : j' ∈ w'.db.jobs) (hi : j'.id = j.id)
      (hc : a.claimed? = some j.id) : starts (tr ++ [⟨w, a, w'⟩]) j'.id =
        timeouts (tr ++ [⟨w, a, w'⟩]) j'.id + 1 := by
    have hb := hcnt'.rows j' hj'
    rwa [(status_of_claimed (hev.row hj hj' hi) hc).1] at hb
  constructor
  · intro hc
    constructor
    · intro j hj hf
      by_contra hlt
      obtain ⟨j', hj', hi, -⟩ := hev.kept j hj
      obtain ⟨next, -, hcl⟩ := hc.retried j hj hf (Nat.lt_of_not_le hlt) j' hj' hi
      have hst := World.status_of_claimable (hcl next (Int.le_refl next))
      exact status_of_fails hj hf (World.effect_of_step h) hj' hi hst
    · exact fun u hu j hj hf => hc.buried u hu j hj (.inr hf)
    · intro j hj hcl
      obtain ⟨j', hj', hi, hstep⟩ := hev.kept j hj
      have hb := hc.bounded j' hj'
      rw [claimed hj hj' hi hcl, hstep.sameOrigin.maxRetries, hi] at hb
      omega
  · intro hc
    constructor
    · intro j hj hf hlt
      exact absurd hlt (Nat.not_lt.mpr (hc.failed j hj hf))
    · intro u hu i hi hf hmax hcl
      rcases hf with hf | hf
      case inr => exact hc.refused u hu i hi hf hmax hcl
      obtain ⟨j, hj, hid, hclosed⟩ := hcnt.marked u hu i hi hf
      obtain ⟨j', hj', hi', hstep⟩ := hev.kept j hj
      rw [(status_of_claimed hstep (hid ▸ hcl)).2] at hclosed
      cases hclosed
    · intro j' hj'
      by_cases hex : ∃ j ∈ w.db.jobs, j.id = j'.id
      · obtain ⟨j, hj, hi⟩ := hex
        have hmax := (hev.row hj hj' hi.symm).sameOrigin.maxRetries
        by_cases hcl : a.claimed? = some j.id
        · have ht := hc.timedOut j hj hcl
          rw [claimed hj hj' hi.symm hcl, ← hi, hmax]
          omega
        · have hb := bounded_of_run hr hp j hj
          rw [starts_snoc, ← hi, if_neg hcl, hmax]
          exact hb
      · push Not at hex
        have hcl : ¬ a.claimed? = some j'.id := by
          intro hcl
          obtain ⟨j, hj, hid⟩ := mem_of_claimed h hcl
          exact hex j hj hid
        rw [starts_snoc, (hcnt.absent _ hex).1, if_neg hcl]
        exact Nat.zero_le _

end Step

/-- A job whose attempt fails with retries left is pending afterwards. -/
def FailureRetried (t : Transition World Action) : Prop :=
  ∀ j ∈ t.pre.db.jobs, t.pre.Fails t.act j → j.retryCount < j.maxRetries →
    ∀ j' ∈ t.post.db.jobs, j'.id = j.id → j'.status = .pending

instance (t : Transition World Action) : Decidable (FailureRetried t) :=
  inferInstanceAs (Decidable (∀ j ∈ t.pre.db.jobs, _ → _ → ∀ j' ∈ t.post.db.jobs, _ → _))

/-- No job is started too often. -/
def StartsBounded (tr : List (Transition World Action)) (w : World) : Prop :=
  ∀ j ∈ w.db.jobs, starts tr j.id ≤ j.maxRetries + 1

instance (tr : List (Transition World Action)) (w : World) : Decidable (StartsBounded tr w) :=
  inferInstanceAs (Decidable (∀ j ∈ w.db.jobs, _))

/-- The transcription fails at the first attempt. -/
def failedOnce : List Action := open Replay in recorded ++ failingCycle 20 30

/-- Five workers crash one after the other, each with the transcription in its hands. -/
def crashedOften : List Action :=
  Replay.recorded ++ (List.range 5).flatMap fun k =>
    [.beginCycle k, .claim k (Replay.uuid 20) [], .crash k, .tick (121 * 1000000)]

end AiBadge
