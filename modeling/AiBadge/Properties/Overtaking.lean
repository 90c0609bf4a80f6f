import AiBadge.Lib.Charging
import AiBadge.Properties.DeletionRecovery
import AiBadge.Properties.Retry

/-! # Bounded overtaking in the two queues

A row that is due is passed over only by older ones: by each that still waits at most once, and
once more for every attempt of it that times out or dies.
-/

namespace AiBadge

open Lib

/-- A worker claims another job while this one could be claimed. -/
def World.passesOver (w : World) (job : Uuid) : Action → Bool
  | .claim _ i locked => i ≠ job && job ∉ locked &&
      ((releaseTimedOutJobs w.now w.db).job? job).any (claimable w.now)
  | _ => false

/-- How often the job is passed over. -/
def overtakings (tr : List (Transition World Action)) (job : Uuid) : Nat :=
  tr.countP fun t => t.pre.passesOver job t.act

/-- One, unless a worker has taken the job. -/
def World.waiting (w : World) (job : Uuid) : Nat :=
  if ∃ j ∈ w.db.jobs, j.id = job ∧ j.status ≠ .pending then 0 else 1

/-- The other jobs that were created no later. -/
def World.elders (w : World) (j : Job) : List Job :=
  w.db.jobs.select fun i => i.id ≠ j.id && i.createdAt ≤ j.createdAt

/-- The deletion job that a worker takes, also if it dies before the commit. -/
def Action.deletes? : Action → Option Uuid
  | .processDeletion _ d _ _ => some d
  | .crashDeleting _ d _ _ => some d
  | _ => none

def Action.diesDeleting? : Action → Option Uuid
  | .crashDeleting _ d _ _ => some d
  | _ => none

def Action.deletionLocks : Action → List Uuid
  | .processDeletion _ _ locked _ => locked
  | .crashDeleting _ _ locked _ => locked
  | _ => []

/-- A worker takes another deletion job while this one is due. -/
def World.passesOverDeletion (w : World) (id : Uuid) (a : Action) : Bool :=
  a.deletes?.any (· ≠ id) && id ∉ a.deletionLocks &&
    decide (∃ d ∈ w.db.deletionJobs, d.id = id ∧ d.status = .pending ∧
      d.nextRunAt.all (· ≤ w.now) = true)

def deletionOvertakings (tr : List (Transition World Action)) (id : Uuid) : Nat :=
  tr.countP fun t => t.pre.passesOverDeletion id t.act

def World.deletionWaiting (w : World) (id : Uuid) : Nat :=
  if ∃ d ∈ w.db.deletionJobs, d.id = id ∧ d.status ≠ .pending then 0 else 1

def World.deletionElders (w : World) (d : DeletionJob) : List DeletionJob :=
  w.db.deletionJobs.select fun i => i.id ≠ d.id && i.createdAt ≤ d.createdAt

/-- How often a worker dies while it deletes for the job. -/
def deletionCrashes (tr : List (Transition World Action)) (id : Uuid) : Nat :=
  tr.countP fun t => t.act.diesDeleting? = some id

section Jobs

variable {w w' : World} {a : Action} {job : Uuid} {j : Job}

theorem waiting_le_one : w.waiting job ≤ 1 := by
  unfold World.waiting
  split <;> omega

theorem waiting_of_mem (hj : j ∈ w.db.jobs) :
    w.waiting j.id = if j.status = .pending then 1 else 0 := by
  unfold World.waiting
  by_cases hp : j.status = .pending
  · rw [if_pos hp, if_neg]
    rintro ⟨i, hi, hid, hn⟩
    obtain rfl := Table.eq_of_key_eq hi hj hid
    exact hn hp
  · rw [if_neg hp, if_pos ⟨j, hj, rfl, hp⟩]

theorem waiting_of_absent (h : ∀ j ∈ w.db.jobs, j.id ≠ job) : w.waiting job = 1 := by
  rw [World.waiting, if_neg]
  rintro ⟨j, hj, hid, -⟩
  exact h j hj hid

/-- A claim takes a job that waits, or one whose attempt has timed out, and only a timeout makes a
job wait again. -/
theorem waiting_step (hw : w.Settled) (h : w.step a = some w') :
    w'.waiting job + (if a.claimed? = some job then 1 else 0) ≤
      w.waiting job + if TimesOut ⟨w, a, w'⟩ job then 1 else 0 := by
  have hev := World.jobs_of_effect hw (World.effect_of_step h)
  by_cases hex : ∃ j ∈ w.db.jobs, j.id = job
  · obtain ⟨j, hj, rfl⟩ := hex
    obtain ⟨j', hj', hid, hstep⟩ := hev.kept j hj
    rw [waiting_of_mem hj, ← hid, waiting_of_mem hj', hid]
    simp only [timesOut_iff hj hj' hid]
    by_cases hc : a.claimed? = some j.id
    · obtain ⟨hr, ho⟩ := status_of_claimed hstep hc
      cases hs : j.status <;> simp_all [JobStatus.isOpen]
    · rcases status_of_unclaimed hstep hc with hst | hst | ⟨hr, hp⟩
      · simp [hst, hc]
      · cases hs : j'.status <;> simp_all [JobStatus.isOpen]
      · simp [hr, hp, hc]
  · push Not at hex
    have hc : a.claimed? ≠ some job := by
      intro hc
      obtain ⟨j, hj, hid⟩ := mem_of_claimed h hc
      exact hex j hj hid
    have hle : w'.waiting job ≤ 1 := waiting_le_one
    rw [waiting_of_absent hex, if_neg hc]
    omega

/-- Every job has the default priority. -/
theorem priority_of_run {now : Timestamp} {tr : List (Transition World Action)}
    (hr : SystemRun now tr w) : ∀ j ∈ w.db.jobs, j.priority = 0 := by
  have key : w.Sound ∧ ∀ j ∈ w.db.jobs, j.priority = 0 := by
    refine hr.invariant (I := fun w => w.Sound ∧ ∀ j ∈ w.db.jobs, j.priority = 0)
      ⟨World.sound_init now, fun j hj => (Table.not_mem_empty j hj).elim⟩ ?_
    rintro v a v' ⟨hv, hp⟩ h
    refine ⟨hv.step h, fun j hj => ?_⟩
    rcases (hv.jobs h).origin j hj with ⟨i, hi, -, hstep⟩ | hnew
    · exact hstep.sameOrigin.priority.trans (hp i hi)
    · cases hnew <;> rfl
  exact key.2

/-- A claim that passes over a job takes one that was created no later. -/
theorem passesOver_step (hd : ∀ j ∈ w.db.jobs, j.priority = 0) (h : w.step a = some w')
    (hp : w.passesOver job a = true) :
    ∃ i, a.claimed? = some i ∧ i ≠ job ∧ w.db.jobs.Elder Job.createdAt i job := by
  have he := World.effect_of_step h
  cases a with
  | claim k i locked =>
    simp only [World.passesOver, Bool.and_eq_true, decide_eq_true_eq, Option.any_eq_true] at hp
    obtain ⟨⟨hne, hlocked⟩, j₁, hj₁, hcl⟩ := hp
    obtain ⟨hj₁, hid₁⟩ := Db.job?_eq_some.mp hj₁
    obtain ⟨j, hj, he₁⟩ := Table.mem_update.mp
      (show j₁ ∈ w.db.jobs.update (timedOut w.now) Job.withRelease (by intro; rfl) from hj₁)
    have hjc : j₁.id = j.id ∧ j₁.createdAt = j.createdAt ∧ j₁.priority = j.priority := by
      rw [he₁]
      split <;> exact ⟨rfl, rfl, rfl⟩
    generalize w'.db = db at he
    generalize w'.files = files at he
    cases he with
    | silent hs => exact hs.elim
    | @claimed _ i _ hph hi =>
      obtain ⟨i₀, hi₀, hid, hie, -⟩ := World.claimable_of_candidate hi
      have hic : i.createdAt = i₀.createdAt ∧ i.priority = i₀.priority := by
        rw [hie]
        split <;> exact ⟨rfl, rfl⟩
      -- the query returns a row that stands before every other that it may return
      have hbefore : ordersBefore i j₁ = true := by
        obtain ⟨-, hall⟩ := List.mem_filter.mp hi
        apply List.all_eq_true.mp hall
        apply Table.mem_select.mpr ⟨hj₁, ?_⟩
        simp [hcl, hid₁, hlocked]
      refine ⟨i.id, rfl, hne, i₀, hi₀, j, hj, hid.symm, hjc.1.symm.trans hid₁, ?_⟩
      simp only [ordersBefore, hic.1, hic.2, hjc.2.1, hjc.2.2, hd i₀ hi₀, hd j hj]
        at hbefore
      simpa using hbefore
  | _ => simp [World.passesOver] at hp

/-- In every run a job is passed over, while it is ready to be claimed, at most once by each other
job that was created no later and waits when the run begins or is queued in it, and once more for
each attempt of those that times out. Jobs that are created later never go before it. -/
theorem overtakings_le {now : Timestamp} {tr₀ tr : List (Transition World Action)} {w₀ : World}
    (hr₀ : SystemRun now tr₀ w₀) (hr : Run World.step w₀ tr w) (hj : j ∈ w.db.jobs) :
    overtakings tr j.id ≤
      ((w.elders j).map fun i => w₀.waiting i.id + timeouts tr i.id).sum := by
  have hset {tr : List (Transition World Action)} {w : World} (hr : Run World.step w₀ tr w) :
      w.Settled := World.settled_of_run (Run.append hr₀ hr)
  apply hr.passed_le (T := fun w => w.db.jobs) (p := fun w a => w.passesOver j.id a)
    (e := Action.claimed?) (f := fun job w => w.waiting job) (g := fun job t => TimesOut t job) hj
  · intro tr v a v' hr h i hi
    obtain ⟨i', hi', hid, hstep⟩ := (World.jobs_of_effect (hset hr) (World.effect_of_step h)).kept i hi
    exact ⟨i', hi', hid, hstep.sameOrigin.createdAt⟩
  · intro tr v a v' hr h hp
    exact passesOver_step (priority_of_run (Run.append hr₀ hr)) h hp
  · intro tr v a v' job hr h
    simpa using waiting_step (hset hr) h

/-- Job 51 is passed over once, which is the bound. -/
def Replay.overtakenOnce (w₀ : World) (tr : List (Transition World Action)) (w : World) : Bool :=
  (w.db.job? (uuid 51)).any fun j => decide (overtakings tr j.id = 1) &&
    decide (((w.elders j).map fun i => w₀.waiting i.id + timeouts tr i.id).sum = 1)

/-- Two publish jobs wait, and the worker takes the older one first. -/
theorem overtakings_le_two : ∃ tr₀ w₀ tr w j, SystemRun 0 tr₀ w₀ ∧ Run World.step w₀ tr w ∧
    j ∈ w.db.jobs ∧ overtakings tr j.id = 1 ∧
      overtakings tr j.id ≤ ((w.elders j).map fun i => w₀.waiting i.id + timeouts tr i.id).sum ∧
      ((w.elders j).map fun i => w₀.waiting i.id + timeouts tr i.id).sum = 1 := by
  obtain ⟨tr₀, w₀, hr₀, hp⟩ := exists_run
    (fun (_ : List (Transition World Action)) w₀ =>
      (execute World.step w₀ (Replay.cycle 50 60)).any fun p => Replay.overtakenOnce w₀ p.1 p.2)
    (show (execute World.step (World.init 0) (Replay.twoApproved ++
      [Replay.publish 32 50, Replay.publish 42 51])).any _ = true by decide +kernel)
  obtain ⟨tr, w, hr, hp⟩ := exists_run (Replay.overtakenOnce w₀) hp
  obtain ⟨j, hj, hp⟩ := (Option.any_eq_true _ _).mp hp
  obtain ⟨hone, hsum⟩ := Bool.and_eq_true_iff.mp hp
  obtain ⟨hj, -⟩ := Db.job?_eq_some.mp hj
  exact ⟨tr₀, w₀, tr, w, j, hr₀, hr, hj, of_decide_eq_true hone, overtakings_le hr₀ hr hj,
    of_decide_eq_true hsum⟩

end Jobs

section Deletions

variable {w w' : World} {a : Action} {id : Uuid} {d : DeletionJob}

theorem World.DeletionStep.createdAt {d' : DeletionJob} (h : w.DeletionStep a d d') :
    d'.createdAt = d.createdAt := by
  cases h <;> rfl

theorem deletionWaiting_of_mem (hd : d ∈ w.db.deletionJobs) :
    w.deletionWaiting d.id = if d.status = .pending then 1 else 0 := by
  unfold World.deletionWaiting
  by_cases hp : d.status = .pending
  · rw [if_pos hp, if_neg]
    rintro ⟨e, he, hid, hn⟩
    obtain rfl := Table.eq_of_key_eq he hd hid
    exact hn hp
  · rw [if_neg hp, if_pos ⟨d, hd, rfl, hp⟩]

theorem deletionWaiting_of_absent (h : ∀ d ∈ w.db.deletionJobs, d.id ≠ id) :
    w.deletionWaiting id = 1 := by
  rw [World.deletionWaiting, if_neg]
  rintro ⟨d, hd, hid, -⟩
  exact h d hd hid

/-- A worker takes a deletion job that is pending and stands before every other that is. -/
theorem candidate_of_deletes (hw : w.Settled) (h : w.step a = some w')
    (ha : a.deletes? = some id) : ∃ i ∈ w.db.deletionJobs, i.id = id ∧ i.status = .pending ∧
      ∀ d ∈ w.db.deletionJobs, d.status = .pending → d.nextRunAt.all (· ≤ w.now) = true →
        d.id ∉ a.deletionLocks → i.createdAt ≤ d.createdAt := by
  have taken {k : WorkerId} {pending : List (Db → Db)} {i : DeletionJob} {locked : List Uuid}
      (hp : (w.workers k).phase = .tail pending)
      (hi : i ∈ deletionCandidates locked w.now (w.session pending).view) :
      ∀ d ∈ w.db.deletionJobs, d.status = .pending → d.nextRunAt.all (· ≤ w.now) = true →
        d.id ∉ locked → i.createdAt ≤ d.createdAt := by
    intro d hd hpend hdue hlocked
    obtain ⟨-, hall⟩ := List.mem_filter.mp hi
    rw [← (hw.tail hp).deletionJobs] at hd
    apply of_decide_eq_true
    apply List.all_eq_true.mp hall d
    apply Table.mem_select.mpr ⟨hd, ?_⟩
    simp [hpend, hdue, hlocked]
  have he := World.effect_of_step h
  generalize w'.db = db at he
  generalize w'.files = files at he
  cases he with
  | deletion hp hi =>
    obtain ⟨hm, hpend⟩ := hw.candidate hp hi
    exact ⟨_, hm, Option.some.inj ha, hpend, taken hp hi⟩
  | crashedDeletion hp hi =>
    obtain ⟨hm, hpend⟩ := hw.candidate hp hi
    exact ⟨_, hm, Option.some.inj ha, hpend, taken hp hi⟩
  | silent hs => cases a <;> first | exact hs.elim | cases ha
  | _ => cases ha

theorem passesOverDeletion_step (hw : w.Settled) (h : w.step a = some w')
    (hp : w.passesOverDeletion id a = true) :
    ∃ i, a.deletes? = some i ∧ i ≠ id ∧ w.db.deletionJobs.Elder DeletionJob.createdAt i id := by
  simp only [World.passesOverDeletion, Bool.and_eq_true, decide_eq_true_eq,
    Option.any_eq_true] at hp
  obtain ⟨⟨⟨i, hi, hne⟩, hlocked⟩, d, hd, rfl, hpend, hdue⟩ := hp
  obtain ⟨r, hr, rfl, -, hmin⟩ := candidate_of_deletes hw h hi
  exact ⟨r.id, hi, hne, r, hr, d, hd, rfl, rfl, hmin d hd hpend hdue hlocked⟩

/-- A worker that takes a deletion job dies, or leaves it done. -/
theorem processed_of_deletes (h : w.step a = some w') (ha : a.deletes? = some id) :
    a.diesDeleting? = some id ∨ ∀ d ∈ w'.db.deletionJobs, d.id = id → d.status ≠ .pending := by
  have he := World.effect_of_step h
  generalize w'.db = db at he
  generalize w'.files = files at he
  cases he with
  | deletion hp hi he =>
    obtain rfl := Option.some.inj ha
    exact .inr fun d hd hid => he.processed hd hid
  | crashedDeletion => exact .inl ha
  | silent hs => cases a <;> first | exact hs.elim | cases ha
  | _ => cases ha

theorem deletionWaiting_le_one : w.deletionWaiting id ≤ 1 := by
  unfold World.deletionWaiting
  split <;> omega

/-- A deletion job is pending when it is taken, and stays so only if its worker dies. -/
theorem deletionWaiting_step (hw : w.Settled) (h : w.step a = some w') :
    w'.deletionWaiting id + (if a.deletes? = some id then 1 else 0) ≤
      w.deletionWaiting id + if a.diesDeleting? = some id then 1 else 0 := by
  have hev := World.deletions_of_effect hw (World.effect_of_step h)
  have hle : w'.deletionWaiting id ≤ 1 := deletionWaiting_le_one
  by_cases hc : a.deletes? = some id
  · obtain ⟨d, hd, rfl, hpend, -⟩ := candidate_of_deletes hw h hc
    rw [if_pos hc, deletionWaiting_of_mem hd, if_pos hpend]
    rcases processed_of_deletes h hc with hdies | hdone
    · rw [if_pos hdies]
      omega
    · obtain ⟨d', hd', hid, -⟩ := hev.kept d hd
      rw [← hid, deletionWaiting_of_mem hd', if_neg (hdone d' hd' hid)]
      omega
  · rw [if_neg hc]
    by_cases hex : ∃ d ∈ w.db.deletionJobs, d.id = id
    · obtain ⟨d, hd, rfl⟩ := hex
      obtain ⟨d', hd', hid, hstep⟩ := hev.kept d hd
      have hst : d' = d := by
        cases hstep with
        | same => rfl
        | completed ha => exact absurd (congrArg Action.deletes? ha) hc
        | failed ha => exact absurd (congrArg Action.deletes? ha) hc
      subst hst
      rw [deletionWaiting_of_mem hd, deletionWaiting_of_mem hd']
      omega
    · push Not at hex
      rw [deletionWaiting_of_absent hex]
      omega

/-- The deletion job has been processed. -/
def World.Processed (w : World) (id : Uuid) : Prop :=
  ∃ d ∈ w.db.deletionJobs, d.id = id ∧ d.status ≠ .pending

theorem World.Processed.step (hp : w.Processed id) (hw : w.Settled) (h : w.step a = some w') :
    w'.Processed id := by
  obtain ⟨d, hd, hid, hst⟩ := hp
  obtain ⟨d', hd', hid', hstep⟩ := (World.deletions_of_effect hw (World.effect_of_step h)).kept d hd
  refine ⟨d', hd', hid'.trans hid, ?_⟩
  cases hstep with
  | same => exact hst
  | completed => exact nofun
  | failed => exact nofun

/-- A deletion job whose worker has not died over it has been processed. -/
theorem processed_of_run {tr : List (Transition World Action)} {w₀ : World} (hw₀ : w₀.Settled)
    (hr : Run World.step w₀ tr w) : ∀ t ∈ tr, t.act.deletes? = some id →
      t.act.diesDeleting? ≠ some id → w.Processed id := by
  induction hr with
  | init => exact fun _ ht => absurd ht List.not_mem_nil
  | @snoc tr w w' a hr h ih =>
    have hw := hw₀.run hr
    intro t ht hd hn
    rcases List.mem_append.mp ht with ht | ht
    · exact (ih t ht hd hn).step hw h
    · obtain rfl := List.mem_singleton.mp ht
      obtain ⟨d, hdm, hid, -⟩ := candidate_of_deletes hw h hd
      obtain ⟨d', hd', hid', -⟩ :=
        (World.deletions_of_effect hw (World.effect_of_step h)).kept d hdm
      have hdone := (processed_of_deletes h hd).resolve_left hn
      exact ⟨d', hd', hid'.trans hid, hdone d' hd' (hid'.trans hid)⟩

/-- What has been processed is never taken again. -/
theorem taken_once {tr : List (Transition World Action)} {w₀ : World} (hw₀ : w₀.Settled)
    (hr : Run World.step w₀ tr w) : tr.Pairwise fun t u => ∀ id, t.act.deletes? = some id →
      t.act.diesDeleting? ≠ some id → u.act.deletes? ≠ some id := by
  induction hr with
  | init => exact .nil
  | @snoc tr w w' a hr h ih =>
    refine List.pairwise_append.mpr ⟨ih, List.pairwise_singleton _ _, fun t ht u hu id hd hn hd' => ?_⟩
    obtain rfl := List.mem_singleton.mp hu
    obtain ⟨d, hdm, hid, hst⟩ := processed_of_run hw₀ hr t ht hd hn
    obtain ⟨i, him, hii, hpend, -⟩ := candidate_of_deletes (hw₀.run hr) h hd'
    rw [Table.eq_of_key_eq him hdm (hii.trans hid.symm)] at hpend
    exact hst hpend

/-- The same of the deletion queue: a deletion job that is due is passed over at most once by each
other that was created no later, and once more for each time a worker dies over one of those. None
that was processed is taken again. -/
theorem deletionOvertakings_le {now : Timestamp} {tr₀ tr : List (Transition World Action)}
    {w₀ : World} (hr₀ : SystemRun now tr₀ w₀) (hr : Run World.step w₀ tr w)
    (hd : d ∈ w.db.deletionJobs) :
    deletionOvertakings tr d.id ≤
      ((w.deletionElders d).map fun i =>
        w₀.deletionWaiting i.id + deletionCrashes tr i.id).sum ∧
    tr.Pairwise fun t u => ∀ id, t.act.deletes? = some id → t.act.diesDeleting? ≠ some id →
      u.act.deletes? ≠ some id := by
  have hset {tr : List (Transition World Action)} {w : World} (hr : Run World.step w₀ tr w) :
      w.Settled := World.settled_of_run (Run.append hr₀ hr)
  refine ⟨?_, taken_once (hset .init) hr⟩
  apply hr.passed_le (T := fun w => w.db.deletionJobs)
    (p := fun w a => w.passesOverDeletion d.id a) (e := Action.deletes?)
    (f := fun id w => w.deletionWaiting id) (g := fun id t => t.act.diesDeleting? = some id) hd
  · intro tr v a v' hr h i hi
    obtain ⟨i', hi', hid, hstep⟩ :=
      (World.deletions_of_effect (hset hr) (World.effect_of_step h)).kept i hi
    exact ⟨i', hi', hid, hstep.createdAt⟩
  · intro tr v a v' hr h hp
    exact passesOverDeletion_step (hset hr) h hp
  · intro tr v a v' id hr h
    simpa using deletionWaiting_step (hset hr) h

/-- Worker 1 dies over the deletion job 70, and worker 0 processes it. -/
def Replay.erasedAfterCrash : List Action :=
  [.beginCycle 1, .claimNone 1 [], .crashDeleting 1 (uuid 70) [] fun _ => .ok ()] ++ erase 70

def Replay.overtakenTwice (tr : List (Transition World Action)) (w : World) : Bool :=
  decide (∃ d ∈ w.db.deletionJobs, deletionOvertakings tr d.id = 2)

/-- The second job of a retraction waits while a worker dies over the first, which is then done. -/
theorem deletionOvertakings_le_crashed : ∃ tr₀ w₀ tr w d, SystemRun 0 tr₀ w₀ ∧
    Run World.step w₀ tr w ∧ d ∈ w.db.deletionJobs ∧ deletionOvertakings tr d.id = 2 ∧
      deletionOvertakings tr d.id ≤ ((w.deletionElders d).map fun i =>
        w₀.deletionWaiting i.id + deletionCrashes tr i.id).sum ∧
      tr.Pairwise fun t u => ∀ id, t.act.deletes? = some id → t.act.diesDeleting? ≠ some id →
        u.act.deletes? ≠ some id := by
  obtain ⟨tr₀, w₀, hr₀, hp⟩ := exists_run
    (fun (_ : List (Transition World Action)) w₀ =>
      (execute World.step w₀ Replay.erasedAfterCrash).any fun p => Replay.overtakenTwice p.1 p.2)
    (show (execute World.step (World.init 0) (Replay.published ++ [Replay.retract 70])).any _ = true
      by decide +kernel)
  obtain ⟨tr, w, hr, hp⟩ := exists_run Replay.overtakenTwice hp
  obtain ⟨d, hd, htwo⟩ := of_decide_eq_true hp
  exact ⟨tr₀, w₀, tr, w, d, hr₀, hr, hd, htwo, deletionOvertakings_le hr₀ hr hd⟩

end Deletions

end AiBadge
