import AiBadge.Properties.Retry
import AiBadge.System.WorkerStep

/-! # Mutual exclusion of workers

A worker holds its job as long as the row looks recent. The heartbeat thread keeps it
recent until the shutdown signal ends the thread, which may be long before the handler
ends.
-/

namespace AiBadge

open Lib

/-- No worker claims a job while another one is inside the handler of that job. -/
def Exclusive (t : Transition World Action) : Prop :=
  ∀ job, t.act.claimed? = some job → ∀ k, (t.pre.workers k).phase.handled? ≠ some job

/-- No poll cycle could claim a job while a worker is inside the handler of that job. -/
def ClaimFree (w : World) : Prop :=
  ∀ k job, (w.workers k).phase.handled? = some job → ∀ locked,
    ∀ j ∈ claimCandidates locked w.now (releaseTimedOutJobs w.now w.db), j.id ≠ job

/-- The live heartbeat thread of worker `k` is not late: the clock is at most the heartbeat
interval past the time it went to sleep. -/
def TimelyAt (w : World) (a : Action) (k : WorkerId) : Prop :=
  (w.workers k).phase.handled?.isSome → ∀ t ∈ (w.workers k).beat,
    w.now + a.elapsed ≤ t + heartbeatInterval

instance (w : World) (a : Action) (k : WorkerId) : Decidable (TimelyAt w a k) :=
  inferInstanceAs (Decidable (_ → ∀ t ∈ (w.workers k).beat, _))

def Timely (w : World) (a : Action) : Prop := ∀ k, TimelyAt w a k

/-- The clock does not pass the timeout of the running job that worker `k` has in its hands once
the heartbeat thread has ended. -/
def EndsInTimeAt (w : World) (a : Action) (k : WorkerId) : Prop :=
  (w.workers k).beat = none → ∀ j ∈ w.db.jobs, (w.workers k).phase.handled? = some j.id →
    j.status = .running → ∀ s ∈ j.startedAt, w.now + a.elapsed ≤ s + jobTimeout

instance (w : World) (a : Action) (k : WorkerId) : Decidable (EndsInTimeAt w a k) :=
  inferInstanceAs (Decidable (_ → ∀ j ∈ w.db.jobs, _ → _ → ∀ s ∈ j.startedAt, _))

def EndsInTime (w : World) (a : Action) : Prop := ∀ k, EndsInTimeAt w a k

/-- The time stamp of a job shows that a worker with the heartbeat `beat` is at work. -/
structure Recent (now : Timestamp) (beat : Option Timestamp) (s : Timestamp) : Prop where
  past : s ≤ now
  young : now ≤ s + jobTimeout
  beaten : ∀ t, beat = some t → t ≤ s ∧ now ≤ t + heartbeatInterval

/-- The job is closed, or running with a recent time stamp. -/
def Held (now : Timestamp) (beat : Option Timestamp) (j : Job) : Prop :=
  j.status.isOpen = false ∨ j.status = .running ∧ j.nextRunAt.all (· ≤ now) = true ∧
    ∃ s, j.startedAt = some s ∧ Recent now beat s

/-- Whoever is inside a handler holds the job. -/
def AllHeld (w : World) : Prop :=
  ∀ k job, (w.workers k).phase.handled? = some job →
    ∃ j ∈ w.db.jobs, j.id = job ∧ Held w.now (w.workers k).beat j

theorem heartbeatInterval_lt : heartbeatInterval < jobTimeout := by decide

/-- A time stamp of this moment is recent. -/
theorem recent_now {now : Timestamp} {beat : Option Timestamp}
    (hb : ∀ t, beat = some t → t = now) : Recent now beat now where
  past := Int.le_refl now
  young := Int.le_add_of_nonneg_right (by decide)
  beaten t ht := by
    obtain rfl := hb t ht
    exact ⟨Int.le_refl _, Int.le_add_of_nonneg_right (by decide)⟩

section Step

variable {w w' : World} {a : Action} {k : WorkerId} {j j' : Job} {beat : Option Timestamp}

/-- A held job has not timed out. -/
theorem Held.not_timedOut {now t : Timestamp} (h : Held now beat j) (ht : t ≤ now) :
    timedOut t j = false := by
  rw [Bool.eq_false_iff]
  intro hto
  have hr := World.status_of_timedOut hto
  rcases h with hc | ⟨-, -, s, hs, hrec⟩
  · rw [hr] at hc
    cases hc
  · have hlt : s < t - jobTimeout := by
      simpa [timedOut, hr, hs] using hto
    have hy := hrec.young
    unfold Timestamp at *
    omega

theorem Held.not_claimable {now : Timestamp} (h : Held now beat j) :
    claimable now (if timedOut now j then j.withRelease else j) = false := by
  rw [if_neg (by simp [h.not_timedOut (Int.le_refl now)]), Bool.eq_false_iff]
  intro hcl
  have hp := World.status_of_claimable hcl
  rcases h with hc | ⟨hr, -⟩
  · rw [hp] at hc
    cases hc
  · rw [hp] at hr
    cases hr

theorem ripe_mono {now now' : Timestamp} (h : j.nextRunAt.all (· ≤ now) = true)
    (hn : now ≤ now') : j.nextRunAt.all (· ≤ now') = true := by
  cases hj : j.nextRunAt with
  | none => rfl
  | some t =>
    rw [hj] at h
    simp only [Option.all_some, decide_eq_true_eq] at h ⊢
    exact Int.le_trans h hn

theorem now_le_elapsed (now : Timestamp) (a : Action) : now ≤ now + a.elapsed :=
  Int.le_add_of_nonneg_right (Int.natCast_nonneg _)

/-- The clock moves while the worker stays inside the handler. -/
theorem Held.elapse (h : Held w.now (w.workers k).beat j) (hj : j ∈ w.db.jobs)
    (hp : (w.workers k).phase.handled? = some j.id) (ht : TimelyAt w a k)
    (he : EndsInTimeAt w a k) : Held (w.now + a.elapsed) (w.workers k).beat j := by
  refine h.imp_right ?_
  rintro ⟨hr, hnext, s, hs, hrec⟩
  have hle := now_le_elapsed w.now a
  refine ⟨hr, ripe_mono hnext hle, s, hs, Int.le_trans hrec.past hle, ?_, ?_⟩
  · cases hb : (w.workers k).beat with
    | none => exact he hb j hj hp hr s hs
    | some t =>
      have h₁ := ht (by simp [hp]) t hb
      have h₂ := (hrec.beaten t hb).1
      have h₃ := heartbeatInterval_lt
      unfold Timestamp at *
      omega
  · intro t hb
    exact ⟨(hrec.beaten t hb).1, ht (by simp [hp]) t hb⟩

/-- No step opens a job that somebody holds to another claim. -/
theorem Held.step (h : Held w.now beat j) (hel : Held (w.now + a.elapsed) beat j)
    (hstep : w.JobStep a j j') : Held (w.now + a.elapsed) beat j' := by
  cases hstep with
  | same => exact hel
  | started _ _ hcl =>
    rw [h.not_claimable] at hcl
    cases hcl
  | released _ ht hto =>
    rw [h.not_timedOut ht] at hto
    cases hto
  | output => exact .inl rfl
  | failed =>
    refine .inl ?_
    rw [World.recordFailure_status]
    split
    · rfl
    next hn => exact h.resolve_right fun hr => hn hr.1
  | unknown => exact .inl rfl
  | @heartbeat i ha _ _ hr =>
    subst ha
    rcases h with hc | ⟨-, hnext, s, -, hrec⟩
    · rw [hr] at hc
      cases hc
    · have hz : w.now + (Action.heartbeat i).elapsed = w.now := Int.add_zero _
      rw [hz]
      have hy : (0 : Int) ≤ jobTimeout := by decide
      refine .inr ⟨hr, hnext, w.now, rfl, Int.le_refl _, Int.le_add_of_nonneg_right hy, ?_⟩
      intro t hb
      obtain ⟨h₁, h₂⟩ := hrec.beaten t hb
      exact ⟨Int.le_trans h₁ hrec.past, h₂⟩

/-- The row after a heartbeat of the worker that holds the job. -/
theorem Held.afterHeartbeat (h : Held w.now beat j) (hj : j ∈ w.db.jobs)
    (hp : (w.workers k).phase.job? = some j.id) {db : Db} {files : Files}
    (he : w.Effect (.heartbeat k) db files) {beat' : Option Timestamp}
    (hb : ∀ t, beat' = some t → t = w.now) : ∃ j' ∈ db.jobs, j'.id = j.id ∧ Held w.now beat' j' := by
  cases he with
  | silent hs => exact hs.elim
  | @heartbeat _ job _ hq =>
    obtain rfl : j.id = job := Option.some.inj (hp.symm.trans hq)
    refine ⟨_, Table.mem_update_of_mem (by intro; rfl) hj, ?_, ?_⟩
    · split <;> rfl
    · rcases h with hc | ⟨hr, hnext, -⟩
      · have hr : j.status ≠ .running := by
          intro hr
          rw [hr] at hc
          cases hc
        rw [if_neg (by simp [hr])]
        exact .inl hc
      · rw [if_pos (by simp [hr])]
        exact .inr ⟨hr, hnext, w.now, rfl, recent_now hb⟩

/-- The row of a job that has just been claimed. -/
theorem held_of_claim (hw : w.Settled) {job : Uuid} {locked : List Uuid}
    (h : w.step (.claim k job locked) = some w') {beat' : Option Timestamp}
    (hb : ∀ t, beat' = some t → t = w.now) :
    ∃ j' ∈ w'.db.jobs, j'.id = job ∧ Held w.now beat' j' := by
  have he := World.effect_of_step h
  obtain ⟨j, hj, rfl⟩ := World.mem_of_claim he
  obtain ⟨j', hj', hi, hstep⟩ := (World.jobs_of_effect hw he).kept j hj
  refine ⟨j', hj', hi, ?_⟩
  cases hstep with
  | same hn => exact absurd rfl (hn k locked)
  | started _ _ hcl =>
    refine .inr ⟨rfl, ?_, w.now, rfl, recent_now hb⟩
    have hnext := (Bool.and_eq_true_iff.mp hcl).2
    split at hnext <;> exact hnext
  | released hn => exact absurd rfl (hn k locked)
  | output hc =>
    obtain ⟨_, _, _, _, ⟨⟩, -⟩ := hc
  | failed ha => cases ha
  | unknown ha => cases ha
  | heartbeat ha => cases ha

theorem allHeld_step (hw : w.Settled) (h : w.step a = some w') (hh : AllHeld w)
    (ht : Timely w a) (he : EndsInTime w a) : AllHeld w' := by
  have hev := World.jobs_of_effect hw (World.effect_of_step h)
  have hnow := World.now_of_step h
  have stay {k : WorkerId} {job : Uuid} (hp : (w.workers k).phase.handled? = some job) :
      ∃ j' ∈ w'.db.jobs, j'.id = job ∧ Held w'.now (w.workers k).beat j' := by
    obtain ⟨j, hj, rfl, hheld⟩ := hh k job hp
    obtain ⟨j', hj', hi, hstep⟩ := hev.kept j hj
    rw [hnow]
    exact ⟨j', hj', hi, hheld.step (hheld.elapse hj hp (ht k) (he k)) hstep⟩
  intro k job hp'
  have hk : w.WorkerStep a k (w.workers k) (w'.workers k) := World.worker_of_step h
  generalize hw' : w'.workers k = worker at hp' hk
  cases hk with
  | same => exact stay hp'
  | signalled => exact stay hp'
  | @claimed job' locked ha =>
    obtain rfl : job' = job := Option.some.inj hp'
    subst ha
    have hn : w'.now = w.now := hnow.trans (Int.add_zero _)
    rw [hn]
    refine held_of_claim hw h fun t hb => ?_
    split at hb
    · cases hb
    · exact (Option.some.inj hb).symm
  | beaten ha =>
    subst ha
    obtain ⟨j, hj, rfl, hheld⟩ := hh k job hp'
    have hp : (w.workers k).phase = .handling j.id := handled?_eq_some.mp hp'
    have hjob : (w.workers k).phase.job? = some j.id := by
      rw [hp]
      rfl
    have hn : w'.now = w.now := hnow.trans (Int.add_zero _)
    rw [hn]
    refine hheld.afterHeartbeat hj hjob (World.effect_of_step h) fun t hb => ?_
    split at hb
    · cases hb
    · exact (Option.some.inj hb).symm
  | called _ _ _ ho => cases ho <;> cases hp'
  | began => cases hp'
  | rested => cases hp'
  | marked => cases hp'
  | ended => cases hp'
  | crashed => cases hp'

theorem claimFree_of_allHeld (hh : AllHeld w) : ClaimFree w := by
  intro k job hp locked i hi hid
  obtain ⟨j, hj, rfl, hheld⟩ := hh k job hp
  obtain ⟨him, hq⟩ := Table.mem_select.mp (List.mem_filter.mp hi).1
  have hm : i ∈ w.db.jobs.update (timedOut w.now) Job.withRelease (by intro; rfl) := him
  obtain ⟨r, hr, rfl⟩ := Table.mem_update.mp hm
  have hrj : r.id = j.id := by
    rw [← hid]
    split <;> rfl
  obtain rfl := Table.eq_of_key_eq hr hj hrj
  have hcl := (Bool.and_eq_true_iff.mp hq).1
  rw [hheld.not_claimable] at hcl
  cases hcl

/-- A poll cycle that finds all other jobs locked may claim any job that is ready. -/
theorem exists_candidate {now : Timestamp} {db : Db} (hj : j ∈ db.jobs)
    (hcl : claimable now j = true) : ∃ locked, j ∈ claimCandidates locked now db := by
  have only {r : Job} (hr : r ∈ db.jobs)
      (hn : r.id ∉ (db.jobs.rows.map Job.id).filter (· ≠ j.id)) : r = j := by
    refine Table.eq_of_key_eq hr hj ?_
    by_contra hne
    exact hn (List.mem_filter.mpr ⟨List.mem_map_of_mem hr, by simpa using hne⟩)
  refine ⟨(db.jobs.rows.map Job.id).filter (· ≠ j.id), List.mem_filter.mpr ⟨?_, ?_⟩⟩
  · exact Table.mem_select.mpr ⟨hj, by simp [hcl]⟩
  · rw [List.all_eq_true]
    intro r hr
    obtain ⟨hr, hq⟩ := Table.mem_select.mp hr
    rw [only hr (of_decide_eq_true (Bool.and_eq_true_iff.mp hq).2)]
    simp [ordersBefore]

/-- A job whose timeout the clock passes is up for grabs. -/
theorem not_claimFree_of_overdue (h : w.step a = some w') (hh : AllHeld w)
    (he : ¬ EndsInTimeAt w a k) : ¬ ClaimFree w' := by
  unfold EndsInTimeAt at he
  push Not at he
  obtain ⟨hb, j, hj, hp, hr, s, hs, hlate⟩ := he
  obtain ⟨i, hi, hij, hheld⟩ := hh k j.id hp
  obtain rfl := Table.eq_of_key_eq hi hj hij
  rcases hheld with hc | ⟨-, hnext, s', hs', hrec⟩
  · rw [hr] at hc
    cases hc
  obtain rfl := Option.some.inj (hs'.symm.trans (Option.mem_def.mp hs))
  have hy := hrec.young
  obtain ⟨d, rfl⟩ : ∃ d, a = .tick d := by
    cases a with
    | tick d => exact ⟨d, rfl⟩
    | _ =>
      simp only [Action.elapsed] at hlate
      unfold Timestamp at *
      omega
  obtain ⟨-, w₁, hact, rfl⟩ := World.step_eq_some.mp h
  obtain rfl := Option.some.inj hact
  have hto : timedOut (w.now + d) i = true := by
    simp only [timedOut, hr, hs', Option.any_some, decide_true, Bool.true_and, decide_eq_true_eq]
    simp only [Action.elapsed] at hlate
    unfold Timestamp at *
    omega
  have hm : i.withRelease ∈ (releaseTimedOutJobs (w.now + d) w.db).jobs := by
    have hm := Table.mem_update_of_mem (p := timedOut (w.now + d)) (f := Job.withRelease)
      (by intro; rfl) hj
    rwa [if_pos hto] at hm
  have hcl : claimable (w.now + d) i.withRelease = true := by
    rw [claimable, Bool.and_eq_true]
    exact ⟨rfl, ripe_mono hnext (now_le_elapsed w.now (.tick d))⟩
  obtain ⟨locked, hc⟩ := exists_candidate hm hcl
  intro hfree
  exact hfree k i.id hp locked i.withRelease hc rfl

theorem exclusive_of_claimFree (h : w.step a = some w') (hf : ClaimFree w) :
    Exclusive ⟨w, a, w'⟩ := by
  intro job hc k hp
  obtain ⟨i, locked, rfl⟩ := claimed?_eq_some.mp hc
  obtain ⟨-, w₁, hact, rfl⟩ := World.step_eq_some.mp h
  obtain ⟨-, ⟨j, hj, hid⟩, -⟩ := World.act_claim hact
  exact hf k job hp locked j hj hid

end Step

theorem World.Quiet.allHeld {w : World} (h : w.Quiet) : AllHeld w := by
  intro k job hp
  rw [h.workers k] at hp
  cases hp

/-- With heartbeats on time, no worker can claim a job that another one is handling, exactly when
no handler outlives the timeout once its heartbeat thread has ended; and then no worker does. -/
theorem run_claimFree_iff {w₀ w : World} {tr : List (Transition World Action)} (hq : w₀.Quiet)
    (hr : Run World.step w₀ tr w) (ht : Meets Timely tr) :
    ((∀ t ∈ tr, ClaimFree t.post) ↔ Meets EndsInTime tr) ∧
      (Meets EndsInTime tr → ∀ t ∈ tr, Exclusive t) := by
  have hiff : (∀ t ∈ tr, ClaimFree t.post) ↔ Meets EndsInTime tr := by
    refine hr.forall_post_iff_meets_of (G := AllHeld) ht hq.allHeld ?_
    intro tr w a w' hr hh ht h
    have hw := hq.settled.run hr
    have hends : ClaimFree w' ↔ EndsInTime w a := by
      refine ⟨fun hf k => ?_, fun he => claimFree_of_allHeld (allHeld_step hw h hh ht he)⟩
      by_contra he
      exact not_claimFree_of_overdue h hh he hf
    exact ⟨hends, fun hf => allHeld_step hw h hh ht (hends.mp hf)⟩
  refine ⟨hiff, fun he t hm => ?_⟩
  obtain ⟨_, _, -, -, h⟩ := hr.of_mem hm
  exact exclusive_of_claimFree h
    (hr.forall_pre_of_post (claimFree_of_allHeld hq.allHeld) (hiff.mpr he) t hm)

/-- Only the workers `ks` take steps in the run. -/
def StepsOnly (ks : List WorkerId) (tr : List (Transition World Action)) : Prop :=
  ∀ t ∈ tr, ∀ k ∈ t.act.worker?, k ∈ ks

instance (ks : List WorkerId) (tr : List (Transition World Action)) : Decidable (StepsOnly ks tr) :=
  inferInstanceAs (Decidable (∀ t ∈ tr, ∀ k ∈ t.act.worker?, k ∈ ks))

/-- The workers `ks` meet a condition throughout the run. -/
def MeetsAt (C : World → Action → WorkerId → Prop) (ks : List WorkerId)
    (tr : List (Transition World Action)) : Prop :=
  ∀ t ∈ tr, ∀ k ∈ ks, C t.pre t.act k

instance (C : World → Action → WorkerId → Prop) [∀ w a k, Decidable (C w a k)]
    (ks : List WorkerId) (tr : List (Transition World Action)) : Decidable (MeetsAt C ks tr) :=
  inferInstanceAs (Decidable (∀ t ∈ tr, ∀ k ∈ ks, C t.pre t.act k))

/-- A condition on each worker that idle ones meet: only the workers `ks` that take steps matter. -/
theorem meets_of_workers {w₀ w : World} {tr : List (Transition World Action)}
    {C : World → Action → WorkerId → Prop} {ks : List WorkerId} (hq : w₀.Quiet)
    (hr : Run World.step w₀ tr w) (hi : ∀ w a k, (w.workers k).phase = .idle → C w a k)
    (hks : StepsOnly ks tr) (hc : MeetsAt C ks tr) : Meets (fun w a => ∀ k, C w a k) tr := by
  intro t hm k
  by_cases hk : k ∈ ks
  · exact hc t hm k hk
  · obtain ⟨tr₁, tr₂, rfl, hr₁, -⟩ := hr.of_mem hm
    refine hi _ _ _ ?_
    rw [World.worker_of_run hr₁ fun u hu ha => hk (hks u (List.mem_append_left _ hu) k ha)]
    exact hq.workers k

theorem timelyAt_of_idle (w : World) (a : Action) (k : WorkerId)
    (h : (w.workers k).phase = .idle) : TimelyAt w a k := by
  intro hp
  rw [h] at hp
  cases hp

theorem endsInTimeAt_of_idle (w : World) (a : Action) (k : WorkerId)
    (h : (w.workers k).phase = .idle) : EndsInTimeAt w a k := by
  intro _ j _ hp
  rw [h] at hp
  cases hp

/-- Worker 0 sends one heartbeat, gets the signal, sends its last one, and ends `d` seconds later. -/
def signalledHandler (d : Nat) : List Action :=
  Replay.recorded ++ [.beginCycle 0, .claim 0 (Replay.uuid 20) [], .tick 30000000, .heartbeat 0,
    .signal 0, .tick 30000000, .heartbeat 0, .tick (d * 1000000)]

/-- The handler ends 100 s after the last heartbeat, long after it started. -/
theorem exclusive_inTime : ∃ tr w, Run World.step (World.init 0) tr w ∧
    (∃ j ∈ w.db.jobs, j.status = .completed) ∧ ∀ t ∈ tr, Exclusive t := by
  obtain ⟨tr, w, hr, hp⟩ := exists_run
    (fun tr (w : World) => decide (∃ j ∈ w.db.jobs, j.status = .completed) &&
      decide (StepsOnly [0, 1] tr ∧ MeetsAt TimelyAt [0, 1] tr ∧ MeetsAt EndsInTimeAt [0, 1] tr))
    (show (execute World.step (World.init 0) (signalledHandler 100 ++ [.beginCycle 1,
      .claim 1 (Replay.uuid 21) [], .runHandler 0 Replay.providers (Replay.uuid 30)])).any _ = true by
        decide +kernel)
  obtain ⟨hj, hc⟩ := Bool.and_eq_true_iff.mp hp
  obtain ⟨hks, ht, he⟩ := of_decide_eq_true hc
  have hq := World.quiet_init 0
  exact ⟨tr, w, hr, of_decide_eq_true hj,
    (run_claimFree_iff hq hr (meets_of_workers hq hr timelyAt_of_idle hks ht)).2
      (meets_of_workers hq hr endsInTimeAt_of_idle hks he)⟩

/-- The handler is still at work 121 s after its last heartbeat, when another worker claims its
job. -/
theorem claimed_twice : ¬ ∀ w₀ tr w, World.Quiet w₀ → Run World.step w₀ tr w → Meets Timely tr →
    ∀ t ∈ tr, Exclusive t := by
  obtain ⟨tr, w, hr, hp⟩ := exists_run
    (fun tr _ => decide (StepsOnly [0, 1] tr ∧ MeetsAt TimelyAt [0, 1] tr ∧
      ∃ t ∈ tr, t.act.claimed? = some (Replay.uuid 20) ∧
        (t.pre.workers 0).phase.handled? = some (Replay.uuid 20)))
    (show (execute World.step (World.init 0) (signalledHandler 121 ++
      [.beginCycle 1, .claim 1 (Replay.uuid 20) []])).any _ = true by decide +kernel)
  obtain ⟨hks, ht, t, hm, hcl, hh⟩ := of_decide_eq_true hp
  have hq := World.quiet_init 0
  intro hall
  exact hall _ tr w hq hr (meets_of_workers hq hr timelyAt_of_idle hks ht) t hm _ hcl 0 hh

end AiBadge
