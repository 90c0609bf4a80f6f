import AiBadge.System.Acceptance
import AiBadge.System.JobIds
import AiBadge.System.Tenancy

/-! # A run beside the same run without the requests

The second run takes the steps of the first one, without the requests. A worker that takes up a job
which only these brought rests there instead.
-/

namespace AiBadge

open Lib Prog DbM

namespace World

/-- The first of the actions that is possible. -/
def first (w : World) (l : List Action) : World := (l.findSome? w.step).getD w

def jobIds (w : World) : List Uuid := w.db.jobs.rows.map Job.id

def deletionIds (w : World) : List Uuid := w.db.deletionJobs.rows.map DeletionJob.id

/-- The same step without what the requests brought. The rows before a job in the queue may be locked
by other transactions. Where the handler of another session's job has ended otherwise than on the side
with the requests, the worker catches up before it goes on. -/
def follow (w : World) : Action → World
  | .request _ => w
  | .beginCycle k => ((w.first [.markFailed k]).first [.endCycle k]).first [.beginCycle k]
  | .claim k job _ =>
    w.first [.claim k job (w.jobIds.filter (· ≠ job)), .claimNone k w.jobIds]
  | .claimNone k _ => w.first [.claimNone k w.jobIds]
  | .processDeletion k job _ remove =>
    let u := w.first [.markFailed k]
    u.first [.processDeletion k job (u.deletionIds.filter (· ≠ job)) remove, .endCycle k]
  | .crashDeleting k job _ remove =>
    let u := w.first [.markFailed k]
    u.first [.crashDeleting k job (u.deletionIds.filter (· ≠ job)) remove, .crash k]
  | a => w.first [a]

/-- The job can be claimed. -/
def Claimable (w : World) (job : Uuid) : Prop :=
  ∃ j ∈ (releaseTimedOutJobs w.now w.db).jobs, j.id = job ∧ claimable w.now j = true

/-- The deletion job can be taken up. -/
def Due (w : World) (job : Uuid) : Prop :=
  ∃ d ∈ w.db.deletionJobs, d.id = job ∧ d.status = .pending ∧
    (d.nextRunAt.all fun t => decide (t ≤ w.now)) = true

def HasDeletion (w : World) (sid job : Uuid) : Prop :=
  ∃ d ∈ w.db.deletionJobs, d.id = job ∧ d.sessionId = some sid

/-- The deletion job finds its file, and removes it. -/
def Removes (w : World) (job : Uuid) (remove : Remove) : Prop :=
  ∃ d ∈ w.db.deletionJobs, d.id = job ∧
    ∃ key ∈ w.files, d.target? = some key ∧ remove key = .ok ()

/-- Flushed writes that change a row of the session, once they are committed. -/
def Leaks (w : World) (sid : Uuid) (pending : List (Db → Db)) : Prop :=
  (∃ t, pending = [releaseTimedOutJobs t] ∧
    ∃ j ∈ w.db.jobs, j.sessionId = some sid ∧ timedOut t j = true) ∨
  ∃ t, ∃ x ∈ w.db.artifacts, pending = [markArtifact t x.id] ∧ x.sessionId = sid ∧
    x.withPublication t ≠ x

end World

/-- Time passes, a worker takes a step, or the user sends a request. -/
def Action.IsOf (user : Uuid) : Action → Prop
  | .request r => r.user? = some user
  | _ => True

/-- A run, and beside it the run without the requests. -/
structure Twin where
  base : World
  world : World

namespace Twin

def step (p : Twin) (a : Action) : Option Twin :=
  (p.world.step a).map fun w => ⟨p.base.follow a, w⟩

/-- The worker takes up a deletion job of the session in a poll cycle that is over on the side without
the requests, where a handler has ended otherwise. -/
def Late (sid : Uuid) (p : Twin) (k : WorkerId) (job : Uuid) : Prop :=
  (p.base.workers k).phase = .idle ∧ p.world.HasDeletion sid job

/-- A claim or a deletion job that is possible only after the requests commits nothing on the session
on its way, and no deletion job of the session comes late. -/
def Contained (sid : Uuid) (p : Twin) : Action → Prop
  | .claim _ job _ => p.base.Claimable job ∨
      ∀ j ∈ p.world.db.jobs, j.sessionId = some sid → timedOut p.world.now j = false
  | .processDeletion k job _ _ => ¬ p.Late sid k job ∧ (p.base.Due job ∨
      ∀ pending, (p.world.workers k).phase = .tail pending → ¬ p.world.Leaks sid pending)
  | .crashDeleting k job _ remove => p.Late sid k job → ¬ p.world.Removes job remove
  | _ => True

/-- The session has the same rows, and its files are the same. -/
structure Same (c : Scope) (p : Twin) : Prop where
  part : p.world.db.part c.sessionId = p.base.db.part c.sessionId
  files : ∀ key, c.keys key → (key ∈ p.base.files ↔ key ∈ p.world.files)

end Twin

namespace World

variable {c : Scope} {w w' : World} {a : Action}

section First

variable {l : List Action}

@[simp] theorem first_nil : w.first [] = w := rfl

theorem first_of_step (h : w.step a = some w') : w.first (a :: l) = w' := by
  rw [first, List.findSome?_cons, h]
  rfl

theorem first_of_none (h : w.step a = none) : w.first (a :: l) = w.first l := by
  rw [first, List.findSome?_cons, h]
  rfl

theorem step_of_act (hd : a.draws = []) (h : w.act a = some w') (hi : w'.issued = w.issued) :
    w.step a = some w' := by
  refine step_eq_some.mpr ⟨⟨?_, ?_⟩, w', h, ?_⟩
  · rw [hd]
    exact List.nodup_nil
  · rw [hd]
    exact fun _ hu => (List.not_mem_nil hu).elim
  · rw [hd, List.append_nil, ← hi]

theorem step_of_act_none (h : w.act a = none) : w.step a = none := by
  rw [step, h]
  exact ite_self _

/-- The actions tried are steps of a run. -/
theorem first_run (l : List Action) : ∃ tr, Run World.step w tr (w.first l) ∧ ∀ t ∈ tr, t.act ∈ l := by
  induction l with
  | nil => exact ⟨[], .init, fun _ h => (List.not_mem_nil h).elim⟩
  | cons a l ih =>
    cases h : w.step a with
    | none =>
      obtain ⟨tr, hr, hl⟩ := ih
      rw [first_of_none h]
      exact ⟨tr, hr, fun t ht => List.mem_cons_of_mem a (hl t ht)⟩
    | some w' =>
      rw [first_of_step h]
      refine ⟨[] ++ [⟨w, a, w'⟩], .snoc .init h, fun t ht => ?_⟩
      obtain rfl := List.mem_singleton.mp ht
      exact List.mem_cons_self

/-- A step that the side without the requests takes beside `a`: of the same worker, with the ids that
`a` draws or none. -/
structure Accompanies (a b : Action) : Prop where
  request : ∀ r, b ≠ .request r
  worker? : b.worker? = a.worker?
  draws : ∀ u ∈ b.draws, u ∈ a.draws

theorem follow_run (w : World) (a : Action) :
    ∃ tr, Run World.step w tr (w.follow a) ∧ ∀ t ∈ tr, Accompanies a t.act := by
  have one (w : World) {l : List Action} (hl : ∀ b ∈ l, Accompanies a b) :
      ∃ tr, Run World.step w tr (w.first l) ∧ ∀ t ∈ tr, Accompanies a t.act := by
    obtain ⟨tr, hr, ht⟩ := first_run (w := w) l
    exact ⟨tr, hr, fun t h => hl _ (ht t h)⟩
  have seq {w u : World} {l : List Action}
      (hu : ∃ tr, Run World.step w tr u ∧ ∀ t ∈ tr, Accompanies a t.act)
      (hl : ∀ b ∈ l, Accompanies a b) :
      ∃ tr, Run World.step w tr (u.first l) ∧ ∀ t ∈ tr, Accompanies a t.act := by
    obtain ⟨tr, hr, ht⟩ := hu
    obtain ⟨tr', hr', ht'⟩ := one u hl
    refine ⟨tr ++ tr', hr.append hr', fun t h => ?_⟩
    rcases List.mem_append.mp h with h | h
    · exact ht t h
    · exact ht' t h
  have self (hn : ∀ r, a ≠ .request r) : ∀ b ∈ [a], Accompanies a b := by
    intro b hb
    obtain rfl := List.mem_singleton.mp hb
    exact ⟨hn, rfl, fun _ hu => hu⟩
  have idle {b : Action} (hb : ∀ r, b ≠ .request r) (hk : b.worker? = a.worker?)
      (hd : b.draws = []) : Accompanies a b :=
    ⟨hb, hk, fun u hu => (List.not_mem_nil (hd ▸ hu)).elim⟩
  cases a with
  | request => exact ⟨[], .init, fun _ h => (List.not_mem_nil h).elim⟩
  | beginCycle k =>
    refine seq (seq (one w ?_) ?_) (self (by rintro _ ⟨⟩))
    · exact List.forall_mem_singleton.mpr (idle (by rintro _ ⟨⟩) rfl rfl)
    · exact List.forall_mem_singleton.mpr (idle (by rintro _ ⟨⟩) rfl rfl)
  | claim =>
    exact one w (List.forall_mem_cons.mpr ⟨idle (by rintro _ ⟨⟩) rfl rfl,
      List.forall_mem_singleton.mpr (idle (by rintro _ ⟨⟩) rfl rfl)⟩)
  | claimNone => exact one w (List.forall_mem_singleton.mpr (idle (by rintro _ ⟨⟩) rfl rfl))
  | processDeletion =>
    refine seq (one w ?_) (List.forall_mem_cons.mpr ⟨idle (by rintro _ ⟨⟩) rfl rfl, ?_⟩)
    · exact List.forall_mem_singleton.mpr (idle (by rintro _ ⟨⟩) rfl rfl)
    · exact List.forall_mem_singleton.mpr (idle (by rintro _ ⟨⟩) rfl rfl)
  | crashDeleting =>
    refine seq (one w ?_) (List.forall_mem_cons.mpr ⟨idle (by rintro _ ⟨⟩) rfl rfl, ?_⟩)
    · exact List.forall_mem_singleton.mpr (idle (by rintro _ ⟨⟩) rfl rfl)
    · exact List.forall_mem_singleton.mpr (idle (by rintro _ ⟨⟩) rfl rfl)
  | _ => exact one w (self (by rintro _ ⟨⟩))

/-- The steps of a worker take no time. -/
theorem elapsed_of_worker {k : WorkerId} (ha : a.worker? = some k) : a.elapsed = 0 := by
  cases a with
  | tick => cases ha
  | _ => rfl

theorem follow_now {k : WorkerId} (ha : a.worker? = some k) : (w.follow a).now = w.now := by
  obtain ⟨tr, hr, ht⟩ := follow_run w a
  have hm : Meets (fun _ b => b.worker? = some k) tr := fun t h => (ht t h).worker?.trans ha
  refine hr.invariant_of_meets (I := fun _ u => u.now = w.now) hm rfl fun _ u b _ _ hu hb h => ?_
  rw [now_of_step h, elapsed_of_worker hb, hu]
  exact Int.add_zero _

/-- The other workers stay as they are. -/
theorem follow_workers {k i : WorkerId} (ha : a.worker? = some k) (hi : i ≠ k) :
    (w.follow a).workers i = w.workers i := by
  obtain ⟨tr, hr, ht⟩ := follow_run w a
  refine worker_of_run hr fun t h => ?_
  rw [(ht t h).worker?, ha]
  exact fun he => hi (Option.some.inj he).symm

/-- The ids drawn are those of the step. -/
theorem follow_issued (a : Action) : ∀ u ∈ (w.follow a).issued, u ∈ w.issued ++ a.draws := by
  obtain ⟨tr, hr, ht⟩ := follow_run w a
  have hm : Meets (fun _ b => ∀ u ∈ b.draws, u ∈ a.draws) tr := fun t h => (ht t h).draws
  refine hr.invariant_of_meets (I := fun _ v => ∀ u ∈ v.issued, u ∈ w.issued ++ a.draws) hm
    (fun _ hu => List.mem_append_left _ hu) fun _ v b _ _ hv hb h u hu => ?_
  rw [issued_of_step h] at hu
  rcases List.mem_append.mp hu with hu | hu
  · exact hv u hu
  · exact List.mem_append_right _ (hb u hu)

end First

/-- Flushed writes that change nothing of the session, now or later. -/
inductive Clean (c : Scope) (w : World) : List (Db → Db) → Prop where
  | nothing : Clean c w []
  | released {t : Timestamp} : t ≤ w.now →
      (∀ j ∈ w.db.jobs, j.sessionId = some c.sessionId → timedOut t j = false) →
      Clean c w [releaseTimedOutJobs t]
  | marked {t : Timestamp} {aid : Uuid} : aid ∈ w.issued →
      (∀ x ∈ w.db.artifacts, x.id = aid → x.sessionId ≠ c.sessionId) → Clean c w [markArtifact t aid]

/-- The worker has a job of another session in hand, or has had it. -/
inductive Aside (c : Scope) (w : World) : Phase → Prop where
  | idle : Aside c w .idle
  | handling {j : Job} : j ∈ w.db.jobs → j.sessionId ≠ some c.sessionId → Aside c w (.handling j.id)
  | failed {j : Job} {e : Exn} {pending : List (Db → Db)} : j ∈ w.db.jobs →
      j.sessionId ≠ some c.sessionId → Clean c w pending → Aside c w (.failed j.id e pending)
  | tail {pending : List (Db → Db)} : Clean c w pending → Aside c w (.tail pending)

section Aside

variable {pending : List (Db → Db)} {phase : Phase}

/-- A job that was not timed out at `t` is not after a later step either. -/
theorem JobStep.timedOut {j j' : Job} {t : Timestamp} (h : w.JobStep a j j') (ht : t ≤ w.now)
    (hn : timedOut t j = false) : timedOut t j' = false := by
  have recent : ¬ w.now < t - jobTimeout :=
    Int.not_lt.mpr (Int.le_trans (Int.sub_le_self t (by decide)) ht)
  cases h with
  | same => exact hn
  | started => simp [AiBadge.timedOut, recent]
  | released => simp [AiBadge.timedOut]
  | output => simp [AiBadge.timedOut]
  | failed =>
    unfold recordFailure
    split
    · split <;> simp [AiBadge.timedOut]
    · exact hn
  | unknown => simp [AiBadge.timedOut]
  | heartbeat => simp [AiBadge.timedOut, recent]

theorem JobNew.timedOut {j : Job} {t : Timestamp} (h : w.JobNew a j) : timedOut t j = false := by
  cases h <;> rfl

theorem Clean.step (hc : Clean c w pending) (hw : w.Sound) (h : w.step a = some w') :
    Clean c w' pending := by
  have hnow : w.now ≤ w'.now := now_of_step h ▸ Int.le_add_of_nonneg_right (Int.natCast_nonneg _)
  cases hc with
  | nothing => exact .nothing
  | released ht hn =>
    refine .released (Int.le_trans ht hnow) fun j' hj' hs => ?_
    rcases (hw.jobs h).origin j' hj' with ⟨j, hj, -, hstep⟩ | hnew
    · exact hstep.timedOut ht (hn j hj (hstep.sameOrigin.sessionId ▸ hs))
    · exact hnew.timedOut
  | @marked t aid hi hn =>
    refine .marked (issued_of_step h ▸ List.mem_append_left _ hi) fun x' hx' hid => ?_
    rcases hw.artifacts h x' hx' with ⟨x, hx, he, hstep⟩ | hnew
    · exact hstep.sessionId ▸ hn x hx (he ▸ hid)
    · cases hnew with
      | extracted ha =>
        have hmem : x'.id ∈ a.draws := ha ▸ List.mem_singleton.mpr rfl
        exact absurd (hid ▸ hi) ((fresh_of_step h).2 _ hmem)

theorem Aside.step (ha : Aside c w phase) (hw : w.Sound) (h : w.step a = some w') :
    Aside c w' phase := by
  have row {j : Job} (hj : j ∈ w.db.jobs) (hs : j.sessionId ≠ some c.sessionId) :
      ∃ j' ∈ w'.db.jobs, j'.id = j.id ∧ j'.sessionId ≠ some c.sessionId := by
    obtain ⟨j', hj', hi, hstep⟩ := (hw.jobs h).kept j hj
    exact ⟨j', hj', hi, hstep.sameOrigin.sessionId ▸ hs⟩
  cases ha with
  | idle => exact .idle
  | handling hj hs =>
    obtain ⟨j', hj', hi, hs'⟩ := row hj hs
    exact hi ▸ .handling hj' hs'
  | failed hj hs hc =>
    obtain ⟨j', hj', hi, hs'⟩ := row hj hs
    exact hi ▸ .failed hj' hs' (hc.step hw h)
  | tail hc => exact .tail (hc.step hw h)

theorem Aside.run {tr : List (Transition World Action)} (ha : Aside c w phase) (hw : w.Sound)
    (hr : Run World.step w tr w') : Aside c w' phase := by
  have key : w'.Sound ∧ Aside c w' phase :=
    hr.invariant (I := fun w => w.Sound ∧ Aside c w phase) ⟨hw, ha⟩ fun _ _ _ hi h =>
      ⟨hi.1.step h, hi.2.step hi.1 h⟩
  exact key.2

/-- The commit of clean writes keeps the part of the session. -/
theorem Clean.alike (hc : Clean c w pending) : w.db.Alike c (w.session pending).view := by
  cases hc with
  | nothing => exact .refl _
  | released _ hn => exact alike_release.mpr hn
  | marked _ hn => exact alike_mark.mpr fun x hx hs hi => absurd hs (hn x hx hi)

theorem Clean.leftover (hc : Clean c w pending) : Leftover w.now pending := by
  cases hc with
  | nothing => exact .nothing
  | released ht => exact .released ht
  | marked => exact .marked

/-- The commit of flushed writes keeps the part of the session unless they leak. -/
theorem alike_view_iff (hl : Leftover w.now pending) :
    w.db.Alike c (w.session pending).view ↔ ¬ w.Leaks c.sessionId pending := by
  constructor
  · rintro h (⟨t, rfl, j, hj, hs, ht⟩ | ⟨t, x, hx, rfl, hs, hne⟩)
    · exact absurd ht (Bool.eq_false_iff.mp (alike_release.mp h j hj hs))
    · exact hne (alike_mark.mp h x hx hs rfl)
  · intro hn
    cases hl with
    | nothing => exact .refl _
    | @released t _ =>
      refine alike_release.mpr fun j hj hs => Bool.eq_false_iff.mpr fun ht => ?_
      exact hn (.inl ⟨t, rfl, j, hj, hs, ht⟩)
    | @marked t aid =>
      refine alike_mark.mpr ?_
      rintro x hx hs rfl
      by_contra hne
      exact hn (.inr ⟨t, x, hx, rfl, hs, hne⟩)

/-- Writes that are flushed on both sides. -/
theorem alike_view {w₀ w₁ : World} {now : Timestamp} (h : w₀.db.Alike c w₁.db)
    (hl : Leftover now pending) : (w₀.session pending).view.Alike c (w₁.session pending).view := by
  cases hl with
  | nothing => exact h
  | released => exact h.updateJobs (by intro; rfl) fun _ => rfl
  | marked => exact h.setArtifact _ (by intro; rfl) (by intro; rfl)

end Aside

/-- A worker in two worlds; the heartbeat counts while a job is in hand. -/
structure SameWorker (u v : Worker) : Prop where
  phase : v.phase = u.phase
  shutdown : v.shutdown = u.shutdown
  beat : u.phase.job?.isSome → v.beat = u.beat

theorem SameWorker.of_job?_eq_none {u v : Worker} (hp : v.phase = u.phase)
    (hs : v.shutdown = u.shutdown) (hj : u.phase.job? = none) : SameWorker u v := by
  refine ⟨hp, hs, fun hk => ?_⟩
  rw [hj] at hk
  cases hk

/-- A worker is at the same point on both sides, or aside on both and past the handler call on the
first. -/
inductive Abreast (c : Scope) (w₀ w₁ : World) (k : WorkerId) : Prop where
  | same : SameWorker (w₀.workers k) (w₁.workers k) → Abreast c w₀ w₁ k
  | aside : Aside c w₀ (w₀.workers k).phase → (w₀.workers k).phase.handled? = none →
      Aside c w₁ (w₁.workers k).phase → (w₁.workers k).shutdown = (w₀.workers k).shutdown →
      Abreast c w₀ w₁ k

/-- Two worlds that agree on the session. -/
structure Alike (c : Scope) (w₀ w₁ : World) : Prop where
  now : w₁.now = w₀.now
  db : w₀.db.Alike c w₁.db
  files : ∀ key, c.keys key → (key ∈ w₀.files ↔ key ∈ w₁.files)
  workers : ∀ k, Abreast c w₀ w₁ k

theorem Alike.refl (w : World) : World.Alike c w w where
  now := rfl
  db := .refl _
  files _ _ := .rfl
  workers _ := .same ⟨rfl, rfl, fun _ => rfl⟩

/-- A worker that does nothing on either side. -/
theorem Abreast.run {w₀ w₁ w₀' w₁' : World} {k : WorkerId} {tr : List (Transition World Action)}
    (h : Abreast c w₀ w₁ k) (h₀ : w₀.Sound) (h₁ : w₁.Sound) (hr : Run World.step w₀ tr w₀')
    (hs : w₁.step a = some w₁') (hk₀ : w₀'.workers k = w₀.workers k)
    (hk₁ : w₁'.workers k = w₁.workers k) : Abreast c w₀' w₁' k := by
  cases h with
  | same h => exact .same (by rwa [hk₀, hk₁])
  | aside ha₀ hn ha₁ hsd =>
    refine .aside ?_ (by rwa [hk₀]) ?_ (by rwa [hk₀, hk₁])
    · rw [hk₀]
      exact ha₀.run h₀ hr
    · rw [hk₁]
      exact ha₁.step h₁ hs

end World

end AiBadge
