import AiBadge.Orchestrator.Loop

/-! # Survival of the worker loop

The loop decides from the answers of the cycle itself exactly when the calls have
settled its test. In the other cycles it reads what earlier cycles have left.
-/

namespace AiBadge

open Lib Prog

namespace Poll

variable {p : Poll} {l : Locals}

/-- The answer of `_process_one`, if the cycle gets one. -/
def jobAnswer? (p : Poll) : Option Bool :=
  match p.opened, p.processOne with
  | .ok _, .ok j => some j
  | _, _ => none

/-- The answer of `_process_deletion`, if the cycle gets that far. -/
def delAnswer? (p : Poll) : Option Bool :=
  match p.jobAnswer?, p.processDeletion with
  | some _, .ok d => some d
  | _, _ => none

/-- A job or a deletion job was processed in the cycle. -/
def Processed (p : Poll) : Prop := p.jobAnswer? = some true ∨ p.delAnswer? = some true

instance (p : Poll) : Decidable p.Processed := inferInstanceAs (Decidable (_ ∨ _))

/-- Both calls have returned, or the first has answered `True`. -/
def Settled (p : Poll) : Prop := p.jobAnswer? = some true ∨ p.delAnswer?.isSome = true

instance (p : Poll) : Decidable p.Settled := inferInstanceAs (Decidable (_ ∨ _))

theorem assign_eq (p : Poll) (l : Locals) :
    p.assign l = ⟨p.jobAnswer?.or l.processedJob, p.delAnswer?.or l.processedDel⟩ := by
  rcases p with ⟨_ | _, _ | _, _ | _⟩ <;> rfl

theorem jobAnswer?_of_delAnswer? {d : Bool} (h : p.delAnswer? = some d) :
    ∃ j, p.jobAnswer? = some j := by
  unfold delAnswer? at h
  split at h
  next j _ hj _ => exact ⟨j, hj⟩
  · cases h

theorem test_eq_true : p.test l = .ok true ↔ (p.assign l).processedJob = some true ∨
    (p.assign l).processedJob = some false ∧ (p.assign l).processedDel = some true := by
  unfold test
  rcases (p.assign l) with ⟨_ | _ | _, _ | _ | _⟩ <;> simp [readLocal, bind, Except.bind, pure,
    Except.pure]

theorem test_eq_false : p.test l = .ok false ↔
    (p.assign l).processedJob = some false ∧ (p.assign l).processedDel = some false := by
  unfold test
  rcases (p.assign l) with ⟨_ | _ | _, _ | _ | _⟩ <;> simp [readLocal, bind, Except.bind, pure,
    Except.pure]

/-- A settled test reads no result of an earlier cycle. -/
theorem Settled.test_eq (h : p.Settled) (l : Locals) : p.test l = .ok (decide p.Processed) := by
  rcases h with hj | hd
  · have hp : p.Processed := .inl hj
    rw [decide_eq_true hp, test_eq_true, assign_eq, hj]
    exact .inl rfl
  · obtain ⟨d, hd⟩ := Option.isSome_iff_exists.mp hd
    obtain ⟨j, hj⟩ := jobAnswer?_of_delAnswer? hd
    have ht : p.test l = .ok (j || d) := by
      unfold test
      rw [assign_eq, hj, hd]
      cases j <;> rfl
    have hp : p.Processed ↔ (j || d) = true := by
      rw [Processed, hj, hd]
      simp
    rw [ht, Bool.eq_iff_iff.mpr (hp.symm.trans decide_eq_true_iff.symm)]

theorem not_processed_of_not_settled (h : ¬ p.Settled) : ¬ p.Processed := by
  rintro (hj | hd)
  · exact h (.inl hj)
  · exact h (.inr (by rw [hd]; rfl))

/-- A test that is not settled says what earlier cycles have left. -/
theorem test_ne_of_not_settled (h : ¬ p.Settled) : p.test {} ≠ p.test ⟨some true, some true⟩ := by
  have hd : p.delAnswer? = none := by
    rw [← Option.not_isSome_iff_eq_none]
    intro hd
    exact h (.inr hd)
  have hj : p.jobAnswer? = none ∨ p.jobAnswer? = some false := by
    cases hj : p.jobAnswer? with
    | none => exact .inl rfl
    | some j =>
      cases j with
      | true => exact absurd (.inl hj) h
      | false => exact .inr rfl
  have ht : p.test ⟨some true, some true⟩ = .ok true := by
    rw [test_eq_true, assign_eq, hd]
    rcases hj with hj | hj <;> rw [hj]
    · exact .inl rfl
    · exact .inr ⟨rfl, rfl⟩
  rw [ht, Ne, test_eq_true, assign_eq, hd]
  rcases hj with hj | hj <;> rw [hj] <;> simp

end Poll

/-- What a turn ought to do: stop exactly for the flag, and sleep exactly when idle. -/
structure Turn.Timely (t : Transition LoopState Turn) : Prop where
  no_exception : ∀ e, t.post.point ≠ .raised e
  left_iff : t.post.point = .left ↔ t.act.shutdown = true
  sleeps : t.post.sleeps = t.pre.sleeps ++
    if t.act.shutdown = true ∨ t.act.poll.Processed then [] else [pollInterval]

/-- The test of a cycle says the same whatever earlier cycles have left. -/
def Turn.OwnResult (t : Transition LoopState Turn) : Prop :=
  t.act.shutdown = false → ∀ l, t.act.poll.test l = t.act.poll.test t.pre.locals

/-- The last answer to `_process_one`. -/
def lastJob (tr : List (Transition LoopState Turn)) : Option Bool :=
  (tr.filterMap fun t => t.act.poll.jobAnswer?).getLast?

/-- The last answer to `_process_deletion`. -/
def lastDel (tr : List (Transition LoopState Turn)) : Option Bool :=
  (tr.filterMap fun t => t.act.poll.delAnswer?).getLast?

theorem getLast?_filterMap_snoc {α β : Type} (f : α → Option β) (xs : List α) (x : α) :
    ((xs ++ [x]).filterMap f).getLast? = (f x).or (xs.filterMap f).getLast? := by
  rw [List.filterMap_append]
  cases hf : f x with
  | none => simp [hf]
  | some b => simp [hf]

@[simp] theorem lastJob_snoc (tr : List (Transition LoopState Turn))
    (t : Transition LoopState Turn) :
    lastJob (tr ++ [t]) = t.act.poll.jobAnswer?.or (lastJob tr) := getLast?_filterMap_snoc _ _ _

@[simp] theorem lastDel_snoc (tr : List (Transition LoopState Turn))
    (t : Transition LoopState Turn) :
    lastDel (tr ++ [t]) = t.act.poll.delAnswer?.or (lastDel tr) := getLast?_filterMap_snoc _ _ _

/-- A turn whose test is not settled finds both last answers `False`. -/
def Turn.Idle (before : List (Transition LoopState Turn)) (t : Transition LoopState Turn) : Prop :=
  t.act.shutdown = false → t.act.poll.Settled ∨
    lastJob (before ++ [t]) = some false ∧ lastDel (before ++ [t]) = some false

instance (before : List (Transition LoopState Turn)) (t : Transition LoopState Turn) :
    Decidable (Turn.Idle before t) := inferInstanceAs (Decidable (_ → _))

theorem LoopState.step_cases {s s' : LoopState} {t : Turn} (h : s.step t = some s') :
    s.point = .head ∧ ((t.shutdown = true ∧ s' = { s with point := .left }) ∨
      (t.shutdown = false ∧ s'.locals = t.poll.assign s.locals ∧
        ((∃ e, t.poll.test s.locals = .error e ∧ s'.point = .raised e ∧ s'.sleeps = s.sleeps) ∨
          ∃ b, t.poll.test s.locals = .ok b ∧ s'.point = .head ∧
            s'.sleeps = s.sleeps ++ if b then [] else [pollInterval]))) := by
  unfold step at h
  split at h
  next hp hs =>
    cases h
    exact ⟨hp, .inl ⟨hs, rfl⟩⟩
  next hp hs =>
    refine ⟨hp, .inr ⟨hs, ?_⟩⟩
    split at h
    next ht =>
      cases h
      exact ⟨rfl, .inr ⟨true, ht, hp, (List.append_nil _).symm⟩⟩
    next ht =>
      cases h
      exact ⟨rfl, .inr ⟨false, ht, hp, rfl⟩⟩
    next e ht =>
      cases h
      exact ⟨rfl, .inl ⟨e, ht, rfl, rfl⟩⟩
  · cases h

/-- A turn is timely when its test comes out as the cycle itself says. -/
theorem Turn.timely_iff {s s' : LoopState} {t : Turn} (h : s.step t = some s') :
    Turn.Timely ⟨s, t, s'⟩ ↔
      (t.shutdown = false → t.poll.test s.locals = .ok (decide t.poll.Processed)) := by
  obtain ⟨hp, ⟨hs, rfl⟩ | ⟨hs, -, ⟨e, he, hr, hsl⟩ | ⟨b, hb, hh, hsl⟩⟩⟩ := LoopState.step_cases h
  · constructor
    · intro _ hf
      exact absurd (hs.symm.trans hf) (by decide)
    · intro _
      constructor
      · exact fun _ => nofun
      · simp [hs]
      · simp [hs]
  · constructor
    · intro ht
      exact absurd hr (ht.no_exception e)
    · intro ht
      cases he.symm.trans (ht hs)
  · constructor
    · rintro ⟨-, -, hsl'⟩ -
      rw [hb]
      by_cases hq : t.poll.Processed <;> cases b <;> simp_all
    · intro ht
      obtain rfl : b = decide t.poll.Processed := Except.ok.inj (hb.symm.trans (ht hs))
      constructor
      · intro e he
        cases hh.symm.trans he
      · simp [hs, hh]
      · rw [hsl]
        simp [hs]

/-- At the head of the loop, the variables hold the last answers. -/
theorem LoopState.locals_eq {tr : List (Transition LoopState Turn)} {s : LoopState}
    (r : LoopRun tr s) : s.point = .head → s.locals = ⟨lastJob tr, lastDel tr⟩ := by
  induction r with
  | init => exact fun _ => rfl
  | snoc _ hstep ih =>
    intro hh
    obtain ⟨hp, ⟨-, rfl⟩ | ⟨-, hl, -⟩⟩ := step_cases hstep
    · cases hh
    · rw [hl, Poll.assign_eq, ih hp, lastJob_snoc, lastDel_snoc]

theorem Turn.settled_iff {s s' : LoopState} {t : Turn} (h : s.step t = some s') :
    (Turn.Timely ⟨s, t, s'⟩ ∧ Turn.OwnResult ⟨s, t, s'⟩) ↔
      (t.shutdown = false → t.poll.Settled) := by
  rw [timely_iff h]
  constructor
  · rintro ⟨-, ho⟩ hs
    by_contra hn
    exact Poll.test_ne_of_not_settled hn ((ho hs _).trans (ho hs _).symm)
  · intro hs
    constructor
    · intro hf
      exact (hs hf).test_eq _
    · intro hf l
      exact ((hs hf).test_eq l).trans ((hs hf).test_eq _).symm

theorem Poll.test_of_not_settled {p : Poll} {l : Locals} (h : ¬ p.Settled) :
    p.test l = .ok (decide p.Processed) ↔ p.jobAnswer?.or l.processedJob = some false ∧
      p.delAnswer?.or l.processedDel = some false := by
  rw [decide_eq_false (not_processed_of_not_settled h), test_eq_false, assign_eq]

/-- `worker_loop` works on the results of each cycle alone exactly when every cycle settles its
test. It keeps going and sleeps at the right times exactly when in the other cycles the last answers
were both `False`. What the cycles of the system answer is in `Cycle.poll_delAnswer?_eq_none`. -/
theorem loopRun_survives_iff {tr : List (Transition LoopState Turn)} {s : LoopState}
    (r : LoopRun tr s) :
    ((∀ t ∈ tr, Turn.Timely t ∧ Turn.OwnResult t) ↔
      ∀ t ∈ tr, t.act.shutdown = false → t.act.poll.Settled) ∧
    (Throughout (fun _ t => Turn.Timely t) tr ↔ Throughout Turn.Idle tr) := by
  constructor
  · refine forall₂_congr fun t ht => ?_
    obtain ⟨_, _, -, -, hstep⟩ := r.of_mem ht
    exact Turn.settled_iff hstep
  · apply r.throughout_iff
    intro before s t s' hr _ hstep
    rw [Turn.timely_iff hstep, LoopState.locals_eq hr (LoopState.step_cases hstep).1]
    refine forall_congr' fun hs => ?_
    by_cases ht : t.poll.Settled
    · simp [ht, ht.test_eq]
    · rw [Poll.test_of_not_settled ht, lastJob_snoc, lastDel_snoc]
      simp [ht]

namespace Turn

/-- A turn that sees the flag. -/
def stop : Turn := ⟨true, .ok (), .ok false, .ok false⟩

/-- A turn in which nothing is processed. -/
def idle : Turn := ⟨false, .ok (), .ok false, .ok false⟩

/-- A turn that cannot open its session. -/
def outage : Turn := ⟨false, .error (.osError "refused"), .ok false, .ok false⟩

end Turn

theorem loopRun_survives_outage : ∃ tr s, LoopRun tr s ∧
    s = ⟨.left, ⟨some false, some false⟩, [pollInterval, pollInterval]⟩ ∧
    Throughout (fun _ t => Turn.Timely t) tr ∧
      ¬ ∀ t ∈ tr, Turn.Timely t ∧ Turn.OwnResult t := by
  obtain ⟨tr, s, hr, h⟩ := exists_run (fun tr s => decide (Throughout Turn.Idle tr ∧
      (∃ t ∈ tr, t.act.shutdown = false ∧ ¬ t.act.poll.Settled) ∧
      s = ⟨.left, ⟨some false, some false⟩, [pollInterval, pollInterval]⟩))
    (show (execute LoopState.step {} [.idle, .outage, .stop]).any _ = true by decide)
  obtain ⟨hc, ⟨t, ht, hs, hn⟩, rfl⟩ := of_decide_eq_true h
  refine ⟨tr, _, hr, rfl, (loopRun_survives_iff hr).2.mpr hc, fun hall => hn ?_⟩
  exact (loopRun_survives_iff hr).1.mp hall t ht hs

/-- A database that refuses the first session ends the worker. -/
theorem not_loopRun_survives :
    ¬ ∀ tr s, LoopRun tr s → ∀ t ∈ tr, Turn.Timely t ∧ Turn.OwnResult t := by
  intro h
  have r : LoopRun ([] ++ [⟨{}, .outage, ⟨.raised ⟨"processed_job"⟩, {}, []⟩⟩]) _ :=
    .snoc .init rfl
  exact (h _ _ r _ (List.mem_append_right _ List.mem_cons_self)).1.no_exception _ rfl

/-! ## The cycles of the system -/

variable {c : Cycle} {t t' : Tx Db Files} {b : Bool} {e : Exn}

theorem raises_processOneAnswer :
    (processOneAnswer c).Raises t e t' ↔ (processOne c).Raises t e t' := by
  simp [processOneAnswer, processOne]

theorem processOne_of_answer (h : (processOneAnswer c).Returns t b t') :
    (processOne c).Returns t () t' := by
  simp only [processOneAnswer, returns_bind, returns_pure] at h
  obtain ⟨_, t₁, h₁, job, t₂, h₂, _, t₃, h₃, -, rfl⟩ := h
  exact returns_bind.mpr ⟨_, t₁, h₁, returns_bind.mpr ⟨job, t₂, h₂, h₃⟩⟩

theorem raises_processDeletionAnswer :
    (processDeletionAnswer c).Raises t e t' ↔ (processNextDeletion c).Raises t e t' := by
  simp [processDeletionAnswer, processNextDeletion]

/-- A cycle of the system raises exactly when it gets no second answer. -/
theorem Cycle.poll_delAnswer?_eq_none :
    (c.poll t).delAnswer? = none ↔ ∃ e t', (pollCycle c).Raises t e t' := by
  rcases returns_or_raises (processOneAnswer c) t with ⟨b, t₁, h₁⟩ | ⟨e, t₁, h₁⟩
  · have hd : (c.poll t).delAnswer? = none ↔ ∃ e t', (processDeletionAnswer c).Raises t₁ e t' := by
      have hp : c.poll t = ⟨.ok (), .ok b, (processDeletionAnswer c t₁).1⟩ := by
        rw [Cycle.poll, show processOneAnswer c t = _ from h₁]
      rw [hp]
      unfold Poll.delAnswer? Raises
      rcases processDeletionAnswer c t₁ with ⟨_ | _, _⟩ <;> simp [Poll.jobAnswer?]
    rw [hd]
    have hn := (processOne_of_answer h₁).not_raises
    constructor
    · rintro ⟨e, t', h⟩
      exact ⟨e, t', raises_bind.mpr
        (.inr ⟨_, t₁, processOne_of_answer h₁, raises_processDeletionAnswer.mp h⟩)⟩
    · rintro ⟨e, t', h⟩
      rcases raises_bind.mp h with h | ⟨_, t₂, h₂, h⟩
      · exact absurd h (hn e t')
      · obtain rfl : t₁ = t₂ := congrArg Prod.snd ((processOne_of_answer h₁).symm.trans h₂)
        exact ⟨e, t', raises_processDeletionAnswer.mpr h⟩
  · have hp : (c.poll t).jobAnswer? = none := by
      rw [Poll.jobAnswer?, Cycle.poll, show processOneAnswer c t = _ from h₁]
    constructor
    · intro _
      exact ⟨e, t₁, raises_bind.mpr (.inl (raises_processOneAnswer.mp h₁))⟩
    · intro _
      rw [Poll.delAnswer?, hp]

end AiBadge
