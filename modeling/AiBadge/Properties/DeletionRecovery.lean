import AiBadge.Properties.CrashSafety

/-! # A deletion job run again after crashes

An attempt that a crash cuts short leaves the committed rows as they were, and of the
files at most the one the job names is gone. The next attempt then ends as the first
would have.
-/

namespace AiBadge

open Lib Prog DeletionCut

/-- The files between two attempts. -/
def Halfway (oss : Set Os) (d : DeletionJob) (files₀ files : Files) : Prop :=
  files = files₀ ∨ ∃ os ∈ oss, ∃ key, d.target? = some key ∧ key ∈ files₀ ∧
    os.remove key = .ok () ∧ files = files₀.filter (· ≠ key)

/-- The rows and files that one of the attempts would have left on its own. -/
def Ended (oss : Set Os) (d : DeletionJob) (s₀ : DeletionSite) (db : Db) (files : Files) : Prop :=
  ∃ os ∈ oss, db = (processDeletion os.remove d (Tx.start s₀.store s₀.outside)).2.committed ∧
    files = (processDeletion os.remove d (Tx.start s₀.store s₀.outside)).2.outside

section Attempt

variable {oss : Set Os} {os : Os} {d : DeletionJob} {key : AudioKey} {files₀ files : Files}

theorem filter_of_not_mem (h : key ∉ files) : files.filter (· ≠ key) = files := by
  apply List.filter_eq_self.mpr
  intro k hk
  have hne : k ≠ key := fun he => h (he ▸ hk)
  simpa using hne

theorem not_mem_filter : key ∉ files.filter (· ≠ key) := by simp

theorem Halfway.removed (h : Halfway oss d files₀ files) (ho : os ∈ oss)
    (ht : d.target? = some key) : Halfway oss d files₀ (removed os key files) := by
  cases hr : os.remove key with
  | error e =>
    rw [removed_of_error hr]
    exact h
  | ok =>
    rw [removed_of_ok hr]
    rcases h with rfl | ⟨os', ho', key', ht', hk, hr', rfl⟩
    · by_cases hk : key ∈ files
      · exact .inr ⟨os, ho, key, ht, hk, hr, rfl⟩
      · exact .inl (filter_of_not_mem hk)
    · obtain rfl : key' = key := Option.some.inj (ht'.symm.trans ht)
      rw [filter_of_not_mem not_mem_filter]
      exact .inr ⟨os', ho', key', ht, hk, hr', rfl⟩

/-- The file calls of the script are those the relation `T` allows. -/
theorem touches_script {T : Files → Files → Prop} (hid : ∀ files, T files files)
    (hrem : ∀ key, d.target? = some key → ∀ files, T files (removed os key files)) :
    (script os d).Sound (fun _ _ => True) T (fun _ _ => True) [] files := by
  have complete {ws files} :
      (complete d.id).Sound (fun _ _ => True) T (fun _ _ => True) ws files :=
    sound_complete (fun _ _ _ _ _ => trivial) fun _ _ => trivial
  have fail {ws files} {message : String} :
      (fail d.id message).Sound (fun _ _ => True) T (fun _ _ => True) ws files :=
    sound_fail (fun _ _ _ _ _ => trivial) fun _ _ => trivial
  intro files₁ _
  show (handle os d).Sound _ _ _ [_] files₁
  unfold handle
  split
  next =>
    split
    · exact fun _ _ => complete
    · exact complete
  next hd =>
    split
    next key hkey =>
      have ht : d.target? = some key := by rw [DeletionJob.target?, if_pos hd, hkey]
      intro files₂ _
      refine ⟨hid files₂, ?_⟩
      show Cut.Sound _ _ _ (if key ∈ files₂ then remove os d.id key else _) [_] files₂
      split
      · intro files₃ _
        refine ⟨hrem key ht files₃, ?_⟩
        simp only
        split
        · split
          · exact complete
          · exact fail
        · exact fail
      · exact complete
    next => exact complete
  next => exact complete
  next => exact fail

theorem single_script : (script os d).Single := by
  have complete : (complete d.id).Single := rfl
  show (handle os d).Single
  unfold handle
  split
  next => split <;> exact complete
  next =>
    split
    next key _ =>
      intro files
      show Cut.Single (if key ∈ files then remove os d.id key else _)
      split
      · intro files'
        simp only
        split
        · split <;> rfl
        · rfl
      · exact complete
    next => exact complete
  next => exact complete
  next => rfl

/-- From the files of an interrupted attempt, a job writes what some attempt writes from the files
of the start. -/
theorem Halfway.deletionWrites (h : Halfway oss d files₀ files) (ho : os ∈ oss) :
    ∃ os' ∈ oss, deletionWrites os.remove d files = deletionWrites os'.remove d files₀ := by
  rcases h with rfl | ⟨os', ho', key, ht, hk, hr, rfl⟩
  · exact ⟨os, ho, rfl⟩
  · refine ⟨os', ho', ?_⟩
    unfold DeletionJob.target? at ht
    split at ht
    next hd =>
      have h₁ : audioAnswer os.remove d (files₀.filter (· ≠ key)) = .ok () := by
        rw [audioAnswer, ht]
        exact if_neg not_mem_filter
      have h₂ : audioAnswer os'.remove d files₀ = .ok () := by
        rw [audioAnswer, ht]
        exact (if_pos hk).trans hr
      simp only [AiBadge.deletionWrites, hd, h₁, h₂, ht, eraseAudio,
        filter_of_not_mem not_mem_filter]
    next => cases ht

theorem Halfway.ended {s₀ : DeletionSite} (h : Halfway oss d s₀.outside files) (ho : os ∈ oss) :
    Ended oss d s₀ (processDeletion os.remove d (Tx.start s₀.store files)).2.committed
      (processDeletion os.remove d (Tx.start s₀.store files)).2.outside := by
  obtain ⟨os', ho', he⟩ := h.deletionWrites ho
  obtain ⟨hc, hf⟩ : EndsWith _ (processDeletion os.remove d (Tx.start s₀.store files)).2 _ :=
    processDeletion_endsWith
  obtain ⟨hc', hf'⟩ : EndsWith _ (processDeletion os'.remove d
    (Tx.start s₀.store s₀.outside)).2 _ := processDeletion_endsWith
  rw [Tx.outside_start] at hc hf hc' hf'
  rw [he] at hc hf
  exact ⟨os', ho', hc.trans hc'.symm, hf.trans hf'.symm⟩

end Attempt

/-- A step that attempts the job `d`, when no other attempt is in flight, or goes on with it. -/
def Reruns (oss : Set Os) (d : DeletionJob) (s : DeletionSite) : DeletionAction → Prop
  | .claim _ job _ _ os => job = d.id ∧ os ∈ oss ∧ ∀ k, s.flights k = none
  | .advance _ => True
  | .crash _ => True

/-- An action of worker `k`, which attempts no job but `d`. -/
def Attempting (oss : Set Os) (d : DeletionJob) (k : WorkerId) : DeletionAction → Prop
  | .claim j job _ _ os => j = k ∧ job = d.id ∧ os ∈ oss
  | .advance j => j = k
  | .crash j => j = k

/-- The attempts of a single worker follow one another. -/
theorem reruns_of_attempting {oss : Set Os} {d : DeletionJob} {k : WorkerId} {s₀ s : DeletionSite}
    {tr : List (Transition DeletionSite DeletionAction)} (r : Run DeletionSite.step s₀ tr s)
    (hf : ∀ k, s₀.flights k = none) (hc : ∀ t ∈ tr, Attempting oss d k t.act) :
    Meets (Reruns oss d) tr := by
  have key : Meets (Reruns oss d) tr ∧ ∀ i, i ≠ k → s.flights i = none := by
    refine r.invariant_of_meets (I := fun tr s => Meets (Reruns oss d) tr ∧
      ∀ i, i ≠ k → s.flights i = none) (C := fun _ a => Attempting oss d k a) hc
      ⟨meets_nil, fun i _ => hf i⟩ ?_
    rintro tr s a s' - ⟨hm, ho⟩ ha hs
    rw [meets_snoc]
    cases a with
    | claim j job now locked os =>
      obtain ⟨rfl, hj, hos⟩ := ha
      rw [DeletionSite.step] at hs
      split at hs
      next hn =>
        obtain ⟨e, -, rfl⟩ := Option.map_eq_some_iff.mp hs
        refine ⟨⟨hm, hj, hos, fun i => ?_⟩, fun i hi => ?_⟩
        · by_cases hi : i = j
          · rw [hi]
            exact Option.isNone_iff_eq_none.mp hn
          · exact ho i hi
        · rw [Site.flights_begin, Function.update_of_ne hi]
          exact ho i hi
      next => cases hs
    | crash j =>
      cases ha
      cases hs
      refine ⟨⟨hm, trivial⟩, fun i hi => ?_⟩
      rw [Site.flights_drop, Function.update_of_ne hi]
      exact ho i hi
    | advance j =>
      cases ha
      refine ⟨⟨hm, trivial⟩, fun i hi => ?_⟩
      obtain ⟨p, ws, -, rfl | ⟨p', t, -, rfl⟩⟩ := Site.advance_cases hs
      · rw [Site.flights_drop, Function.update_of_ne hi]
        exact ho i hi
      · exact (Function.update_of_ne hi ..).trans (ho i hi)
  exact key.1

/-- Where the attempts of one job stand. -/
structure Attempts (oss : Set Os) (d : DeletionJob) (s₀ s : DeletionSite) : Prop where
  alone : ∀ k i, i ≠ k → ∀ q, s.flights k = some q → s.flights i = none
  phase : (s.store = s₀.store ∧ Halfway oss d s₀.outside s.outside ∧
      ∀ k p ws, s.flights k = some (p, ws) → p.Single ∧
        p.Sound (fun _ _ => True)
          (fun files files' => Halfway oss d s₀.outside files → Halfway oss d s₀.outside files')
          (fun _ _ => True) ws s.outside ∧
        ∃ os ∈ oss, ∃ files, Halfway oss d s₀.outside files ∧
          p.run (s.session ws) = processDeletion os.remove d (Tx.start s₀.store files)) ∨
    Ended oss d s₀ s.store s.outside ∧ ∀ k p ws, s.flights k = some (p, ws) → p = .done

section Step

variable {oss : Set Os} {d : DeletionJob} {s₀ s s' : DeletionSite} {a : DeletionAction}
  {k : WorkerId}

theorem Attempts.drop (h : Attempts oss d s₀ s) : Attempts oss d s₀ (s.drop k) := by
  have flies {i q} (hi : (s.drop k).flights i = some q) : s.flights i = some q := by
    by_cases hk : i = k
    · rw [hk, Site.flights_drop, Function.update_self] at hi
      cases hi
    · rwa [Site.flights_drop, Function.update_of_ne hk] at hi
  constructor
  · intro j i hij q hq
    apply Option.eq_none_iff_forall_ne_some.mpr
    intro q' hq'
    cases (h.alone j i hij q (flies hq)).symm.trans (flies hq')
  · rcases h.phase with ⟨hs, hh, hp⟩ | ⟨he, hp⟩
    · exact .inl ⟨hs, hh, fun i p ws hi => hp i p ws (flies hi)⟩
    · exact .inr ⟨he, fun i p ws hi => hp i p ws (flies hi)⟩

/-- The attempt of the only worker in flight. -/
theorem Attempts.only {p p' : Cut Db Files} {ws ws' : List (Db → Db)}
    (h : Attempts oss d s₀ s) (hp : s.flights k = some (p, ws)) {i : WorkerId}
    {q : Cut Db Files × List (Db → Db)}
    (hi : Function.update s.flights k (some (p', ws')) i = some q) : i = k ∧ q = (p', ws') := by
  by_cases hk : i = k
  · rw [hk, Function.update_self] at hi
    exact ⟨hk, (Option.some.inj hi).symm⟩
  · rw [Function.update_of_ne hk] at hi
    cases (h.alone k i hk _ hp).symm.trans hi

theorem Attempts.advance (h : Attempts oss d s₀ s) (ha : s.advance k = some s') :
    Attempts oss d s₀ s' := by
  obtain ⟨p, ws, hp, rfl | ⟨p', t, hadv, rfl⟩⟩ := Site.advance_cases ha
  · exact h.drop
  · constructor
    · intro j i hij q hq
      obtain ⟨rfl, -⟩ := h.only hp hq
      show Function.update s.flights j _ i = none
      rw [Function.update_of_ne hij]
      exact h.alone j i hij _ hp
    · rcases h.phase with ⟨hs, hh, hfl⟩ | ⟨-, hfl⟩
      · obtain ⟨hsingle, hsound, os, ho, files, hfiles, hrun⟩ := hfl k p ws hp
        have hrun' : p'.run t = processDeletion os.remove d (Tx.start s₀.store files) :=
          (Cut.run_advance hadv).trans hrun
        rcases Cut.Sound.advance_single (t := s.session ws) hsound hsingle (fun _ => trivial) hadv
          with ⟨rfl, -, -, -⟩ | ⟨hsound', hsingle', ht, hout⟩
        · refine .inr ⟨?_, fun i q vs hi => ?_⟩
          · have he : Ended oss d s₀ _ _ := hfiles.ended ho
            rw [← hrun'] at he
            exact he
          · obtain ⟨-, hq⟩ := h.only hp hi
            exact congrArg Prod.fst hq
        · have hstore : t.committed = s.store := by rw [ht, Site.session]
          refine .inl ⟨hstore.trans hs, ?_, fun i q vs hi => ?_⟩
          · rcases hout with hout | hout
            · exact hout ▸ hh
            · exact hout hh
          · obtain ⟨-, hq⟩ := h.only hp hi
            obtain ⟨rfl, rfl⟩ := Prod.mk.inj hq
            refine ⟨hsingle', hsound', os, ho, files, hfiles, ?_⟩
            rw [← hrun']
            apply congrArg
            rw [ht]
            rfl
      · rw [hfl k p ws hp] at hadv
        cases hadv

theorem Attempts.step (h : Attempts oss d s₀ s) (hm : d ∈ s₀.store.deletionJobs)
    (hc : Reruns oss d s a) (hs : DeletionSite.step s a = some s') : Attempts oss d s₀ s' := by
  cases a with
  | crash k =>
    cases hs
    exact h.drop
  | advance k => exact h.advance hs
  | claim k job now locked os =>
    obtain ⟨rfl, ho, hnone⟩ := hc
    rw [DeletionSite.step, if_pos (by rw [hnone k]; rfl)] at hs
    obtain ⟨e, he, rfl⟩ := Option.map_eq_some_iff.mp hs
    have hid : e.id = d.id := by simpa using List.find?_some he
    obtain ⟨hem, hep⟩ := Table.mem_select.mp
      (List.mem_filter.mp (List.mem_of_find?_eq_some he)).1
    constructor
    · intro j i hij q hq
      rw [Site.flights_begin] at hq ⊢
      by_cases hj : j = k
      · rw [Function.update_of_ne (hj ▸ hij)]
        exact hnone i
      · rw [Function.update_of_ne hj, hnone j] at hq
        cases hq
    · rcases h.phase with ⟨hst, hh, -⟩ | ⟨⟨os', -, hst, -⟩, -⟩
      · rw [hst] at hem
        obtain rfl := Table.eq_of_key_eq hem hm hid
        refine .inl ⟨hst, hh, fun i p ws hi => ?_⟩
        have hq : (p, ws) = (script os e, []) := by
          rw [Site.flights_begin] at hi
          by_cases hi' : i = k
          · rw [hi', Function.update_self] at hi
            exact (Option.some.inj hi).symm
          · rw [Function.update_of_ne hi', hnone i] at hi
            cases hi
        obtain ⟨rfl, rfl⟩ := Prod.mk.inj hq
        refine ⟨single_script, ?_, os, ho, s.outside, hh, ?_⟩
        · exact touches_script (fun _ => id) fun key ht _ hf => hf.removed ho ht
        · rw [run_script, ← hst]
          rfl
      · rw [hst] at hem
        have hp : e.status = .pending := by
          simp only [Bool.and_eq_true, decide_eq_true_eq] at hep
          exact hep.1.1
        exact absurd hp (deletionEffect.processed hem hid)

end Step

/-- Deletion jobs are crash-safe: no committed row stays `running`, a row is completed only together
with its effect, and a job that is run again to its end leaves what one attempt would have left. -/
theorem deletion_crashSafe {s₀ : DeletionSite} (h₀ : ∀ d ∈ s₀.store.deletionJobs, d.status ≠ .running)
    (hf : ∀ k, s₀.flights k = none) :
    (∀ tr s, Run DeletionSite.step s₀ tr s →
      (∀ d ∈ s.store.deletionJobs, d.status ≠ .running) ∧ ∀ t ∈ tr, CompletesTask t) ∧
    ∀ d ∈ s₀.store.deletionJobs, d.status = .pending → ∀ oss tr s, Run DeletionSite.step s₀ tr s →
      Meets (Reruns oss d) tr →
      (∀ d' ∈ s.store.deletionJobs, d'.id = d.id → d'.status ≠ .pending) →
      Ended oss d s₀ s.store s.outside := by
  constructor
  · intro tr s r
    have hi : CrashSafe s₀.store s₀ := by
      refine ⟨fun k p ws hp => ?_, fun d hd => ⟨d, hd, .refl⟩, h₀⟩
      cases (hf k).symm.trans hp
    obtain ⟨hs, ht⟩ := r.forall_of_kept hi fun _ _ _ hi h => hi.step h
    exact ⟨hs.stopped, ht⟩
  · intro d hd hp oss tr s r hc hend
    have hi : Attempts oss d s₀ s₀ := by
      constructor
      · intro k i _ q hq
        cases (hf k).symm.trans hq
      · refine .inl ⟨rfl, .inl rfl, fun k p ws hk => ?_⟩
        cases (hf k).symm.trans hk
    have hs : Attempts oss d s₀ s := r.invariant_of_meets (I := fun _ s => Attempts oss d s₀ s) hc hi
      fun _ _ _ _ _ hi hc h => hi.step hd hc h
    rcases hs.phase with ⟨hst, -⟩ | ⟨he, -⟩
    · exact absurd hp (hend d (hst ▸ hd) rfl)
    · exact he

namespace Replay

def recording : AudioKey := ⟨uuid 30, "wav"⟩

def removal : DeletionJob :=
  { id := uuid 7, sessionId := some (uuid 5), resourceType := .deleteLocalAudio
    resourceId := uuid 5, cascadeTargets := some { audioKey := some recording }, createdAt := 0 }

def willing : Os := ⟨fun _ => .ok (), fun _ => .osError "No such file or directory"⟩

/-- The removal of a recording is due. -/
def due : DeletionSite where
  store := Db.empty.addDeletionJob removal
  outside := [recording]
  flights _ := none

def attempt (n : Nat) : List DeletionAction :=
  .claim 0 removal.id 0 [] willing :: List.replicate n (.advance 0)

/-- A worker died with the file removed and nothing committed. -/
def diedHalfway (t : Transition DeletionSite DeletionAction) : Bool :=
  t.act matches .crash _ && t.pre.outside = [] && t.post.store.deletionJobs.any (·.status = .pending)

end Replay

/-- A worker dies between the removal of the file and its commit, and the job is run again. -/
theorem deletion_crashSafe_rerun : ∃ tr s, Run DeletionSite.step Replay.due tr s ∧
    tr.any Replay.diedHalfway = true ∧ (∀ t ∈ tr, CompletesTask t) ∧
    Ended {Replay.willing} Replay.removal Replay.due s.store s.outside := by
  have h : (execute DeletionSite.step Replay.due
      (Replay.attempt 3 ++ .crash 0 :: Replay.attempt 5)).any (fun p =>
        p.1.any Replay.diedHalfway &&
          decide (∀ d ∈ p.2.store.deletionJobs, d.status ≠ .pending)) = true := by
    decide
  obtain ⟨⟨tr, s⟩, he, hp⟩ := (Option.any_eq_true _ _).mp h
  obtain ⟨hdied, hend⟩ := Bool.and_eq_true_iff.mp hp
  have r : Run DeletionSite.step Replay.due tr s := run_of_execute he
  have hm : Replay.removal ∈ Replay.due.store.deletionJobs := by
    apply (Table.mem_insert_of_not_mem ?_).mpr
    · exact .inr rfl
    · intro x hx
      exact absurd hx (Table.not_mem_empty x)
  have hc : Meets (Reruns {Replay.willing} Replay.removal) tr := by
    refine reruns_of_attempting (k := 0) r (fun _ => rfl) fun t ht => ?_
    have ha := act_mem_of_execute he t ht
    simp only [Replay.attempt, List.replicate, List.cons_append, List.nil_append, List.mem_cons,
      List.not_mem_nil, or_false] at ha
    rcases ha with h | h | h | h | h | h | h | h | h | h | h <;> rw [h] <;>
      first | rfl | exact ⟨rfl, rfl, rfl⟩
  have hstopped : ∀ d ∈ Replay.due.store.deletionJobs, d.status ≠ .running := by decide
  obtain ⟨hruns, hrerun⟩ := deletion_crashSafe hstopped fun _ => rfl
  refine ⟨tr, s, r, hdied, (hruns tr s r).2, ?_⟩
  exact hrerun Replay.removal hm rfl {Replay.willing} tr s r hc fun d hd _ =>
    of_decide_eq_true hend d hd

end AiBadge
