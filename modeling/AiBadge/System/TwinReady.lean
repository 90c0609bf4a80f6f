import AiBadge.System.AccountStep
import AiBadge.System.Twin

/-! # What both sides of a run rely on

A session and its files belong to another user. What a deletion job writes is the same where its file
is, and a job that can be taken up is taken up where all other rows are locked.
-/

namespace AiBadge

open Lib Prog DbM

section Deletions

variable {c : Scope} {remove : Remove} {d : DeletionJob} {files f₀ f₁ : Files} {db db₀ db₁ : Db}

theorem Db.Alike.deletionWrites (h : db₀.Alike c db₁) :
    ((deletionWrites remove d files).1 db₀).Alike c ((deletionWrites remove d files).1 db₁) := by
  have done {db₀ db₁ : Db} (h : db₀.Alike c db₁) :
      (completeDeletion d.id db₀).Alike c (completeDeletion d.id db₁) :=
    h.setDeletionJob _ (by intro; rfl) fun _ => rfl
  unfold AiBadge.deletionWrites
  split
  · refine done ?_
    cases d.sessionId with
    | none => exact h
    | some sid => exact h.deleteArtifacts sid
  · split
    · exact done h
    · exact h.setDeletionJob _ (by intro; rfl) fun _ => rfl
  · exact done h
  · exact h.setDeletionJob _ (by intro; rfl) fun _ => rfl

/-- A deletion job of another session. -/
theorem alike_deletionWrites (hd : d.sessionId ≠ some c.sessionId)
    (hn : ∀ r ∈ db.deletionJobs, r.id = d.id → r.sessionId ≠ some c.sessionId) :
    db.Alike c ((deletionWrites remove d files).1 db) := by
  have done : db.Alike c (completeDeletion d.id db) := alike_setDeletionJob (fun _ => rfl) hn
  unfold AiBadge.deletionWrites
  split
  · cases hs : d.sessionId with
    | none => exact done
    | some sid =>
      have hne : sid ≠ c.sessionId := fun he => hd (hs.trans (congrArg some he))
      exact (alike_deleteArtifacts hne).trans (alike_setDeletionJob (fun _ => rfl) hn)
  · split
    · exact done
    · exact alike_setDeletionJob (fun _ => rfl) hn
  · exact done
  · exact alike_setDeletionJob (fun _ => rfl) hn

/-- A deletion job whose file is there on both sides or on neither. -/
theorem deletionWrites_files (h : ∀ key, d.target? = some key → (key ∈ f₀ ↔ key ∈ f₁)) :
    (deletionWrites remove d f₁).1 = (deletionWrites remove d f₀).1 ∧
      ∀ key, (key ∈ f₀ ↔ key ∈ f₁) →
        (key ∈ (deletionWrites remove d f₀).2 ↔ key ∈ (deletionWrites remove d f₁).2) := by
  unfold AiBadge.deletionWrites
  cases hty : d.resourceType with
  | deleteLocalAudio =>
    have htarget : d.target? = d.cascadeTargets.bind (·.audioKey) := if_pos hty
    rw [htarget] at h
    have hans : audioAnswer remove d f₁ = audioAnswer remove d f₀ := by
      unfold audioAnswer
      split
      next key hk => simp only [h key hk]
      next => rfl
    simp only [hans]
    split
    · refine ⟨rfl, fun key hkey => ?_⟩
      unfold eraseAudio
      split
      · simp only [List.mem_filter, hkey]
      · exact hkey
    · exact ⟨rfl, fun _ hkey => hkey⟩
  | _ => exact ⟨rfl, fun _ hkey => hkey⟩

/-- Only the file that the job names goes, where its removal succeeds. -/
theorem mem_files_deletionWrites_iff {key : AudioKey} : key ∈ (deletionWrites remove d files).2 ↔
    key ∈ files ∧ ¬ (d.target? = some key ∧ remove key = .ok ()) := by
  have kept (hne : d.target? ≠ some key) :
      key ∈ files ↔ key ∈ files ∧ ¬ (d.target? = some key ∧ remove key = .ok ()) :=
    ⟨fun h => ⟨h, fun ht => hne ht.1⟩, And.left⟩
  unfold AiBadge.deletionWrites
  cases hty : d.resourceType with
  | deleteLocalAudio =>
    have htarget : d.target? = d.cascadeTargets.bind (·.audioKey) := if_pos hty
    unfold audioAnswer eraseAudio
    cases hk : d.cascadeTargets.bind (·.audioKey) with
    | none => exact kept (by simp [htarget, hk])
    | some key' =>
      by_cases hne : key = key'
      · subst hne
        have ht : d.target? = some key := htarget.trans hk
        by_cases hm : key ∈ files
        · cases hr : remove key <;> simp [hm, hr, ht]
        · simp [hm]
      · refine Iff.trans ?_ (kept fun h => hne (Option.some.inj (h.symm.trans (htarget.trans hk))))
        dsimp only
        split
        · simp [List.mem_filter, hne]
        · exact .rfl
  | _ => exact kept (by simp [DeletionJob.target?, hty])

theorem mem_files_deletionWrites {key : AudioKey} (h : d.target? ≠ some key) :
    key ∈ (deletionWrites remove d files).2 ↔ key ∈ files :=
  mem_files_deletionWrites_iff.trans ⟨And.left, fun hm => ⟨hm, fun ht => h ht.1⟩⟩

end Deletions

namespace World

/-- What both sides rely on: the session belongs to another user than `v`, and so do the files in
scope. -/
structure Ready (c : Scope) (v : User) (w : World) : Prop where
  sound : w.Sound
  held : ∀ k job, (w.workers k).phase.job? = some job → ∃ j ∈ w.db.jobs, j.id = job
  issued : ∀ key, c.keys key → key.uuid ∈ w.issued
  recordings : ∀ s ∈ w.db.sessions, s.id ≠ c.sessionId → ∀ key, s.audioKey = some key → ¬ c.keys key
  targets : ∀ d ∈ w.db.deletionJobs, ∀ key, d.target? = some key →
    (c.keys key ↔ d.sessionId = some c.sessionId)
  owner : ∃ s ∈ w.db.sessions, s.id = c.sessionId ∧ s.userId ≠ v.id
  user : v ∈ w.db.users

section Ready

variable {c : Scope} {v : User} {w w' : World} {a : Action}

theorem SessionStep.userId {s s' : Session} (h : w.SessionStep a s s') : s'.userId = s.userId := by
  cases h <;> rfl

/-- A session is retracted by its owner. -/
theorem owner_of_retracts {sid : Uuid} (h : w.Retracts a sid) :
    ∃ user ids, a = .request (.retractSession user ids (some sid)) ∧
      ∃ s ∈ w.db.sessions, s.id = sid ∧ s.userId = user := by
  obtain ⟨user, ids, rfl, hacc⟩ := h
  have he := serve_of_accepts hacc
  generalize (w.serve _).db = db at he
  generalize hid : some sid = id at he
  cases he with
  | retractSession hs hu => exact ⟨user, ids, rfl, _, hs, (Option.some.inj hid).symm, hu⟩

variable (hw : Ready c v w) (h : w.step a = some w')
  (ha : ∀ r, a = .request r → r.user? = some v.id)
include hw h

theorem Ready.held_step :
    ∀ k job, (w'.workers k).phase.job? = some job → ∃ j ∈ w'.db.jobs, j.id = job := by
  intro k job hk
  have hrow : ∃ j ∈ w.db.jobs, j.id = job := by
    rcases (worker_of_step h).job? hk with hk | ⟨locked, rfl⟩
    · exact hw.held k job hk
    · exact mem_of_claim (effect_of_step h)
  obtain ⟨j, hj, rfl⟩ := hrow
  obtain ⟨j', hj', hi, -⟩ := (hw.sound.jobs h).kept j hj
  exact ⟨j', hj', hi⟩

theorem Ready.recordings_step : ∀ s ∈ w'.db.sessions, s.id ≠ c.sessionId →
    ∀ key, s.audioKey = some key → ¬ c.keys key := by
  intro s' hs' hne key hk hc
  rcases (hw.sound.sessions h).origin s' hs' with ⟨s, hs, hi, hstep⟩ | hnew
  · rcases hstep.audioKey with he | ⟨user, uuid4, file, ha, -, he⟩
    · exact hw.recordings s hs (hi ▸ hne) key (he.symm.trans hk) hc
    · obtain rfl := Option.some.inj (he.symm.trans hk)
      subst ha
      exact (fresh_of_step h).2 uuid4 (List.mem_singleton.mpr rfl) (hw.issued _ hc)
  · cases hnew with
    | created => cases hk

include ha in
theorem Ready.targets_step : ∀ d ∈ w'.db.deletionJobs, ∀ key, d.target? = some key →
    (c.keys key ↔ d.sessionId = some c.sessionId) := by
  intro d' hd' key hk
  rcases (hw.sound.deletions h).origin d' hd' with ⟨d, hd, -, hstep⟩ | hnew
  · rw [hstep.sessionId]
    exact hw.targets d hd key (hstep.target?.symm.trans hk)
  · cases hnew with
    | @queued id s ty targets hr hs _ hty =>
      obtain ⟨user, ids, rfl, s', hs', hi, hu⟩ := owner_of_retracts hr
      obtain rfl := Table.eq_of_key_eq hs' hs hi
      have huv : user = v.id := Option.some.inj (ha _ rfl)
      have hne : s'.id ≠ c.sessionId := by
        obtain ⟨s, hsm, hsi, hsu⟩ := hw.owner
        intro he
        obtain rfl := Table.eq_of_key_eq hsm hs' (hsi.trans he.symm)
        exact hsu (hu.trans huv)
      have hkey : s'.audioKey = some key := by
        unfold DeletionJob.target? at hk
        split at hk
        next hl => exact (hty hl).symm.trans hk
        next => cases hk
      exact iff_of_false (hw.recordings s' hs' hne key hkey) fun he => hne (Option.some.inj he)

include ha in
theorem Ready.step : Ready c v w' where
  sound := hw.sound.step h
  held := hw.held_step h
  issued key hk := issued_of_step h ▸ List.mem_append_left _ (hw.issued key hk)
  recordings := hw.recordings_step h
  targets := hw.targets_step h ha
  owner := by
    obtain ⟨s, hs, hi, hu⟩ := hw.owner
    obtain ⟨s', hs', hid, hstep⟩ := (hw.sound.sessions h).kept s hs
    exact ⟨s', hs', hid.trans hi, hstep.userId ▸ hu⟩
  user := by
    rcases accounts_of_step hw.sound.settled h with hd | ⟨env, ids, body, hash, rfl, -, -⟩
    · have hu : w'.db.users = w.db.users := congrArg Accounts.users hd
      exact hu ▸ hw.user
    · cases ha _ rfl

omit h in
/-- Steps that are no request. -/
theorem Ready.run {tr : List (Transition World Action)} (hr : Run World.step w tr w')
    (hn : ∀ t ∈ tr, ∀ r, t.act ≠ .request r) : Ready c v w' := by
  have hm : Meets (fun _ b => ∀ r, b ≠ .request r) tr := hn
  exact hr.invariant_of_meets (I := fun _ => Ready c v) hm hw fun _ _ _ _ _ hu hb h =>
    hu.step h fun r he => absurd he (hb r)

omit h in
theorem Ready.first {l : List Action} (hl : ∀ b ∈ l, ∀ r, b ≠ .request r) : Ready c v (w.first l) := by
  obtain ⟨tr, hr, ht⟩ := first_run (w := w) l
  exact hw.run hr fun t h => hl _ (ht t h)

omit h in
/-- The side without the requests. -/
theorem Ready.follow (a : Action) : Ready c v (w.follow a) := by
  obtain ⟨tr, hr, ht⟩ := follow_run w a
  exact hw.run hr fun t h => (ht t h).request

end Ready

section Queues

variable {w : World} {k : WorkerId} {now : Timestamp} {locked : List Uuid}

theorem mem_claimCandidates {db : Db} {j : Job} : j ∈ claimCandidates locked now db ↔
    j ∈ db.jobs ∧ claimable now j = true ∧ j.id ∉ locked ∧
      ∀ r ∈ db.jobs, claimable now r = true → r.id ∉ locked → ordersBefore j r = true := by
  simp only [claimCandidates, List.mem_filter, Table.mem_select, List.all_eq_true, Bool.and_eq_true,
    decide_eq_true_eq, and_assoc, and_imp]

theorem mem_deletionCandidates {db : Db} {d : DeletionJob} : d ∈ deletionCandidates locked now db ↔
    d ∈ db.deletionJobs ∧ (d.status = .pending ∧ (d.nextRunAt.all fun t => decide (t ≤ now)) = true) ∧
      d.id ∉ locked ∧ ∀ r ∈ db.deletionJobs, r.status = .pending →
        (r.nextRunAt.all fun t => decide (t ≤ now)) = true → r.id ∉ locked →
          d.createdAt ≤ r.createdAt := by
  simp only [deletionCandidates, List.mem_filter, Table.mem_select, List.all_eq_true, Bool.and_eq_true,
    decide_eq_true_eq, and_assoc, and_imp]

/-- The release keeps the ids. -/
theorem mem_jobIds {j : Job} (hj : j ∈ (releaseTimedOutJobs now w.db).jobs) : j.id ∈ w.jobIds := by
  rw [releaseTimedOutJobs_jobs] at hj
  obtain ⟨i, hi, rfl⟩ := Table.mem_update.mp hj
  refine List.mem_map.mpr ⟨i, hi, ?_⟩
  split <;> rfl

/-- Where all other rows are locked, a row that may be claimed is claimed. -/
theorem step_claim {j : Job} (hp : (w.workers k).phase = .polling)
    (hj : j ∈ (releaseTimedOutJobs w.now w.db).jobs) (hc : claimable w.now j = true) :
    w.step (.claim k j.id (w.jobIds.filter (· ≠ j.id))) = some (w.claim k j.id) := by
  have hcand : j ∈ claimCandidates (w.jobIds.filter (· ≠ j.id)) w.now
      (releaseTimedOutJobs w.now w.db) := by
    refine mem_claimCandidates.mpr ⟨hj, hc, by simp, fun r hr _ hl => ?_⟩
    have hid : r.id = j.id := by
      by_contra hne
      exact hl (List.mem_filter.mpr ⟨mem_jobIds hr, by simpa using hne⟩)
    rw [Table.eq_of_key_eq hr hj hid]
    simp [ordersBefore]
  refine step_of_act rfl ?_ rfl
  simp only [act, hp]
  rw [if_pos (List.any_eq_true.mpr ⟨j, hcand, by simp⟩)]

theorem claimable_of_step {job : Uuid} {w' : World}
    (h : w.step (.claim k job locked) = some w') : w.Claimable job := by
  obtain ⟨-, u, hact, -⟩ := step_eq_some.mp h
  obtain ⟨-, ⟨j, hj, hi⟩, -⟩ := act_claim hact
  obtain ⟨hm, hc, -⟩ := mem_claimCandidates.mp hj
  exact ⟨j, hm, hi, hc⟩

/-- Where all rows are locked, none is claimed. -/
theorem step_claimNone (hp : (w.workers k).phase = .polling) :
    w.step (.claimNone k w.jobIds) = some (w.setWorker k
      { w.workers k with phase := .tail [releaseTimedOutJobs w.now] }) := by
  have hnone : claimCandidates w.jobIds w.now (releaseTimedOutJobs w.now w.db) = [] := by
    refine List.eq_nil_iff_forall_not_mem.mpr fun j hj => ?_
    obtain ⟨hm, -, hl, -⟩ := mem_claimCandidates.mp hj
    exact hl (mem_jobIds hm)
  refine step_of_act rfl ?_ rfl
  simp only [act, hp, hnone]
  rfl

theorem step_runHandler {providers : Providers} {aid : Uuid} {j : Job}
    (hf : w.Fresh (.runHandler k providers aid)) (hp : (w.workers k).phase = .handling j.id)
    (hj : j ∈ w.db.jobs) : w.step (.runHandler k providers aid) =
      some { w.runHandler k providers aid j with issued := w.issued ++ [aid] } := by
  refine step_eq_some.mpr ⟨hf, _, ?_, rfl⟩
  simp only [act, hp, Db.job?_eq_some.mpr ⟨hj, rfl⟩, Option.map_some]

/-- Where all other rows are locked, a deletion job that is due is taken up. -/
theorem candidate_of_due {pending : List (Db → Db)} {d : DeletionJob} (hl : Leftover w.now pending)
    (hd : d ∈ w.db.deletionJobs) (hs : d.status = .pending)
    (hn : (d.nextRunAt.all fun t => decide (t ≤ w.now)) = true) :
    w.deletionCandidate pending d.id (w.deletionIds.filter (· ≠ d.id)) = some d := by
  have only {r : DeletionJob} (hr : r ∈ (w.session pending).view.deletionJobs)
      (hrl : r.id ∉ w.deletionIds.filter (· ≠ d.id)) : r = d := by
    rw [hl.deletionJobs] at hr
    refine Table.eq_of_key_eq hr hd ?_
    by_contra hne
    exact hrl (List.mem_filter.mpr ⟨List.mem_map_of_mem hr, by simpa using hne⟩)
  have hcand : d ∈ deletionCandidates (w.deletionIds.filter (· ≠ d.id)) w.now
      (w.session pending).view := by
    refine mem_deletionCandidates.mpr ⟨hl.deletionJobs ▸ hd, ⟨hs, hn⟩, by simp, ?_⟩
    intro r hr _ _ hrl
    obtain rfl := only hr hrl
    exact Int.le_refl _
  cases hf : w.deletionCandidate pending d.id (w.deletionIds.filter (· ≠ d.id)) with
  | none =>
    have hn := List.find?_eq_none.mp hf d hcand
    simp at hn
  | some r =>
    obtain ⟨hrm, -⟩ := deletionCandidate_eq_some hf
    obtain ⟨hrv, -, hrl, -⟩ := mem_deletionCandidates.mp hrm
    rw [only hrv hrl]

/-- A candidate is due. -/
theorem due_of_candidate {pending : List (Db → Db)} {d : DeletionJob} (hl : Leftover w.now pending)
    (hd : d ∈ deletionCandidates locked w.now (w.session pending).view) :
    d ∈ w.db.deletionJobs ∧ d.status = .pending ∧
      (d.nextRunAt.all fun t => decide (t ≤ w.now)) = true := by
  obtain ⟨hm, ⟨hs, hn⟩, -, -⟩ := mem_deletionCandidates.mp hd
  exact ⟨hl.deletionJobs ▸ hm, hs, hn⟩

theorem step_processDeletion {pending : List (Db → Db)} {d : DeletionJob} {remove : Remove}
    (hp : (w.workers k).phase = .tail pending) (hl : Leftover w.now pending)
    (hd : d ∈ w.db.deletionJobs) (hs : d.status = .pending)
    (hn : (d.nextRunAt.all fun t => decide (t ≤ w.now)) = true) :
    w.step (.processDeletion k d.id (w.deletionIds.filter (· ≠ d.id)) remove) =
      some { w.setWorker k { w.workers k with phase := .idle } with
        db := (w.deletionTx pending d remove).committed
        files := (w.deletionTx pending d remove).outside } := by
  refine step_of_act rfl ?_ rfl
  simp only [act, hp, candidate_of_due hl hd hs hn, Option.map_some]

theorem step_crashDeleting {pending : List (Db → Db)} {d : DeletionJob} {remove : Remove}
    (hp : (w.workers k).phase = .tail pending) (hl : Leftover w.now pending)
    (hd : d ∈ w.db.deletionJobs) (hs : d.status = .pending)
    (hn : (d.nextRunAt.all fun t => decide (t ≤ w.now)) = true) :
    w.step (.crashDeleting k d.id (w.deletionIds.filter (· ≠ d.id)) remove) =
      some { w.setWorker k { w.workers k with phase := .crashed, beat := none } with
        files := (w.deletionTx pending d remove).outside } := by
  refine step_of_act rfl ?_ rfl
  simp only [act, hp, candidate_of_due hl hd hs hn, Option.map_some]

/-- A deletion job that is taken up was due. -/
theorem due_of_processDeletion {w' : World} {job : Uuid} {remove : Remove} (hw : w.Settled)
    (h : w.step (.processDeletion k job locked remove) = some w') : w.Due job := by
  obtain ⟨-, u, hact, -⟩ := step_eq_some.mp h
  obtain ⟨pending, d, hp, ⟨hd, hi⟩, -⟩ := act_processDeletion hact
  obtain ⟨hm, hs, hn⟩ := due_of_candidate (hw.tail hp) hd
  exact ⟨d, hm, hi, hs, hn⟩

theorem deletionTx_eq {pending : List (Db → Db)} {d : DeletionJob} {remove : Remove} :
    (w.deletionTx pending d remove).committed =
        (deletionWrites remove d w.files).1 (w.session pending).view ∧
      (w.deletionTx pending d remove).outside = (deletionWrites remove d w.files).2 :=
  processDeletion_endsWith

end Queues

end World

end AiBadge
