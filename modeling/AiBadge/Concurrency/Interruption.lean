import AiBadge.Concurrency.Scripts
import AiBadge.Lib.StaleRead

/-! # A request that another one overtakes

A request on a session reads the row once. If another request commits meanwhile, it
goes on with the row that it has read, and its own effect comes on top of the other's.
-/

namespace AiBadge

open Lib Prog DbScript SessionStatus

/-- The session exists and belongs to the user. -/
def Db.Belongs (db : Db) (user sid : Uuid) : Prop := ∃ s ∈ db.sessions, s.id = sid ∧ s.userId = user

/-- `new` is `old` with other columns in its sessions, and with jobs whose ids and keys are
among `locks`. -/
structure Grown (locks : List Lock) (old new : Db) : Prop where
  users : new.users = old.users
  belongs : ∀ user sid, new.Belongs user sid ↔ old.Belongs user sid
  jobs : ∀ j ∈ old.jobs, j ∈ new.jobs
  newJobs : ∀ j ∈ new.jobs, j ∈ old.jobs ∨ .jobId j.id ∈ locks ∧ .jobKey j.idempotencyKey ∈ locks
  deletionJobs : ∀ d ∈ old.deletionJobs, d ∈ new.deletionJobs
  newDeletionJobs : ∀ d ∈ new.deletionJobs, d ∈ old.deletionJobs ∨ .deletionJob d.id ∈ locks

section Grown

variable {locks rows : List Lock} {old new : Db} {next : DbScript} {s : Session}

theorem Grown.refl : Grown locks old old where
  users := rfl
  belongs _ _ := Iff.rfl
  jobs _ h := h
  newJobs _ h := .inl h
  deletionJobs _ h := h
  newDeletionJobs _ h := .inl h

theorem Grown.mono (h : Grown locks old new) (hl : ∀ r ∈ locks, r ∈ rows) : Grown rows old new where
  users := h.users
  belongs := h.belongs
  jobs := h.jobs
  newJobs j hj := (h.newJobs j hj).imp_right fun hn => hn.imp (hl _) (hl _)
  deletionJobs := h.deletionJobs
  newDeletionJobs d hd := (h.newDeletionJobs d hd).imp_right (hl _)

theorem belongs_setSession {sid i user : Uuid} {f : Session → Session} {hf : ∀ s, (f s).id = s.id}
    (hu : ∀ s, (f s).userId = s.userId) :
    (old.setSession i f hf).Belongs user sid ↔ old.Belongs user sid := by
  constructor
  · rintro ⟨r, hr, rfl, rfl⟩
    have hm : r ∈ old.sessions.update (fun s => s.id = i) f hf := hr
    obtain ⟨s, hs, rfl⟩ := Table.mem_update.mp hm
    refine ⟨s, hs, ?_, ?_⟩
    · split <;> simp [hf]
    · split <;> simp [hu]
  · rintro ⟨s, hs, rfl, rfl⟩
    refine ⟨_, Table.mem_update_of_mem hf hs, ?_, ?_⟩
    · split <;> simp [hf]
    · split <;> simp [hu]

theorem Grown.setSession {sid : Uuid} {f : Session → Session} {hf : ∀ s, (f s).id = s.id}
    (hu : ∀ s, (f s).userId = s.userId) (h : Grown locks old new) :
    Grown locks old (new.setSession sid f hf) :=
  { h with belongs := fun user i => (belongs_setSession hu).trans (h.belongs user i) }

theorem Grown.addJob {j : Job} (h : Grown locks old new) :
    Grown (locks ++ [.jobId j.id, .jobKey j.idempotencyKey]) old (new.addJob j) where
  users := h.users
  belongs := h.belongs
  jobs r hr := Table.mem_insert_of_mem (h.jobs r hr)
  newJobs r hr := by
    rcases Table.mem_of_mem_insert hr with hr | rfl
    · exact (h.newJobs r hr).imp_right fun hn =>
        hn.imp (List.mem_append_left _) (List.mem_append_left _)
    · exact .inr (by simp)
  deletionJobs := h.deletionJobs
  newDeletionJobs d hd := (h.newDeletionJobs d hd).imp_right (List.mem_append_left _)

theorem Grown.addDeletionJob {d : DeletionJob} (h : Grown locks old new) :
    Grown (locks ++ [.deletionJob d.id]) old (new.addDeletionJob d) where
  users := h.users
  belongs := h.belongs
  jobs := h.jobs
  newJobs j hj := (h.newJobs j hj).imp_right fun hn =>
    hn.imp (List.mem_append_left _) (List.mem_append_left _)
  deletionJobs r hr := Table.mem_insert_of_mem (h.deletionJobs r hr)
  newDeletionJobs r hr := by
    rcases Table.mem_of_mem_insert hr with hr | rfl
    · exact (h.newDeletionJobs r hr).imp_right (List.mem_append_left _)
    · exact .inr (by simp)

theorem Grown.addAudit {l : AuditLog} (h : Grown locks old new) : Grown locks old (new.addAudit l) :=
  { h with }

theorem Grown.addEvent {e : WorkflowEvent} (h : Grown locks old new) :
    Grown locks old (new.addEvent e) :=
  { h with }

/-! ## Every write is covered by the locks of its flush -/

theorem tracked_saveSession {loaded row : Session} (h : Tracked Grown next) :
    Tracked Grown (saveSession loaded row next) := by
  refine .flush (fun L old new hG => ?_) h
  have hs : Grown L old (new.setSession loaded.id (loaded.save row)) := hG.setSession (by intro; rfl)
  exact hs.mono fun _ => List.mem_append_left _

theorem tracked_insertJob {j : Job} (h : Tracked Grown next) :
    Tracked Grown (DbScript.insertJob j next) :=
  .flush (fun _ _ _ hG => hG.addJob) h

theorem tracked_insertDeletionJob {d : DeletionJob} (h : Tracked Grown next) :
    Tracked Grown (DbScript.insertDeletionJob d next) :=
  .flush (fun _ _ _ hG => hG.addDeletionJob) h

theorem tracked_addAudit {l : AuditLog} (h : Tracked Grown next) :
    Tracked Grown (DbScript.addAudit l next) :=
  .flush (fun _ _ _ hG => by simpa using hG.addAudit) h

theorem tracked_addEvent {e : WorkflowEvent} (h : Tracked Grown next) :
    Tracked Grown (DbScript.addEvent e next) :=
  .flush (fun _ _ _ hG => by simpa using hG.addEvent) h

theorem tracked_createJobsForSession {ids : PipelineIds} {now : Timestamp} {sid : Uuid}
    (h : Tracked Grown next) : Tracked Grown (DbScript.createJobsForSession ids now sid next) :=
  tracked_insertJob <| tracked_insertJob <| tracked_insertJob <|
    tracked_addEvent <| tracked_addEvent <| tracked_addEvent h

theorem tracked_plan {r : SessionRequest} : Tracked Grown (r.plan s) := by
  obtain ⟨user, now, session, call⟩ := r
  cases call with
  | consent grant => exact .ensure (tracked_saveSession (tracked_addAudit .done))
  | status ids text =>
    refine .require fun t => .ensure (tracked_saveSession ?_)
    cases ht : decide (t = processing) with
    | true =>
      rw [Script.when, if_pos rfl]
      exact .ensure (tracked_createJobsForSession .done)
    | false => exact .done
  | cancel => exact .ensure (tracked_saveSession .done)
  | retract ids =>
    refine .ensure (.fetch fun _ => .ensure (tracked_saveSession ?_))
    exact tracked_insertDeletionJob <| tracked_insertDeletionJob <| tracked_insertDeletionJob <|
      tracked_addAudit .done

theorem tracked_script {r : SessionRequest} : Tracked Grown r.script :=
  .fetch fun _ => .require fun _ => .fetch fun _ => tracked_plan

/-! ## No statement after the load finds a difference -/

theorem steady_saveSession {loaded row : Session} (h : Steady (Grown locks) locks next) :
    Steady (Grown locks) locks (saveSession loaded row next) := by
  have hu (s : Session) : (loaded.save row s).userId = s.userId := rfl
  refine .update (fun old new hG => ?_) h
  exact { hG with
    belongs := fun user i =>
      (belongs_setSession hu).trans ((hG.belongs user i).trans (belongs_setSession hu).symm) }

theorem steady_insertJob {j : Job} (h : Steady (Grown locks) locks next) :
    Steady (Grown locks) locks (DbScript.insertJob j next) := by
  have hfree {db : Db} : (!db.jobs.any fun r => r.id = j.id || r.idempotencyKey = j.idempotencyKey) =
      true ↔ db.KeyFree j := by simp [Db.KeyFree]
  refine .insert (fun old new hG hn => ?_) (fun old new hG hl ho => ?_) (fun old new hG ho hn => ?_) h
  · rw [hfree] at hn ⊢
    exact fun r hr => hn r (hG.jobs r hr)
  · rw [hfree] at ho ⊢
    intro r hr
    rcases hG.newJobs r hr with hr | ⟨hi, hk⟩
    · exact ho r hr
    · exact ⟨fun he => hl _ (by simp) (he ▸ hi), fun he => hl _ (by simp) (he ▸ hk)⟩
  · rw [hfree] at ho hn
    have hmo {r : Job} : r ∈ (old.addJob j).jobs ↔ r ∈ old.jobs ∨ r = j :=
      Table.mem_insert_of_not_mem fun r hr => (ho r hr).1
    have hmn {r : Job} : r ∈ (new.addJob j).jobs ↔ r ∈ new.jobs ∨ r = j :=
      Table.mem_insert_of_not_mem fun r hr => (hn r hr).1
    refine { hG with jobs := fun r hr => ?_, newJobs := fun r hr => ?_ }
    · exact hmn.mpr ((hmo.mp hr).imp_left (hG.jobs r))
    · rcases hmn.mp hr with hr | rfl
      · exact (hG.newJobs r hr).imp_left fun hr => hmo.mpr (.inl hr)
      · exact .inl (hmo.mpr (.inr rfl))

theorem steady_insertDeletionJob {d : DeletionJob} (h : Steady (Grown locks) locks next) :
    Steady (Grown locks) locks (DbScript.insertDeletionJob d next) := by
  have hfree {db : Db} : (!db.deletionJobs.any fun r => r.id = d.id) = true ↔
      ∀ r ∈ db.deletionJobs, r.id ≠ d.id := by simp
  refine .insert (fun old new hG hn => ?_) (fun old new hG hl ho => ?_) (fun old new hG ho hn => ?_) h
  · rw [hfree] at hn ⊢
    exact fun r hr => hn r (hG.deletionJobs r hr)
  · rw [hfree] at ho ⊢
    intro r hr he
    rcases hG.newDeletionJobs r hr with hr | hi
    · exact ho r hr he
    · exact hl _ (by simp) (he ▸ hi)
  · rw [hfree] at ho hn
    have hmo {r : DeletionJob} :
        r ∈ (old.addDeletionJob d).deletionJobs ↔ r ∈ old.deletionJobs ∨ r = d :=
      Table.mem_insert_of_not_mem ho
    have hmn {r : DeletionJob} :
        r ∈ (new.addDeletionJob d).deletionJobs ↔ r ∈ new.deletionJobs ∨ r = d :=
      Table.mem_insert_of_not_mem hn
    refine { hG with deletionJobs := fun r hr => ?_, newDeletionJobs := fun r hr => ?_ }
    · exact hmn.mpr ((hmo.mp hr).imp_left (hG.deletionJobs r))
    · rcases hmn.mp hr with hr | rfl
      · exact (hG.newDeletionJobs r hr).imp_left fun hr => hmo.mpr (.inl hr)
      · exact .inl (hmo.mpr (.inr rfl))

theorem steady_addAudit {l : AuditLog} (h : Steady (Grown locks) locks next) :
    Steady (Grown locks) locks (DbScript.addAudit l next) :=
  .update (fun _ _ hG => { hG with }) h

theorem steady_addEvent {e : WorkflowEvent} (h : Steady (Grown locks) locks next) :
    Steady (Grown locks) locks (DbScript.addEvent e next) :=
  .update (fun _ _ hG => { hG with }) h

theorem steady_createJobsForSession {ids : PipelineIds} {now : Timestamp} {sid : Uuid}
    (h : Steady (Grown locks) locks next) :
    Steady (Grown locks) locks (DbScript.createJobsForSession ids now sid next) :=
  steady_insertJob <| steady_insertJob <| steady_insertJob <|
    steady_addEvent <| steady_addEvent <| steady_addEvent h

/-- The second query of a retraction finds the session that the first one has loaded. -/
theorem find?_belongs (db : Db) (user : Uuid) (s : Session) [Decidable (db.Belongs user s.id)] :
    ((db.sessions.find? fun r => r.id = s.id && r.userId = user).map fun _ => s) =
      if db.Belongs user s.id then some s else none := by
  split
  next h =>
    obtain ⟨r, hr, hi, rfl⟩ := h
    rw [Table.find?_of_mem hr (by simp [hi]) (by simp +contextual [hi])]
    rfl
  next h =>
    rw [Option.map_eq_none_iff, Table.find?_eq_none]
    intro r hr hp
    exact h ⟨r, hr, by simpa using hp⟩

theorem steady_plan {r : SessionRequest} : Steady (Grown locks) locks (r.plan s) := by
  obtain ⟨user, now, session, call⟩ := r
  cases call with
  | consent grant => exact .ensure (steady_saveSession (steady_addAudit .done))
  | status ids text =>
    refine .require fun t _ => .ensure (steady_saveSession ?_)
    cases ht : decide (t = processing) with
    | true =>
      rw [Script.when, if_pos rfl]
      exact .ensure (steady_createJobsForSession .done)
    | false => exact .done
  | cancel => exact .ensure (steady_saveSession .done)
  | retract ids =>
    refine .ensure (.fetch (fun old new hG => ?_) fun _ => .ensure (steady_saveSession ?_))
    · classical
      rw [find?_belongs, find?_belongs]
      simp only [hG.belongs]
    · exact steady_insertDeletionJob <| steady_insertDeletionJob <| steady_insertDeletionJob <|
        steady_addAudit .done

end Grown

/-! ## The load -/

namespace SessionRequest

/-- The request finds its user, and the row `s` of its session. -/
structure Loads (r : SessionRequest) (db : Db) (s : Session) : Prop where
  user : ∃ u ∈ db.users, u.id = r.user
  session : r.session = some s.id
  row : s ∈ db.sessions
  owner : s.userId = r.user

variable {r : SessionRequest} {db db' : Db} {s s' : Session}

instance : Decidable (r.Loads db s) :=
  decidable_of_iff
    ((∃ u ∈ db.users, u.id = r.user) ∧ r.session = some s.id ∧ s ∈ db.sessions.rows ∧
      s.userId = r.user)
    ⟨fun ⟨h₁, h₂, h₃, h₄⟩ => ⟨h₁, h₂, h₃, h₄⟩, fun h => ⟨h.user, h.session, h.row, h.owner⟩⟩

theorem Loads.unique (h : r.Loads db s) (h' : r.Loads db s') : s' = s :=
  Table.eq_of_key_eq h'.row h.row (Option.some.inj (h'.session.symm.trans h.session))

/-- A write to the session leaves it to its owner. -/
theorem Loads.of_row (h : r.Loads db s) (hu : db'.users = db.users) (hs : s' ∈ db'.sessions)
    (hi : s'.id = s.id) (ho : s'.userId = s.userId) : r.Loads db' s' where
  user := hu ▸ h.user
  session := hi ▸ h.session
  row := hs
  owner := ho.trans h.owner

theorem Loads.belongs (h : r.Loads db s) : db.Belongs r.user s.id := ⟨s, h.row, rfl, h.owner⟩

theorem find?_user {user : Uuid} (h : ∃ u ∈ db.users, u.id = user) :
    ∃ u, db.users.find? (fun u => u.id = user) = some u := by
  obtain ⟨u, hu, rfl⟩ := h
  exact ⟨u, Table.find?_of_mem hu (by simp) (by simp)⟩

theorem Loads.find?_session (h : r.Loads db s) :
    db.sessions.find? (fun x => x.id = s.id && x.userId = r.user) = some s :=
  Table.find?_of_mem h.row (by simp [h.owner]) (by simp +contextual)

theorem finish_script {f : Db} : r.script.finish db [] = some f ↔
    ∃ s, r.Loads db s ∧ (r.plan s).finish db [] = some f := by
  simp only [script, currentUser, sessionOr404, finish_fetch, finish_require, overlay_nil]
  constructor
  · rintro ⟨u, hu, sid, hsid, s, hs, hf⟩
    obtain ⟨hu, hui⟩ := Table.find?_eq_some hu
    obtain ⟨hm, hp⟩ := Table.find?_eq_some hs
    obtain ⟨rfl, ho⟩ : s.id = sid ∧ s.userId = r.user := by simpa using hp
    exact ⟨s, ⟨⟨u, hu, by simpa using hui⟩, hsid, hm, ho⟩, hf⟩
  · rintro ⟨s, h, hf⟩
    obtain ⟨u, hu⟩ := find?_user h.user
    exact ⟨u, hu, s.id, h.session, s, h.find?_session, hf⟩

theorem serve_of_not_loads (h : ∀ s, ¬ r.Loads db s) : r.serve db = db := by
  rw [← r.result_script, Cursor.result]
  cases hf : r.script.finish db [] with
  | none => rfl
  | some f =>
    obtain ⟨s, hl, -⟩ := finish_script.mp hf
    exact absurd hl (h s)

theorem serve_of_loads (h : r.Loads db s) : r.serve db = ((r.plan s).finish db []).getD db := by
  have hf : r.script.finish db [] = (r.plan s).finish db [] := by
    ext f
    rw [finish_script]
    constructor
    · rintro ⟨s', h', hf⟩
      rwa [h.unique h'] at hf
    · exact fun hf => ⟨s, h, hf⟩
  rw [← r.result_script, Cursor.result, hf]

theorem not_loads_of_not_belongs {sid : Uuid} (hs : r.session = some sid) (h : ¬ db.Belongs r.user sid)
    (s : Session) : ¬ r.Loads db s := by
  intro hl
  obtain rfl := Option.some.inj (hs.symm.trans hl.session)
  exact h hl.belongs

/-- Up to the load, a request can still be served as if it had not begun. -/
theorem reaches_script {c : Cursor Db Lock Exn} (h : Reaches db ⟨r.script, [], []⟩ c) :
    (∃ s, r.Loads db s ∧ Reaches db ⟨r.plan s, [], []⟩ c) ∨
      ∀ db', db'.users = db.users → (∀ user sid, db'.Belongs user sid ↔ db.Belongs user sid) →
        c.result db' = r.serve db' := by
  have unserved {e : Exn} (hn : ∀ db', db'.users = db.users →
      (∀ user sid, db'.Belongs user sid ↔ db.Belongs user sid) → ∀ s, ¬ r.Loads db' s) :
      ∀ db', db'.users = db.users → (∀ user sid, db'.Belongs user sid ↔ db.Belongs user sid) →
        Cursor.result db' (⟨.raise e, [], []⟩ : Cursor Db Lock Exn) = r.serve db' := by
    intro db' hu ho
    rw [serve_of_not_loads (hn db' hu ho)]
    rfl
  rcases reaches_fetch h with rfl | ⟨hu, rfl⟩ | ⟨u, hu, h⟩
  · exact .inr fun db' _ _ => r.result_script db'
  · refine .inr (unserved fun db' hus _ s hl => ?_)
    obtain ⟨u, hf⟩ := find?_user hl.user
    rw [hus] at hf
    cases hf.symm.trans hu
  cases hs : r.session with
  | none =>
    rw [hs] at h
    rw [reaches_raise h]
    exact .inr (unserved fun db' _ _ s hl => by cases hs.symm.trans hl.session)
  | some sid =>
  rw [hs] at h
  rcases reaches_fetch h with rfl | ⟨hrow, rfl⟩ | ⟨s, hrow, h⟩
  · refine .inr fun db' hus _ => ?_
    have hu' : db'.users.find? (fun u => u.id = r.user) = some u := hus ▸ hu
    have hscript : r.script.finish db' [] = (sessionOr404 (some sid) r.user r.plan).finish db' [] := by
      show (Script.require (db'.users.find? _) _ _).finish db' [] = _
      rw [hu', hs]
      rfl
    rw [← r.result_script, Cursor.result, Cursor.result, hscript]
    rfl
  · refine .inr (unserved fun db' _ ho => not_loads_of_not_belongs hs fun hown => ?_)
    obtain ⟨s, hm, hp⟩ := (ho _ _).mp hown
    exact Table.find?_eq_none.mp hrow s hm (by simpa using hp)
  · obtain ⟨hm, hp⟩ := Table.find?_eq_some hrow
    obtain ⟨hi, ho⟩ : s.id = sid ∧ s.userId = r.user := by simpa using hp
    obtain ⟨hu, hui⟩ := Table.find?_eq_some hu
    exact .inl ⟨s, ⟨⟨u, hu, by simpa using hui⟩, hi ▸ hs, hm, ho⟩, h⟩

/-- A request can be interrupted right after the load. -/
theorem Loads.reaches_plan (h : r.Loads db s) : Reaches db ⟨r.script, [], []⟩ ⟨r.plan s, [], []⟩ := by
  obtain ⟨u, hu⟩ := find?_user h.user
  have h₁ : Cursor.advance db ⟨r.script, [], []⟩ =
      some ⟨sessionOr404 r.session r.user r.plan, [], []⟩ := by
    show some (⟨Script.require (db.users.find? _) _ _, _, _⟩ : Cursor Db Lock Exn) = _
    rw [hu]
    rfl
  have h₂ : Cursor.advance db ⟨sessionOr404 r.session r.user r.plan, [], []⟩ =
      some ⟨r.plan s, [], []⟩ := by
    rw [h.session]
    show some (⟨Script.require (db.sessions.find? _) _ _, _, _⟩ : Cursor Db Lock Exn) = _
    rw [h.find?_session]
    rfl
  exact .head h₁ (.single h₂)

/-- What a request leaves that has loaded the row `s` from an older database. -/
def late (r : SessionRequest) (s : Session) (db : Db) : Db := ((r.plan s).finish db []).getD db

end SessionRequest

section Interrupted

variable {reqs : Bool → SessionRequest} {db : Db} {b : Bool} {e c : Cursor Db Lock Exn}

/-- What the first request leaves, seen from the second one. -/
theorem grown_of_interrupted (h : Interrupted db (fun b => (reqs b).script) b e c) :
    Grown e.locks db ((reqs b).serve db) := by
  have hg := tracked_script.ends (G := Grown) .refl (fun _ => .refl) h.ends
  rwa [SessionRequest.result_script] at hg

/-- Two requests end in a serial way, or the second one has loaded its row before the first one
committed. -/
theorem result_of_interrupted (h : Interrupted db (fun b => (reqs b).script) b e c) :
    c.result (e.result db) = (reqs !b).serve ((reqs b).serve db) ∨
      ∃ s, (reqs !b).Loads db s ∧ c.result (e.result db) = (reqs !b).late s ((reqs b).serve db) := by
  have he : e.result db = (reqs b).serve db := by
    rw [h.ends.1.result, SessionRequest.result_script]
  have hg := grown_of_interrupted h
  rw [he]
  rcases SessionRequest.reaches_script h.reaches with ⟨s, hl, hr⟩ | hr
  · refine .inr ⟨s, hl, ?_⟩
    have hplan : Steady (Grown e.locks) e.locks ((reqs !b).plan s) := steady_plan
    have hf : c.script.finish ((reqs b).serve db) c.writes =
        ((reqs !b).plan s).finish ((reqs b).serve db) [] :=
      Steady.finish (c := ⟨(reqs !b).plan s, [], []⟩) hplan hg hr h.unlocked
    rw [Cursor.result, hf, SessionRequest.late]
  · exact .inl (hr _ hg.users hg.belongs)

end Interrupted

end AiBadge
