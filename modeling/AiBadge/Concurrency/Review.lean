import AiBadge.Concurrency.Scripts

/-! # An approval, cut at its statements

The approval writes its own artifact, asks which artifacts of the session are left, and
when there are none moves the session. The row of the session is read once, by the first
query for it. At the end the artifact is read again for the response.
-/

namespace AiBadge

open Lib Prog DbM SessionStatus

namespace DbScript

/-- `_transition_session` in a database session that may know the row already. -/
def transitionSession (sessionId : Uuid) (known : Option Session) (target : SessionStatus)
    (next : Session → DbScript) : DbScript :=
  .fetch (fun db => (db.session? sessionId).map fun found => known.getD found)
    (.valueError s!"Session {sessionId.str} not found") fun session =>
  let verdict := canTransition session.status target
  .ensure verdict.1 (.valueError (s!"Cannot transition session {sessionId.str} from " ++
      s!"{session.status.value} to {target.value}: {verdict.2}")) <|
  -- `updated_at` is assigned as well, so the `UPDATE` is sent in any case
  .update [.session sessionId]
    (fun db => db.setSession sessionId (session.save (session.withStatus target))) <|
  addEvent (sessionEvent sessionId target) <|
  next (session.withStatus target)

/-- The moves of a session that has no artifact left to approve. -/
def advance (sessionId : Uuid) (known : Option Session) (next : DbScript) : DbScript :=
  if known.any fun s => s.status = needsReview then
    transitionSession sessionId known reviewing fun s =>
      transitionSession sessionId (some s) approved fun _ => next
  else transitionSession sessionId known approved fun _ => next

/-- The query for what is left to approve. -/
def askRemaining (sessionId : Uuid) (next : DbScript) : DbScript :=
  .query fun db =>
    if (db.artifacts.select fun a => a.sessionId = sessionId && a.status ≠ .approved).isEmpty then
      .query fun db => advance sessionId (db.session? sessionId) next
    else next

/-- `db.refresh` of an artifact, and its response. -/
def respondArtifact (artifactId : Uuid) : DbScript :=
  .fetch (fun db => db.artifact? artifactId) (.invalidRequest "Could not refresh instance") fun a =>
    .ensure a.content.isObj (.validationError "content") .done

/-- The approval of the loaded row, up to the response. -/
def approvePlan (comment : String) (user : Uuid) (a : Artifact) : DbScript :=
  .update [.artifact a.id]
    (fun db => db.setArtifact a.id (a.save (a.withReview .approved comment))) <|
  addEvent (reviewEvent a user .artifactApproved) <|
  askRemaining a.sessionId <|
  respondArtifact a.id

/-- The review endpoint on the loaded row. A comment with a NUL character is refused before the
`UPDATE` locks anything. -/
def reviewPlan (comment : String) (user : Uuid) (a : Artifact) : DbScript :=
  .ensure (fitsText comment) (.dataError "artifacts.review_comment") (approvePlan comment user a)

end DbScript

/-- A request that approves an artifact. -/
structure Approval where
  user : Uuid
  ids : RetryIds
  artifact : PathId
  comment : String

namespace Approval

def request (r : Approval) : Request :=
  .reviewArtifact r.user r.ids r.artifact ⟨.approve, r.comment⟩

def script (r : Approval) : DbScript :=
  DbScript.currentUser r.user fun u =>
    DbScript.artifactOr404 r.artifact (DbScript.reviewPlan r.comment u.id)

end Approval

section Pieces

variable {s : Session} {a : Artifact}

/-- Two sessions with the same view, in which the row of `sid` is `known`. -/
def SameKnown (sid : Uuid) (known : Option Session) (t u : Tx Db Files) : Prop :=
  SameView t u ∧ t.view.session? sid = known

theorem run_artifactOr404 {artifactId : PathId} {next : Artifact → DbScript} :
    (DbScript.artifactOr404 artifactId next).run (φ := Files) =
      getArtifactOr404 artifactId >>= fun a => (next a).run := by
  cases artifactId with
  | none => rfl
  | some aid => exact run_fetch

theorem agree_getArtifactOr404 {artifactId : PathId} :
    Agree SameView SameView (getArtifactOr404 artifactId) (getArtifactOr404 artifactId) :=
  agree_require.seq fun _ => (agree_read fun _ _ h => by rw [h.1]).seq fun _ => agree_require

theorem setArtifact_save {db : Db} {comment : String} (ha : a ∈ db.artifacts) :
    db.setArtifact a.id (a.save (a.withReview .approved comment)) =
      db.setArtifact a.id (Artifact.withReview .approved comment) := by
  rw [Db.setArtifact, Db.setArtifact]
  congr 1
  apply Table.update_congr
  intro r hr hi
  obtain rfl := Table.eq_of_key_eq hr ha (by simpa using hi)
  simp [Artifact.save, Artifact.withReview, changed_self]

theorem agree_transitionScript {sid : Uuid} {known : Option Session} {target : SessionStatus}
    {next : Session → DbScript} {rest : DbM Unit}
    (h : ∀ s : Session, Agree (SameKnown sid (some (s.withStatus target))) SameView
      (next (s.withStatus target)).run rest) :
    Agree (SameKnown sid known) SameView (DbScript.transitionSession sid known target next).run
      (AiBadge.transitionSession sid target >>= fun _ => rest) := by
  have hweak : ∀ t u, SameKnown sid known t u → SameView t u := fun _ _ h => h.1
  rw [DbScript.transitionSession, run_fetch, AiBadge.transitionSession]
  simp only [bind_assoc]
  refine Agree.kept keeps_read keeps_read (fun t u ht => ?_) hweak fun o => ?_
  · refine congrArg Except.ok ?_
    show (t.view.session? sid).map _ = u.view.session? sid
    rw [← ht.1.1, ht.2]
    cases known <;> rfl
  rintro t u ⟨ht, hret⟩
  obtain rfl : o = known := by
    rw [(returns_read.mp hret).1, ht.2]
    cases known <;> rfl
  refine (?_ : Agree (SameKnown sid o) SameView _ _) t u ht
  refine agree_require.bind (fun s hs => ?_) hweak
  obtain ⟨_, _, _, -, hs⟩ := hs
  obtain rfl := (returns_require.mp hs).1
  rw [run_ensure]
  refine agree_ensure.bind (fun _ _ => ?_) hweak
  rw [run_update, DbScript.addEvent, run_update]
  refine Agree.bind (S := SameKnown sid (some (s.withStatus target))) (agree_write fun t u ht => ?_)
    (fun _ _ => ?_) fun _ _ h => h.1
  · obtain ⟨hm, rfl⟩ := Db.session?_eq_some.mp ht.2
    have hsave := setSession_save (f := Session.withStatus target) hm (by intro; rfl)
      (by simp [Session.save, Session.withStatus, changed_self])
    refine ⟨ht.1.flush hsave, ?_⟩
    rw [Tx.view_flush, hsave]
    have hset := Table.mem_update_of_mem (p := fun r => r.id = s.id)
      (f := Session.withStatus target) (by intro; rfl) hm
    rw [if_pos (decide_eq_true rfl)] at hset
    exact Db.session?_eq_some.mpr ⟨hset, rfl⟩
  · refine Agree.bind (S := SameKnown sid (some (s.withStatus target)))
      (agree_write fun t u ht => ?_) (fun _ _ => h s) fun _ _ h => h.1
    exact ⟨ht.1.flush rfl, by rw [Tx.view_flush]; exact ht.2⟩

theorem agree_advance {sid : Uuid} {known : Option Session} {next : DbScript} {rest : DbM Unit}
    (h : Agree SameView SameView next.run rest) :
    Agree (SameKnown sid known) SameView (DbScript.advance sid known next).run (do
      when (known.any fun s => s.status = needsReview) (AiBadge.transitionSession sid reviewing)
      AiBadge.transitionSession sid approved
      rest) := by
  have hlast {known : Option Session} : Agree (SameKnown sid known) SameView
      (DbScript.transitionSession sid known approved fun _ => next).run
      (AiBadge.transitionSession sid approved >>= fun _ => rest) :=
    agree_transitionScript fun _ t u ht => h t u ht.1
  unfold DbScript.advance
  split
  next hn =>
    simp only [Prog.when, hn, if_true]
    exact agree_transitionScript fun s => hlast
  next hn =>
    simp only [Prog.when, hn]
    exact hlast

theorem agree_askRemaining {sid : Uuid} {next : DbScript} {rest : DbM Unit}
    (h : Agree SameView SameView next.run rest) :
    Agree SameView SameView (DbScript.askRemaining sid next).run ((do
      let remaining ← Prog.read fun db : Db => db.artifacts.select fun a =>
        a.sessionId = sid && a.status ≠ .approved
      when remaining.isEmpty do
        let sess ← Prog.read fun db => db.session? sid
        when (sess.any fun s => s.status = needsReview) (AiBadge.transitionSession sid reviewing)
        AiBadge.transitionSession sid approved) >>= fun _ => rest) := by
  have hnext : Agree SameView SameView
      (Script.query fun db : Db => DbScript.advance sid (db.session? sid) next).run ((do
        let sess ← Prog.read fun db : Db => db.session? sid
        when (sess.any fun s => s.status = needsReview) (AiBadge.transitionSession sid reviewing)
        AiBadge.transitionSession sid approved) >>= fun _ => rest) := by
    simp only [bind_assoc]
    rintro t u ⟨hv, hc⟩
    have hadv : Agree (SameKnown sid (t.view.session? sid)) SameView _ _ := agree_advance h
    have hadv := hadv t u ⟨⟨hv, hc⟩, rfl⟩
    simp only [Script.run, Bind.bind, Prog.read, ← hv] at hadv ⊢
    exact hadv
  rintro t u ⟨hv, hc⟩
  simp only [DbScript.askRemaining, Script.run, Bind.bind, Prog.read, ← hv, id]
  cases he : (t.view.artifacts.select fun a => a.sessionId = sid && a.status ≠ .approved).isEmpty with
  | true => exact hnext t u ⟨hv, hc⟩
  | false => exact h t u ⟨hv, hc⟩

theorem agree_respondArtifact {aid : Uuid} : Agree SameView SameView
    (DbScript.respondArtifact aid).run (AiBadge.respondArtifact aid >>= fun _ => pure ()) := by
  rw [DbScript.respondArtifact, run_fetch, AiBadge.respondArtifact]
  simp only [bind_assoc, Artifact.toResponse]
  refine (agree_read fun _ _ h => by rw [h.1]).seq fun _ => agree_require.seq fun a => ?_
  rw [run_ensure]
  exact agree_ensure.seq fun _ => agree_pure

end Pieces

/-- Run without interruption, the script of an approval leaves what its request leaves. -/
theorem Approval.serve_script (r : Approval) (w : World) :
    Cursor.result w.db ⟨r.script, [], []⟩ = (w.serve r.request).db := by
  have hserve : (w.serve r.request).db = (r.request.run w.now).serve w.db w.files := by
    unfold World.serve Prog.serve
    split <;> simp_all
  rw [hserve, ← Script.serve_run _ w.db w.files]
  apply serve_of_agree
  rw [Approval.script, run_currentUser]
  refine agree_getCurrentUser.seq fun u => ?_
  rw [run_artifactOr404]
  refine Agree.kept keeps_getArtifactOr404 keeps_getArtifactOr404
    (fun t v ht => (agree_getArtifactOr404 t v ht).1) (fun _ _ h => h) fun a => ?_
  simp only [approveArtifact, DbM.textColumn, bind_assoc]
  rw [DbScript.reviewPlan, run_ensure]
  refine agree_ensure.bind (fun _ _ => ?_) fun _ _ h => h.1
  rw [DbScript.approvePlan, run_update, DbScript.addEvent, run_update]
  refine Agree.bind (S := SameView) (agree_write fun t v ht => ?_) (fun _ _ => ?_) fun _ _ h => h
  · obtain ⟨ha, -, -⟩ := returns_getArtifactOr404 ht.2
    exact ht.1.flush (setArtifact_save ha)
  · refine agree_sameWrite.seq fun _ => ?_
    have hask : Agree SameView SameView
        (DbScript.askRemaining a.sessionId (DbScript.respondArtifact a.id)).run _ :=
      agree_askRemaining agree_respondArtifact
    simpa only [bind_assoc] using hask

end AiBadge
