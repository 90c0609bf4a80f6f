import AiBadge.System.AccountStep

/-! # Workflow events over one step

The log of events only grows. A step appends the creation of pipeline jobs, a review with the
session transitions it triggers, or the session transition of a publication.
-/

namespace AiBadge

open Lib Prog SessionStatus

/-- The event that records a review. -/
def ReviewAction.eventType : ReviewAction → EventType
  | approve => .artifactApproved
  | reject => .artifactRejected

/-- The status that a review gives its artifact. -/
def ReviewAction.status : ReviewAction → ArtifactStatus
  | approve => .approved
  | reject => .rejected

namespace World

/-- The action is an accepted review of the artifact. -/
def Reviews (w : World) (a : Action) (aid : Uuid) (verdict : ReviewAction) : Prop :=
  ∃ user ids comment, a = .request (.reviewArtifact user ids (some aid) ⟨verdict, comment⟩) ∧
    w.Accepts (.reviewArtifact user ids (some aid) ⟨verdict, comment⟩)

variable {w w' : World} {a : Action}

theorem Reviews.unique {aid aid' : Uuid} {v v' : ReviewAction} (h : w.Reviews a aid v)
    (h' : w.Reviews a aid' v') : aid = aid' ∧ v = v' := by
  obtain ⟨user, ids, comment, rfl, -⟩ := h
  obtain ⟨_, _, _, he, -⟩ := h'
  obtain ⟨-, -, hid, hbody⟩ := Request.reviewArtifact.inj (Action.request.inj he)
  exact ⟨Option.some.inj hid, (ReviewRequest.mk.inj hbody).1⟩

/-- The rows that a step which leaves `db` appends. -/
inductive EventsNew (w : World) (a : Action) (db : Db) : List WorkflowEvent → Prop where
  | nothing : (∀ aid v, ¬ w.Reviews a aid v) → EventsNew w a db []
  | created {ids : List Uuid} : (∀ aid v, ¬ w.Reviews a aid v) →
      (∀ id ∈ ids, ∃ j ∈ db.jobs, j.id = id) →
      EventsNew w a db (ids.map fun id => { jobId := some id, eventType := .jobCreated })
  | reviewed {user : Uuid} {x : Artifact} {v : ReviewAction} (targets : List SessionStatus) :
      w.Reviews a x.id v → x ∈ w.db.artifacts →
      EventsNew w a db (reviewEvent x user v.eventType :: targets.map (sessionEvent x.sessionId))
  | moved {s : Session} {target : SessionStatus} : (∀ aid v, ¬ w.Reviews a aid v) →
      s ∈ w.db.sessions → EventsNew w a db [sessionEvent s.id target]

theorem advanceSession_workflowEvents (s : Session) (db : Db) :
    ∃ targets : List SessionStatus, (advanceSession s db).workflowEvents =
      db.workflowEvents ++ targets.map (sessionEvent s.id) := by
  unfold advanceSession
  split
  · exact ⟨[reviewing, approved], List.append_assoc ..⟩
  · exact ⟨[approved], rfl⟩

theorem events_of_request {r : Request} {db : Db} (hr : w.Accepts r) (h : RequestEffect w r db)
    (hn : ∀ env ids body, r ≠ .register env ids body) :
    ∃ new, db.workflowEvents = w.db.workflowEvents ++ new ∧ w.EventsNew (.request r) db new := by
  have keep {db : Db} (hd : db.workflowEvents = w.db.workflowEvents)
      (hv : ∀ aid v, ¬ w.Reviews (.request r) aid v) :
      ∃ new, db.workflowEvents = w.db.workflowEvents ++ new ∧ w.EventsNew (.request r) db new :=
    ⟨[], by rw [hd, List.append_nil], .nothing hv⟩
  cases h with
  | register => exact absurd rfl (hn _ _ _)
  | createSession => exact keep rfl (by rintro _ _ ⟨_, _, _, ⟨⟩, -⟩)
  | updateConsent => exact keep rfl (by rintro _ _ ⟨_, _, _, ⟨⟩, -⟩)
  | updateStatus => exact keep rfl (by rintro _ _ ⟨_, _, _, ⟨⟩, -⟩)
  | @startProcessing _ ids s _ _ _ _ _ _ hf =>
    refine ⟨[ids.transcribe, ids.summarize, ids.extractArtifact].map fun id =>
      { jobId := some id, eventType := .jobCreated }, ?_, .created ?_ ?_⟩
    · simp [addPipeline]
    · rintro _ _ ⟨_, _, _, ⟨⟩, -⟩
    · have hf' : (w.db.setSession s.id (Session.withStatus processing)).PipelineFree ids w.now
          s.id := ⟨hf.transcribe, hf.summarize, hf.extractArtifact, hf.ne₁, hf.ne₂, hf.ne₃⟩
      intro id hid
      simp only [List.mem_cons, List.not_mem_nil, or_false] at hid
      rcases hid with rfl | rfl | rfl
      · exact ⟨_, hf'.mem_addPipeline.mpr (.inr (.inl rfl)), rfl⟩
      · exact ⟨_, hf'.mem_addPipeline.mpr (.inr (.inr (.inl rfl))), rfl⟩
      · exact ⟨_, hf'.mem_addPipeline.mpr (.inr (.inr (.inr rfl))), rfl⟩
  | uploadAudio => exact keep rfl (by rintro _ _ ⟨_, _, _, ⟨⟩, -⟩)
  | cancelSession => exact keep rfl (by rintro _ _ ⟨_, _, _, ⟨⟩, -⟩)
  | retractSession => exact keep rfl (by rintro _ _ ⟨_, _, _, ⟨⟩, -⟩)
  | updateArtifact => exact keep rfl (by rintro _ _ ⟨_, _, _, ⟨⟩, -⟩)
  | approve hx =>
    exact ⟨_, rfl, .reviewed (v := .approve) [] ⟨_, _, _, rfl, hr⟩ hx⟩
  | @approveAll _ _ x s _ hx _ hi =>
    obtain ⟨targets, ht⟩ := advanceSession_workflowEvents s
      ((w.db.setArtifact x.id (Artifact.withReview .approved _)).addEvent
        (reviewEvent x _ .artifactApproved))
    refine ⟨_, ht.trans (List.append_assoc ..), ?_⟩
    rw [hi]
    exact .reviewed (v := .approve) targets ⟨_, _, _, rfl, hr⟩ hx
  | reject hx =>
    exact ⟨_, rfl, .reviewed (v := .reject) [] ⟨_, _, _, rfl, hr⟩ hx⟩
  | publishArtifact _ _ hs => exact ⟨_, rfl, .moved (by rintro _ _ ⟨_, _, _, ⟨⟩, -⟩) hs⟩

theorem events_of_deletionEffect {d : DeletionJob} {db db' : Db} {files files' : Files}
    (h : DeletionEffect d db files db' files') : db'.workflowEvents = db.workflowEvents := by
  cases h with
  | artifactRows => cases d.sessionId <;> rfl
  | _ => rfl

theorem events_of_leftover {now : Timestamp} {pending : List (Db → Db)}
    (h : Leftover now pending) : (w.session pending).view.workflowEvents = w.db.workflowEvents := by
  cases h <;> rfl

theorem events_of_effect {db : Db} {files : Files} (hw : w.Settled) (h : w.Effect a db files)
    (hn : ∀ env ids body, a ≠ .request (.register env ids body)) :
    ∃ new, db.workflowEvents = w.db.workflowEvents ++ new ∧ w.EventsNew a db new := by
  have keep {db : Db} (hd : db.workflowEvents = w.db.workflowEvents)
      (hv : ∀ aid v, ¬ w.Reviews a aid v) :
      ∃ new, db.workflowEvents = w.db.workflowEvents ++ new ∧ w.EventsNew a db new :=
    ⟨[], by rw [hd, List.append_nil], .nothing hv⟩
  cases h with
  | refused hr =>
    refine keep rfl ?_
    rintro _ _ ⟨_, _, _, ⟨⟩, hacc⟩
    exact hr hacc
  | served hr h => exact events_of_request hr h fun env ids body he => hn env ids body (he ▸ rfl)
  | silent hs =>
    refine keep rfl ?_
    rintro _ _ ⟨_, _, _, rfl, -⟩
    exact hs
  | committed _ _ _ h =>
    cases h with
    | publish _ _ _ hs => exact ⟨_, rfl, .moved (by rintro _ _ ⟨_, _, _, ⟨⟩, -⟩) hs⟩
    | _ => exact keep rfl (by rintro _ _ ⟨_, _, _, ⟨⟩, -⟩)
  | deletion hp _ h =>
    refine keep ((events_of_deletionEffect h).trans (events_of_leftover (hw.tail hp))) ?_
    rintro _ _ ⟨_, _, _, ⟨⟩, -⟩
  | _ => exact keep rfl (by rintro _ _ ⟨_, _, _, ⟨⟩, -⟩)

/-- The log over one step. -/
theorem events_of_step (hw : w.Settled) (h : w.step a = some w') :
    ∃ new, w'.db.workflowEvents = w.db.workflowEvents ++ new ∧ w.EventsNew a w'.db new := by
  by_cases hreg : ∃ env ids body, a = .request (.register env ids body)
  · obtain ⟨env, ids, body, rfl⟩ := hreg
    refine ⟨[], ?_, .nothing (by rintro _ _ ⟨_, _, _, ⟨⟩, -⟩)⟩
    rw [List.append_nil]
    by_cases hacc : w.Accepts (.register env ids body)
    · obtain ⟨hash, -, hdb⟩ := db_of_registration h hacc
      rw [hdb]
      rfl
    · obtain ⟨-, w₁, hact, rfl⟩ := step_eq_some.mp h
      obtain rfl := Option.some.inj hact
      exact congrArg Db.workflowEvents (serve_of_not_accepts hacc)
  · push Not at hreg
    exact events_of_effect hw (effect_of_step h) hreg

end World

end AiBadge
