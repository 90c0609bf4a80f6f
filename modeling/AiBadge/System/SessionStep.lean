import AiBadge.System.Leftover

/-! # One session row over one step

Every way a step can change a row of `sessions`. Sessions are never deleted.
-/

namespace AiBadge

open Lib Prog SessionStatus

namespace World

inductive SessionStep (w : World) (a : Action) (s : Session) : Session → Prop where
  | same : SessionStep w a s s
  | consent {user : Uuid} {consent : Bool} :
      a = .request (.updateConsent user (some s.id) consent) →
      w.Accepts (.updateConsent user (some s.id) consent) → s.status ∉ consentClosed →
      SessionStep w a s (s.withConsent consent)
  | audio {user uuid4 : Uuid} {file : UploadFile} :
      a = .request (.uploadAudio user uuid4 (some s.id) file) →
      w.Accepts (.uploadAudio user uuid4 (some s.id) file) →
      SessionStep w a s (s.withAudio
        ⟨uuid4, getAudioFormat file.filename file.contentType⟩ file.size)
  | patched {user : Uuid} {ids : PipelineIds} {text : String} {target : SessionStatus} :
      a = .request (.updateSessionStatus user ids (some s.id) text) →
      w.Accepts (.updateSessionStatus user ids (some s.id) text) → parse? text = some target →
      (canTransition s.status target s.consentGranted).1 = true →
      (target = processing → s.audioKey.isSome) → SessionStep w a s (s.withStatus target)
  | cancelled {user : Uuid} : a = .request (.cancelSession user (some s.id)) →
      (canTransition s.status cancelled).1 = true → SessionStep w a s (s.withStatus cancelled)
  | retracted {user : Uuid} : w.Retracts a s.id → s.status = published →
      SessionStep w a s (s.withTombstone w.now user "")
  | advanced {user : Uuid} {ids : RetryIds} {x : Artifact} {comment : String} :
      a = .request (.reviewArtifact user ids (some x.id) ⟨.approve, comment⟩) →
      w.Accepts (.reviewArtifact user ids (some x.id) ⟨.approve, comment⟩) →
      x ∈ w.db.artifacts → s.id = x.sessionId → s.status ∈ [needsReview, reviewing, approved] →
      (∀ b ∈ w.db.artifacts, b.sessionId = x.sessionId → b.id ≠ x.id → b.status = .approved) →
      SessionStep w a s (s.withStatus approved)
  | publishing {user uuid4 : Uuid} {x : Artifact} :
      a = .request (.publishArtifact user uuid4 (some x.id)) →
      w.Accepts (.publishArtifact user uuid4 (some x.id)) → x ∈ w.db.artifacts →
      s.id = x.sessionId → (canTransition s.status publishing).1 = true →
      SessionStep w a s (s.withStatus publishing)
  | extracted {j : Job} : w.Commits a j → j.jobType = .extractArtifact →
      j.sessionId = some s.id → SessionStep w a s (s.withStatus needsReview)
  | published {j : Job} {x : Artifact} : w.Commits a j → j.jobType = .publish →
      j.inputPayload.artifactId = some x.id → x ∈ w.db.artifacts → s.id = x.sessionId →
      (canTransition s.status published).1 = true → SessionStep w a s (s.withStatus published)

/-- The row that the action `a` adds. -/
inductive SessionNew (w : World) (a : Action) : Session → Prop where
  | created {user uuid4 deviceId : Uuid} {body : SessionCreateRequest} :
      a = .request (.createSession user uuid4 body) → (∀ s ∈ w.db.sessions, s.id ≠ uuid4) →
      SessionNew w a
        { id := uuid4, userId := user, deviceId, title := body.title.map DbM.clipTitle, status := idle }

variable {w w' : World} {a : Action}

theorem sessions_of_setSession {id : Uuid} {f : Session → Session}
    (h : ∀ s ∈ w.db.sessions, s.id = id → w.SessionStep a s (f s))
    (hf : ∀ s, (f s).id = s.id := by intro s; rfl) :
    Table.Evolves (w.SessionStep a) (w.SessionNew a) w.db.sessions
      (w.db.setSession id f hf).sessions := by
  refine .update hf fun s hs => ?_
  by_cases hi : s.id = id
  · simpa [hi] using h s hs hi
  · simpa [hi] using SessionStep.same

/-- The step of the one row with the id of `s`. -/
theorem sessions_of_row {s : Session} {f : Session → Session} (hs : s ∈ w.db.sessions)
    (h : w.SessionStep a s (f s)) (hf : ∀ s, (f s).id = s.id := by intro s; rfl) :
    Table.Evolves (w.SessionStep a) (w.SessionNew a) w.db.sessions
      (w.db.setSession s.id f hf).sessions := by
  refine sessions_of_setSession (fun r hr hi => ?_) hf
  rwa [Table.eq_of_key_eq hr hs hi]

theorem sessions_of_request {r : Request} {db : Db} (ha : w.Accepts r) (h : RequestEffect w r db) :
    Table.Evolves (w.SessionStep (.request r)) (w.SessionNew (.request r)) w.db.sessions
      db.sessions := by
  have keep : Table.Evolves (w.SessionStep (.request r)) (w.SessionNew (.request r)) w.db.sessions
      w.db.sessions := .refl fun s _ => .same
  cases h with
  | register hs => exact hs ▸ keep
  | createSession hf => exact keep.insert (.created rfl hf)
  | updateConsent hs _ hc => exact sessions_of_row hs (.consent rfl ha hc)
  | updateStatus hs _ ht hc hp =>
    exact sessions_of_row hs (.patched rfl ha ht hc fun h => absurd h hp)
  | startProcessing hs _ ht hc hk => exact sessions_of_row hs (.patched rfl ha ht hc fun _ => hk)
  | uploadAudio hs => exact sessions_of_row hs (.audio rfl ha)
  | cancelSession hs _ hc => exact sessions_of_row hs (.cancelled rfl hc)
  | retractSession hs _ hp => exact sessions_of_row hs (.retracted ⟨_, _, rfl, ha⟩ hp)
  | updateArtifact => exact keep
  | approve => exact keep
  | approveAll hx hs hi hst hall =>
    rw [advanceSession_sessions]
    exact sessions_of_row hs (.advanced rfl ha hx hi hst hall)
  | reject => exact keep
  | publishArtifact hx _ hs hi hc => exact sessions_of_row hs (.publishing rfl ha hx hi hc)

/-- The sessions table over one step. -/
theorem sessions_of_effect {db : Db} {files : Files} (hw : w.Settled) (h : w.Effect a db files) :
    Table.Evolves (w.SessionStep a) (w.SessionNew a) w.db.sessions db.sessions := by
  have keep : Table.Evolves (w.SessionStep a) (w.SessionNew a) w.db.sessions w.db.sessions :=
    .refl fun s _ => .same
  cases h with
  | served ha h => exact sessions_of_request ha h
  | @committed k providers aid j _ hp hj hc h =>
    cases h with
    | transcribe => exact keep
    | summarize => exact keep
    | extractArtifact ht _ _ _ _ _ _ _ _ hsid =>
      refine sessions_of_setSession fun s _ hi => ?_
      exact .extracted hc ht (hsid.trans (congrArg some hi.symm))
    | publishMissing => exact keep
    | publish ht hx hxm hs hi hcan => exact sessions_of_row hs (.published hc ht hx hxm hi hcan)
  | @deletion k d locked remove pending db files hp hd h =>
    have hl := hw.tail hp
    have hv : db.sessions = w.db.sessions := by
      rw [← hl.sessions (w := w)]
      cases h with
      | artifactRows => cases d.sessionId <;> rfl
      | localAudio => rfl
      | feishuDocs => rfl
      | failed => rfl
    exact hv ▸ keep
  | _ => exact keep

/-- Only a retraction touches the tombstone columns. -/
theorem SessionStep.tombstone {s s' : Session} (h : w.SessionStep a s s')
    (hn : ¬ w.Retracts a s.id) :
    s'.deletedAt = s.deletedAt ∧ s'.retractedBy = s.retractedBy := by
  cases h with
  | retracted hr => exact absurd hr hn
  | _ => exact ⟨rfl, rfl⟩

theorem status_of_setSession {r s : Session} {c : SessionStatus}
    (hs : s ∈ (w.db.setSession r.id (Session.withStatus c)).sessions) (hi : s.id = r.id) :
    s.status = c := by
  simp only [Db.setSession_sessions, Table.mem_update] at hs
  obtain ⟨x, -, hx⟩ := hs
  by_cases he : x.id = r.id
  · rw [hx, if_pos (by simpa using he)]
    rfl
  · rw [if_neg (by simpa using he)] at hx
    exact absurd ((congrArg Session.id hx).symm.trans hi) he

/-- An accepted patch leaves its session in the status it asks for. -/
theorem status_of_patch {user : Uuid} {ids : PipelineIds} {session : PathId} {text : String}
    {target : SessionStatus} {s : Session} {db : Db} {files : Files}
    (hacc : w.Accepts (.updateSessionStatus user ids session text))
    (ht : parse? text = some target) (hi : session = some s.id)
    (h : w.Effect (.request (.updateSessionStatus user ids session text)) db files)
    (hs : s ∈ db.sessions) : s.status = target := by
  cases h with
  | refused hn => exact absurd hacc hn
  | silent hn => exact hn.elim
  | served _ h =>
    cases h with
    | updateStatus _ _ hp =>
      obtain rfl := Option.some.inj (hp.symm.trans ht)
      exact status_of_setSession hs (Option.some.inj hi).symm
    | startProcessing _ _ hp =>
      obtain rfl := Option.some.inj (hp.symm.trans ht)
      exact status_of_setSession hs (Option.some.inj hi).symm

/-- A status patch that adds jobs leaves its session in `processing`. -/
theorem processing_of_patch {user : Uuid} {ids : PipelineIds} {sid : Uuid} {text : String} {db : Db}
    {files : Files}
    (h : w.Effect (.request (.updateSessionStatus user ids (some sid) text)) db files) :
    db.jobs = w.db.jobs ∨ ∀ s ∈ db.sessions, s.id = sid → s.status = processing := by
  cases h with
  | refused => exact .inl rfl
  | silent hn => exact hn.elim
  | served _ h =>
    cases h with
    | updateStatus => exact .inl rfl
    | startProcessing => exact .inr fun s hs hi => status_of_setSession hs hi

/-- An accepted publication request leaves the session of its artifact in `publishing`. -/
theorem status_of_publish {user uuid4 : Uuid} {x : Artifact} {s : Session} {db : Db} {files : Files}
    (hx : x ∈ w.db.artifacts) (hacc : w.Accepts (.publishArtifact user uuid4 (some x.id)))
    (hi : s.id = x.sessionId)
    (h : w.Effect (.request (.publishArtifact user uuid4 (some x.id))) db files)
    (hs : s ∈ db.sessions) : s.status = publishing := by
  generalize hid : some x.id = id at h
  cases h with
  | refused hn => exact absurd (hid ▸ hacc) hn
  | silent hn => exact hn.elim
  | served _ h =>
    cases h with
    | publishArtifact hy _ _ hri =>
      obtain rfl := Table.eq_of_key_eq hx hy (Option.some.inj hid)
      exact status_of_setSession hs (hi.trans hri.symm)

/-- A publish job that commits leaves the session of its artifact in `published`. -/
theorem status_of_publication {j : Job} {x : Artifact} {s : Session} {db : Db} {files : Files}
    (hc : w.Commits a j) (ht : j.jobType = .publish) (hx : x ∈ w.db.artifacts)
    (hj : j.inputPayload.artifactId = some x.id) (hi : s.id = x.sessionId)
    (h : w.Effect a db files) (hs : s ∈ db.sessions) : s.status = published := by
  obtain ⟨r, -, hri, -, hd⟩ := db_of_publication hc ht hx hj h
  rw [hd] at hs
  exact status_of_setSession hs (hi.trans hri.symm)

/-- A committed extraction leaves its session in `needs_review`, whatever its status was. -/
theorem needsReview_of_extract {j : Job} {s : Session} {db : Db} {files : Files}
    (hc : w.Commits a j) (ht : j.jobType = .extractArtifact) (hi : j.sessionId = some s.id)
    (h : w.Effect a db files) (hs : s ∈ db.sessions) : s.status = needsReview := by
  obtain ⟨x, output, rfl, hsid, -, -⟩ := db_of_extraction hc ht h
  rw [extractWrites_sessions, Table.mem_update] at hs
  obtain ⟨r, -, hr⟩ := hs
  have he : x.sessionId = s.id := Option.some.inj (hsid.symm.trans hi)
  by_cases hri : r.id = x.sessionId
  · rw [if_pos (by simpa using hri)] at hr
    rw [hr, Session.withStatus_status]
  · rw [if_neg (by simpa using hri)] at hr
    exact absurd (hr ▸ he.symm) hri

end World

end AiBadge
