import AiBadge.System.Invariant

/-! # Requests that succeed

What an artifact request needs for its transaction to commit, for a user with an account.
-/

namespace AiBadge

open Lib Prog DbM SessionStatus

/-- The user that the token of a request names. -/
def Request.user? : Request → Option Uuid
  | register .. => none
  | createSession user _ _ => some user
  | updateConsent user _ _ => some user
  | updateSessionStatus user _ _ _ => some user
  | uploadAudio user _ _ _ => some user
  | cancelSession user _ => some user
  | retractSession user _ _ => some user
  | updateArtifact user _ _ => some user
  | reviewArtifact user _ _ _ => some user
  | publishArtifact user _ _ => some user

/-- Every other artifact of the session is approved. -/
def World.LastToApprove (w : World) (x : Artifact) : Prop :=
  ∀ b ∈ w.db.artifacts, b.sessionId = x.sessionId → b.id ≠ x.id → b.status = .approved

variable {w : World} {v : User} {x : Artifact}

theorem getArtifactOr404_returns {t : Tx Db Files} (hx : x ∈ t.view.artifacts) :
    (getArtifactOr404 (some x.id)).Returns t x t := by
  simp only [getArtifactOr404, returns_bind, returns_read, returns_require]
  exact ⟨x.id, t, ⟨rfl, rfl⟩, _, _, ⟨rfl, rfl⟩, Db.artifact?_eq_some.mpr ⟨hx, rfl⟩, rfl⟩

theorem authenticated_returns {p : Uuid → DbM Unit} {t : Tx Db Files} (hv : v ∈ w.db.users)
    (h : (p v.id).Returns (Tx.start w.db w.files) () t) :
    (getCurrentUser v.id >>= fun u => p u.id).Returns (Tx.start w.db w.files) () t :=
  returns_bind.mpr ⟨v, _, returns_getCurrentUser.mpr ⟨⟨v, hv, rfl, rfl⟩, rfl⟩, h⟩

/-- Apart from an edit, a request leaves the content of every artifact. -/
theorem content_of_effect {r : Request} {db : Db} (h : RequestEffect w r db)
    (hr : ∀ user artifact body, r ≠ .updateArtifact user artifact body) (hx : x ∈ w.db.artifacts) :
    ∃ y, db.artifact? x.id = some y ∧ y.content = x.content := by
  have kept (hd : db.artifacts = w.db.artifacts) :
      ∃ y, db.artifact? x.id = some y ∧ y.content = x.content :=
    ⟨x, Db.artifact?_eq_some.mpr ⟨hd ▸ hx, rfl⟩, rfl⟩
  have reviewed {i : Uuid} {status : ArtifactStatus} {comment : String} (hd : db.artifacts =
      w.db.artifacts.update (fun a => a.id = i) (Artifact.withReview status comment)) :
      ∃ y, db.artifact? x.id = some y ∧ y.content = x.content := by
    have hm := Table.mem_update_of_mem (p := fun a => a.id = i)
      (f := Artifact.withReview status comment) (by intro; rfl) hx
    refine ⟨_, Db.artifact?_eq_some.mpr ⟨hd ▸ hm, ?_⟩, ?_⟩ <;> split <;> rfl
  cases h with
  | register _ _ ha => exact kept ha
  | updateArtifact => exact absurd rfl (hr _ _ _)
  | approve => exact reviewed rfl
  | approveAll => exact reviewed (by rw [advanceSession_artifacts]; rfl)
  | reject => exact reviewed rfl
  | startProcessing => exact kept (by rw [addPipeline_artifacts]; rfl)
  | _ => exact kept rfl

/-- The response to such a request needs a dictionary as the content. -/
theorem respond_iff {r : Request} {t t' : Tx Db Files} (h : RequestEffect w r t.view)
    (hr : ∀ user artifact body, r ≠ .updateArtifact user artifact body) (hx : x ∈ w.db.artifacts) :
    (∃ y, (respondArtifact x.id).Returns t y t') ↔ x.content.isObj = true ∧ t' = t := by
  obtain ⟨a, ha, hc⟩ := content_of_effect h hr hx
  simp only [returns_respondArtifact, ha, Option.some.injEq]
  constructor
  · rintro ⟨_, _, rfl, ho, -, rfl⟩
    exact ⟨hc ▸ ho, rfl⟩
  · rintro ⟨ho, rfl⟩
    exact ⟨_, a, rfl, hc ▸ ho, rfl, rfl⟩

/-- The columns take what the edit sets, and the row that it leaves has a response. -/
structure ArtifactUpdateRequest.Fits (body : ArtifactUpdateRequest) (x : Artifact) : Prop where
  title : body.title.all fitsTitle = true
  content : body.content.all Option.isSome = true
  summary : body.summary.all fitsText = true
  response : (body.apply x).content.isObj = true

theorem ArtifactUpdateRequest.fits_iff {body : ArtifactUpdateRequest} : body.Fits x ↔
    (body.title.all fitsTitle && body.content.all Option.isSome && body.summary.all fitsText &&
      (body.apply x).content.isObj) = true := by
  simp only [Bool.and_eq_true]
  constructor
  · rintro ⟨ht, hc, hs, hr⟩
    exact ⟨⟨⟨ht, hc⟩, hs⟩, hr⟩
  · rintro ⟨⟨⟨ht, hc⟩, hs⟩, hr⟩
    exact ⟨ht, hc, hs, hr⟩

instance (body : ArtifactUpdateRequest) (x : Artifact) : Decidable (body.Fits x) :=
  decidable_of_iff _ ArtifactUpdateRequest.fits_iff.symm

theorem artifact?_apply {body : ArtifactUpdateRequest} {db : Db} (hx : x ∈ db.artifacts) :
    (db.setArtifact x.id body.apply).artifact? x.id = some (body.apply x) := by
  have hm := Table.mem_update_of_mem (p := fun a => a.id = x.id) (f := body.apply)
    (by intro; rfl) hx
  rw [if_pos (decide_eq_true rfl)] at hm
  exact Db.artifact?_eq_some.mpr ⟨hm, rfl⟩

theorem accepts_updateArtifact {body : ArtifactUpdateRequest} (hv : v ∈ w.db.users)
    (hx : x ∈ w.db.artifacts) (hf : body.Fits x) :
    w.Accepts (.updateArtifact v.id (some x.id) body) := by
  have hrun : ∃ t, (AiBadge.updateArtifact (some x.id) body).Returns (Tx.start w.db w.files) () t := by
    simp only [updateArtifact, returns_bind, returns_titleColumn, returns_ensure,
      returns_textColumn, returns_write, returns_respondArtifact, returns_pure]
    exact ⟨_, x, _, getArtifactOr404_returns hx, (), _, ⟨hf.title, rfl⟩, (), _, ⟨hf.content, rfl⟩, (),
      _, ⟨hf.summary, rfl⟩, (), _, rfl, _, _, ⟨_, artifact?_apply hx, hf.response, rfl, rfl⟩, trivial, rfl⟩
  obtain ⟨t, ht⟩ := hrun
  exact ⟨t, authenticated_returns (p := fun _ => AiBadge.updateArtifact (some x.id) body) hv ht⟩

theorem fits_of_accepts {user : Uuid} {body : ArtifactUpdateRequest} (hx : x ∈ w.db.artifacts)
    (h : w.Accepts (.updateArtifact user (some x.id) body)) : body.Fits x := by
  obtain ⟨t, ht⟩ := h
  have hr := returns_of_authenticated (p := fun _ => AiBadge.updateArtifact (some x.id) body) ht
  simp only [updateArtifact, returns_bind, returns_titleColumn, returns_ensure, returns_textColumn,
    returns_write, returns_respondArtifact] at hr
  obtain ⟨a, _, hget, _, _, ⟨ht, rfl⟩, _, _, ⟨hc, rfl⟩, _, _, ⟨hs, rfl⟩, _, _, rfl, _, _,
    ⟨y, hy, ho, -, -⟩, -⟩ := hr
  obtain ⟨ha, hi, rfl⟩ := returns_getArtifactOr404 hget
  obtain rfl := Table.eq_of_key_eq hx ha (Option.some.inj hi)
  obtain rfl := Option.some.inj ((artifact?_apply ha).symm.trans hy)
  exact ⟨ht, hc, hs, ho⟩

/-- An accepted review has a comment that its column takes, and an artifact with a response. -/
theorem answers_of_review {user : Uuid} {ids : RetryIds} {body : ReviewRequest}
    (hx : x ∈ w.db.artifacts) (h : w.Accepts (.reviewArtifact user ids (some x.id) body)) :
    fitsText body.comment = true ∧ x.content.isObj = true := by
  obtain ⟨t, ht⟩ := h
  have hr := returns_of_authenticated ht
  have heff := requestEffect_of_returns ht
  have hne : ∀ u a b, Request.reviewArtifact user ids (some x.id) body ≠ .updateArtifact u a b := by
    rintro _ _ _ ⟨⟩
  simp only [reviewArtifact, returns_bind] at hr
  obtain ⟨a, _, hget, hr⟩ := hr
  obtain ⟨ha, hi, rfl⟩ := returns_getArtifactOr404 hget
  obtain rfl := Table.eq_of_key_eq hx ha (Option.some.inj hi)
  obtain ⟨action, comment⟩ := body
  cases action with
  | approve =>
    simp only [returns_bind, returns_pure] at hr
    obtain ⟨_, _, hact, y, _, hres, -, rfl⟩ := hr
    simp only [approveArtifact, returns_bind, returns_textColumn] at hact
    obtain ⟨_, _, ⟨hc, -⟩, -⟩ := hact
    obtain ⟨-, -, -, -, rfl⟩ := returns_respondArtifact.mp hres
    exact ⟨hc, ((respond_iff heff hne hx).mp ⟨y, hres⟩).1⟩
  | reject =>
    simp only [returns_bind, returns_pure] at hr
    obtain ⟨_, _, hact, y, _, hres, -, rfl⟩ := hr
    simp only [rejectArtifact, returns_bind, returns_textColumn] at hact
    obtain ⟨_, _, ⟨hc, -⟩, -⟩ := hact
    obtain ⟨-, -, -, -, rfl⟩ := returns_respondArtifact.mp hres
    exact ⟨hc, ((respond_iff heff hne hx).mp ⟨y, hres⟩).1⟩

/-- The artifact of an accepted publication has a response. -/
theorem content_of_publish {user uuid4 : Uuid} (hx : x ∈ w.db.artifacts)
    (h : w.Accepts (.publishArtifact user uuid4 (some x.id))) : x.content.isObj = true := by
  obtain ⟨t, ht⟩ := h
  have hr := returns_of_authenticated (p := fun _ => AiBadge.publishArtifact uuid4 w.now (some x.id)) ht
  have heff := requestEffect_of_returns ht
  have hne : ∀ u a b, Request.publishArtifact user uuid4 (some x.id) ≠ .updateArtifact u a b := by
    rintro _ _ _ ⟨⟩
  simp only [publishArtifact, returns_bind, returns_pure] at hr
  obtain ⟨a, _, hget, _, _, _, _, _, _, y, _, hres, -, rfl⟩ := hr
  obtain ⟨ha, hi, -⟩ := returns_getArtifactOr404 hget
  obtain rfl := Table.eq_of_key_eq hx ha (Option.some.inj hi)
  obtain ⟨-, -, -, -, rfl⟩ := returns_respondArtifact.mp hres
  exact ((respond_iff heff hne hx).mp ⟨y, hres⟩).1

theorem accepts_reject {ids : RetryIds} {comment : String} (hv : v ∈ w.db.users)
    (hx : x ∈ w.db.artifacts) (hc : fitsText comment = true) (ho : x.content.isObj = true)
    (hf : w.db.KeyFree (retryJob ids w.now x comment)) :
    w.Accepts (.reviewArtifact v.id ids (some x.id) ⟨.reject, comment⟩) := by
  have hrej : ∃ t, (rejectArtifact ids w.now x v.id comment).Returns (Tx.start w.db w.files) () t ∧
      RequestEffect w (.reviewArtifact v.id ids (some x.id) ⟨.reject, comment⟩) t.view := by
    simp only [rejectArtifact, returns_bind, returns_textColumn, returns_write, returns_insertJob]
    refine ⟨_, ⟨(), _, ⟨hc, rfl⟩, (), _, rfl, (), _, rfl, hf, rfl⟩, ?_⟩
    exact .reject hx hf
  obtain ⟨t, hrej, heff⟩ := hrej
  obtain ⟨y, hy⟩ := (respond_iff heff (by rintro _ _ _ ⟨⟩) hx).mpr ⟨ho, rfl⟩
  have hrun : (AiBadge.reviewArtifact ids w.now (some x.id) ⟨.reject, comment⟩ v.id).Returns
      (Tx.start w.db w.files) () t := by
    simp only [reviewArtifact, returns_bind, returns_pure]
    exact ⟨x, _, getArtifactOr404_returns hx, (), _, hrej, y, _, hy, trivial, rfl⟩
  exact ⟨t, authenticated_returns hv hrun⟩

theorem transitionSession_returns {t : Tx Db Files} {s : Session} (target : SessionStatus)
    (hs : s ∈ t.view.sessions) (hc : (canTransition s.status target).1 = true) :
    (transitionSession s.id target).Returns t () ((t.flush fun db =>
      db.setSession s.id (Session.withStatus target)).flush fun db =>
        db.addEvent (sessionEvent s.id target)) :=
  returns_transitionSession.mpr ⟨s, Db.session?_eq_some.mpr ⟨hs, rfl⟩, hc, rfl⟩

theorem accepts_publish {uuid4 : Uuid} {s : Session} (hv : v ∈ w.db.users)
    (hx : x ∈ w.db.artifacts) (hp : x.status = .approved) (ho : x.content.isObj = true)
    (hf : w.db.KeyFree (publishJob uuid4 w.now x)) (hs : s ∈ w.db.sessions) (hi : s.id = x.sessionId)
    (hc : (canTransition s.status publishing).1 = true) :
    w.Accepts (.publishArtifact v.id uuid4 (some x.id)) := by
  have hreq : ∃ t, (requestPublish uuid4 w.now x).Returns (Tx.start w.db w.files) () t ∧
      RequestEffect w (.publishArtifact v.id uuid4 (some x.id)) t.view := by
    simp only [requestPublish, returns_bind, returns_ensure, returns_insertJob]
    refine ⟨_, ⟨(), _, ⟨by simp [hp], rfl⟩, (), _, ⟨hf, rfl⟩, hi ▸ transitionSession_returns _
      (by simpa using hs) hc⟩, ?_⟩
    rw [Tx.view_flush, Tx.view_flush, Tx.view_flush, Tx.view_start, ← hi]
    exact .publishArtifact hx hp hs hi hc hf
  obtain ⟨t, hreq, heff⟩ := hreq
  have hne : ∀ u a b, Request.publishArtifact v.id uuid4 (some x.id) ≠ .updateArtifact u a b := by
    rintro _ _ _ ⟨⟩
  obtain ⟨y, hy⟩ := (respond_iff heff hne hx).mpr ⟨ho, rfl⟩
  have hrun : (AiBadge.publishArtifact uuid4 w.now (some x.id)).Returns (Tx.start w.db w.files) () t := by
    simp only [publishArtifact, returns_bind, returns_ensure, returns_pure]
    exact ⟨x, _, getArtifactOr404_returns hx, (), _, ⟨by simp [hp], rfl⟩, (), _, hreq, y, _, hy,
      trivial, rfl⟩
  exact ⟨t, authenticated_returns
    (p := fun _ => AiBadge.publishArtifact uuid4 w.now (some x.id)) hv hrun⟩

theorem remaining_isEmpty (comment : String) :
    ((w.db.setArtifact x.id (Artifact.withReview .approved comment)).artifacts.select fun b =>
      b.sessionId = x.sessionId && b.status ≠ .approved).isEmpty = true ↔ w.LastToApprove x := by
  rw [List.isEmpty_iff]
  exact approve_remaining

theorem advance_returns {t : Tx Db Files} {s : Session} (hs : s ∈ t.view.sessions)
    (hst : s.status ∈ [needsReview, reviewing, approved]) :
    ∃ t₁ t', (when ((t.view.session? s.id).any fun s => s.status = needsReview)
      (transitionSession s.id reviewing)).Returns t () t₁ ∧
        (transitionSession s.id approved).Returns t₁ () t' := by
  have hget : t.view.session? s.id = some s := Db.session?_eq_some.mpr ⟨hs, rfl⟩
  simp only [hget, Option.any_some, returns_when, decide_eq_true_eq, decide_eq_false_iff_not]
  by_cases hn : s.status = needsReview
  · have hc : (canTransition s.status reviewing).1 = true := by rw [hn]; decide
    have hm := Table.mem_update_of_mem (p := fun r => r.id = s.id)
      (f := Session.withStatus reviewing) (by intro; rfl) hs
    rw [if_pos (decide_eq_true rfl)] at hm
    have happ := transitionSession_returns approved
      (t := (t.flush fun db => db.setSession s.id (Session.withStatus reviewing)).flush fun db =>
        db.addEvent (sessionEvent s.id reviewing)) (s := s.withStatus reviewing)
      (by rw [Tx.view_flush, Tx.view_flush]; exact hm) (canTransition_approved.mpr (by simp))
    exact ⟨_, _, .inl ⟨hn, transitionSession_returns _ hs hc⟩, happ⟩
  · have hc : (canTransition s.status approved).1 = true :=
      canTransition_approved.mpr (by simpa [hn] using hst)
    exact ⟨t, _, .inr ⟨hn, rfl⟩, transitionSession_returns _ hs hc⟩

theorem approveArtifact_returns {user : Uuid} {comment : String} (hc : fitsText comment = true)
    (hl : ¬ w.LastToApprove x ∨ ∃ s ∈ w.db.sessions, s.id = x.sessionId ∧
      s.status ∈ [needsReview, reviewing, approved]) :
    ∃ t, (approveArtifact x user comment).Returns (Tx.start w.db w.files) () t := by
  simp only [approveArtifact, returns_bind, returns_textColumn, returns_write, returns_read,
    returns_when]
  by_cases hlast : w.LastToApprove x
  · obtain ⟨s, hs, hi, hst⟩ := hl.resolve_left (not_not_intro hlast)
    have hrest := (remaining_isEmpty comment).mpr hlast
    obtain ⟨t₁, t', hrev, happ⟩ := advance_returns (t := ((Tx.start w.db w.files).flush fun db =>
      db.setArtifact x.id (Artifact.withReview .approved comment)).flush fun db =>
        db.addEvent (reviewEvent x user .artifactApproved)) (by simpa using hs) hst
    rw [hi] at hrev happ
    exact ⟨t', (), _, ⟨hc, rfl⟩, (), _, rfl, (), _, rfl, _, _, ⟨rfl, rfl⟩,
      .inl ⟨by simpa using hrest, _, _, ⟨rfl, rfl⟩, (), t₁, returns_when.mp hrev, happ⟩⟩
  · have hrest := mt (remaining_isEmpty comment).mp hlast
    exact ⟨_, (), _, ⟨hc, rfl⟩, (), _, rfl, (), _, rfl, _, _, ⟨rfl, rfl⟩,
      .inr ⟨by simpa using hrest, rfl⟩⟩

theorem accepts_approve {ids : RetryIds} {comment : String} (hv : v ∈ w.db.users)
    (hx : x ∈ w.db.artifacts) (hc : fitsText comment = true) (ho : x.content.isObj = true)
    (hl : ¬ w.LastToApprove x ∨ ∃ s ∈ w.db.sessions, s.id = x.sessionId ∧
      s.status ∈ [needsReview, reviewing, approved]) :
    w.Accepts (.reviewArtifact v.id ids (some x.id) ⟨.approve, comment⟩) := by
  obtain ⟨t, ht⟩ : ∃ t, (approveArtifact x v.id comment).Returns (Tx.start w.db w.files) () t :=
    approveArtifact_returns hc hl
  have heff : RequestEffect w (.reviewArtifact v.id ids (some x.id) ⟨.approve, comment⟩) t.view :=
    effect_approveArtifact hx ht
  obtain ⟨y, hy⟩ := (respond_iff heff (by rintro _ _ _ ⟨⟩) hx).mpr ⟨ho, rfl⟩
  have hrun : (AiBadge.reviewArtifact ids w.now (some x.id) ⟨.approve, comment⟩ v.id).Returns
      (Tx.start w.db w.files) () t := by
    simp only [reviewArtifact, returns_bind, returns_pure]
    exact ⟨x, _, getArtifactOr404_returns hx, (), _, ht, y, _, hy, trivial, rfl⟩
  exact ⟨t, authenticated_returns hv hrun⟩

theorem users_of_request {r : Request} {db : Db} (hu : r.user? = some v.id)
    (h : RequestEffect w r db) : db.users = w.db.users := by
  cases h with
  | register => cases hu
  | approveAll =>
    unfold advanceSession
    split <;> rfl
  | _ => rfl

/-- What an accepted approval leaves. -/
theorem db_of_approve {user : Uuid} {ids : RetryIds} {comment : String} {db : Db}
    (hx : x ∈ w.db.artifacts)
    (h : RequestEffect w (.reviewArtifact user ids (some x.id) ⟨.approve, comment⟩) db) :
    ¬ w.LastToApprove x ∧ db = (w.db.setArtifact x.id (Artifact.withReview .approved comment)).addEvent
        (reviewEvent x user .artifactApproved) ∨
      w.LastToApprove x ∧ ∃ s ∈ w.db.sessions, s.id = x.sessionId ∧
        db = advanceSession s ((w.db.setArtifact x.id (Artifact.withReview .approved comment)).addEvent
          (reviewEvent x user .artifactApproved)) := by
  generalize hi : x.id = i at h
  cases h with
  | approve ha hb =>
    obtain rfl := Table.eq_of_key_eq hx ha hi
    obtain ⟨b, hb, hbs, hbi, hn⟩ := hb
    exact .inl ⟨fun hl => hn (hl b hb hbs hbi), rfl⟩
  | approveAll ha hs hsi _ hl =>
    obtain rfl := Table.eq_of_key_eq hx ha hi
    exact .inr ⟨hl, _, hs, hsi, rfl⟩

/-- An accepted publication had no job before, and a session that may be published. -/
theorem needs_of_publish {user uuid4 : Uuid} {db : Db} (hx : x ∈ w.db.artifacts)
    (h : RequestEffect w (.publishArtifact user uuid4 (some x.id)) db) :
    w.db.KeyFree (publishJob uuid4 w.now x) ∧
      ∃ s ∈ w.db.sessions, s.id = x.sessionId ∧ (canTransition s.status publishing).1 = true := by
  generalize hi : x.id = i at h
  cases h with
  | publishArtifact hy _ hs hsi hc hf =>
    obtain rfl := Table.eq_of_key_eq hx hy hi
    exact ⟨hf, _, hs, hsi, hc⟩

/-- An approval needs a comment that fits, a response, and a session in review when it is the last. -/
theorem accepts_approve_iff {ids : RetryIds} {comment : String} (hv : v ∈ w.db.users)
    (hx : x ∈ w.db.artifacts) : w.Accepts (.reviewArtifact v.id ids (some x.id) ⟨.approve, comment⟩) ↔
      fitsText comment = true ∧ x.content.isObj = true ∧ (¬ w.LastToApprove x ∨
        ∃ s ∈ w.db.sessions, s.id = x.sessionId ∧ s.status ∈ [needsReview, reviewing, approved]) := by
  constructor
  · intro h
    obtain ⟨hc, ho⟩ := answers_of_review hx h
    refine ⟨hc, ho, ?_⟩
    have he := serve_of_accepts h
    generalize (w.serve _).db = db at he
    generalize hi : x.id = i at he
    cases he with
    | approve hy hb =>
      obtain rfl := Table.eq_of_key_eq hx hy hi
      obtain ⟨b, hb, hbs, hbi, hn⟩ := hb
      exact .inl fun hl => hn (hl b hb hbs hbi)
    | approveAll hy hs hsi hst =>
      obtain rfl := Table.eq_of_key_eq hx hy hi
      exact .inr ⟨_, hs, hsi, hst⟩
  · rintro ⟨hc, ho, hl⟩
    exact accepts_approve hv hx hc ho hl

theorem accepts_reject_iff {ids : RetryIds} {comment : String} (hv : v ∈ w.db.users)
    (hx : x ∈ w.db.artifacts) : w.Accepts (.reviewArtifact v.id ids (some x.id) ⟨.reject, comment⟩) ↔
      fitsText comment = true ∧ x.content.isObj = true ∧
        w.db.KeyFree (retryJob ids w.now x comment) := by
  constructor
  · intro h
    obtain ⟨hc, ho⟩ := answers_of_review hx h
    refine ⟨hc, ho, ?_⟩
    have he := serve_of_accepts h
    generalize (w.serve _).db = db at he
    generalize hi : x.id = i at he
    cases he with
    | reject hy hf =>
      obtain rfl := Table.eq_of_key_eq hx hy hi
      exact hf
  · rintro ⟨hc, ho, hf⟩
    exact accepts_reject hv hx hc ho hf

namespace World

/-- An approved artifact has a response. -/
def Shown (w : World) : Prop := ∀ x ∈ w.db.artifacts, x.status = .approved → x.content.isObj = true

theorem shown_init (now : Timestamp) : (World.init now).Shown :=
  fun _ h => (Table.not_mem_empty _ h).elim

/-- An approval and an edit are accepted only with a response. -/
theorem Shown.step {w' : World} {a : Action} (hw : w.Sound) (hs : w.Shown)
    (h : w.step a = some w') : w'.Shown := by
  intro x' hx' happ
  rcases hw.artifacts h x' hx' with ⟨x, hx, -, hstep⟩ | hnew
  · cases hstep with
    | same => exact hs _ hx happ
    | edited _ hacc => exact (fits_of_accepts hx hacc).response
    | approved _ hacc => exact (answers_of_review hx hacc).2
    | rejected => cases happ
    | published => cases happ
  · cases hnew with
    | extracted _ _ _ _ hst => cases hst.symm.trans happ

theorem shown_of_run {now : Timestamp} {tr : List (Transition World Action)}
    (hr : SystemRun now tr w) : w.Shown := by
  have key : w.Sound ∧ w.Shown := by
    apply hr.invariant (I := fun w => w.Sound ∧ w.Shown) ⟨sound_init now, shown_init now⟩
    rintro v a v' ⟨hv, hs⟩ h
    exact ⟨hv.step h, hs.step hv h⟩
  exact key.2

end World

end AiBadge
