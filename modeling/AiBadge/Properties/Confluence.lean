import AiBadge.Lib.Run
import AiBadge.System.Acceptance

/-! # Approvals in any order

A run of approvals of a session's artifacts leaves each row as its last approval
wrote it, and moves the session exactly once every artifact has been approved. An
approval fails only on an artifact whose content is no dictionary, or with a NUL
character in its comment.
-/

namespace AiBadge

open Lib DbM SessionStatus

/-- The comment with which the action approves the artifact. -/
def approvalOf (aid : Uuid) : Action → Option String
  | .request (.reviewArtifact _ _ (some i) ⟨.approve, comment⟩) =>
    if i = aid then some comment else none
  | _ => none

/-- The comment of the last approval of the artifact, if there has been one. -/
def lastApproval (tr : List (Transition World Action)) (aid : Uuid) : Option String :=
  tr.foldl (fun c t => (approvalOf aid t.act).or c) none

@[simp] theorem lastApproval_nil {aid : Uuid} : lastApproval [] aid = none := rfl

@[simp] theorem lastApproval_snoc {tr : List (Transition World Action)} {t : Transition World Action}
    {aid : Uuid} : lastApproval (tr ++ [t]) aid = (approvalOf aid t.act).or (lastApproval tr aid) := by
  rw [lastApproval, List.foldl_append]
  rfl

/-- The row that the approvals so far have left. -/
def Artifact.reviewed (tr : List (Transition World Action)) (x : Artifact) : Artifact :=
  match lastApproval tr x.id with
  | some comment => x.withReview .approved comment
  | none => x

section Reviewed

variable {tr : List (Transition World Action)} {t : Transition World Action} {x : Artifact}

@[simp] theorem reviewed_nil : x.reviewed [] = x := rfl

@[simp] theorem id_reviewed : (x.reviewed tr).id = x.id := by
  unfold Artifact.reviewed
  split <;> rfl

@[simp] theorem sessionId_reviewed : (x.reviewed tr).sessionId = x.sessionId := by
  unfold Artifact.reviewed
  split <;> rfl

@[simp] theorem content_reviewed : (x.reviewed tr).content = x.content := by
  unfold Artifact.reviewed
  split <;> rfl

/-- An approval overwrites the one before it. -/
theorem withReview_reviewed {status : ArtifactStatus} {comment : String} :
    (x.reviewed tr).withReview status comment = x.withReview status comment := by
  unfold Artifact.reviewed
  split <;> rfl

theorem reviewed_of_none (h : approvalOf x.id t.act = none) :
    x.reviewed (tr ++ [t]) = x.reviewed tr := by
  rw [Artifact.reviewed, lastApproval_snoc, h, Option.none_or, Artifact.reviewed]

theorem reviewed_of_some {comment : String} (h : approvalOf x.id t.act = some comment) :
    x.reviewed (tr ++ [t]) = x.withReview .approved comment := by
  rw [Artifact.reviewed, lastApproval_snoc, h, Option.some_or]

/-- An approval of `x` rewrites the row of `x`. -/
theorem reviewed_snoc {comment : String} {y : Artifact}
    (h : ∀ aid, approvalOf aid t.act = if x.id = aid then some comment else none) :
    y.reviewed (tr ++ [t]) =
      if y.id = x.id then (y.reviewed tr).withReview .approved comment else y.reviewed tr := by
  rw [withReview_reviewed]
  split
  next hi => exact reviewed_of_some (by rw [h, if_pos hi.symm])
  next hi => exact reviewed_of_none (by rw [h, if_neg (Ne.symm hi)])

/-- Of the artifacts that were not approved before, the approved ones are those a request has
approved. -/
theorem status_reviewed (hx : x.status ≠ .approved) :
    (x.reviewed tr).status = .approved ↔ (lastApproval tr x.id).isSome := by
  unfold Artifact.reviewed
  cases lastApproval tr x.id with
  | none => simpa using hx
  | some comment => simp

end Reviewed

namespace World

/-- Time passes, or a user approves an artifact of the session. -/
def Approving (w : World) (sid : Uuid) (a : Action) : Prop :=
  (∃ d, a = .tick d) ∨ ∃ v ∈ w.db.users, ∃ x ∈ w.db.artifacts, x.sessionId = sid ∧
    ∃ ids comment, a = .request (.reviewArtifact v.id ids (some x.id) ⟨.approve, comment⟩)

/-- An approval has a comment that its column takes, and an artifact with a dictionary as its
content. -/
def Answers (w : World) : Action → Prop
  | .request (.reviewArtifact _ _ (some i) ⟨.approve, comment⟩) =>
    fitsText comment = true ∧ ∀ x ∈ w.db.artifacts, x.id = i → x.content.isObj = true
  | _ => True

/-- Every artifact of the session has been approved. -/
def AllApproved (w : World) (sid : Uuid) (tr : List (Transition World Action)) : Prop :=
  ∀ x ∈ w.db.artifacts, x.sessionId = sid → (lastApproval tr x.id).isSome

instance (w : World) (sid : Uuid) (tr : List (Transition World Action)) :
    Decidable (w.AllApproved sid tr) :=
  inferInstanceAs (Decidable (∀ x ∈ w.db.artifacts, x.sessionId = sid → _))

/-- The session that the approvals so far have left. -/
def moved (w : World) (sid : Uuid) (tr : List (Transition World Action)) (s : Session) : Session :=
  if s.id = sid ∧ w.AllApproved sid tr then s.withStatus approved else s

/-- The approvals have succeeded and changed just the approved artifacts, and the session once they
are all approved. -/
structure ApprovedAs (w : World) (sid : Uuid) (tr : List (Transition World Action)) (w' : World) :
    Prop where
  accepted : ∀ t ∈ tr, ∀ r, t.act = .request r → t.pre.Accepts r
  artifacts : ∀ x', x' ∈ w'.db.artifacts ↔ ∃ x ∈ w.db.artifacts, x' = x.reviewed tr
  sessions : ∀ s', s' ∈ w'.db.sessions ↔ ∃ s ∈ w.db.sessions, s' = w.moved sid tr s

variable {w w' w'' : World} {s : Session} {x : Artifact} {tr : List (Transition World Action)}
  {t : Transition World Action} {a : Action}

@[simp] theorem id_moved {sid : Uuid} : (w.moved sid tr s).id = s.id := by
  unfold moved
  split <;> rfl

theorem moved_of_not {sid : Uuid} (h : ¬ w.AllApproved sid tr) : w.moved sid tr s = s := by
  unfold moved
  exact if_neg fun hc => h hc.2

/-- The last approval that was missing moves the session, wherever it stands. -/
theorem moved_snoc {sid : Uuid} (h : w.AllApproved sid (tr ++ [t])) :
    w.moved sid (tr ++ [t]) s = if (w.moved sid tr s).id = sid
      then (w.moved sid tr s).withStatus approved else w.moved sid tr s := by
  rw [id_moved]
  unfold moved
  by_cases hi : s.id = sid
  · rw [if_pos ⟨hi, h⟩, if_pos hi]
    split <;> rfl
  · rw [if_neg fun hc => hi hc.1, if_neg hi, if_neg fun hc => hi hc.1]

theorem moved_congr {sid : Uuid} {tr' : List (Transition World Action)}
    (h : w.AllApproved sid tr ↔ w.AllApproved sid tr') : w.moved sid tr s = w.moved sid tr' s := by
  unfold moved
  exact if_congr (and_congr_right fun _ => h) rfl rfl

theorem allApproved_of_none (h : ∀ aid, approvalOf aid t.act = none) {sid : Uuid} :
    w.AllApproved sid (tr ++ [t]) ↔ w.AllApproved sid tr := by
  simp only [AllApproved, lastApproval_snoc, h, Option.none_or]

theorem AllApproved.snoc {sid : Uuid} (h : w.AllApproved sid tr) :
    w.AllApproved sid (tr ++ [t]) := by
  intro x hx hs
  rw [lastApproval_snoc, Option.isSome_or, h x hx hs, Bool.or_true]

theorem ApprovedAs.tick {sid : Uuid} {d : Nat} (h : w.ApprovedAs sid tr w')
    (hs : w'.step (.tick d) = some w'') : w.ApprovedAs sid (tr ++ [⟨w', .tick d, w''⟩]) w'' := by
  obtain ⟨-, w₁, hw, rfl⟩ := step_eq_some.mp hs
  cases hw
  constructor
  · intro t ht r hr
    rcases List.mem_append.mp ht with ht | ht
    · exact h.accepted t ht r hr
    · obtain rfl := List.mem_singleton.mp ht
      cases hr
  · simp only [reviewed_of_none (t := ⟨w', .tick d, _⟩) rfl]
    exact h.artifacts
  · simp only [moved, allApproved_of_none (t := ⟨w', .tick d, _⟩) fun _ => rfl]
    exact h.sessions

section Approve

variable {v : User} {ids : RetryIds} {comment : String}

theorem ApprovedAs.accepts_iff (h : w.ApprovedAs s.id tr w') (hs : s ∈ w.db.sessions)
    (hst : s.status ∈ [needsReview, reviewing]) (hv : v ∈ w'.db.users) (hx : x ∈ w.db.artifacts)
    (hxs : x.sessionId = s.id) :
    w'.Accepts (.reviewArtifact v.id ids (some x.id) ⟨.approve, comment⟩) ↔
      w.Answers (.request (.reviewArtifact v.id ids (some x.id) ⟨.approve, comment⟩)) := by
  have hx' : x.reviewed tr ∈ w'.db.artifacts := (h.artifacts _).mpr ⟨x, hx, rfl⟩
  have hs' : w.moved s.id tr s ∈ w'.db.sessions := (h.sessions _).mpr ⟨s, hs, rfl⟩
  rw [show w'.Accepts _ ↔ w'.Accepts (.reviewArtifact v.id ids (some (x.reviewed tr).id)
    ⟨.approve, comment⟩) by rw [id_reviewed]]
  constructor
  · intro hacc
    obtain ⟨hc, ho⟩ := answers_of_review hx' hacc
    refine ⟨hc, fun y hy hi => ?_⟩
    rwa [Table.eq_of_key_eq hy hx hi, ← @content_reviewed tr x]
  · rintro ⟨hc, ho⟩
    apply accepts_approve hv hx' hc (by simpa using ho x hx rfl) (.inr ⟨_, hs', ?_, ?_⟩)
    · rw [sessionId_reviewed, hxs, id_moved]
    · unfold moved
      split
      · simp
      · exact List.mem_append_left [approved] hst

variable (h : w.ApprovedAs s.id tr w')
  (ht : ∀ aid, approvalOf aid t.act = if x.id = aid then some comment else none)
include h ht

theorem ApprovedAs.artifacts_snoc (hd : w''.db.artifacts = w'.db.artifacts.update
    (fun y => y.id = (x.reviewed tr).id) (Artifact.withReview .approved comment)) (x' : Artifact) :
    x' ∈ w''.db.artifacts ↔ ∃ y ∈ w.db.artifacts, x' = y.reviewed (tr ++ [t]) := by
  rw [hd, Table.mem_update]
  simp only [decide_eq_true_eq, reviewed_snoc ht, id_reviewed, h.artifacts]
  constructor
  · rintro ⟨_, ⟨y, hy, rfl⟩, rfl⟩
    exact ⟨y, hy, by rw [id_reviewed]⟩
  · rintro ⟨y, hy, rfl⟩
    exact ⟨_, ⟨y, hy, rfl⟩, by rw [id_reviewed]⟩

/-- What is left to approve, read off the requests so far. -/
theorem ApprovedAs.lastToApprove_iff (hxs : x.sessionId = s.id)
    (hna : ∀ x ∈ w.db.artifacts, x.sessionId = s.id → x.status ≠ .approved) :
    w'.LastToApprove (x.reviewed tr) ↔ w.AllApproved s.id (tr ++ [t]) := by
  have hno {y : Artifact} (hi : y.id ≠ x.id) : approvalOf y.id t.act = none := by
    rw [ht, if_neg (Ne.symm hi)]
  constructor
  · intro hl y hy hys
    rw [lastApproval_snoc]
    by_cases hi : y.id = x.id
    · rw [ht, if_pos hi.symm]
      rfl
    · rw [hno hi, Option.none_or, ← status_reviewed (hna y hy hys)]
      apply hl _ ((h.artifacts _).mpr ⟨y, hy, rfl⟩)
      · simp [hys, hxs]
      · simpa using hi
  · intro hall b hb hbs hbi
    obtain ⟨y, hy, rfl⟩ := (h.artifacts b).mp hb
    rw [sessionId_reviewed, sessionId_reviewed, hxs] at hbs
    rw [id_reviewed, id_reviewed] at hbi
    have hy' := hall y hy hbs
    rw [lastApproval_snoc, hno hbi, Option.none_or] at hy'
    exact (status_reviewed (hna y hy hbs)).mpr hy'

omit ht in
theorem ApprovedAs.sessions_snoc (hall : w.AllApproved s.id (tr ++ [t]))
    (hd : w''.db.sessions = w'.db.sessions.update (fun r => r.id = s.id)
      (Session.withStatus approved)) (s' : Session) :
    s' ∈ w''.db.sessions ↔ ∃ r ∈ w.db.sessions, s' = w.moved s.id (tr ++ [t]) r := by
  rw [hd, Table.mem_update]
  simp only [h.sessions, moved_snoc hall, decide_eq_true_eq]
  constructor
  · rintro ⟨_, ⟨r, hr, rfl⟩, rfl⟩
    exact ⟨r, hr, rfl⟩
  · rintro ⟨r, hr, rfl⟩
    exact ⟨_, ⟨r, hr, rfl⟩, rfl⟩

omit ht in
theorem ApprovedAs.sessions_keep (hn : ¬ w.AllApproved s.id (tr ++ [t]))
    (hd : w''.db.sessions = w'.db.sessions) (s' : Session) :
    s' ∈ w''.db.sessions ↔ ∃ r ∈ w.db.sessions, s' = w.moved s.id (tr ++ [t]) r := by
  have hsame := h.sessions s'
  simp only [moved_of_not (mt AllApproved.snoc hn)] at hsame
  simp only [moved_of_not hn, hd]
  exact hsame

end Approve

/-- An approval that succeeds extends what was approved. -/
theorem ApprovedAs.approve {v : User} {ids : RetryIds} {comment : String}
    (h : w.ApprovedAs s.id tr w')
    (hna : ∀ x ∈ w.db.artifacts, x.sessionId = s.id → x.status ≠ .approved)
    (hx : x ∈ w.db.artifacts) (hxs : x.sessionId = s.id)
    (ha : a = .request (.reviewArtifact v.id ids (some x.id) ⟨.approve, comment⟩))
    (hacc : w'.Accepts (.reviewArtifact v.id ids (some x.id) ⟨.approve, comment⟩))
    (hstep : w'.step a = some w'') : w.ApprovedAs s.id (tr ++ [⟨w', a, w''⟩]) w'' := by
  have hx' : x.reviewed tr ∈ w'.db.artifacts := (h.artifacts _).mpr ⟨x, hx, rfl⟩
  have heff : RequestEffect w' (.reviewArtifact v.id ids (some (x.reviewed tr).id)
      ⟨.approve, comment⟩) w''.db := by
    obtain ⟨-, w₁, hw, rfl⟩ := step_eq_some.mp hstep
    rw [ha] at hw
    cases hw
    rw [id_reviewed]
    exact serve_of_accepts hacc
  have happ (aid : Uuid) : approvalOf aid a = if x.id = aid then some comment else none := by
    rw [ha, approvalOf]
  have hleft := h.lastToApprove_iff (t := ⟨w', a, w''⟩) happ hxs hna
  constructor
  · intro t ht r hr
    rcases List.mem_append.mp ht with ht | ht
    · exact h.accepted t ht r hr
    · obtain rfl := List.mem_singleton.mp ht
      obtain rfl := Action.request.inj (ha.symm.trans hr)
      exact hacc
  · rcases db_of_approve hx' heff with ⟨-, hd⟩ | ⟨-, _, -, -, hd⟩
    · exact h.artifacts_snoc happ (by rw [hd]; rfl)
    · exact h.artifacts_snoc happ (by rw [hd, advanceSession_artifacts]; rfl)
  · rcases db_of_approve hx' heff with ⟨hl, hd⟩ | ⟨hl, r, hr, hri, hd⟩
    · exact h.sessions_keep (mt hleft.mpr hl) (by rw [hd]; rfl)
    · apply h.sessions_snoc (hleft.mp hl)
      rw [sessionId_reviewed, hxs] at hri
      rw [hd, advanceSession_sessions, hri]
      rfl

theorem users_of_approving {sid : Uuid} (ha : w.Approving sid a) (hs : w'.step a = some w'') :
    w''.db.users = w'.db.users := by
  obtain ⟨-, w₁, hw, rfl⟩ := step_eq_some.mp hs
  rcases ha with ⟨d, rfl⟩ | ⟨v, -, x, -, -, ids, comment, rfl⟩
  · cases hw
    rfl
  · cases hw
    by_cases hacc : w'.Accepts (.reviewArtifact v.id ids (some x.id) ⟨.approve, comment⟩)
    · exact users_of_request rfl (serve_of_accepts hacc)
    · exact congrArg Db.users (serve_of_not_accepts hacc)

theorem approvedAs_nil (hx : ∃ x ∈ w.db.artifacts, x.sessionId = s.id) :
    w.ApprovedAs s.id [] w := by
  have hn : ¬ w.AllApproved s.id [] := by
    intro hall
    obtain ⟨x, hm, hi⟩ := hx
    cases hall x hm hi
  constructor
  · exact fun t ht => absurd ht List.not_mem_nil
  · simp
  · simp [moved_of_not hn]

theorem users_of_run (r : Run step w tr w') (ha : ∀ t ∈ tr, w.Approving s.id t.act) :
    w'.db.users = w.db.users :=
  r.invariant_of_meets (I := fun _ w' => w'.db.users = w.db.users)
    (C := fun _ a => w.Approving s.id a) ha rfl
    fun _ _ _ _ _ hu ha hstep => (users_of_approving ha hstep).trans hu

/-- A run of approvals does what it should exactly when every one of them can be answered. -/
theorem approvedAs_iff (hs : s ∈ w.db.sessions) (hst : s.status ∈ [needsReview, reviewing])
    (hx : ∃ x ∈ w.db.artifacts, x.sessionId = s.id)
    (hna : ∀ x ∈ w.db.artifacts, x.sessionId = s.id → x.status ≠ .approved)
    (r : Run step w tr w') (ha : ∀ t ∈ tr, w.Approving s.id t.act) :
    w.ApprovedAs s.id tr w' ↔ ∀ t ∈ tr, w.Answers t.act := by
  -- the run so far is as it should be as long as no request of it has failed
  have key : (∀ t ∈ tr, ∀ r, t.act = .request r → t.pre.Accepts r) ∨ (∀ t ∈ tr, w.Answers t.act) →
      w.ApprovedAs s.id tr w' ∧ ∀ t ∈ tr, w.Answers t.act := by
    induction r with
    | init => exact fun _ => ⟨approvedAs_nil hx, fun t ht => absurd ht List.not_mem_nil⟩
    | @snoc tr w₁ w₂ a r hstep ih =>
      have ha' : ∀ t ∈ tr, w.Approving s.id t.act := fun t ht => ha t (List.mem_append_left _ ht)
      have hu : w₁.db.users = w.db.users := users_of_run r ha'
      simp only [List.forall_mem_append, List.forall_mem_singleton]
      intro hor
      obtain ⟨h, hans⟩ := ih ha' (hor.imp And.left And.left)
      have hlast := hor.imp And.right And.right
      rcases ha ⟨w₁, a, w₂⟩ (by simp) with ⟨d, rfl⟩ | ⟨v, hv, x, hm, hi, ids, comment, rfl⟩
      · exact ⟨h.tick hstep, hans, trivial⟩
      · have hiff : w₁.Accepts (.reviewArtifact v.id ids (some x.id) ⟨.approve, comment⟩) ↔
            w.Answers (.request (.reviewArtifact v.id ids (some x.id) ⟨.approve, comment⟩)) :=
          h.accepts_iff hs hst (hu ▸ hv) hm hi
        have hacc := hlast.elim (fun hl => hl _ rfl) hiff.mpr
        exact ⟨h.approve hna hm hi rfl hacc hstep, hans, hiff.mp hacc⟩
  exact ⟨fun h => (key (.inl h.accepted)).2, fun h => (key (.inr h)).1⟩

end World

end AiBadge
