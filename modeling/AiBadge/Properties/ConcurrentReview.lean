import AiBadge.Concurrency.Review

/-! # Concurrent approvals

Approvals of the artifacts of a session, interleaved statement by statement. The session
advances exactly when one of them asks for what is left after all the others that matter
have committed.
-/

namespace AiBadge

open Lib Prog DbM SessionStatus

/-- The artifact belongs to the session and is not approved. -/
def Db.Unapproved (db : Db) (sid aid : Uuid) : Prop :=
  ∃ x ∈ db.artifacts, x.id = aid ∧ x.sessionId = sid ∧ x.status ≠ .approved

/-- `db'` comes after `db` in the course of approvals. -/
structure Later (sid : Uuid) (db db' : Db) : Prop where
  artifacts : ∀ x' ∈ db'.artifacts, ∃ x ∈ db.artifacts, x.id = x'.id ∧ x.sessionId = x'.sessionId ∧
    (x.status = .approved → x'.status = .approved)
  session : ∀ r, db.session? sid = some r → ∃ r', db'.session? sid = some r' ∧
    r'.status ∈ [needsReview, approved] ∧ (r.status = approved → r'.status = approved)

theorem Later.trans {sid : Uuid} {a b c : Db} (h : Later sid a b) (h' : Later sid b c) :
    Later sid a c where
  artifacts := by
    intro x'' hx''
    obtain ⟨x', hx', hi', hs', ha'⟩ := h'.artifacts x'' hx''
    obtain ⟨x, hx, hi, hs, ha⟩ := h.artifacts x' hx'
    exact ⟨x, hx, hi.trans hi', hs.trans hs', fun hap => ha' (ha hap)⟩
  session := by
    intro r hr
    obtain ⟨r', hr', -, ha⟩ := h.session r hr
    obtain ⟨r'', hr'', hst, ha'⟩ := h'.session r' hr'
    exact ⟨r'', hr'', hst, fun hap => ha' (ha hap)⟩

/-- The session is in review, or approved by then. -/
def Db.InReview (db : Db) (sid : Uuid) : Prop :=
  ∃ r, db.session? sid = some r ∧ r.status ∈ [needsReview, approved]

theorem Later.refl {sid : Uuid} {db : Db} (h : db.InReview sid) : Later sid db db where
  artifacts x hx := ⟨x, hx, rfl, rfl, id⟩
  session := by
    obtain ⟨r, hr, hst⟩ := h
    intro r' hr'
    obtain rfl := Option.some.inj (hr.symm.trans hr')
    exact ⟨r, hr, hst, id⟩

/-- What an approval has loaded as approved is approved. -/
def Db.Settles (db : Db) (a : Artifact) : Prop :=
  a.status = .approved → ∀ x ∈ db.artifacts, x.id = a.id → x.status = .approved

theorem Later.settles {sid : Uuid} {db db' : Db} {a : Artifact} (h : Later sid db db')
    (hs : db.Settles a) : db'.Settles a := by
  intro ha x' hx' hi
  obtain ⟨x, hx, hxi, -, hap⟩ := h.artifacts x' hx'
  exact hap (hs ha x hx (hxi.trans hi))

/-- The writes approve one artifact of the session and no other. -/
structure Reviews (sid aid : Uuid) (db : Db) (ws : List (Db → Db)) : Prop where
  artifacts : ∀ x' ∈ (overlay ws db).artifacts, ∃ x ∈ db.artifacts, x.id = x'.id ∧
    x.sessionId = x'.sessionId ∧ (x.status = .approved → x'.status = .approved)
  unapproved : ∀ i, (overlay ws db).Unapproved sid i ↔ db.Unapproved sid i ∧ i ≠ aid

theorem saveReview_id (comment : String) (a x : Artifact) :
    (a.save (a.withReview .approved comment) x).id = x.id := by
  simp

/-- The two writes of an approval. -/
def reviewWrites (comment : String) (user : Uuid) (a : Artifact) : List (Db → Db) :=
  [fun db =>
      db.setArtifact a.id (a.save (a.withReview .approved comment)) (saveReview_id comment a),
    fun db => db.addEvent (reviewEvent a user .artifactApproved)]

section Writes

variable {sid : Uuid} {comment : String} {user : Uuid} {a : Artifact} {db : Db}

theorem reviewWrites_sessions :
    (overlay (reviewWrites comment user a) db).sessions = db.sessions := rfl

theorem reviewWrites_artifacts : (overlay (reviewWrites comment user a) db).artifacts =
    db.artifacts.update (fun x => x.id = a.id) (a.save (a.withReview .approved comment)) := rfl

theorem save_approved {x : Artifact} (hs : a.status = .approved → x.status = .approved) :
    (a.save (a.withReview .approved comment) x).status = .approved := by
  simp only [Artifact.save_status, Artifact.withReview_status, changed]
  split
  next h => exact hs h.symm
  next => rfl

theorem reviews_reviewWrites (hs : db.Settles a) :
    Reviews sid a.id db (reviewWrites comment user a) where
  artifacts := by
    rw [reviewWrites_artifacts]
    intro x' hx'
    obtain ⟨x, hx, rfl⟩ := Table.mem_update.mp hx'
    refine ⟨x, hx, ?_, ?_, fun hap => ?_⟩
    · split <;> rfl
    · split <;> rfl
    · split
      · exact save_approved fun _ => hap
      · exact hap
  unapproved := by
    intro i
    constructor
    · rintro ⟨x', hx', rfl, hsid, hn⟩
      rw [reviewWrites_artifacts] at hx'
      obtain ⟨x, hx, rfl⟩ := Table.mem_update.mp hx'
      split at hn
      next hi => exact absurd (save_approved fun ha => hs ha x hx (by simpa using hi)) hn
      next hi =>
        rw [if_neg hi] at hsid ⊢
        exact ⟨⟨x, hx, rfl, hsid, hn⟩, by simpa using hi⟩
    · rintro ⟨⟨x, hx, rfl, hsid, hn⟩, hi⟩
      refine ⟨x, ?_, rfl, hsid, hn⟩
      have hm := Table.mem_update_of_mem (p := fun x => x.id = a.id)
        (f := a.save (a.withReview .approved comment)) (by intro; rfl) hx
      rwa [if_neg (by simpa using hi)] at hm

end Writes

/-- The writes approve the artifact, and the session with it. -/
def Advances (sid aid : Uuid) (db : Db) (ws : List (Db → Db)) : Prop :=
  Reviews sid aid db ws ∧ ∃ r, (overlay ws db).session? sid = some r ∧ r.status = approved

/-- The two writes of a session transition. -/
def moveWrites (sid : Uuid) (loaded : Session) (target : SessionStatus) : List (Db → Db) :=
  [fun db => db.setSession sid (loaded.save (loaded.withStatus target)),
    fun db => db.addEvent (sessionEvent sid target)]

section Advance

variable {sid aid : Uuid} {ws : List (Db → Db)} {r : Session} {target : SessionStatus} {db : Db}
variable {P : Db → List (Db → Db) → Prop}

theorem overlay_append {σ : Type} {ws vs : List (σ → σ)} {s : σ} :
    overlay (ws ++ vs) s = overlay vs (overlay ws s) := List.foldl_append ..

theorem moveWrites_artifacts :
    (overlay (moveWrites sid r target) db).artifacts = db.artifacts := rfl

theorem moveWrites_session {r' : Session} (h : db.session? sid = some r') :
    (overlay (moveWrites sid r target) db).session? sid =
      some (r.save (r.withStatus target) r') := by
  obtain ⟨hm, rfl⟩ := Db.session?_eq_some.mp h
  have hset := Table.mem_update_of_mem (p := fun x => x.id = r'.id)
    (f := r.save (r.withStatus target)) (by intro; rfl) hm
  rw [if_pos (decide_eq_true rfl)] at hset
  exact Db.session?_eq_some.mpr ⟨hset, rfl⟩

theorem Reviews.append_move (h : Reviews sid aid db ws) :
    Reviews sid aid db (ws ++ moveWrites sid r target) where
  artifacts := by
    rw [overlay_append, moveWrites_artifacts]
    exact h.artifacts
  unapproved := by
    intro i
    have he := h.unapproved i
    unfold Db.Unapproved at he ⊢
    rwa [overlay_append, moveWrites_artifacts]

/-- A transition of a loaded session that is allowed goes on with its writes. -/
theorem commits_transitionSession {next : Session → DbScript} (hdb : db.InReview sid)
    (hws : ∀ db, (db.session? sid).isSome → ((overlay ws db).session? sid).isSome)
    (hc : (canTransition r.status target).1 = true)
    (h : ∀ db', Later sid db db' →
      Commits (Later sid) P db' (ws ++ moveWrites sid r target) (next (r.withStatus target))) :
    Commits (Later sid) P db ws (DbScript.transitionSession sid (some r) target next) := by
  refine .query fun db₁ h₁ => ?_
  obtain ⟨s, hs, -⟩ := hdb
  obtain ⟨s₁, hs₁, -⟩ := h₁.session s hs
  obtain ⟨v, hv⟩ := Option.isSome_iff_exists.mp (hws db₁ (by rw [hs₁]; rfl))
  simp only [hv, Option.map_some, Option.getD_some, Script.require, hc, Script.ensure, if_true]
  refine .flush fun db₂ h₂ => .flush fun db₃ h₃ => ?_
  rw [List.append_assoc]
  exact h db₃ (h₁.trans (h₂.trans h₃))

/-- The response does not write. -/
theorem commits_respondArtifact {i : Uuid} (h : ∀ db', Later sid db db' → P db' ws) :
    Commits (Later sid) P db ws (DbScript.respondArtifact i) := by
  refine .query fun db₁ h₁ => ?_
  simp only [Script.require, Script.ensure]
  split
  · split
    · exact .done fun db₂ h₂ => h db₂ (h₁.trans h₂)
    · exact .raise
  · exact .raise

theorem isSome_append_move
    (hws : ∀ db, (db.session? sid).isSome → ((overlay ws db).session? sid).isSome)
    (db : Db) (h : (db.session? sid).isSome) :
    ((overlay (ws ++ moveWrites sid r target) db).session? sid).isSome := by
  obtain ⟨v, hv⟩ := Option.isSome_iff_exists.mp (hws db h)
  rw [overlay_append, moveWrites_session hv]
  rfl

/-- Whatever other approvals commit meanwhile, the moves of the session end with its approval. -/
theorem commits_advance {i : Uuid} (hdb : db.InReview sid)
    (hws : ∀ db, (overlay ws db).sessions = db.sessions)
    (hrev : ∀ db', Later sid db db' → Reviews sid aid db' ws) :
    Commits (Later sid) (Advances sid aid) db ws
      (.query fun db => DbScript.advance sid (db.session? sid) (DbScript.respondArtifact i)) := by
  have hsess (db : Db) : (overlay ws db).session? sid = db.session? sid := by
    rw [Db.session?, hws]
    rfl
  have hsome (db : Db) (h : (db.session? sid).isSome) : ((overlay ws db).session? sid).isSome := by
    rwa [hsess]
  refine .query fun db₁ h₁ => ?_
  obtain ⟨r₀, hr₀, -⟩ := hdb
  obtain ⟨r, hr, hst, -⟩ := h₁.session r₀ hr₀
  have hdb₁ : db₁.InReview sid := ⟨r, hr, hst⟩
  rw [hsess, hr, DbScript.advance]
  by_cases hn : r.status = needsReview
  · have hc : (canTransition r.status reviewing).1 = true := by
      rw [hn]
      decide
    rw [if_pos (by simp [hn])]
    refine commits_transitionSession hdb₁ hsome hc fun db₂ h₂ => ?_
    obtain ⟨r₂, hr₂, hst₂, -⟩ := h₂.session r hr
    refine commits_transitionSession ⟨r₂, hr₂, hst₂⟩ (isSome_append_move hsome)
      (by rw [Session.withStatus_status]; decide) fun db₃ h₃ => commits_respondArtifact fun db₄ h₄ => ?_
    obtain ⟨r₄, hr₄, -⟩ := (h₂.trans (h₃.trans h₄)).session r hr
    have hrev₄ := hrev db₄ (h₁.trans (h₂.trans (h₃.trans h₄)))
    have hview : (overlay (ws ++ moveWrites sid r reviewing ++
        moveWrites sid (r.withStatus reviewing) approved) db₄).session? sid =
          some ((r.withStatus reviewing).save ((r.withStatus reviewing).withStatus approved)
            (r.save (r.withStatus reviewing) r₄)) := by
      rw [overlay_append, overlay_append]
      exact moveWrites_session (moveWrites_session ((hsess db₄).trans hr₄))
    exact ⟨hrev₄.append_move.append_move, _, hview, by simp [changed]⟩
  · have ha : r.status = approved := by simpa [hn] using hst
    have hc : (canTransition r.status approved).1 = true := by
      rw [ha]
      decide
    rw [if_neg (by simp [hn])]
    refine commits_transitionSession hdb₁ hsome hc fun db₂ h₂ => commits_respondArtifact fun db₃ h₃ => ?_
    obtain ⟨r₃, hr₃, -, hap⟩ := (h₂.trans h₃).session r hr
    have hview : (overlay (ws ++ moveWrites sid r approved) db₃).session? sid =
        some (r.save (r.withStatus approved) r₃) := by
      rw [overlay_append]
      exact moveWrites_session ((hsess db₃).trans hr₃)
    exact ⟨(hrev db₃ (h₁.trans (h₂.trans h₃))).append_move, _, hview,
      by simp [changed, ha, hap ha]⟩

end Advance

section Interleaving

variable {K : Type} [DecidableEq K]

/-- The fifth statement of an approval, its query for what is left, runs when every artifact that
was to be approved is its own or that of an approval that has committed. -/
def AsksLast (db : Db) (sid : Uuid) (reqs : K → Approval)
    (tr : List (Transition (Shared K Db Lock Exn) K)) (t : Transition (Shared K Db Lock Exn) K) :
    Prop :=
  turns t.act tr = 4 ∧ ∀ i, db.Unapproved sid i →
    (reqs t.act).artifact = some i ∨ ∃ j, t.pre.parties j = .committed ∧ (reqs j).artifact = some i

/-- The approval `k` has asked last. -/
def AskedLast (db : Db) (sid : Uuid) (reqs : K → Approval) (k : K)
    (tr : List (Transition (Shared K Db Lock Exn) K)) : Prop :=
  Sometime (fun tr t => t.act = k ∧ AsksLast db sid reqs tr t) tr

/-- Where an approval is after `n` statements, over the store `db`. -/
inductive ReviewStage (sid : Uuid) (r : Approval) (db : Db) (n : Nat) (asked : Prop) :
    Party Db Lock Exn → Prop where
  | user : n = 0 → ¬ asked → ReviewStage sid r db n asked (.active ⟨r.script, [], []⟩)
  | artifact {user : Uuid} {locks : List Lock} : n = 1 → ¬ asked →
      ReviewStage sid r db n asked
        (.active ⟨DbScript.artifactOr404 r.artifact (DbScript.reviewPlan r.comment user), [], locks⟩)
  | review {user : Uuid} {a : Artifact} {locks : List Lock} : n = 2 → ¬ asked →
      r.artifact = some a.id → a.sessionId = sid → db.Settles a →
      ReviewStage sid r db n asked (.active ⟨DbScript.approvePlan r.comment user a, [], locks⟩)
  | event {user : Uuid} {a : Artifact} {locks : List Lock} : n = 3 → ¬ asked →
      r.artifact = some a.id → db.Settles a →
      ReviewStage sid r db n asked (.active ⟨DbScript.addEvent (reviewEvent a user .artifactApproved)
        (DbScript.askRemaining sid (DbScript.respondArtifact a.id)),
          (reviewWrites r.comment user a).take 1, locks⟩)
  | remaining {user : Uuid} {a : Artifact} {locks : List Lock} : n = 4 → ¬ asked →
      r.artifact = some a.id → db.Settles a →
      ReviewStage sid r db n asked
        (.active ⟨DbScript.askRemaining sid (DbScript.respondArtifact a.id),
          reviewWrites r.comment user a, locks⟩)
  | respond {user : Uuid} {a : Artifact} {locks : List Lock} : 4 < n → ¬ asked →
      r.artifact = some a.id → db.Settles a →
      ReviewStage sid r db n asked
        (.active ⟨DbScript.respondArtifact a.id, reviewWrites r.comment user a, locks⟩)
  | left {user : Uuid} {a : Artifact} {locks : List Lock} : 4 < n → ¬ asked →
      r.artifact = some a.id → db.Settles a →
      ReviewStage sid r db n asked (.active ⟨.done, reviewWrites r.comment user a, locks⟩)
  | last {aid : Uuid} {c : Cursor Db Lock Exn} : 4 < n → asked → r.artifact = some aid →
      Commits (Later sid) (Advances sid aid) db c.writes c.script →
      ReviewStage sid r db n asked (.active c)
  | raised {c : Cursor Db Lock Exn} {e : Exn} : c.script = .raise e →
      ReviewStage sid r db n asked (.active c)
  | committed : ReviewStage sid r db n asked .committed
  | aborted : ReviewStage sid r db n asked .aborted

variable {sid : Uuid} {r : Approval} {db db' : Db} {n : Nat} {asked : Prop}

theorem ReviewStage.later {p : Party Db Lock Exn} (h : ReviewStage sid r db n asked p)
    (hl : Later sid db db') : ReviewStage sid r db' n asked p := by
  cases h with
  | user hn ha => exact .user hn ha
  | artifact hn ha => exact .artifact hn ha
  | review hn ha hi hs hf => exact .review hn ha hi hs (hl.settles hf)
  | event hn ha hi hf => exact .event hn ha hi (hl.settles hf)
  | remaining hn ha hi hf => exact .remaining hn ha hi (hl.settles hf)
  | respond hn ha hi hf => exact .respond hn ha hi (hl.settles hf)
  | left hn ha hi hf => exact .left hn ha hi (hl.settles hf)
  | last hn ha hi hc => exact .last hn ha hi (hc.mono hl fun _ _ _ => Later.trans)
  | raised he => exact .raised he
  | committed => exact .committed
  | aborted => exact .aborted

/-- The query for what is left finds nothing exactly when every artifact is approved. -/
theorem remaining_isEmpty_iff : (db.artifacts.select fun a =>
    a.sessionId = sid && a.status ≠ .approved).isEmpty = true ↔ ∀ i, ¬ db.Unapproved sid i := by
  rw [List.isEmpty_iff, List.eq_nil_iff_forall_not_mem]
  simp only [Table.mem_select, Bool.and_eq_true, decide_eq_true_eq, not_and]
  constructor
  · rintro h i ⟨x, hx, -, hs, hn⟩
    exact h x hx hs hn
  · intro h x hx hs hn
    exact h x.id ⟨x, hx, rfl, hs, hn⟩

/-- One statement of an approval. -/
theorem ReviewStage.advance {c c' : Cursor Db Lock Exn} {asked' : Prop}
    (h : ReviewStage sid r db n asked (.active c)) (hadv : c.advance db = some c')
    (hdb : db.InReview sid)
    (hx : ∀ a ∈ db.artifacts, r.artifact = some a.id → a.sessionId = sid)
    (hasked : asked' ↔ asked ∨ n = 4 ∧
      ∀ i, db.Unapproved sid i → r.artifact = some i) :
    ReviewStage sid r db (n + 1) asked' (.active c') := by
  have hno (hn : n ≠ 4) (ha : ¬ asked) : ¬ asked' := by
    rw [hasked]
    rintro (h | ⟨h, -⟩)
    · exact ha h
    · exact hn h
  cases h with
  | user hn ha =>
    cases hadv
    show ReviewStage sid r db (n + 1) asked'
      (.active ⟨.require (db.users.find? fun u => u.id = r.user) _ _, [], []⟩)
    cases db.users.find? fun u => u.id = r.user with
    | none => exact .raised rfl
    | some u => exact .artifact (by omega) (hno (by omega) ha)
  | @artifact user locks hn ha =>
    generalize hpid : r.artifact = pid at hadv
    cases pid with
    | none => cases hadv
    | some aid =>
      cases hadv
      show ReviewStage sid r db (n + 1) asked'
        (.active ⟨.require (db.artifacts.find? fun a => a.id = aid) _
          (DbScript.reviewPlan r.comment user), [], locks⟩)
      cases hf : db.artifacts.find? fun a => a.id = aid with
      | none => exact .raised rfl
      | some a =>
        obtain ⟨hm, hi⟩ := Table.find?_eq_some hf
        have hi : r.artifact = some a.id := by rw [hpid, show a.id = aid by simpa using hi]
        show ReviewStage sid r db (n + 1) asked'
          (.active ⟨.ensure (fitsText r.comment) _ (DbScript.approvePlan r.comment user a), [], locks⟩)
        cases fitsText r.comment with
        | false => exact .raised rfl
        | true =>
          refine .review (by omega) (hno (by omega) ha) hi (hx a hm hi) fun hap x hxm hxi => ?_
          rwa [Table.eq_of_key_eq hxm hm hxi]
  | review hn ha hi hs hf =>
    subst hs
    cases hadv
    exact .event (by omega) (hno (by omega) ha) hi hf
  | event hn ha hi hf =>
    cases hadv
    exact .remaining (by omega) (hno (by omega) ha) hi hf
  | @remaining user a locks hn ha hi hf =>
    cases hadv
    have hrev : Reviews sid a.id db (reviewWrites r.comment user a) := reviews_reviewWrites hf
    show ReviewStage sid r db (n + 1) asked' (.active ⟨if ((overlay (reviewWrites r.comment user a)
      db).artifacts.select fun a => a.sessionId = sid && a.status ≠ .approved).isEmpty then _ else _,
      _, _⟩)
    split
    next he =>
      have hnone := remaining_isEmpty_iff.mp he
      have hask : asked' := by
        refine hasked.mpr (.inr ⟨hn, fun i hun => ?_⟩)
        by_contra hne
        exact hnone i ((hrev.unapproved i).mpr ⟨hun, fun h => hne (h ▸ hi)⟩)
      exact .last (by omega) hask hi (commits_advance hdb (fun _ => reviewWrites_sessions)
        fun db' hl => reviews_reviewWrites (hl.settles hf))
    next he =>
      refine .respond (by omega) ?_ hi hf
      rw [hasked]
      rintro (h | ⟨-, h⟩)
      · exact ha h
      · refine he (remaining_isEmpty_iff.mpr fun i hun => ?_)
        obtain ⟨hun, hne⟩ := (hrev.unapproved i).mp hun
        exact hne (Option.some.inj ((h i hun).symm.trans hi))
  | @respond user a locks hn ha hi hf =>
    cases hadv
    show ReviewStage sid r db (n + 1) asked' (.active ⟨.require ((overlay (reviewWrites r.comment user a)
      db).artifact? a.id) _ fun b => .ensure b.content.isObj _ .done, _, _⟩)
    cases (overlay (reviewWrites r.comment user a) db).artifact? a.id with
    | none => exact .raised rfl
    | some b =>
      cases hb : b.content.isObj with
      | false => exact .raised (by simp only [Script.require, Script.ensure, hb]; rfl)
      | true =>
        simp only [Script.require, Script.ensure, hb, if_true]
        exact .left (by omega) (hno (by omega) ha) hi hf
  | left => cases hadv
  | last hn ha hi hc =>
    exact .last (by omega) (hasked.mpr (.inl ha)) hi (hc.advance (Later.refl hdb) hadv)
  | raised he =>
    rw [Cursor.advance, he] at hadv
    cases hadv

/-- What holds after any number of statements of the approvals. -/
structure Ongoing (db₀ : Db) (sid : Uuid) (reqs : K → Approval)
    (tr : List (Transition (Shared K Db Lock Exn) K)) (s : Shared K Db Lock Exn) : Prop where
  owner : ∀ x' ∈ s.store.artifacts, ∃ x ∈ db₀.artifacts, x.id = x'.id ∧ x.sessionId = x'.sessionId
  unapproved : ∀ i, s.store.Unapproved sid i ↔ db₀.Unapproved sid i ∧
    ∀ j, s.parties j = .committed → (reqs j).artifact ≠ some i
  session : ∃ r, s.store.session? sid = some r ∧
    (r.status = approved ∧ (∃ k, s.parties k = .committed ∧ AskedLast db₀ sid reqs k tr) ∨
      r.status = needsReview ∧ ∀ k, s.parties k = .committed → ¬ AskedLast db₀ sid reqs k tr)
  stage : ∀ k,
    ReviewStage sid (reqs k) s.store (turns k tr) (AskedLast db₀ sid reqs k tr) (s.parties k)

section Step

variable {db₀ : Db} {reqs : K → Approval} {tr : List (Transition (Shared K Db Lock Exn) K)}
variable {s s' : Shared K Db Lock Exn} {k : K}

theorem askedLast_snoc {j : K} : AskedLast db₀ sid reqs j (tr ++ [⟨s, k, s'⟩]) ↔
    AskedLast db₀ sid reqs j tr ∨ k = j ∧ AsksLast db₀ sid reqs tr ⟨s, k, s'⟩ := sometime_snoc

theorem askedLast_other {j : K} (hj : j ≠ k) : AskedLast db₀ sid reqs j (tr ++ [⟨s, k, s'⟩]) ↔
    AskedLast db₀ sid reqs j tr := by
  rw [askedLast_snoc]
  exact or_iff_left fun h => hj h.1.symm

theorem turns_other {j : K} (hj : j ≠ k) : turns j (tr ++ [⟨s, k, s'⟩]) = turns j tr := by
  rw [turns_snoc, if_neg (Ne.symm hj), Nat.add_zero]

theorem Ongoing.inReview (h : Ongoing db₀ sid reqs tr s) : s.store.InReview sid := by
  obtain ⟨r, hr, ⟨hst, -⟩ | ⟨hst, -⟩⟩ := h.session
  · exact ⟨r, hr, by simp [hst]⟩
  · exact ⟨r, hr, by simp [hst]⟩

/-- The next statement of `k` asks last exactly when nothing but its own artifact is left. -/
theorem Ongoing.asks_iff (h : Ongoing db₀ sid reqs tr s) :
    AskedLast db₀ sid reqs k (tr ++ [⟨s, k, s'⟩]) ↔ AskedLast db₀ sid reqs k tr ∨ turns k tr = 4 ∧
      ∀ i, s.store.Unapproved sid i → (reqs k).artifact = some i := by
  rw [askedLast_snoc]
  refine or_congr_right ?_
  constructor
  · rintro ⟨-, hn, hall⟩
    refine ⟨hn, fun i hi => ?_⟩
    obtain ⟨hi, hnone⟩ := (h.unapproved i).mp hi
    rcases hall i hi with he | ⟨j, hj, he⟩
    · exact he
    · exact absurd he (hnone j hj)
  · rintro ⟨hn, hall⟩
    refine ⟨rfl, hn, fun i hi => ?_⟩
    by_cases hex : ∃ j, s.parties j = .committed ∧ (reqs j).artifact = some i
    · exact .inr hex
    · refine .inl (hall i ((h.unapproved i).mpr ⟨hi, fun j hj he => hex ⟨j, hj, he⟩⟩))

/-- A step of `k` that commits nothing. -/
theorem Ongoing.move (h : Ongoing db₀ sid reqs tr s) {p : Party Db Lock Exn}
    (hk : s.parties k ≠ .committed) (hp : p ≠ .committed)
    (hstage : ReviewStage sid (reqs k) s.store (turns k tr + 1)
      (AskedLast db₀ sid reqs k (tr ++ [⟨s, k, s.setParty k p⟩])) p) :
    Ongoing db₀ sid reqs (tr ++ [⟨s, k, s.setParty k p⟩]) (s.setParty k p) := by
  have hcom (j : K) : (s.setParty k p).parties j = .committed ↔ s.parties j = .committed := by
    by_cases hj : j = k
    · subst hj
      simp [Shared.setParty, hk, hp]
    · simp [Shared.setParty, hj]
  have hasked (j : K) (hj : s.parties j = .committed) :
      AskedLast db₀ sid reqs j (tr ++ [⟨s, k, s.setParty k p⟩]) ↔ AskedLast db₀ sid reqs j tr := by
    refine askedLast_other ?_
    rintro rfl
    exact hk hj
  refine ⟨h.owner, fun i => ?_, ?_, fun j => ?_⟩
  · simp only [hcom]
    exact h.unapproved i
  · obtain ⟨r, hr, ⟨hst, i, hi, ha⟩ | ⟨hst, hn⟩⟩ := h.session
    · exact ⟨r, hr, .inl ⟨hst, i, (hcom i).mpr hi, (hasked i hi).mpr ha⟩⟩
    · refine ⟨r, hr, .inr ⟨hst, fun i hi => ?_⟩⟩
      rw [hasked i ((hcom i).mp hi)]
      exact hn i ((hcom i).mp hi)
  · by_cases hj : j = k
    · subst hj
      simpa [Shared.setParty] using hstage
    · have hsj := h.stage j
      rw [askedLast_other hj, turns_other hj]
      simpa [Shared.setParty, hj] using hsj

/-- What an approval that is about to commit does: it leaves the session alone, or approves it if it
has asked last. -/
theorem ReviewStage.of_done {c : Cursor Db Lock Exn} (h : ReviewStage sid r db n asked (.active c))
    (hd : c.script = .done) (hdb : db.InReview sid) :
    ∃ aid, r.artifact = some aid ∧ 4 < n ∧ Reviews sid aid db c.writes ∧
      (¬ asked ∧ (c.view db).session? sid = db.session? sid ∨
        asked ∧ ∃ r', (c.view db).session? sid = some r' ∧ r'.status = approved) := by
  cases h with
  | user => cases hd
  | @artifact user locks hn ha =>
    generalize r.artifact = pid at hd
    cases pid <;> cases hd
  | review => cases hd
  | respond => cases hd
  | event => cases hd
  | remaining => cases hd
  | left hn ha hi hf => exact ⟨_, hi, hn, reviews_reviewWrites hf, .inl ⟨ha, rfl⟩⟩
  | last hn ha hi hc =>
    obtain ⟨hrev, hses⟩ := hc.of_done (Later.refl hdb) hd
    exact ⟨_, hi, hn, hrev, .inr ⟨ha, hses⟩⟩
  | raised he => cases he.symm.trans hd

theorem Ongoing.commit (h : Ongoing db₀ sid reqs tr s) {c : Cursor Db Lock Exn}
    (hc : s.parties k = .active c) (hd : c.script = .done) (hs' : s'.store = c.view s.store)
    (hp' : s'.parties = Function.update s.parties k .committed) :
    Ongoing db₀ sid reqs (tr ++ [⟨s, k, s'⟩]) s' := by
  have hst := h.stage k
  rw [hc] at hst
  obtain ⟨aid, hi, hn, hrev, hses⟩ := hst.of_done hd h.inReview
  have hk : s.parties k ≠ .committed := by
    rw [hc]
    rintro ⟨⟩
  have hcom (j : K) : s'.parties j = .committed ↔ s.parties j = .committed ∨ j = k := by
    rw [hp']
    by_cases hj : j = k
    · subst hj
      simp
    · simp [hj]
  have hasked (j : K) : AskedLast db₀ sid reqs j (tr ++ [⟨s, k, s'⟩]) ↔
      AskedLast db₀ sid reqs j tr := by
    rw [askedLast_snoc]
    refine or_iff_left ?_
    rintro ⟨-, h4, -⟩
    exact absurd h4 (Nat.ne_of_gt hn)
  obtain ⟨r, hr, hcase⟩ := h.session
  -- the commit moves the session on, if at all, from review to approved
  have hsession : ∃ r', s'.store.session? sid = some r' ∧
      (r.status = approved → r'.status = approved) ∧
      (r'.status = approved ∧ (∃ j, s'.parties j = .committed ∧
        AskedLast db₀ sid reqs j (tr ++ [⟨s, k, s'⟩])) ∨
      r'.status = needsReview ∧ ∀ j, s'.parties j = .committed →
        ¬ AskedLast db₀ sid reqs j (tr ++ [⟨s, k, s'⟩])) := by
    simp only [hcom, hasked, hs']
    obtain ⟨hna, hsame⟩ | ⟨ha, r', hr', hap⟩ := hses
    · refine ⟨r, hsame.trans hr, id, ?_⟩
      obtain ⟨hap, j, hj, ha⟩ | ⟨hnr, hall⟩ := hcase
      · exact .inl ⟨hap, j, .inl hj, ha⟩
      · refine .inr ⟨hnr, ?_⟩
        rintro j (hj | rfl)
        · exact hall j hj
        · exact hna
    · exact ⟨r', hr', fun _ => hap, .inl ⟨hap, k, .inr rfl, ha⟩⟩
  have hlater : Later sid s.store s'.store := by
    refine ⟨hs' ▸ hrev.artifacts, fun r₁ hr₁ => ?_⟩
    obtain rfl := Option.some.inj (hr.symm.trans hr₁)
    obtain ⟨r', hr', hmono, hor⟩ := hsession
    refine ⟨r', hr', ?_, hmono⟩
    rcases hor with ⟨hap, -⟩ | ⟨hnr, -⟩
    · simp [hap]
    · simp [hnr]
  refine ⟨fun x' hx' => ?_, fun i => ?_, ?_, fun j => ?_⟩
  · obtain ⟨x, hx, hxi, hxs, -⟩ := hlater.artifacts x' hx'
    obtain ⟨x₀, hx₀, hi₀, hs₀⟩ := h.owner x hx
    exact ⟨x₀, hx₀, hi₀.trans hxi, hs₀.trans hxs⟩
  · rw [hs', show (c.view s.store).Unapproved sid i ↔ _ from hrev.unapproved i, h.unapproved i]
    rw [and_assoc]
    refine and_congr_right fun _ => ⟨?_, fun hall => ⟨fun j hj => hall j ((hcom j).mpr (.inl hj)), ?_⟩⟩
    · rintro ⟨hall, hne⟩ j hj
      rcases (hcom j).mp hj with hj | rfl
      · exact hall j hj
      · exact fun he => hne (Option.some.inj (he.symm.trans hi))
    · rintro rfl
      exact hall k ((hcom k).mpr (.inr rfl)) hi
  · obtain ⟨r', hr', -, hor⟩ := hsession
    exact ⟨r', hr', hor⟩
  · by_cases hj : j = k
    · subst hj
      rw [hp', Function.update_self]
      exact .committed
    · rw [hp', Function.update_of_ne hj, turns_other hj, askedLast_other hj]
      exact (h.stage j).later hlater

theorem Ongoing.step [Fintype K] (hreq : ∀ k, ∃ x ∈ db₀.artifacts, (reqs k).artifact = some x.id ∧
      x.sessionId = sid) (h : Ongoing db₀ sid reqs tr s) (hs : s.step k = some s') :
    Ongoing db₀ sid reqs (tr ++ [⟨s, k, s'⟩]) s' := by
  have hst := h.stage k
  cases Shared.moved_of_step hs with
  | advanced hc _ hadv =>
    rw [hc] at hst
    refine h.move ?_ ?_ (hst.advance hadv h.inReview (fun a ha hi => ?_) h.asks_iff)
    · rw [hc]
      rintro ⟨⟩
    · rintro ⟨⟩
    · obtain ⟨x, hx, hxi, hxs⟩ := hreq k
      obtain ⟨x₀, hx₀, hi₀, hs₀⟩ := h.owner a ha
      obtain rfl := Table.eq_of_key_eq hx hx₀
        ((Option.some.inj (hxi.symm.trans hi)).trans hi₀.symm)
      exact hs₀.symm.trans hxs
  | committed hc hd => exact h.commit hc hd rfl rfl
  | aborted hc =>
    refine h.move ?_ ?_ .aborted
    · rw [hc]
      rintro ⟨⟩
    · rintro ⟨⟩

theorem ongoing_start {x : Session} (hx : x ∈ db₀.sessions) (hst : x.status = needsReview) :
    Ongoing db₀ x.id reqs [] (Shared.start db₀ fun k => (reqs k).script) where
  owner x hx := ⟨x, hx, rfl, rfl⟩
  unapproved i := by
    refine (and_iff_left ?_).symm
    rintro j ⟨⟩
  session := ⟨x, Db.session?_eq_some.mpr ⟨hx, rfl⟩, .inr ⟨hst, by rintro k ⟨⟩⟩⟩
  stage k := .user rfl not_sometime_nil

end Step

/-- Approvals of all artifacts of a session in review that all commit leave no artifact unapproved,
and they approve the session exactly when one of them has asked last. Run alone, the script of an
approval leaves what its endpoint leaves (`Approval.serve_script`). -/
theorem approved_iff_asked [Fintype K] {db₀ : Db} {x : Session} {reqs : K → Approval}
    {tr : List (Transition (Shared K Db Lock Exn) K)} {s : Shared K Db Lock Exn}
    (hx : x ∈ db₀.sessions) (hst : x.status = needsReview)
    (hreq : ∀ k, ∃ a ∈ db₀.artifacts, (reqs k).artifact = some a.id ∧ a.sessionId = x.id)
    (hcover : ∀ a ∈ db₀.artifacts, a.sessionId = x.id → a.status ≠ .approved →
      ∃ k, (reqs k).artifact = some a.id)
    (hr : Run Shared.step (Shared.start db₀ fun k => (reqs k).script) tr s)
    (hall : ∀ k, s.parties k = .committed) :
    (∀ i, ¬ s.store.Unapproved x.id i) ∧
      ((∃ r ∈ s.store.sessions, r.id = x.id ∧ r.status = approved) ↔
        Sometime (AsksLast db₀ x.id reqs) tr) := by
  have key : Ongoing db₀ x.id reqs tr s := by
    have hm : Meets (fun _ _ => True) tr := fun _ _ => trivial
    exact hr.invariant_of_meets (I := Ongoing db₀ x.id reqs) hm (ongoing_start hx hst)
      fun _ _ _ _ _ h _ hs => h.step hreq hs
  constructor
  · intro i hi
    obtain ⟨⟨a, ha, rfl, hs, hn⟩, hnone⟩ := (key.unapproved i).mp hi
    obtain ⟨k, hk⟩ := hcover a ha hs hn
    exact hnone k (hall k) hk
  · obtain ⟨r, hr, hcase⟩ := key.session
    obtain ⟨hm, hi⟩ := Db.session?_eq_some.mp hr
    constructor
    · rintro ⟨r', hm', hi', hap⟩
      obtain rfl := Table.eq_of_key_eq hm hm' (hi.trans hi'.symm)
      obtain ⟨-, k, -, j, hj, -, hask⟩ | ⟨hn, -⟩ := hcase
      · exact ⟨j, hj, hask⟩
      · rw [hap] at hn
        cases hn
    · rintro ⟨j, hj, hask⟩
      obtain ⟨hap, -⟩ | ⟨-, hnone⟩ := hcase
      · exact ⟨r, hm, hi, hap⟩
      · exact absurd ⟨j, hj, rfl, hask⟩ (hnone _ (hall _))

end Interleaving

/-- Session 5 with the rejected artifact 32 and the draft 42. -/
def twoArtifacts : List Action :=
  open Replay in pipeline ++ [review .reject 32 40] ++ cycle 40 42

/-- Owner 2 approves both. -/
def bothApprovals (b : Bool) : Approval :=
  open Replay in ⟨uuid 2, ⟨uuid 60, uuid 61⟩, some (uuid (if b then 42 else 32)), ""⟩

/-- The approvals meet their conditions in this state. -/
def Approvable (w : World) (x : Session) : Prop :=
  x.status = needsReview ∧
    (∀ b, ∃ a ∈ w.db.artifacts, (bothApprovals b).artifact = some a.id ∧ a.sessionId = x.id) ∧
    ∀ a ∈ w.db.artifacts, a.sessionId = x.id → a.status ≠ .approved →
      ∃ b, (bothApprovals b).artifact = some a.id

instance (w : World) (x : Session) : Decidable (Approvable w x) :=
  inferInstanceAs (Decidable (_ ∧ _ ∧ _))

/-- The schedule commits both and leaves the session in the status. -/
def LeadsTo (schedule : List Bool) (status : SessionStatus) (w : World) (x : Session) : Bool :=
  (execute Shared.step (Shared.start w.db fun b => (bothApprovals b).script) schedule).any fun p =>
    (p.2.parties true).isCommitted && (p.2.parties false).isCommitted &&
      decide (∃ r ∈ p.2.store.sessions, r.id = x.id ∧ r.status = status)

theorem exists_approvals {schedule : List Bool} {status : SessionStatus}
    (h : (execute World.step (World.init 0) twoArtifacts).any (fun p => decide
      (∃ x ∈ p.2.db.sessions, Approvable p.2 x ∧ LeadsTo schedule status p.2 x = true)) = true) :
    ∃ tr w, SystemRun 0 tr w ∧ ∃ x ∈ w.db.sessions, Approvable w x ∧ ∃ tr' s,
      Run Shared.step (Shared.start w.db fun b => (bothApprovals b).script) tr' s ∧
      (∀ b, s.parties b = .committed) ∧ ∃ r ∈ s.store.sessions, r.id = x.id ∧ r.status = status := by
  obtain ⟨tr, w, hr, hp⟩ := exists_run (fun (_ : List (Transition World Action)) w => decide
    (∃ x ∈ w.db.sessions, Approvable w x ∧ LeadsTo schedule status w x = true)) h
  obtain ⟨x, hx, ha, hc⟩ := of_decide_eq_true hp
  obtain ⟨tr', s, hr', hs⟩ := exists_run
    (fun (_ : List (Transition (Shared Bool Db Lock Exn) Bool)) s =>
      (s.parties true).isCommitted && (s.parties false).isCommitted &&
        decide (∃ r ∈ s.store.sessions, r.id = x.id ∧ r.status = status)) hc
  simp only [Bool.and_eq_true, Party.isCommitted_iff, decide_eq_true_eq] at hs
  refine ⟨tr, w, hr, x, hx, ha, tr', s, hr', fun b => ?_, hs.2⟩
  cases b with
  | true => exact hs.1.1
  | false => exact hs.1.2

/-- One approval after the other: the second one asks last. -/
theorem approved_serially : ∃ tr w, SystemRun 0 tr w ∧ ∃ x ∈ w.db.sessions, x.status = needsReview ∧
    ∃ tr' s, Run Shared.step (Shared.start w.db fun b => (bothApprovals b).script) tr' s ∧
      (∀ b, s.parties b = .committed) ∧ (∃ r ∈ s.store.sessions, r.id = x.id ∧ r.status = approved) ∧
      (∀ i, ¬ s.store.Unapproved x.id i) ∧ Sometime (AsksLast w.db x.id bothApprovals) tr' := by
  obtain ⟨tr, w, hr, x, hx, ⟨hst, hreq, hcover⟩, tr', s, hr', hall, hap⟩ := exists_approvals
    (show (execute World.step (World.init 0) twoArtifacts).any (fun p => decide (∃ x ∈ p.2.db.sessions,
      Approvable p.2 x ∧ LeadsTo (List.replicate 7 false ++ List.replicate 14 true) approved p.2 x =
        true)) = true by decide +kernel)
  have h := approved_iff_asked hx hst hreq hcover hr' hall
  exact ⟨tr, w, hr, x, hx, hst, tr', s, hr', hall, hap, h.1, h.2.mp hap⟩

/-- Both ask before either commits, and the session stays in review. -/
theorem not_approved_together : ¬ ∀ (K : Type) [DecidableEq K] [Fintype K] (db₀ : Db) (x : Session)
    (reqs : K → Approval) tr s, x ∈ db₀.sessions → x.status = needsReview →
      (∀ k, ∃ a ∈ db₀.artifacts, (reqs k).artifact = some a.id ∧ a.sessionId = x.id) →
      (∀ a ∈ db₀.artifacts, a.sessionId = x.id → a.status ≠ .approved →
        ∃ k, (reqs k).artifact = some a.id) →
      Run Shared.step (Shared.start db₀ fun k => (reqs k).script) tr s →
      (∀ k, s.parties k = .committed) → ∃ r ∈ s.store.sessions, r.id = x.id ∧ r.status = approved := by
  intro hclaim
  obtain ⟨tr, w, hr, x, hx, ⟨hst, hreq, hcover⟩, tr', s, hr', hall, r, hm, hi, hn⟩ := exists_approvals
    (show (execute World.step (World.init 0) twoArtifacts).any (fun p => decide (∃ x ∈ p.2.db.sessions,
      Approvable p.2 x ∧ LeadsTo (List.replicate 4 false ++ List.replicate 4 true ++
        [false, true, false, true, false, true]) needsReview p.2 x = true)) = true by decide +kernel)
  obtain ⟨r', hm', hi', hap⟩ := hclaim Bool w.db x bothApprovals tr' s hx hst hreq hcover hr' hall
  obtain rfl := Table.eq_of_key_eq hm hm' (hi.trans hi'.symm)
  rw [hn] at hap
  cases hap

end AiBadge
