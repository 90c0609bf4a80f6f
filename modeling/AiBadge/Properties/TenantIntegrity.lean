import AiBadge.Properties.Erasure
import AiBadge.System.Acceptance
import AiBadge.System.TwinDeletion

/-! # Tenant integrity

The session endpoints look sessions up by their owner, the artifact endpoints look
artifacts up by their id alone. What belongs to a session is out of reach for other users
exactly as long as they leave its artifacts alone, and no worker commits what it has left
flushed on the session with a job that only their requests brought, or comes to a deletion job
of the session in a poll cycle that would be over without them.
-/

namespace AiBadge

open Lib Prog DbM SessionStatus

namespace World

/-- The request names an artifact of the session and takes effect there: an edit that fits and
changes a value; an approval that changes the review columns, or the session when it is the last
one; a rejection or a publication whose job can be inserted. The last three need a comment that
fits, and an artifact that the response can show. -/
def Alters (w : World) (sid : Uuid) : Request → Prop
  | .updateArtifact _ artifact body => ∃ x ∈ w.db.artifacts, artifact = some x.id ∧ x.sessionId = sid ∧
      body.Fits x ∧ body.apply x ≠ x
  | .reviewArtifact _ ids artifact ⟨.reject, comment⟩ => ∃ x ∈ w.db.artifacts, artifact = some x.id ∧
      x.sessionId = sid ∧ fitsText comment = true ∧ x.content.isObj = true ∧
      w.db.KeyFree (retryJob ids w.now x comment)
  | .reviewArtifact _ _ artifact ⟨.approve, comment⟩ => ∃ x ∈ w.db.artifacts, artifact = some x.id ∧
      x.sessionId = sid ∧ fitsText comment = true ∧ x.content.isObj = true ∧
      (¬ w.LastToApprove x ∧ x.withReview .approved comment ≠ x ∨
        w.LastToApprove x ∧ ∃ s ∈ w.db.sessions, s.id = sid ∧
          s.status ∈ [needsReview, reviewing, approved] ∧
          (s.status ≠ approved ∨ x.withReview .approved comment ≠ x))
  | .publishArtifact _ uuid4 artifact => ∃ x ∈ w.db.artifacts, artifact = some x.id ∧
      x.sessionId = sid ∧ x.status = .approved ∧ x.content.isObj = true ∧ w.db.KeyFree (publishJob uuid4 w.now x) ∧
      ∃ s ∈ w.db.sessions, s.id = sid ∧ (canTransition s.status publishing).1 = true
  | _ => False

end World

/-- No request of the step takes effect on the session, and the step of a worker is contained. -/
def Twin.Leaves (sid : Uuid) (p : Twin) (a : Action) : Prop :=
  p.Contained sid a ∧ ∀ r, a = .request r → ¬ p.world.Alters sid r

section Alters

variable {c : Scope} {w : World} {v : User} {sid : Uuid} {r : Request} {db : Db}

/-- A request of a known user that names an artifact of the session as described is accepted. -/
theorem accepts_of_alters (hv : v ∈ w.db.users) (hu : r.user? = some v.id) (h : w.Alters sid r) :
    w.Accepts r := by
  cases r with
  | updateArtifact user artifact body =>
    obtain rfl := Option.some.inj hu
    obtain ⟨x, hx, rfl, -, hf, -⟩ := h
    exact accepts_updateArtifact hv hx hf
  | reviewArtifact user ids artifact body =>
    obtain rfl := Option.some.inj hu
    obtain ⟨action, comment⟩ := body
    cases action with
    | approve =>
      obtain ⟨x, hx, rfl, rfl, hc, ho, ⟨hl, -⟩ | ⟨-, s, hs, hi, hst, -⟩⟩ := h
      · exact accepts_approve hv hx hc ho (.inl hl)
      · exact accepts_approve hv hx hc ho (.inr ⟨s, hs, hi, hst⟩)
    | reject =>
      obtain ⟨x, hx, rfl, -, hc, ho, hf⟩ := h
      exact accepts_reject hv hx hc ho hf
  | publishArtifact user uuid4 artifact =>
    obtain rfl := Option.some.inj hu
    obtain ⟨x, hx, rfl, rfl, hp, ho, hf, s, hs, hi, hc⟩ := h
    exact accepts_publish hv hx hp ho hf hs hi hc
  | _ => exact h.elim

/-- An update of one artifact that leaves the part as it was leaves that artifact as it was. -/
theorem artifact_of_alike {x : Artifact} {f : Artifact → Artifact} (hf : ∀ x, (f x).id = x.id)
    (hx : x ∈ w.db.artifacts) (hs : x.sessionId = c.sessionId)
    (ha : db.artifacts = w.db.artifacts.update (fun y => y.id = x.id) f hf)
    (h : w.db.Alike c db) : f x = x := by
  have hm := (h.mem_artifact hs).mp hx
  rw [ha] at hm
  exact (Table.eq_of_mem_update hx hm rfl).symm

/-- A request that alters the session changes its part. -/
theorem not_alike_of_alters (ha : w.Alters c.sessionId r) (h : RequestEffect w r db) :
    ¬ w.db.Alike c db := by
  intro hp
  cases r with
  | updateArtifact user artifact body =>
    obtain ⟨x, hx, rfl, hs, -, hne⟩ := ha
    generalize hid : some x.id = aid at h
    cases h with
    | updateArtifact hy =>
      obtain rfl := Table.eq_of_key_eq hx hy (Option.some.inj hid)
      exact hne (artifact_of_alike (by intro; rfl) hx hs rfl hp)
  | reviewArtifact user ids artifact body =>
    obtain ⟨action, comment⟩ := body
    cases action with
    | approve =>
      obtain ⟨x, hx, rfl, hs, -, -, hor⟩ := ha
      generalize hid : some x.id = aid at h
      cases h with
      | approve hy hex =>
        obtain rfl := Table.eq_of_key_eq hx hy (Option.some.inj hid)
        obtain ⟨b, hb, hbs, hbi, hbn⟩ := hex
        obtain ⟨-, hne⟩ | ⟨hl, -⟩ := hor
        · exact hne (artifact_of_alike (by intro; rfl) hx hs rfl hp)
        · exact hbn (hl b hb hbs hbi)
      | approveAll hy hsm hsi hst hall =>
        obtain rfl := Table.eq_of_key_eq hx hy (Option.some.inj hid)
        obtain ⟨hl, -⟩ | ⟨-, s', hs', hi', -, hne⟩ := hor
        · exact hl hall
        · obtain rfl := Table.eq_of_key_eq hs' hsm (hi'.trans (hsi.trans hs).symm)
          rcases hne with hne | hne
          · have hm := (hp.mem_session hi').mp hs'
            rw [advanceSession_sessions] at hm
            have he := Table.eq_of_mem_update hs' hm rfl
            exact hne (congrArg Session.status he)
          · exact hne (artifact_of_alike (by intro; rfl) hx hs
              (by rw [advanceSession_artifacts]; rfl) hp)
    | reject =>
      obtain ⟨x, hx, rfl, hs, -, -, hf⟩ := ha
      generalize hid : some x.id = aid at h
      cases h with
      | reject hy =>
        obtain rfl := Table.eq_of_key_eq hx hy (Option.some.inj hid)
        have hm := (hp.mem_job (j := retryJob ids w.now x comment) (congrArg some hs)).mpr
          ((Table.mem_insert_of_not_mem fun r hr => (hf r hr).1).mpr (.inr rfl))
        exact (hf _ hm).1 rfl
  | publishArtifact user uuid4 artifact =>
    obtain ⟨x, hx, rfl, hs, -, -, hf, -⟩ := ha
    generalize hid : some x.id = aid at h
    cases h with
    | publishArtifact hy =>
      obtain rfl := Table.eq_of_key_eq hx hy (Option.some.inj hid)
      have hm := (hp.mem_job (j := publishJob uuid4 w.now x) (congrArg some hs)).mpr
        ((Table.mem_insert_of_not_mem fun r hr => (hf r hr).1).mpr (.inr rfl))
      exact (hf _ hm).1 rfl
  | _ => exact ha

variable {s : Session}

/-- A request of a user who does not own the session leaves its part alone, unless it alters it. -/
theorem alike_of_request (hs : s ∈ w.db.sessions) (hi : s.id = c.sessionId) (hv : s.userId ≠ v.id)
    (hu : r.user? = some v.id) (hacc : w.Accepts r) (hn : ¬ w.Alters c.sessionId r)
    (h : RequestEffect w r db) : w.db.Alike c db := by
  -- the session endpoints only reach rows of the user
  have other {s' : Session} (hs' : s' ∈ w.db.sessions) (hu' : s'.userId = v.id) :
      s'.id ≠ c.sessionId := by
    intro hi'
    obtain rfl := Table.eq_of_key_eq hs hs' (hi.trans hi'.symm)
    exact hv hu'
  have row {s' : Session} {f : Session → Session} {hf : ∀ s, (f s).id = s.id}
      (hne : s'.id ≠ c.sessionId) : w.db.Alike c (w.db.setSession s'.id f hf) :=
    alike_setSession fun _ _ _ he => absurd he hne
  have artifact {x : Artifact} {f : Artifact → Artifact} {hf : ∀ x, (f x).id = x.id}
      (hx : x ∈ w.db.artifacts) (hfs : ∀ x, (f x).sessionId = x.sessionId)
      (hk : x.sessionId = c.sessionId → f x = x) : w.db.Alike c (w.db.setArtifact x.id f hf) := by
    refine (alike_setArtifact hfs).mpr fun y hy hyc hyi => ?_
    obtain rfl := Table.eq_of_key_eq hy hx hyi
    exact hk hyc
  cases h with
  | register => cases hu
  | createSession hf =>
    refine ⟨?_, rfl, rfl, rfl⟩
    rw [← hi, Db.session?_eq_some.mpr ⟨hs, rfl⟩, Db.session?_eq_some]
    exact ⟨Table.mem_insert_of_mem hs, rfl⟩
  | updateConsent hs' hu' =>
    exact (row (other hs' (hu'.trans (Option.some.inj hu)))).trans alike_addAudit
  | updateStatus hs' hu' => exact row (other hs' (hu'.trans (Option.some.inj hu)))
  | startProcessing hs' hu' =>
    have hne := other hs' (hu'.trans (Option.some.inj hu))
    exact (row hne).trans (alike_addPipeline hne)
  | uploadAudio hs' hu' => exact row (other hs' (hu'.trans (Option.some.inj hu)))
  | cancelSession hs' hu' => exact row (other hs' (hu'.trans (Option.some.inj hu)))
  | retractSession hs' hu' =>
    have hne := other hs' (hu'.trans (Option.some.inj hu))
    exact ((row hne).trans (alike_addSaga hne)).trans alike_addAudit
  | updateArtifact hx =>
    refine artifact hx (by intro; rfl) fun hxs => ?_
    by_contra hne
    exact hn ⟨_, hx, rfl, hxs, fits_of_accepts hx hacc, hne⟩
  | approve hx hex =>
    obtain ⟨hcm, ho⟩ := answers_of_review hx hacc
    refine (artifact hx (by intro; rfl) fun hxs => ?_).trans alike_addEvent
    by_contra hne
    obtain ⟨b, hb, hbs, hbi, hbn⟩ := hex
    exact hn ⟨_, hx, rfl, hxs, hcm, ho, .inl ⟨fun hl => hbn (hl b hb hbs hbi), hne⟩⟩
  | approveAll hx hs' hi' hst hall =>
    obtain ⟨hcm, ho⟩ := answers_of_review hx hacc
    refine ((artifact hx (by intro; rfl) fun hxs => ?_).trans alike_addEvent).trans
      (alike_advanceSession fun r hr hri hic => ?_)
    · by_contra hne
      exact hn ⟨_, hx, rfl, hxs, hcm, ho, .inr ⟨hall, _, hs', hi'.trans hxs, hst, .inr hne⟩⟩
    · obtain rfl := Table.eq_of_key_eq hr hs' hri
      by_contra hne
      have hst' : r.status ≠ approved := by
        intro he
        apply hne
        rw [← he]
        rfl
      exact hn ⟨_, hx, rfl, hi'.symm.trans hic, hcm, ho, .inr ⟨hall, r, hr, hic, hst, .inl hst'⟩⟩
  | reject hx hf =>
    obtain ⟨hcm, ho⟩ := answers_of_review hx hacc
    have hne : ¬ _ = c.sessionId := fun hxs => hn ⟨_, hx, rfl, hxs, hcm, ho, hf⟩
    exact ((artifact hx (by intro; rfl) fun hxs => absurd hxs hne).trans alike_addEvent).trans
      (alike_addJob fun he => hne (Option.some.inj he))
  | publishArtifact hx hp hs' hi' hct hf =>
    have ho := content_of_publish hx hacc
    have hne : ¬ _ = c.sessionId :=
      fun hxs => hn ⟨_, hx, rfl, hxs, hp, ho, hf, _, hs', hi'.trans hxs, hct⟩
    refine ((alike_addJob fun he => hne (Option.some.inj he)).trans
      (alike_setSession fun _ _ _ he => ?_)).trans alike_addEvent
    exact absurd (hi'.symm.trans he) hne

end Alters

namespace World

section Requests

variable {c : Scope} {w w₀ w₁ w₁' : World} {v : User} {r : Request}

theorem serve_now (r : Request) : (w.serve r).now = w.now := by
  unfold serve
  split <;> rfl

theorem serve_workers (r : Request) : (w.serve r).workers = w.workers := by
  unfold serve
  split <;> rfl

/-- The files of the session in scope are out of reach for an upload. -/
theorem files_of_request {key : AudioKey} (hf : w.Fresh (.request r)) (hk : key.uuid ∈ w.issued) :
    key ∈ w.files ↔ key ∈ (w.serve r).files := by
  rcases serve_files w r with ⟨s, key', hs, he⟩ | ⟨-, he⟩
  · rw [he, List.mem_cons]
    have hne : key ≠ key' := by
      rintro rfl
      exact (saved?_fresh hf (saved?_request.mpr ⟨s, hs, rfl⟩)).1 hk
    simp [hne]
  · rw [he]

/-- A request of the user keeps both sides alike exactly when it does not alter the session. -/
theorem Beside.request (hb : Beside c v w₀ w₁) (hu : r.user? = some v.id)
    (h : w₁.step (.request r) = some w₁') :
    (¬ w₁.Alters c.sessionId r → World.Alike c w₀ w₁') ∧
      (w₀.db.Alike c w₁'.db → ¬ w₁.Alters c.sessionId r) := by
  obtain ⟨hf, u, hact, he⟩ := step_eq_some.mp h
  obtain rfl : w₁.serve r = u := Option.some.inj hact
  have hdb : w₁'.db = (w₁.serve r).db := by rw [he]
  constructor
  · intro hn
    have hkept : w₁.db.Alike c w₁'.db := by
      rw [hdb]
      by_cases hacc : w₁.Accepts r
      · obtain ⟨s, hs, hi, hsv⟩ := hb.ready₁.owner
        exact alike_of_request hs hi hsv hu hacc hn (serve_of_accepts hacc)
      · rw [serve_of_not_accepts hacc]
        exact .refl _
    refine ⟨?_, hb.alike.db.trans hkept, fun key hk => ?_, fun k => ?_⟩
    · rw [he]
      exact (serve_now r).trans hb.alike.now
    · rw [he]
      exact (hb.alike.files key hk).trans (files_of_request hf (hb.ready₁.issued key hk))
    · refine (hb.alike.workers k).run hb.ready₀.sound hb.ready₁.sound .init h rfl ?_
      rw [he]
      exact congrFun (serve_workers r) k
  · intro hdb' halt
    have hacc := accepts_of_alters hb.ready₁.user hu halt
    refine not_alike_of_alters halt (serve_of_accepts hacc) ?_
    rw [← hdb]
    exact hb.alike.db.symm.trans hdb'

end Requests

section Sides

variable {c : Scope} {v : User} {p p' : Twin} {a : Action}

/-- A step leaves the session the same on both sides exactly as described. -/
theorem Beside.step (hb : Beside c v p.base p.world) (hall : a.IsOf v.id)
    (h : p.step a = some p') :
    (p'.Same c ↔ p.Leaves c.sessionId a) ∧ (p'.Same c → Beside c v p'.base p'.world) := by
  obtain ⟨w, hw, rfl⟩ := Option.map_eq_some_iff.mp h
  suffices key : (p.Leaves c.sessionId a → World.Alike c (p.base.follow a) w) ∧
      ((p.base.follow a).db.Alike c w.db →
        (∀ key, c.keys key → (key ∈ (p.base.follow a).files ↔ key ∈ w.files)) →
          p.Leaves c.sessionId a) by
    have hof (hs : Twin.Same c ⟨p.base.follow a, w⟩) : p.Leaves c.sessionId a :=
      key.2 (Db.Alike.iff_part.mpr hs.part) hs.files
    refine ⟨⟨hof, fun hl => ?_⟩, fun hs => ⟨key.1 (hof hs), hb.ready₀.follow a, ?_, fun u hu => ?_⟩⟩
    · exact ⟨Db.Alike.iff_part.mp (key.1 hl).db, (key.1 hl).files⟩
    · refine hb.ready₁.step hw ?_
      rintro r rfl
      exact hall
    · rw [issued_of_step hw]
      rcases List.mem_append.mp (follow_issued a u hu) with hu | hu
      · exact List.mem_append_left _ (hb.issued u hu)
      · exact List.mem_append_right _ hu
  by_cases hn : ∀ r, a ≠ .request r
  · obtain ⟨hto, hof⟩ := hb.contained hn hw
    exact ⟨fun hl => hto hl.1, fun hdb hf => ⟨hof hdb hf, fun r hr => absurd hr (hn r)⟩⟩
  · obtain ⟨r, rfl⟩ : ∃ r, a = .request r := by
      push Not at hn
      exact hn
    obtain ⟨hto, hof⟩ := hb.request hall hw
    refine ⟨fun hl => hto (hl.2 r rfl), fun hdb _ => ⟨trivial, ?_⟩⟩
    rintro _ ⟨⟩
    exact hof hdb

/-- One side takes the steps, the other takes none of the requests. -/
theorem runs_of_twin {w : World} {tr : List (Transition Twin Action)}
    (hr : Run Twin.step ⟨w, w⟩ tr p) :
    (∃ tr₁, Run World.step w tr₁ p.world ∧ tr₁.map Transition.act = tr.map Transition.act) ∧
      ∃ tr₀, Run World.step w tr₀ p.base ∧ ∀ t ∈ tr₀, ∀ r, t.act ≠ .request r := by
  induction hr with
  | init =>
    exact ⟨⟨[], .init, rfl⟩, [], .init, fun _ ht => (List.not_mem_nil ht).elim⟩
  | @snoc tr p p' a hr h ih =>
    obtain ⟨⟨tr₁, hr₁, hmap⟩, tr₀, hr₀, hn⟩ := ih
    obtain ⟨w', hw, rfl⟩ := Option.map_eq_some_iff.mp h
    obtain ⟨tr', hr', hacc⟩ := follow_run p.base a
    refine ⟨⟨_, .snoc hr₁ hw, by simp [hmap]⟩, tr₀ ++ tr', hr₀.append hr', fun t ht => ?_⟩
    rcases List.mem_append.mp ht with ht | ht
    · exact hn t ht
    · exact (hacc t ht).request

/-- A session, and the files that were saved for it. -/
def scope (tr : List (Transition World Action)) (sid : Uuid) : Scope where
  sessionId := sid
  keys key := key ∈ savedKeys tr sid

theorem ready_of_run {now : Timestamp} {tr : List (Transition World Action)} {w : World}
    {s : Session} (hr : SystemRun now tr w) (hs : s ∈ w.db.sessions) (hne : s.userId ≠ v.id)
    (hv : v ∈ w.db.users) : Ready (scope tr s.id) v w := by
  have ht := traced_of_run hr
  refine ⟨sound_of_run hr, (claimed_of_run hr).2, ht.issued s.id, ?_, ?_, ⟨s, hs, rfl, hne⟩, hv⟩
  · intro r hrm hid key hk hc
    exact hid (ht.unique _ _ key (ht.recording r hrm key hk) hc)
  · intro d hd key hk
    obtain ⟨sid, hds, hsaved, -⟩ := ht.targeted d hd key hk
    rw [hds]
    constructor
    · exact fun hc => congrArg some (ht.unique _ _ key hsaved hc)
    · intro he
      obtain rfl := Option.some.inj he
      exact hsaved

end Sides

end World

open World

/-- Session 5 with the artifact 32, and a user 102 of another organization. -/
def visited : List Action :=
  open Replay in
  pipeline ++ [.request (.register env ⟨uuid 101, uuid 102, uuid 103, uuid 104⟩
    ⟨"c@d", "pw", "C", "P"⟩)]

/-- The visitor edits the artifact of session 5. -/
def trespass : Request :=
  open Replay in .updateArtifact (uuid 102) (some (uuid 32)) { title := some "x" }

/-- The visitor opens a session, and a worker polls. -/
def visit : List Action :=
  open Replay in
  [.request (.createSession (uuid 102) (uuid 105) ⟨none, none⟩), .beginCycle 0, .claimNone 0 [],
    .endCycle 0]

/-- Owner, visitor and session are there. -/
def Visited (w : World) : Prop :=
  ∃ s ∈ w.db.sessions, s.id = Replay.uuid 5 ∧ ∃ u ∈ w.db.users, u.id = s.userId ∧
    ∃ v ∈ w.db.users, v.id = Replay.uuid 102 ∧ u.orgId ≠ v.orgId

instance (w : World) : Decidable (Visited w) := inferInstanceAs (Decidable (∃ s ∈ w.db.sessions, _))

/-- A replay from the visited state, on both sides. -/
theorem exists_twin {acts : List Action} (P : List (Transition Twin Action) → Bool)
    (h : (execute World.step (World.init 0) visited).any (fun q => decide (Visited q.2) &&
      (execute Twin.step ⟨q.2, q.2⟩ acts).any fun t => P t.1) = true) :
    ∃ tr₀ tr w p, SystemRun 0 tr₀ w ∧ Visited w ∧ Run Twin.step ⟨w, w⟩ tr p ∧
      (∀ t ∈ tr, t.act ∈ acts) ∧ P tr = true := by
  obtain ⟨tr₀, w, hr₀, hp⟩ := exists_run (fun (_ : List (Transition World Action)) w =>
    decide (Visited w) && (execute Twin.step ⟨w, w⟩ acts).any fun t => P t.1) h
  obtain ⟨hv, ht⟩ := Bool.and_eq_true_iff.mp hp
  cases he : execute Twin.step ⟨w, w⟩ acts with
  | none =>
    rw [he] at ht
    cases ht
  | some q =>
    rw [he] at ht
    exact ⟨tr₀, q.1, w, q.2, hr₀, of_decide_eq_true hv, run_of_execute he, act_mem_of_execute he, ht⟩

end AiBadge
