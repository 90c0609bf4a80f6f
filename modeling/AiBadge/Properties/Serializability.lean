import AiBadge.Concurrency.Change

/-! # Concurrent requests on a session

Two requests on a session, interleaved statement by statement. They end as one after
the other would, unless both retract the session, one grants the consent that the other
revokes, or both move the session out of a status in which it is still captured.
-/

namespace AiBadge

open Lib Prog SessionStatus

/-- The same rows, in whatever order. -/
def Lib.Table.Same {κ ρ : Type} {key : ρ → κ} (t u : Table key) : Prop := ∀ r, r ∈ t ↔ r ∈ u

/-- The same database: the tables hold the same rows, and the logs the same entries in the order in
which they were committed. -/
structure Db.Same (db db' : Db) : Prop where
  organizations : db.organizations.Same db'.organizations
  users : db.users.Same db'.users
  devices : db.devices.Same db'.devices
  sessions : db.sessions.Same db'.sessions
  jobs : db.jobs.Same db'.jobs
  workflowEvents : db.workflowEvents = db'.workflowEvents
  artifacts : db.artifacts.Same db'.artifacts
  auditLogs : db.auditLogs = db'.auditLogs
  deletionJobs : db.deletionJobs.Same db'.deletionJobs

theorem Db.Same.refl (db : Db) : db.Same db := by
  constructor <;> first | exact fun _ => Iff.rfl | rfl

/-- The deletion jobs that the request draws ids for. -/
def SessionRequest.drawn (r : SessionRequest) : List Uuid :=
  match r.call with
  | .retract ids => [ids.artifactRows, ids.localAudio, ids.feishuDocs]
  | _ => []

/-- The changes of two requests do not commute: both retract, one grants what the other revokes, or
they move the session from a status in which it is captured to two others. -/
def Clash (status : SessionStatus) (c d : Change) : Prop :=
  (c = .retract ∧ d = .retract) ∨ (∃ g, c = .grant g ∧ d = .grant !g) ∨
    status ∈ [idle, capturing, paused] ∧ c ≠ d ∧
      (∃ t, c = .move t ∧ t ≠ status) ∧ ∃ t, d = .move t ∧ t ≠ status

/-- Each request would be accepted alone, and their changes of the row clash. -/
def Conflict (reqs : Bool → SessionRequest) (db : Db) : Prop :=
  ∃ s c d, (reqs true).Ready db s c ∧ (reqs false).Ready db s d ∧ Clash s.status c d ∧
    ∀ id ∈ (reqs true).drawn, id ∉ (reqs false).drawn

/-- The requests one after the other, `b` first. -/
def serial (reqs : Bool → SessionRequest) (b : Bool) (db : Db) : Db :=
  (reqs !b).serve ((reqs b).serve db)

/-- However the statements of the two requests interleave, they end as in one of the two orders. -/
def Serializable (reqs : Bool → SessionRequest) (db : Db) : Prop :=
  ∀ tr sh, Run Shared.step (Shared.start db fun b => (reqs b).script) tr sh →
    (∀ b, (sh.parties b).Finished) → ∃ b, sh.store.Same (serial reqs b db)

namespace SessionRequest

section Pair

variable {r o : SessionRequest} {db : Db} {s : Session} {c d : Change}

/-- The change of the second request, on top of the first one's. -/
theorem late_of_fits (hr : r.Ready db s c) (ho : o.Ready db s d) (hf : o.Fits s (r.serve db)) :
    o.late s (r.serve db) =
      o.add s ((r.serve db).setSession s.id (s.save (o.set d s))) := by
  have hl := hr.loads_serve ho.loads
  exact late_of_allowed (by simpa using hl.belongs) ho.change ho.allowed hf

/-- The second request adds rows that are there already. -/
theorem late_of_not_fits (hr : r.Ready db s c) (ho : o.Ready db s d)
    (hf : ¬ o.Fits s (r.serve db)) : o.late s (r.serve db) = o.serve (r.serve db) := by
  have hl := hr.loads_serve ho.loads
  rw [serve_of_loads hl, ← late, late_of_refused (by simpa using hl.belongs) fun _ _ _ => hf,
    late_of_refused hl.belongs fun _ _ _ hn => hf (fits_set.mp hn)]

/-- The second request would do the same to the row it has not seen. -/
theorem late_of_allowed_after (hr : r.Ready db s c) (ho : o.Ready db s d)
    (hf : o.Fits s (r.serve db)) (ha : d.Allowed (r.set c s))
    (hrow : s.save (o.set d s) (r.set c s) = o.set d (r.set c s)) :
    o.late s (r.serve db) = o.serve (r.serve db) := by
  have hl := hr.loads_serve ho.loads
  rw [late_of_fits hr ho hf, serve_of_loads hl, ← late,
    late_of_allowed hl.belongs ho.change ha (fits_set.mpr hf), add_set]
  have hs := setSession_congr (f := s.save (o.set d s))
    (g := (r.set c s).save (o.set d (r.set c s))) (by intro; rfl) (by intro; rfl)
    hl.row (by rw [hrow, save_set])
  simp only [set_id] at hs ⊢
  rw [hs]

/-- The second request would be refused, and changes nothing. -/
theorem late_of_refused_after (hr : r.Ready db s c) (ho : o.Ready db s d)
    (hf : o.Fits s (r.serve db)) (ha : ¬ d.Allowed (r.set c s))
    (hrow : s.save (o.set d s) (r.set c s) = r.set c s) (hadd : ∀ db, o.add s db = db) :
    o.late s (r.serve db) = o.serve (r.serve db) := by
  have hl := hr.loads_serve ho.loads
  have href : o.late (r.set c s) (r.serve db) = r.serve db := by
    refine late_of_refused hl.belongs fun c' hc' ha' => ?_
    obtain rfl := Option.some.inj (ho.change.symm.trans hc')
    exact absurd ha' ha
  rw [late_of_fits hr ho hf, serve_of_loads hl, ← late, href, hadd]
  have hs := setSession_congr (f := s.save (o.set d s)) (g := id) (by intro; rfl)
    (by intro; rfl) hl.row hrow
  simp only [set_id] at hs
  rw [hs, Db.setSession]
  congr 1
  exact Table.update_eq_self fun _ _ _ => rfl

/-- The first request does the same to the row after the second one. -/
theorem late_of_allowed_before (hr : r.Ready db s c) (ho : o.Ready db s d)
    (hf : o.Fits s (r.serve db)) (ha : c.Allowed (o.set d s)) (hf' : r.Fits s (o.serve db))
    (hrow : s.save (o.set d s) (r.set c s) = r.set c (o.set d s))
    (hadd : ∀ db, (o.add s (r.add s db)).Same (r.add s (o.add s db))) :
    (o.late s (r.serve db)).Same (r.serve (o.serve db)) := by
  have hl := ho.loads_serve hr.loads
  rw [late_of_fits hr ho hf, serve_of_loads hl, ← late,
    late_of_allowed hl.belongs hr.change ha (fits_set.mpr hf'), add_set, hr.serve, ho.serve,
    ← add_setSession, ← add_setSession, set_id, setSession_setSession, setSession_setSession]
  have hs := setSession_congr (f := fun x => s.save (o.set d s) (r.set c x))
    (g := fun x => (o.set d s).save (r.set c (o.set d s)) (o.set d x)) (by simp)
    (by simp) hr.loads.row (by rw [hrow, save_set])
  rw [hs]
  exact hadd _

/-- The second request overwrites a change that would have been refused after it. -/
theorem late_of_refused_before (hr : r.Ready db s c) (ho : o.Ready db s d)
    (hf : o.Fits s (r.serve db)) (ha : ¬ c.Allowed (o.set d s))
    (hrow : s.save (o.set d s) (r.set c s) = o.set d s) (hadd : ∀ db, r.add s db = db) :
    o.late s (r.serve db) = r.serve (o.serve db) := by
  have hl := ho.loads_serve hr.loads
  have href : r.late (o.set d s) (o.serve db) = o.serve db := by
    refine late_of_refused hl.belongs fun c' hc' ha' => ?_
    obtain rfl := Option.some.inj (hr.change.symm.trans hc')
    exact absurd ha' ha
  rw [late_of_fits hr ho hf, serve_of_loads hl, ← late, href, hr.serve, hadd, ho.serve]
  rw [setSession_setSession]
  have hs := setSession_congr (f := fun x => s.save (o.set d s) (r.set c x)) (g := o.set d)
    (by simp) (by simp) hr.loads.row hrow
  rw [hs]

theorem add_of_grant {g : Bool} (h : r.change? = some (.grant g)) : r.add s db = db.addAudit
    (sessionAudit r.now (if g then .consentGranted else .consentRevoked) s.id r.user) := by
  unfold change? at h
  unfold add
  split at h
  · obtain rfl : _ = g := by simpa using h
    rfl
  · obtain ⟨t, -, he⟩ := Option.map_eq_some_iff.mp h
    cases he
  · cases h
  · cases h

theorem capturing_of_consent {a t : SessionStatus} {x y : Bool} (h : (canTransition a t x).1 = true)
    (h' : (canTransition a t y).1 ≠ true) : t = capturing := by
  unfold canTransition at h h'
  by_contra hn
  simp only [hn, false_and, if_false] at h h'
  exact h' h

/-- Once a session is captured, two moves to different statuses exclude each other. -/
theorem excluded_of_edges : ∀ a : SessionStatus, a ∉ [idle, capturing, paused] →
    ∀ t ∈ a.transitions, ∀ u ∈ a.transitions, t ≠ u → ∀ consent,
      (canTransition u t consent).1 = false ∧ t ≠ processing := by
  intro a
  cases a <;> decide

theorem edge_of_published {t : SessionStatus} {consent : Bool}
    (h : (canTransition published t consent).1 = true) : t = published ∨ t = retracting := by
  rcases edge_of_canTransition h with rfl | he
  · exact .inl rfl
  · exact .inr (List.mem_singleton.mp he)

/-- Changes of different columns. -/
theorem save_move_grant {t : SessionStatus} {g : Bool} :
    s.save (o.set (.move t) s) (r.set (.grant g) s) = o.set (.move t) (r.set (.grant g) s) := by
  simp [Session.save, set, Session.withStatus, Session.withConsent]

theorem save_grant_move {t : SessionStatus} {g : Bool} :
    s.save (o.set (.grant g) s) (r.set (.move t) s) = o.set (.grant g) (r.set (.move t) s) := by
  simp [Session.save, set, Session.withStatus, Session.withConsent]

/-- The flag that the second request has loaded stands in the way of the flag that it sets. -/
theorem save_grant_grant {g k : Bool} : s.save (o.set (.grant k) s) (r.set (.grant g) s) =
    if k = s.consentGranted then r.set (.grant g) (o.set (.grant k) s)
    else o.set (.grant k) (r.set (.grant g) s) := by
  split
  next h => simp [Session.save, set, Session.withConsent, h]
  next h => simp [Session.save, set, Session.withConsent, changed, h]

theorem save_move_move {t u : SessionStatus} : s.save (o.set (.move u) s) (r.set (.move t) s) =
    if u = s.status then r.set (.move t) s else o.set (.move u) s := by
  split
  next h => simp [Session.save, set, Session.withStatus, h]
  next h => simp [Session.save, set, Session.withStatus, changed, h]

theorem save_retract_move {t : SessionStatus} (ht : s.status ≠ retracting) :
    s.save (o.set .retract s) (r.set (.move t) s) = o.set .retract (r.set (.move t) s) := by
  have hst : changed s.status retracting t = retracting := if_neg ht.symm
  simp [Session.save, set, Session.withStatus, Session.withTombstone, hst]

theorem save_move_retract {t : SessionStatus} : s.save (o.set (.move t) s) (r.set .retract s) =
    if t = s.status then r.set .retract s else o.set (.move t) (r.set .retract s) := by
  split
  next h => simp [Session.save, set, Session.withStatus, Session.withTombstone, h]
  next h => simp [Session.save, set, Session.withStatus, Session.withTombstone, changed, h]

theorem late_grant_grant {g : Bool} (hr : r.Ready db s (.grant g)) (ho : o.Ready db s (.grant g))
    (hf : o.Fits s (r.serve db)) : o.late s (r.serve db) = o.serve (r.serve db) := by
  refine late_of_allowed_after hr ho hf ho.allowed ?_
  rw [save_grant_grant]
  split <;> rfl

theorem late_grant_move {g : Bool} {t : SessionStatus} (hr : r.Ready db s (.grant g))
    (ho : o.Ready db s (.move t)) (hf : o.Fits s (r.serve db)) :
    (o.late s (r.serve db)).Same (o.serve (r.serve db)) ∨
      (o.late s (r.serve db)).Same (r.serve (o.serve db)) := by
  by_cases ha : (Change.move t).Allowed (r.set (.grant g) s)
  · left
    rw [late_of_allowed_after hr ho hf ha save_move_grant]
    exact .refl _
  · -- the first request revokes the consent that a move to `capturing` needs
    obtain rfl : t = capturing := capturing_of_consent ho.allowed.1 fun h => ha ⟨h, ho.allowed.2⟩
    right
    have ha : (Change.grant g).Allowed (o.set (.move capturing) s) :=
      show capturing ∉ consentClosed by decide
    apply late_of_allowed_before hr ho hf ha (fits_of_grant hr.change) save_move_grant
    intro db
    rw [add_of_move ho.change (by decide), add_of_move ho.change (by decide)]
    exact .refl _

theorem late_move_grant {t : SessionStatus} {g : Bool} (hr : r.Ready db s (.move t))
    (ho : o.Ready db s (.grant g)) (hf : o.Fits s (r.serve db)) :
    (o.late s (r.serve db)).Same (o.serve (r.serve db)) ∨
      (o.late s (r.serve db)).Same (r.serve (o.serve db)) := by
  by_cases ht : t ∈ consentClosed
  · have hne : t ≠ capturing ∧ t ≠ processing := by
      constructor <;> (rintro rfl; exact absurd ht (by decide))
    right
    apply late_of_allowed_before hr ho hf _ (fits_of_move hr.change hne.2) save_grant_move
    · intro db
      rw [add_of_move hr.change hne.2, add_of_move hr.change hne.2]
      exact .refl _
    · by_contra ha
      exact hne.1 (capturing_of_consent hr.allowed.1 fun h => ha ⟨h, hr.allowed.2⟩)
  · left
    rw [late_of_allowed_after hr ho hf ht save_grant_move]
    exact .refl _

theorem late_move_retract {t : SessionStatus} (hr : r.Ready db s (.move t))
    (ho : o.Ready db s .retract) (hf : o.Fits s (r.serve db)) :
    (o.late s (r.serve db)).Same (o.serve (r.serve db)) ∨
      (o.late s (r.serve db)).Same (r.serve (o.serve db)) := by
  have hp : s.status = published := ho.allowed
  have hrow := save_retract_move (r := r) (o := o) (s := s) (t := t) (by rw [hp]; decide)
  rcases edge_of_published (hp ▸ hr.allowed.1) with rfl | rfl
  · left
    rw [late_of_allowed_after hr ho hf rfl hrow]
    exact .refl _
  · right
    have hadd {db : Db} : r.add s db = db := add_of_move hr.change (by decide)
    apply late_of_allowed_before hr ho hf _ (fits_of_move hr.change (by decide)) hrow
    · intro db
      rw [hadd, hadd]
      exact .refl _
    · exact ⟨by cases s.consentGranted <;> rfl, nofun⟩

theorem late_retract_move {t : SessionStatus} (hr : r.Ready db s .retract)
    (ho : o.Ready db s (.move t)) (hf : o.Fits s (r.serve db)) :
    o.late s (r.serve db) = o.serve (r.serve db) := by
  have hp : s.status = published := hr.allowed
  have hrow := save_move_retract (r := r) (o := o) (s := s) (t := t)
  rcases edge_of_published (hp ▸ ho.allowed.1) with rfl | rfl
  · rw [if_pos hp.symm] at hrow
    apply late_of_refused_after hr ho hf _ hrow fun db => add_of_move ho.change (by decide)
    rintro ⟨h, -⟩
    cases s.consentGranted <;> cases h
  · rw [if_neg (by rw [hp]; decide)] at hrow
    exact late_of_allowed_after hr ho hf ⟨by cases s.consentGranted <;> rfl, nofun⟩ hrow

theorem call_of_processing (h : r.change? = some (.move processing)) :
    ∃ ids text, r.call = .status ids text ∧ parse? text = some processing := by
  unfold change? at h
  split at h
  · cases h
  next ids text hcall =>
    obtain ⟨t, ht, he⟩ := Option.map_eq_some_iff.mp h
    cases he
    exact ⟨ids, text, hcall, ht⟩
  · cases h
  · cases h

/-- A session that is moved to `processing` has its transcribe job from then on. -/
theorem transcribe_of_processing (hr : r.Ready db s (.move processing)) :
    ∃ j ∈ (r.serve db).jobs, j.idempotencyKey = stageKey s.id .transcribe := by
  obtain ⟨ids, text, hcall, ht⟩ := call_of_processing hr.change
  have hfree : db.PipelineFree ids r.now s.id := by
    have hf := hr.fits
    rw [Fits, hcall] at hf
    exact hf ht
  refine ⟨stageJob ids.transcribe r.now s.id .transcribe, ?_, rfl⟩
  rw [hr.serve, add, hcall]
  simp only [ht, if_true, addPipeline_jobs]
  apply Table.mem_insert_of_mem
  apply Table.mem_insert_of_mem
  exact (Table.mem_insert_of_not_mem fun x hx => (hfree.transcribe x hx).1).mpr (.inr rfl)

theorem keyFree_of_processing (hr : r.change? = some (.move processing)) (hf : r.Fits s db) :
    ∀ j ∈ db.jobs, j.idempotencyKey ≠ stageKey s.id .transcribe := by
  obtain ⟨ids, text, hcall, ht⟩ := call_of_processing hr
  rw [Fits, hcall] at hf
  exact fun j hj => ((hf ht).transcribe j hj).2

/-- Only one of two requests can create the jobs of the pipeline. -/
theorem not_both_processing (hr : r.Ready db s (.move processing))
    (ho : o.Ready db s (.move processing)) : ¬ o.Fits s (r.serve db) := by
  intro hf
  obtain ⟨j, hj, hk⟩ := transcribe_of_processing hr
  exact keyFree_of_processing ho.change hf j hj hk

theorem late_move_move {t u : SessionStatus} (hr : r.Ready db s (.move t))
    (ho : o.Ready db s (.move u)) (hf : o.Fits s (r.serve db))
    (hn : ¬ Clash s.status (.move t) (.move u)) :
    (o.late s (r.serve db)).Same (o.serve (r.serve db)) ∨
      (o.late s (r.serve db)).Same (r.serve (o.serve db)) := by
  have hrow := save_move_move (r := r) (o := o) (s := s) (t := t) (u := u)
  by_cases ht : t = s.status
  · left
    rw [late_of_allowed_after hr ho hf (ht ▸ ho.allowed)]
    · exact .refl _
    · rw [hrow]
      split
      next hu =>
        rw [hu, ht]
        rfl
      next => rfl
  by_cases hu : u = s.status
  · rw [if_pos hu] at hrow
    right
    have hone : t ≠ processing ∨ u ≠ processing := by
      by_contra hn
      push Not at hn
      exact ht (hn.1.trans (hn.2.symm.trans hu))
    apply late_of_allowed_before hr ho hf (hu ▸ hr.allowed) _ hrow
    · intro db
      rcases hone with hp | hp
      · rw [add_of_move hr.change hp, add_of_move hr.change hp]
        exact .refl _
      · rw [add_of_move ho.change hp, add_of_move ho.change hp]
        exact .refl _
    · rcases hone with hp | hp
      · exact fits_of_move hr.change hp
      · rw [ho.serve, add_of_move ho.change hp]
        exact (fits_congr (by rfl) (by rfl) rfl).mpr hr.fits
  rw [if_neg hu] at hrow
  by_cases htu : t = u
  · subst htu
    have hp : t ≠ processing := by
      rintro rfl
      exact not_both_processing hr ho hf
    left
    by_cases ha : (Change.move t).Allowed (r.set (.move t) s)
    · rw [late_of_allowed_after hr ho hf ha hrow]
      exact .refl _
    · rw [late_of_refused_after hr ho hf ha hrow fun db => add_of_move ho.change hp]
      exact .refl _
  · right
    have hs : s.status ∉ [idle, capturing, paused] := by
      intro hs
      exact hn (.inr (.inr ⟨hs, by simpa using htu, ⟨t, rfl, ht⟩, ⟨u, rfl, hu⟩⟩))
    have het := (edge_of_canTransition hr.allowed.1).resolve_left fun h => ht h.symm
    have heu := (edge_of_canTransition ho.allowed.1).resolve_left fun h => hu h.symm
    have hex := excluded_of_edges s.status hs t het u heu htu
    have ha : ¬ (Change.move t).Allowed (o.set (.move u) s) := by
      rintro ⟨h, -⟩
      exact absurd ((hex _).1.symm.trans h) (by decide)
    rw [late_of_refused_before hr ho hf ha hrow fun db => add_of_move hr.change (hex true).2]
    exact .refl _

/-- Two requests that are accepted alone and do not clash. -/
theorem late_same (hr : r.Ready db s c) (ho : o.Ready db s d) (hf : o.Fits s (r.serve db))
    (hn : ¬ Clash s.status c d) :
    (o.late s (r.serve db)).Same (o.serve (r.serve db)) ∨
      (o.late s (r.serve db)).Same (r.serve (o.serve db)) := by
  have open_of_grant {p : SessionRequest} {g : Bool} (h : p.Ready db s (.grant g)) :
      s.status ≠ published := by
    intro hp
    have ha : s.status ∉ consentClosed := h.allowed
    rw [hp] at ha
    exact ha (by decide)
  cases c with
  | grant g =>
    cases d with
    | grant k =>
      obtain rfl : k = g := by
        by_contra hk
        exact hn (.inr (.inl ⟨g, rfl, by rw [Bool.eq_not.mpr hk]⟩))
      rw [late_grant_grant hr ho hf]
      exact .inl (.refl _)
    | move t => exact late_grant_move hr ho hf
    | retract => exact absurd ho.allowed (open_of_grant hr)
  | move t =>
    cases d with
    | grant g => exact late_move_grant hr ho hf
    | move u => exact late_move_move hr ho hf hn
    | retract => exact late_move_retract hr ho hf
  | retract =>
    cases d with
    | grant g => exact absurd hr.allowed (open_of_grant ho)
    | move t =>
      rw [late_retract_move hr ho hf]
      exact .inl (.refl _)
    | retract => exact absurd (.inl ⟨rfl, rfl⟩) hn

/-! ## Deletion jobs -/

theorem forall_addSaga {ids : SagaIds} {now : Timestamp} {i : Uuid} (hf : db.SagaFree ids) :
    (∀ x ∈ (addSaga ids now s db).deletionJobs, x.id ≠ i) ↔ (∀ x ∈ db.deletionJobs, x.id ≠ i) ∧
      i ∉ [ids.artifactRows, ids.localAudio, ids.feishuDocs] := by
  let d₁ := sagaJob ids.artifactRows now s.id .deleteArtifactRows
    { description := some "Hard-delete all artifacts" }
  let d₂ := sagaJob ids.localAudio now s.id .deleteLocalAudio { audioKey := s.audioKey }
  let d₃ := sagaJob ids.feishuDocs now s.id .deleteFeishuDocs { description := some "Feishu stub" }
  have h₁ : ∀ x ∈ db.deletionJobs, x.id ≠ d₁.id := hf.artifactRows
  have h₂ : ∀ x ∈ (db.addDeletionJob d₁).deletionJobs, x.id ≠ d₂.id :=
    (forall_addDeletionJob h₁).mpr ⟨hf.localAudio, hf.ne₁⟩
  have h₃ : ∀ x ∈ ((db.addDeletionJob d₁).addDeletionJob d₂).deletionJobs, x.id ≠ d₃.id :=
    (forall_addDeletionJob h₂).mpr ⟨(forall_addDeletionJob h₁).mpr ⟨hf.feishuDocs, hf.ne₂⟩, hf.ne₃⟩
  have h := (forall_addDeletionJob (i := i) h₃).trans
    (and_congr_left' ((forall_addDeletionJob h₂).trans (and_congr_left' (forall_addDeletionJob h₁))))
  refine h.trans ?_
  simp only [List.mem_cons, List.not_mem_nil, or_false, not_or, and_assoc, d₁, d₂, d₃, sagaJob,
    ne_comm (a := i)]

/-- The ids of the deletion jobs after a request. -/
theorem forall_add {i : Uuid} (hf : r.Fits s db) : (∀ x ∈ (r.add s db).deletionJobs, x.id ≠ i) ↔
    (∀ x ∈ db.deletionJobs, x.id ≠ i) ∧ i ∉ r.drawn := by
  obtain ⟨user, now, session, call⟩ := r
  cases call with
  | consent grant => simp [add, drawn]
  | status ids text =>
    simp only [add, drawn, List.not_mem_nil, not_false_eq_true, and_true]
    split <;> rfl
  | cancel => simp [add, drawn]
  | retract ids =>
    simp only [add, drawn, Db.addAudit_deletionJobs]
    exact forall_addSaga hf

theorem forall_serve {i : Uuid} (hr : r.Ready db s c) :
    (∀ x ∈ (r.serve db).deletionJobs, x.id ≠ i) ↔ (∀ x ∈ db.deletionJobs, x.id ≠ i) ∧ i ∉ r.drawn := by
  rw [hr.serve]
  exact forall_add ((fits_congr (by rfl) (by rfl) rfl).mpr hr.fits)

theorem not_mem_of_fits {i : Uuid} (hf : r.Fits s db) (hi : i ∈ r.drawn) :
    ∀ x ∈ db.deletionJobs, x.id ≠ i := by
  unfold drawn at hi
  split at hi
  next ids hcall =>
    rw [Fits, hcall] at hf
    simp only [List.mem_cons, List.not_mem_nil, or_false] at hi
    rcases hi with rfl | rfl | rfl
    · exact hf.artifactRows
    · exact hf.localAudio
    · exact hf.feishuDocs
  · cases hi

/-- Requests whose rows fit beside each other have drawn different ids. -/
theorem drawn_of_fits (hr : r.Ready db s c) (hf : o.Fits s (r.serve db)) :
    ∀ i ∈ r.drawn, i ∉ o.drawn :=
  fun _ hi ho => ((forall_serve hr).mp (not_mem_of_fits hf ho)).2 hi

theorem call_of_retract (h : r.change? = some .retract) : ∃ ids, r.call = .retract ids := by
  unfold change? at h
  split at h
  · cases h
  · obtain ⟨t, -, he⟩ := Option.map_eq_some_iff.mp h
    cases he
  · cases h
  next ids hcall => exact ⟨ids, hcall⟩

/-- A request whose change is refused on the row of the other one has no effect after it. -/
theorem serve_of_refused (hr : r.Ready db s c) (ho : o.Ready db s d)
    (ha : ¬ d.Allowed (r.set c s)) : o.serve (r.serve db) = r.serve db := by
  have hl := hr.loads_serve ho.loads
  rw [serve_of_loads hl, ← late]
  refine late_of_refused hl.belongs fun c' hc' ha' => ?_
  obtain rfl := Option.some.inj (ho.change.symm.trans hc')
  exact absurd ha' ha

/-- Two retractions at once end with the deletion jobs of both. -/
theorem retracts_differ (hr : r.Ready db s .retract) (ho : o.Ready db s .retract)
    (hd : ∀ i ∈ r.drawn, i ∉ o.drawn) :
    ¬ (o.late s (r.serve db)).Same (o.serve (r.serve db)) ∧
      ¬ (o.late s (r.serve db)).Same (r.serve (o.serve db)) := by
  have refused {p : SessionRequest} : ¬ Change.retract.Allowed (p.set .retract s) := by
    show ¬ retracting = published
    decide
  obtain ⟨ids, hids⟩ := call_of_retract ho.change
  obtain ⟨ids', hids'⟩ := call_of_retract hr.change
  have hio : ids.artifactRows ∈ o.drawn := by simp [drawn, hids]
  have hir : ids'.artifactRows ∈ r.drawn := by simp [drawn, hids']
  have hf : o.Fits s (r.serve db) := by
    have hold := ho.fits
    have hfree {i : Uuid} (hi : i ∈ o.drawn) : ∀ x ∈ (r.serve db).deletionJobs, x.id ≠ i :=
      (forall_serve hr).mpr ⟨not_mem_of_fits ho.fits hi, fun h => hd i h hi⟩
    simp only [drawn, Fits, hids] at hold hfree ⊢
    exact ⟨hfree (by simp), hfree (by simp), hfree (by simp), hold.ne₁, hold.ne₂, hold.ne₃⟩
  rw [serve_of_refused hr ho refused, serve_of_refused ho hr refused, late_of_fits hr ho hf]
  have hset : o.Fits s ((r.serve db).setSession s.id (s.save (o.set .retract s))) :=
    (fits_congr (by rfl) (by rfl) rfl).mpr hf
  have both {i : Uuid} (hi : i ∈ r.drawn ∨ i ∈ o.drawn) :
      ∃ x ∈ (o.add s ((r.serve db).setSession s.id (s.save (o.set .retract s)))).deletionJobs,
        x.id = i := by
    by_contra hn
    push Not at hn
    obtain ⟨hn, hno⟩ := (forall_add hset).mp hn
    rcases hi with hi | hi
    · exact ((forall_serve hr).mp hn).2 hi
    · exact hno hi
  constructor
  · intro hsame
    obtain ⟨x, hx, hi⟩ := both (.inr hio)
    exact (forall_serve hr).mpr ⟨not_mem_of_fits ho.fits hio, fun h => hd _ h hio⟩ x
      ((hsame.deletionJobs x).mp hx) hi
  · intro hsame
    obtain ⟨x, hx, hi⟩ := both (.inl hir)
    exact (forall_serve ho).mpr ⟨not_mem_of_fits hr.fits hir, hd _ hir⟩ x
      ((hsame.deletionJobs x).mp hx) hi

/-- The log after a change of the consent, whatever row is written with it. -/
theorem auditLogs_of_grant {g : Bool} {f : Session → Session} {hf : ∀ s, (f s).id = s.id}
    (h : r.change? = some (.grant g)) : (r.add s (db.setSession s.id f hf)).auditLogs =
      db.auditLogs ++ [sessionAudit r.now (if g then .consentGranted else .consentRevoked) s.id
        r.user] := by
  rw [add_of_grant h]
  rfl

/-- The flag that a request would set is the one that it has loaded. It then leaves the flag as the
other request set it, behind an entry that says otherwise. -/
theorem grants_differ {g : Bool} (hr : r.Ready db s (.grant g)) (ho : o.Ready db s (.grant !g))
    (hg : s.consentGranted = !g) : ¬ (o.late s (r.serve db)).Same (o.serve (r.serve db)) ∧
      ¬ (o.late s (r.serve db)).Same (r.serve (o.serve db)) := by
  have after : o.Ready (r.serve db) (r.set (.grant g) s) (.grant !g) :=
    ⟨hr.loads_serve ho.loads, ho.change, ho.allowed, fits_of_grant ho.change⟩
  have before : r.Ready (o.serve db) (o.set (.grant !g) s) (.grant g) :=
    ⟨ho.loads_serve hr.loads, hr.change, hr.allowed, fits_of_grant hr.change⟩
  have hlate := late_of_fits hr ho (fits_of_grant ho.change)
  constructor
  · intro hsame
    have hm := Table.mem_update_of_mem (p := fun x => x.id = s.id)
      (f := s.save (o.set (.grant !g) s)) (by intro; rfl) after.loads.row
    rw [if_pos (decide_eq_true (by simp)), save_grant_grant, if_pos hg.symm] at hm
    have hrow : r.set (.grant g) (o.set (.grant !g) s) ∈ (o.late s (r.serve db)).sessions := by
      rw [hlate, add_sessions]
      exact hm
    have hm' := Table.mem_update_of_mem (p := fun x => x.id = (r.set (.grant g) s).id)
      (f := o.set (.grant !g)) (by simp) after.loads.row
    rw [if_pos (decide_eq_true rfl)] at hm'
    have hrow' : o.set (.grant !g) (r.set (.grant g) s) ∈ (o.serve (r.serve db)).sessions := by
      rw [after.serve, add_sessions]
      exact hm'
    have heq := Table.eq_of_key_eq ((hsame.sessions _).mp hrow) hrow' (by simp)
    have hflag : g = !g := congrArg Session.consentGranted heq
    cases g <;> cases hflag
  · intro hsame
    have hlogs := hsame.auditLogs
    rw [hlate, auditLogs_of_grant ho.change, hr.serve, auditLogs_of_grant hr.change, before.serve,
      auditLogs_of_grant hr.change, ho.serve, auditLogs_of_grant ho.change] at hlogs
    simp only [List.append_assoc, List.append_cancel_left_eq, List.singleton_append,
      List.cons.injEq] at hlogs
    have hact := congrArg AuditLog.action hlogs.1
    cases g <;> cases hact

/-- The second move overwrites the first one, which it excludes. -/
def Overwrites (consent : Bool) (t u : SessionStatus) : Prop :=
  (canTransition t u consent).1 = false ∧ u ≠ processing ∧
    ((canTransition u t consent).1 = true ∨ t = processing)

instance (consent : Bool) (t u : SessionStatus) : Decidable (Overwrites consent t u) :=
  inferInstanceAs (Decidable (_ ∧ _ ∧ _))

/-- While a session is captured, one of two moves overwrites the other. -/
theorem overwrites_of_edges : ∀ a ∈ [idle, capturing, paused], ∀ t ∈ a.transitions,
    ∀ u ∈ a.transitions, t ≠ u → ∀ consent, Overwrites consent t u ∨ Overwrites consent u t := by
  decide

/-- A session that is moved to two statuses at once ends in one of them, with what is left of the
other move. -/
theorem moves_differ {t u : SessionStatus} (hr : r.Ready db s (.move t)) (ho : o.Ready db s (.move u))
    (hu : u ≠ s.status) (htu : t ≠ u) (hov : Overwrites s.consentGranted t u) :
    ¬ (o.late s (r.serve db)).Same (o.serve (r.serve db)) ∧
      ¬ (o.late s (r.serve db)).Same (r.serve (o.serve db)) := by
  obtain ⟨hex, hup, hor⟩ := hov
  have hl := hr.loads_serve ho.loads
  have hl' := ho.loads_serve hr.loads
  have hlate : o.late s (r.serve db) =
      (r.serve db).setSession s.id (s.save (o.set (.move u) s)) := by
    rw [late_of_fits hr ho (fits_of_move ho.change hup), add_of_move ho.change hup]
  have hrow : o.set (.move u) s ∈ (o.late s (r.serve db)).sessions := by
    have hm := Table.mem_update_of_mem (p := fun x => x.id = s.id)
      (f := s.save (o.set (.move u) s)) (by intro; rfl) hl.row
    rw [if_pos (decide_eq_true (by simp)), save_move_move, if_neg hu] at hm
    rw [hlate]
    exact hm
  -- a session of that database with the other status is a contradiction
  have other {x : Session} {db' : Db} (hsame : (o.late s (r.serve db)).Same db')
      (hx : x ∈ db'.sessions) (hi : x.id = s.id) (hst : x.status = t) : False := by
    have heq := Table.eq_of_key_eq hx ((hsame.sessions _).mp hrow) (by simp [hi])
    exact htu (hst.symm.trans (congrArg Session.status heq))
  constructor
  · intro hsame
    have ha : ¬ (Change.move u).Allowed (r.set (.move t) s) := by
      rintro ⟨h, -⟩
      exact absurd (hex.symm.trans h) (by decide)
    rw [serve_of_refused hr ho ha] at hsame
    exact other hsame hl.row (by simp) rfl
  · intro hsame
    by_cases ha : (Change.move t).Allowed (o.set (.move u) s)
    · have hserve : o.serve db = db.setSession s.id (o.set (.move u)) := by
        rw [ho.serve, add_of_move ho.change hup]
      have hf : r.Fits (o.set (.move u) s) (o.serve db) := by
        rw [fits_set, hserve]
        exact (fits_congr (by rfl) (by rfl) rfl).mpr hr.fits
      rw [serve_of_loads hl', ← late, late_of_allowed hl'.belongs hr.change ha hf] at hsame
      have hm := Table.mem_update_of_mem (p := fun x => x.id = (o.set (.move u) s).id)
        (f := (o.set (.move u) s).save (r.set (.move t) (o.set (.move u) s))) (by intro; rfl) hl'.row
      rw [if_pos (decide_eq_true rfl), save_set] at hm
      refine other hsame (x := r.set (.move t) (o.set (.move u) s)) ?_ (by simp) rfl
      rw [add_sessions]
      exact hm
    · have htp : t = processing := hor.resolve_left fun h => ha ⟨h, hr.allowed.2⟩
      subst htp
      rw [serve_of_refused ho hr ha, hlate, ho.serve, add_of_move ho.change hup] at hsame
      obtain ⟨j, hj, hk⟩ := transcribe_of_processing hr
      exact keyFree_of_processing hr.change hr.fits j ((hsame.jobs j).mp hj) hk

end Pair

end SessionRequest

section Concurrent

variable {reqs : Bool → SessionRequest} {db : Db} {s : Session} {c d : Change}

open SessionRequest

theorem Clash.symm {status : SessionStatus} (h : Clash status c d) : Clash status d c := by
  rcases h with ⟨hc, hd⟩ | ⟨g, hc, hd⟩ | ⟨hs, hne, hc, hd⟩
  · exact .inl ⟨hd, hc⟩
  · exact .inr (.inl ⟨!g, hd, by rw [Bool.not_not, hc]⟩)
  · exact .inr (.inr ⟨hs, hne.symm, hd, hc⟩)

theorem conflict_of_ready {b : Bool} (hr : (reqs b).Ready db s c) (ho : (reqs !b).Ready db s d)
    (hc : Clash s.status c d) (hd : ∀ i ∈ (reqs b).drawn, i ∉ (reqs !b).drawn) : Conflict reqs db := by
  cases b with
  | true => exact ⟨s, c, d, hr, ho, hc, hd⟩
  | false => exact ⟨s, d, c, ho, hr, hc.symm, fun i hi hi' => hd i hi' hi⟩

/-- Rows that fit into a database fit into an older one. -/
theorem fits_of_grown {r : SessionRequest} {locks : List Lock} {db' : Db} (h : Grown locks db db')
    (hf : r.Fits s db') : r.Fits s db := by
  obtain ⟨user, now, session, call⟩ := r
  cases call with
  | consent grant => trivial
  | status ids text =>
    intro hp
    have hf := hf hp
    exact ⟨fun j hj => hf.transcribe j (h.jobs j hj), fun j hj => hf.summarize j (h.jobs j hj),
      fun j hj => hf.extractArtifact j (h.jobs j hj), hf.ne₁, hf.ne₂, hf.ne₃⟩
  | cancel => trivial
  | retract ids =>
    have hf : db'.SagaFree ids := hf
    exact ⟨fun x hx => hf.artifactRows x (h.deletionJobs x hx),
      fun x hx => hf.localAudio x (h.deletionJobs x hx),
      fun x hx => hf.feishuDocs x (h.deletionJobs x hx), hf.ne₁, hf.ne₂, hf.ne₃⟩

/-- A request that another one has overtaken after the load ends in a serial way. -/
theorem late_serial {b : Bool} {locks : List Lock} (hsame : (reqs b).session = (reqs !b).session)
    (hn : ¬ Conflict reqs db) (hl : (reqs !b).Loads db s) (hg : Grown locks db ((reqs b).serve db)) :
    ∃ i, ((reqs !b).late s ((reqs b).serve db)).Same (serial reqs i db) := by
  by_cases hr : ∃ x c, (reqs b).Ready db x c
  · obtain ⟨x, c, hr⟩ := hr
    obtain rfl : x = s := by
      have hi := hr.loads.session.symm.trans (hsame.trans hl.session)
      exact Table.eq_of_key_eq hr.loads.row hl.row (Option.some.inj hi)
    by_cases ho : ∃ d, (reqs !b).Ready db x d
    · obtain ⟨d, ho⟩ := ho
      by_cases hf : (reqs !b).Fits x ((reqs b).serve db)
      · have hcl : ¬ Clash x.status c d := fun hc =>
          hn (conflict_of_ready hr ho hc (drawn_of_fits hr hf))
        rcases late_same hr ho hf hcl with h | h
        · exact ⟨b, h⟩
        · refine ⟨!b, ?_⟩
          rwa [serial, Bool.not_not]
      · refine ⟨b, ?_⟩
        rw [late_of_not_fits hr ho hf]
        exact .refl _
    · -- the second request is refused alone, hence also on top of the first one
      have hd : (reqs !b).serve db = db := by
        rw [serve_of_loads hl, ← late]
        exact late_of_refused hl.belongs fun d hd ha hf => ho ⟨d, hl, hd, ha, hf⟩
      refine ⟨!b, ?_⟩
      rw [serial, Bool.not_not, hd, late_of_refused ((hg.belongs _ _).mpr hl.belongs)
        fun d hd ha hf => ho ⟨d, hl, hd, ha, fits_of_grown hg hf⟩]
      exact .refl _
  · refine ⟨b, ?_⟩
    have hd : (reqs b).serve db = db := serve_of_not_ready fun x c h => hr ⟨x, c, h⟩
    rw [serial, hd, serve_of_loads hl, late]
    exact .refl _

/-- Two requests in conflict can end in a way in which neither order ends. -/
theorem not_serializable_of_conflict (h : Conflict reqs db) : ¬ Serializable reqs db := by
  intro hser
  have overtaken {b : Bool} {s : Session} (hl : (reqs !b).Loads db s)
      (hd : ¬ ((reqs !b).late s ((reqs b).serve db)).Same ((reqs !b).serve ((reqs b).serve db)) ∧
        ¬ ((reqs !b).late s ((reqs b).serve db)).Same ((reqs b).serve ((reqs !b).serve db))) :
      False := by
    obtain ⟨tr, sh, hr, hf, hs⟩ := run_of_interrupted (p := fun b => (reqs b).script) (b := b)
      hl.reaches_plan rfl
    rw [SessionRequest.result_script] at hs
    obtain ⟨i, hi⟩ := hser tr sh hr hf
    rw [hs] at hi
    by_cases hib : i = b
    · subst hib
      exact hd.1 hi
    · obtain rfl : i = !b := Bool.eq_not.mpr hib
      rw [serial, Bool.not_not] at hi
      exact hd.2 hi
  obtain ⟨s, c, d, hr, ho, ⟨rfl, rfl⟩ | ⟨g, rfl, rfl⟩ | ⟨hs, hne, ⟨t, rfl, ht⟩, ⟨u, rfl, hu⟩⟩,
    hdrawn⟩ := h
  · exact overtaken (b := true) ho.loads (retracts_differ hr ho hdrawn)
  · by_cases hg : s.consentGranted = g
    · exact overtaken (b := false) hr.loads
        (grants_differ (g := !g) ho (by rwa [Bool.not_not]) (by rw [Bool.not_not, hg]))
    · exact overtaken (b := true) ho.loads (grants_differ hr ho (Bool.eq_not.mpr hg))
  · have htu : t ≠ u := by simpa using hne
    have het := (edge_of_canTransition hr.allowed.1).resolve_left fun h => ht h.symm
    have heu := (edge_of_canTransition ho.allowed.1).resolve_left fun h => hu h.symm
    rcases overwrites_of_edges s.status hs t het u heu htu s.consentGranted with hov | hov
    · exact overtaken (b := true) ho.loads (moves_differ hr ho hu htu hov)
    · exact overtaken (b := false) hr.loads (moves_differ ho hr ht htu.symm hov)

/-- Two requests on a session are serializable exactly when they are not in conflict. -/
theorem serializable_iff (hsame : (reqs true).session = (reqs false).session) :
    Serializable reqs db ↔ ¬ Conflict reqs db := by
  constructor
  · exact fun hser h => not_serializable_of_conflict h hser
  · intro hn tr sh hr hf
    obtain ⟨b, e, c, hi, hs⟩ := interrupted_of_run hr hf
    rw [hs]
    rcases result_of_interrupted hi with h | ⟨s, hl, h⟩
    · refine ⟨b, ?_⟩
      rw [h]
      exact .refl _
    · rw [h]
      have hb : (reqs b).session = (reqs !b).session := by
        cases b with
        | true => exact hsame
        | false => exact hsame.symm
      exact late_serial hb hn hl (grown_of_interrupted hi)

end Concurrent

/-- Owner 2 withdraws the consent while session 5 is cancelled. -/
def revokeAndCancel (b : Bool) : SessionRequest :=
  open Replay in ⟨uuid 2, 1, some (uuid 5), if b then .consent false else .cancel⟩

/-- Owner 2 starts the processing of session 5 while it is cancelled. -/
def processAndCancel (b : Bool) : SessionRequest :=
  open Replay in ⟨uuid 2, 1, some (uuid 5),
    if b then .status ⟨uuid 20, uuid 21, uuid 22⟩ processing.value else .cancel⟩

/-- Owner 2 retracts session 5 twice. -/
def retractTwice (b : Bool) : SessionRequest :=
  open Replay in ⟨uuid 2, 1, some (uuid 5),
    .retract (if b then ⟨uuid 60, uuid 61, uuid 62⟩ else ⟨uuid 70, uuid 71, uuid 72⟩)⟩

theorem exists_ready {acts : List Action} {reqs : Bool → SessionRequest} {c d : Change}
    (h : (execute World.step (World.init 0) acts).any (fun p => decide (∃ s ∈ p.2.db.sessions,
      (reqs true).Ready p.2.db s c ∧ (reqs false).Ready p.2.db s d)) = true) :
    ∃ tr w, SystemRun 0 tr w ∧ ∃ s ∈ w.db.sessions,
      (reqs true).Ready w.db s c ∧ (reqs false).Ready w.db s d := by
  obtain ⟨tr, w, hr, hp⟩ := exists_run (fun (_ : List (Transition World Action)) w => decide
    (∃ s ∈ w.db.sessions, (reqs true).Ready w.db s c ∧ (reqs false).Ready w.db s d)) h
  exact ⟨tr, w, hr, of_decide_eq_true hp⟩

/-- Consent and status are two columns. -/
theorem serializable_revokeAndCancel : ∃ tr w, SystemRun 0 tr w ∧
    (∃ s ∈ w.db.sessions, (revokeAndCancel true).Ready w.db s (.grant false) ∧
      (revokeAndCancel false).Ready w.db s (.move cancelled)) ∧
    Serializable revokeAndCancel w.db := by
  obtain ⟨tr, w, hr, h⟩ := exists_ready
    (show (execute World.step (World.init 0) (Replay.recorded.take 5)).any (fun p => decide
      (∃ s ∈ p.2.db.sessions, (revokeAndCancel true).Ready p.2.db s (.grant false) ∧
        (revokeAndCancel false).Ready p.2.db s (.move cancelled))) = true by decide +kernel)
  refine ⟨tr, w, hr, h, (serializable_iff rfl).mpr ?_⟩
  rintro ⟨s, c, d, hr, ho, ⟨rfl, -⟩ | ⟨g, -, rfl⟩ | ⟨-, -, ⟨t, rfl, -⟩, -⟩, -⟩
  · cases hr.change
  · cases ho.change
  · cases hr.change

theorem captured_of_cancel {a : SessionStatus} {consent : Bool}
    (h : (canTransition a cancelled consent).1 = true) : a ∈ [idle, capturing, paused] := by
  revert h
  cases a <;> cases consent <;> decide

/-- The schedule of the two requests ends in a database with the property. -/
def EndsIn (reqs : Bool → SessionRequest) (schedule : List Bool) (P : Db → Bool) (db : Db) : Bool :=
  (execute Shared.step (Shared.start db fun b => (reqs b).script) schedule).any fun p =>
    (p.2.parties true).isCommitted && (p.2.parties false).isCommitted && P p.2.store

theorem exists_end {acts : List Action} {reqs : Bool → SessionRequest} {schedule : List Bool}
    {P : Db → Bool}
    (h : (execute World.step (World.init 0) acts).any (fun p =>
      EndsIn reqs schedule P p.2.db) = true) :
    ∃ tr w, SystemRun 0 tr w ∧ ∃ tr' sh, Run Shared.step
      (Shared.start w.db fun b => (reqs b).script) tr' sh ∧ (∀ b, sh.parties b = .committed) ∧
      P sh.store = true := by
  obtain ⟨tr, w, hr, hp⟩ := exists_run
    (fun (_ : List (Transition World Action)) w => EndsIn reqs schedule P w.db) h
  obtain ⟨tr', sh, hr', hs⟩ := exists_run
    (fun (_ : List (Transition (Shared Bool Db Lock Exn) Bool)) sh =>
      (sh.parties true).isCommitted && (sh.parties false).isCommitted && P sh.store) hp
  simp only [Bool.and_eq_true, Party.isCommitted_iff] at hs
  refine ⟨tr, w, hr, tr', sh, hr', fun b => ?_, hs.2⟩
  cases b with
  | true => exact hs.1.1
  | false => exact hs.1.2

/-- A session is cancelled and has a pending job. -/
def Db.cancelledWithJob (db : Db) : Bool :=
  decide (∃ s ∈ db.sessions, s.status = cancelled ∧
    ∃ j ∈ db.jobs, j.sessionId = some s.id ∧ j.status = .pending)

/-- Some requests on a session are not serializable: a cancelled session can end with the jobs of
its pipeline, and a session that is retracted twice at once with six deletion jobs. -/
theorem not_serializable : (¬ ∀ now tr w, SystemRun now tr w → ∀ reqs : Bool → SessionRequest,
      (reqs true).session = (reqs false).session → Serializable reqs w.db) ∧
    (∃ tr w, SystemRun 0 tr w ∧ ∃ tr' sh,
      Run Shared.step (Shared.start w.db fun b => (processAndCancel b).script) tr' sh ∧
      (∀ b, sh.parties b = .committed) ∧ sh.store.cancelledWithJob = true) ∧
    ∃ tr w, SystemRun 0 tr w ∧ ∃ tr' sh,
      Run Shared.step (Shared.start w.db fun b => (retractTwice b).script) tr' sh ∧
      (∀ b, sh.parties b = .committed) ∧ decide (sh.store.deletionJobs.rows.length = 6) = true := by
  refine ⟨fun hall => ?_, ?_, ?_⟩
  · obtain ⟨tr, w, hr, s, -, hp, hc⟩ := exists_ready
      (show (execute World.step (World.init 0) (Replay.recorded.take 5)).any (fun p => decide
        (∃ s ∈ p.2.db.sessions, (processAndCancel true).Ready p.2.db s (.move processing) ∧
          (processAndCancel false).Ready p.2.db s (.move cancelled))) = true by decide +kernel)
    have hst := captured_of_cancel hc.allowed.1
    have hne {t : SessionStatus} (ht : t ∉ [idle, capturing, paused]) : t ≠ s.status := by
      rintro rfl
      exact ht hst
    have hconf : Conflict processAndCancel w.db :=
      ⟨s, _, _, hp, hc, .inr (.inr ⟨hst, by decide, ⟨_, rfl, hne (by decide)⟩, _, rfl, hne (by decide)⟩),
        by decide⟩
    exact not_serializable_of_conflict hconf (hall 0 tr w hr processAndCancel rfl)
  · exact exists_end (show (execute World.step (World.init 0) (Replay.recorded.take 5)).any (fun p =>
      EndsIn processAndCancel ([false, false] ++ List.replicate 10 true ++ [false, false])
        Db.cancelledWithJob p.2.db) = true by decide +kernel)
  · exact exists_end (show (execute World.step (World.init 0) Replay.published).any (fun p =>
      EndsIn retractTwice ([false, false, false] ++ List.replicate 9 true ++ List.replicate 6 false)
        (fun db => decide (db.deletionJobs.rows.length = 6)) p.2.db) = true by decide +kernel)

end AiBadge
