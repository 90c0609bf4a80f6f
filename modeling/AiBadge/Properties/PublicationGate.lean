import AiBadge.System.Invariant

/-! # The publication gate

What an artifact looked like when it was last approved, against what is published. The
check at `request_publish` is not repeated by `mark_published`, and neither an edit nor a
rejection withdraws the publish job that waits.
-/

namespace AiBadge

open Lib ReviewAction

/-- The columns that a reviewer reads. -/
structure ArtifactText where
  title : Option String
  content : Json
  summary : Option String

def Artifact.text (x : Artifact) : ArtifactText := ⟨x.title, x.content, x.summary⟩

def ArtifactUpdateRequest.revise (text : ArtifactText) (body : ArtifactUpdateRequest) :
    ArtifactText :=
  ⟨body.title.map DbM.clipTitle <|> text.title, body.content.join.getD text.content,
    body.summary <|> text.summary⟩

theorem text_apply (body : ArtifactUpdateRequest) (x : Artifact) :
    (body.apply x).text = body.revise x.text := rfl

/-- The review history of one artifact: the latest accepted review, the text at the latest
approval, and the edits accepted since. -/
structure History where
  latest : Option ReviewAction := none
  approved : Option ArtifactText := none
  edits : List ArtifactUpdateRequest := []

namespace History

/-- The history after an accepted request about the artifact `id`. -/
def record (id : Uuid) (db : Db) (h : History) : Request → History
  | .updateArtifact _ _ body => { h with edits := h.edits ++ [body] }
  | .reviewArtifact _ _ _ ⟨approve, _⟩ =>
    { latest := some approve, approved := (db.artifact? id).map Artifact.text }
  | .reviewArtifact _ _ _ ⟨reject, _⟩ => { h with latest := some reject }
  | _ => h

def next (id : Uuid) (h : History) (t : Transition World Action) : History :=
  match t.act with
  | .request r => if r.subject = some id ∧ t.pre.Accepts r then h.record id t.pre.db r else h
  | _ => h

/-- The history of the artifact `id` over a run. -/
def of (tr : List (Transition World Action)) (id : Uuid) : History := tr.foldl (next id) {}

theorem of_snoc (tr : List (Transition World Action)) (t : Transition World Action) (id : Uuid) :
    of (tr ++ [t]) id = (of tr id).next id t := by
  rw [of, List.foldl_append]
  rfl

end History

/-- The status of `x` becomes `published` in the transition. -/
def BecomesPublished (t : Transition World Action) (x : Artifact) : Prop :=
  x.status ≠ .published ∧ ∃ x' ∈ t.post.db.artifacts, x'.id = x.id ∧ x'.status = .published

instance (t : Transition World Action) (x : Artifact) : Decidable (BecomesPublished t x) :=
  inferInstanceAs (Decidable (_ ∧ _))

/-- What is published is approved, with the text of its latest approval. -/
def Gated (tr : List (Transition World Action)) (t : Transition World Action) : Prop :=
  ∀ x ∈ t.pre.db.artifacts, BecomesPublished t x →
    x.status = .approved ∧ (History.of tr x.id).approved = some x.text

/-- What is published was approved by its latest review, and the edits since then cancel out. -/
def Unaltered (tr : List (Transition World Action)) (t : Transition World Action) : Prop :=
  ∀ x ∈ t.pre.db.artifacts, BecomesPublished t x →
    (History.of tr x.id).latest = some approve ∧
      ∀ text, (History.of tr x.id).approved = some text →
        (History.of tr x.id).edits.foldl ArtifactUpdateRequest.revise text = text

/-- How a row reflects its history. -/
structure Artifact.Reflects (x : Artifact) (h : History) : Prop where
  status : x.status ≠ .published → (x.status = .approved ↔ h.latest = some approve)
  text : ∀ text, h.approved = some text →
    x.text = h.edits.foldl ArtifactUpdateRequest.revise text
  approved : h.latest = some approve → h.approved.isSome

/-- Every row reflects its history, and only ids in use have one. -/
structure Reviewed (tr : List (Transition World Action)) (w : World) : Prop where
  rows : ∀ x ∈ w.db.artifacts, x.Reflects (History.of tr x.id)
  unused : ∀ id ∉ w.issued, History.of tr id = {}

section Step

variable {tr : List (Transition World Action)} {w w' : World} {a : Action} {id : Uuid} {h : History}

theorem History.next_of_untouched
    (hn : ∀ r, a = .request r → w.Accepts r → r.subject ≠ some id) :
    h.next id ⟨w, a, w'⟩ = h := by
  unfold History.next
  split
  next r hr =>
    rw [if_neg]
    rintro ⟨hs, hacc⟩
    exact hn r hr hacc hs
  next => rfl

theorem History.next_of_accepted {r : Request} (hs : r.subject = some id) (hr : w.Accepts r) :
    h.next id ⟨w, .request r, w'⟩ = h.record id w.db r := if_pos ⟨hs, hr⟩

theorem reflects_step {x x' : Artifact} (hx : x ∈ w.db.artifacts) (hi : x'.id = x.id)
    (hr : x.Reflects h) (hstep : w.ArtifactStep a x x') :
    x'.Reflects (h.next x'.id ⟨w, a, w'⟩) := by
  rw [hi]
  cases hstep with
  | same hn => rwa [History.next_of_untouched hn]
  | published hn =>
    rw [History.next_of_untouched fun r hreq => absurd hreq (hn r)]
    exact ⟨fun hp => absurd rfl hp, hr.text, hr.approved⟩
  | @edited user body ha hacc =>
    subst ha
    rw [History.next_of_accepted rfl hacc, History.record]
    refine ⟨hr.status, fun text ht => ?_, hr.approved⟩
    rw [text_apply, hr.text text ht, List.foldl_append]
    rfl
  | @approved user ids comment ha hacc =>
    subst ha
    rw [History.next_of_accepted rfl hacc, History.record]
    have hfind : w.db.artifact? x.id = some x := Db.artifact?_eq_some.mpr ⟨hx, rfl⟩
    refine ⟨fun _ => ⟨fun _ => rfl, fun _ => rfl⟩, fun text ht => ?_, fun _ => ?_⟩
    · simp only [hfind, Option.map_some, Option.some.injEq] at ht
      exact ht
    · simp [hfind]
  | @rejected user ids comment ha hacc =>
    subst ha
    rw [History.next_of_accepted rfl hacc, History.record]
    exact ⟨fun _ => ⟨by rintro ⟨⟩, by rintro ⟨⟩⟩, hr.text, by rintro ⟨⟩⟩

theorem reviewed_step (hw : w.Sound) (hr : Reviewed tr w) (hstep : w.step a = some w') :
    Reviewed (tr ++ [⟨w, a, w'⟩]) w' where
  rows x' hx' := by
    rw [History.of_snoc]
    rcases hw.artifacts hstep x' hx' with ⟨x, hx, hi, hxs⟩ | hnew
    · exact reflects_step hx hi (hi ▸ hr.rows x hx) hxs
    · cases hnew with
      | extracted ha _ _ _ hst =>
        have hfresh := (World.fresh_of_step hstep).2 x'.id
          (by rw [ha]; exact List.mem_singleton.mpr rfl)
        rw [History.next_of_untouched (by rw [ha]; rintro _ ⟨⟩), hr.unused _ hfresh]
        exact ⟨fun _ => by rw [hst]; exact ⟨by rintro ⟨⟩, by rintro ⟨⟩⟩, by rintro _ ⟨⟩, by rintro ⟨⟩⟩
  unused id hid := by
    rw [World.issued_of_step hstep, List.mem_append, not_or] at hid
    rw [History.of_snoc, History.next_of_untouched, hr.unused id hid.1]
    intro r _ hacc hs
    obtain ⟨x, hx, rfl⟩ := World.subject_mem hacc hs
    exact hid.1 (hw.artifactId x hx)

theorem reviewed_of_run {now : Timestamp} (hr : SystemRun now tr w) : Reviewed tr w := by
  induction hr with
  | init => exact ⟨fun _ hx => (Table.not_mem_empty _ hx).elim, fun _ _ => rfl⟩
  | snoc hr hstep ih => exact reviewed_step (World.sound_of_run hr) ih hstep

theorem gated_iff {t : Transition World Action} (hr : Reviewed tr t.pre) :
    Gated tr t ↔ Unaltered tr t := by
  refine forall₂_congr fun x hx => ?_
  refine forall_congr' fun hp => ?_
  have hx := hr.rows x hx
  rw [hx.status hp.1]
  refine and_congr_right fun hl => ?_
  obtain ⟨text, ht⟩ := Option.isSome_iff_exists.mp (hx.approved hl)
  rw [hx.text text ht, ht]
  constructor
  · rintro he _ ⟨⟩
    exact (Option.some.inj he).symm
  · intro he
    exact congrArg some (he text rfl).symm

end Step

/-- A run publishes only what was approved, as it was approved, exactly when at each publication
the latest review is an approval and the edits since then cancel out. -/
theorem run_gated_iff {now : Timestamp} {tr : List (Transition World Action)} {w : World}
    (hr : SystemRun now tr w) : Throughout Gated tr ↔ Throughout Unaltered tr :=
  hr.throughout_iff fun _ _ _ _ hr _ _ => gated_iff (reviewed_of_run hr)

/-- One artifact, approved and published without an edit. -/
theorem unaltered_pipeline : ∃ tr w, SystemRun 0 tr w ∧
    (∃ x ∈ w.db.artifacts, x.status = .published) ∧
    (Throughout Gated tr ↔ Throughout Unaltered tr) := by
  obtain ⟨tr, w, hr, hp⟩ := exists_run
    (fun _ (w : World) => decide (∃ x ∈ w.db.artifacts, x.status = .published))
    (show (execute World.step (World.init 0) Replay.published).any _ = true by decide +kernel)
  exact ⟨tr, w, hr, of_decide_eq_true hp, run_gated_iff hr⟩

/-- What is published is approved. -/
def PublishesApproved (t : Transition World Action) : Prop :=
  ∀ x ∈ t.pre.db.artifacts, BecomesPublished t x → x.status = .approved

/-- What is published has the title of its latest approval. -/
def PublishesTitle (tr : List (Transition World Action)) (t : Transition World Action) : Prop :=
  ∀ x ∈ t.pre.db.artifacts, BecomesPublished t x →
    (History.of tr x.id).approved.map (·.title) = some x.title

instance (t : Transition World Action) : Decidable (PublishesApproved t) :=
  inferInstanceAs (Decidable (∀ x ∈ t.pre.db.artifacts, _ → _))

instance (tr : List (Transition World Action)) (t : Transition World Action) :
    Decidable (PublishesTitle tr t) :=
  inferInstanceAs (Decidable (∀ x ∈ t.pre.db.artifacts, _ → _))

/-- Rejected while its publish job waits. -/
def rejectedInBetween : List Action :=
  Replay.pipeline ++ [Replay.review approve 32 40, Replay.publish 32 50,
    Replay.review reject 32 60] ++ Replay.cycle 50 70

/-- Edited while its publish job waits. -/
def editedInBetween : List Action :=
  Replay.pipeline ++ [Replay.review approve 32 40, Replay.publish 32 50,
    Replay.edit 32 { title := some "unread" }] ++ Replay.cycle 50 70

/-- A rejected artifact is published, and a title that no reviewer approved is published. -/
theorem published_unapproved :
    (¬ ∀ now tr w, SystemRun now tr w → Throughout Gated tr) ∧
      (¬ ∀ now tr w, SystemRun now tr w → ∀ t ∈ tr, PublishesApproved t) ∧
      ¬ ∀ now tr w, SystemRun now tr w → Throughout PublishesTitle tr := by
  have happ : ¬ ∀ now tr w, SystemRun now tr w → ∀ t ∈ tr, PublishesApproved t :=
    Replay.refute rejectedInBetween (by decide +kernel)
  refine ⟨fun h => happ fun now tr w hr t ht => ?_, happ,
    Replay.refute editedInBetween (by decide +kernel)⟩
  obtain ⟨i, hi, rfl⟩ := List.getElem_of_mem ht
  exact fun x hx hp => (h now tr w hr i hi x hx hp).1

end AiBadge
