import AiBadge.System.TwinStep

/-! # Deletion jobs beside each other

A worker that comes to the deletion jobs commits what it has left flushed along with them. With its
steps, all steps of the workers keep both sides of a run alike exactly as long as they are contained.
-/

namespace AiBadge

open Lib Prog DbM

namespace World

namespace Beside

variable {c : Scope} {v : User} {w₀ w₁ w₁' : World} {a : Action} {k : WorkerId}

/-- The side without the requests, when the worker comes to the deletion jobs on the other. -/
structure CaughtUp (c : Scope) (k : WorkerId) (w₀ w₁ u : World) (pending : List (Db → Db)) : Prop where
  db : w₀.db.Alike c u.db
  shutdown : (w₁.workers k).shutdown = (u.workers k).shutdown
  phase : (∃ p₀, (u.workers k).phase = .tail p₀ ∧ Leftover u.now p₀ ∧
      (u.session p₀).view.Alike c (w₁.session pending).view) ∨
    (u.workers k).phase = .idle ∧ (w₀.workers k).phase = .idle ∧ Clean c w₁ pending

section Deletions

variable (hb : Beside c v w₀ w₁)
include hb

theorem caughtUp {pending : List (Db → Db)} (hp : (w₁.workers k).phase = .tail pending) :
    CaughtUp c k w₀ w₁ (w₀.first [.markFailed k]) pending := by
  cases hb.alike.workers k with
  | same hsame =>
    have hp₀ := hsame.phase.symm.trans hp
    have hl := hb.ready₀.sound.settled.tail hp₀
    rw [first_markFailed_of_ne (by simp [hp₀])]
    exact ⟨.refl _, hsame.shutdown, .inl ⟨pending, hp₀, hl, alike_view hb.alike.db hl⟩⟩
  | aside ha₀ hn ha₁ hsd =>
    have hmark : StepsAside c k w₀ (w₀.first [.markFailed k]) :=
      Leaving.markFailed.first hb.ready₀.sound ha₀
    rw [hp] at ha₁
    cases ha₁ with
    | tail hc =>
      refine ⟨hmark.db, hsd.trans hmark.shutdown.symm, ?_⟩
      rcases ha₀.marked hn with ⟨hidle, he⟩ | ⟨p₀, hp₀⟩
      · exact .inr ⟨he.symm ▸ hidle, hidle, hc⟩
      · have ha := hmark.phase
        rw [hp₀] at ha
        cases ha with
        | tail hc₀ =>
          refine .inl ⟨p₀, hp₀, hc₀.leftover, ?_⟩
          exact (hc₀.alike.symm.trans hmark.db.symm).trans (hb.alike.db.trans hc.alike)

/-- A deletion job of the session is the same on both sides. -/
theorem due_own {d : DeletionJob} (hd : d ∈ w₁.db.deletionJobs) (hs : d.sessionId = some c.sessionId)
    (hst : d.status = .pending) (hn : (d.nextRunAt.all fun t => decide (t ≤ w₁.now)) = true) :
    d ∈ (w₀.first [.markFailed k]).db.deletionJobs ∧
      (d.nextRunAt.all fun t => decide (t ≤ (w₀.first [.markFailed k]).now)) = true ∧
        w₀.Due d.id := by
  have hd₀ := (hb.alike.db.mem_deletionJob hs).mpr hd
  rw [hb.alike.now] at hn
  obtain ⟨hdj, hnow, -⟩ := first_markFailed (w := w₀) (k := k)
  exact ⟨hdj ▸ hd₀, hnow ▸ hn, d, hd₀, rfl, hst, hn⟩

/-- A deletion job of the session, on the files of both sides. -/
theorem writes_own {d : DeletionJob} (remove : Remove) (hd : d ∈ w₁.db.deletionJobs)
    (hs : d.sessionId = some c.sessionId) :
    (deletionWrites remove d w₁.files).1 =
        (deletionWrites remove d (w₀.first [.markFailed k]).files).1 ∧
      ∀ key, c.keys key → (key ∈ (deletionWrites remove d (w₀.first [.markFailed k]).files).2 ↔
        key ∈ (deletionWrites remove d w₁.files).2) := by
  rw [(first_markFailed (w := w₀) (k := k)).2.2]
  have htarget : ∀ key, d.target? = some key → (key ∈ w₀.files ↔ key ∈ w₁.files) :=
    fun key hk => hb.alike.files key ((hb.ready₁.targets d hd key hk).mpr hs)
  exact ⟨(deletionWrites_files htarget).1,
    fun key hk => (deletionWrites_files htarget).2 key (hb.alike.files key hk)⟩

theorem processDeletion_own {d : DeletionJob} {pending : List (Db → Db)} {locked : List Uuid}
    {remove : Remove} (h : w₁.step (.processDeletion k d.id locked remove) = some w₁')
    (hp : (w₁.workers k).phase = .tail pending)
    (he : w₁' = { w₁.setWorker k { w₁.workers k with phase := .idle } with
      db := (w₁.deletionTx pending d remove).committed
      files := (w₁.deletionTx pending d remove).outside
      issued := w₁.issued ++ [] })
    (hd : d ∈ w₁.db.deletionJobs) (hs : d.sessionId = some c.sessionId) (hst : d.status = .pending)
    (hn : (d.nextRunAt.all fun t => decide (t ≤ w₁.now)) = true)
    (hidle : (w₀.workers k).phase ≠ .idle) :
    World.Alike c (w₀.follow (.processDeletion k d.id locked remove)) w₁' := by
  have hup := hb.caughtUp hp
  obtain ⟨hd₀, hn₀, -⟩ := hb.due_own (k := k) hd hs hst hn
  rcases hup.phase with ⟨p₀, hp₀, hl, hv⟩ | ⟨-, hi, -⟩
  · have h₀ : w₀.follow (.processDeletion k d.id locked remove) = _ :=
      first_of_step (step_processDeletion hp₀ hl hd₀ hst hn₀)
    obtain ⟨hw, hf⟩ := hb.writes_own (k := k) remove hd hs
    have hw₁ : w₁'.workers k = { w₁.workers k with phase := .idle } := by
      rw [he]
      exact setWorker_self
    have hw₀ : (w₀.follow (.processDeletion k d.id locked remove)).workers k =
        { (w₀.first [.markFailed k]).workers k with phase := .idle } := by
      rw [h₀]
      exact setWorker_self
    refine hb.alike_at (p := .idle) h rfl rfl (congrArg Worker.phase hw₀) (congrArg Worker.phase hw₁) ?_ ?_ ?_
    · rw [hw₀, hw₁]
      exact hup.shutdown
    · rw [h₀, he]
      simp only [deletionTx_eq]
      rw [hw]
      exact hv.deletionWrites
    · rw [h₀, he]
      simp only [deletionTx_eq]
      exact hf
  · exact absurd hi hidle

/-- A deletion job of another session, as far as the side without the requests goes. -/
theorem processDeletion_base {job : Uuid} {pending : List (Db → Db)} (locked : List Uuid)
    (remove : Remove) (hp : (w₁.workers k).phase = .tail pending)
    (hs : ∀ d ∈ w₀.db.deletionJobs, d.id = job → d.sessionId ≠ some c.sessionId) :
    ((w₀.follow (.processDeletion k job locked remove)).workers k).phase = .idle ∧
      (w₁.workers k).shutdown =
        ((w₀.follow (.processDeletion k job locked remove)).workers k).shutdown ∧
      (∀ key, c.keys key → (key ∈ (w₀.follow (.processDeletion k job locked remove)).files ↔
        key ∈ w₀.files)) ∧
      ((w₀.Due job ∨ Clean c w₁ pending) ∧
          (w₀.follow (.processDeletion k job locked remove)).db.Alike c (w₁.session pending).view ∨
        ¬ w₀.Due job ∧ (w₀.follow (.processDeletion k job locked remove)).db.Alike c w₁.db) := by
  have hup := hb.caughtUp hp
  have hready : Ready c v (w₀.first [.markFailed k]) := hb.ready₀.first (by simp)
  obtain ⟨hdj, hnow, hfiles⟩ := first_markFailed (w := w₀) (k := k)
  have hfol : w₀.follow (.processDeletion k job locked remove) =
    (w₀.first [.markFailed k]).first [.processDeletion k job
      ((w₀.first [.markFailed k]).deletionIds.filter (· ≠ job)) remove, .endCycle k] := rfl
  rw [hfol]
  have hdue : (w₀.first [.markFailed k]).Due job ↔ w₀.Due job := by
    rw [Due, Due, hdj, hnow]
  generalize w₀.first [.markFailed k] = u at hup hready hdj hfiles hdue
  rw [← hdj] at hs
  rw [← hdue]
  rcases hup.phase with ⟨p₀, hp₀, hl, hv⟩ | ⟨hi, -, hc⟩
  · by_cases hdu : u.Due job
    · obtain ⟨d, hd, rfl, hst, hn⟩ := hdu
      rw [first_of_step (step_processDeletion hp₀ hl hd hst hn)]
      obtain ⟨hdb, hf⟩ := hready.writes_other remove hd (hs d hd rfl) hl
      simp only [setWorker_self, deletionTx_eq]
      exact ⟨trivial, hup.shutdown, fun key hk => hfiles ▸ hf key hk,
        .inl ⟨.inl ⟨d, hd, rfl, hst, hn⟩, hdb.symm.trans hv⟩⟩
    · have hnone : u.step (.processDeletion k job (u.deletionIds.filter (· ≠ job)) remove) = none :=
        Option.eq_none_iff_forall_ne_some.mpr fun _ h =>
          hdu (due_of_processDeletion hready.sound.settled h)
      have hend : u.step (.endCycle k) = some (u.setWorker k { u.workers k with phase := .idle }) := by
        refine step_of_act rfl ?_ rfl
        simp only [act, hp₀]
      rw [first_of_none hnone, first_of_step hend]
      simp only [setWorker_self]
      exact ⟨trivial, hup.shutdown, fun key _ => iff_of_eq (congrArg (key ∈ ·) hfiles),
        .inr ⟨hdu, hup.db.symm.trans hb.alike.db⟩⟩
  · have hnone : u.step (.processDeletion k job (u.deletionIds.filter (· ≠ job)) remove) = none :=
      step_of_act_none (by simp only [act, hi])
    have hend : u.step (.endCycle k) = none := step_of_act_none (by simp only [act, hi])
    rw [first_of_none hnone, first_of_none hend, first_nil]
    exact ⟨hi, hup.shutdown, fun key _ => iff_of_eq (congrArg (key ∈ ·) hfiles),
      .inl ⟨.inr hc, (hup.db.symm.trans hb.alike.db).trans hc.alike⟩⟩

/-- A deletion job of the session that comes late is done on one side only. -/
theorem not_alike_of_late {d : DeletionJob} {locked : List Uuid} {remove : Remove}
    (h : w₁.step (.processDeletion k d.id locked remove) = some w₁')
    (hd : d ∈ w₁.db.deletionJobs) (hs : d.sessionId = some c.sessionId) (hst : d.status = .pending)
    (hi : (w₀.workers k).phase = .idle) :
    ¬ (w₀.follow (.processDeletion k d.id locked remove)).db.Alike c w₁'.db := by
  intro hdb
  have hfol : w₀.follow (.processDeletion k d.id locked remove) = w₀ := by
    have hnone (b : Action) (hb : w₀.act b = none) : w₀.step b = none := step_of_act_none hb
    simp only [follow, first_markFailed_of_idle hi]
    rw [first_of_none (hnone _ (by simp only [act, hi])), first_of_none (hnone _ (by simp only [act, hi])),
      first_nil]
  rw [hfol] at hdb
  have hd' : d ∈ w₁'.db.deletionJobs := (hdb.mem_deletionJob hs).mp ((hb.alike.db.mem_deletionJob hs).mpr hd)
  have heff := effect_of_step h
  generalize hid : d.id = job at heff
  generalize w₁'.db = db at heff hd'
  generalize w₁'.files = files at heff
  cases heff with
  | deletion _ _ he => exact he.processed hd' hid hst
  | silent hn => exact hn.elim

/-- The deletion job does not come late, and it is due without the requests as well, or what its commit
takes along does not leak. -/
theorem processDeletion {job : Uuid} {locked : List Uuid} {remove : Remove}
    (h : w₁.step (.processDeletion k job locked remove) = some w₁') :
    (Twin.Contained c.sessionId ⟨w₀, w₁⟩ (.processDeletion k job locked remove) →
        World.Alike c (w₀.follow (.processDeletion k job locked remove)) w₁') ∧
      ((w₀.follow (.processDeletion k job locked remove)).db.Alike c w₁'.db →
        Twin.Contained c.sessionId ⟨w₀, w₁⟩ (.processDeletion k job locked remove)) := by
  obtain ⟨-, u, hact, he⟩ := step_eq_some.mp h
  obtain ⟨pending, d, hp, ⟨hd, rfl⟩, rfl⟩ := act_processDeletion hact
  have hl := hb.ready₁.sound.settled.tail hp
  obtain ⟨hdm, hst, hn⟩ := due_of_candidate hl hd
  by_cases hs : d.sessionId = some c.sessionId
  · obtain ⟨-, -, hdue⟩ := hb.due_own (k := k) hdm hs hst hn
    constructor
    · rintro ⟨hlate, -⟩
      exact hb.processDeletion_own h hp he hdm hs hst hn fun hi => hlate ⟨hi, d, hdm, rfl, hs⟩
    · exact fun hdb => ⟨fun hlate => hb.not_alike_of_late h hdm hs hst hlate.1 hdb, .inl hdue⟩
  have hnl : ¬ Twin.Late c.sessionId ⟨w₀, w₁⟩ k d.id := by
    rintro ⟨-, r, hr, hri, hrs⟩
    exact hs (Table.eq_of_key_eq hr hdm hri ▸ hrs)
  have hs₀ : ∀ r ∈ w₀.db.deletionJobs, r.id = d.id → r.sessionId ≠ some c.sessionId := by
    intro r hr hi hrs
    exact hs (Table.eq_of_key_eq ((hb.alike.db.mem_deletionJob hrs).mp hr) hdm hi ▸ hrs)
  obtain ⟨hph, hsd, hf₀, hdb₀⟩ := hb.processDeletion_base locked remove hp hs₀
  obtain ⟨hdb₁, hf₁⟩ := hb.ready₁.writes_other remove hdm hs hl
  have hw₁ : w₁'.workers k = { w₁.workers k with phase := .idle } := by
    rw [he]
    exact setWorker_self
  have hres : (w₁.session pending).view.Alike c w₁'.db := by
    rw [he]
    simp only [deletionTx_eq]
    exact hdb₁
  have hfiles : ∀ key, c.keys key → (key ∈ (w₀.follow (.processDeletion k d.id locked remove)).files ↔
      key ∈ w₁'.files) := by
    intro key hk
    rw [he]
    simp only [deletionTx_eq]
    exact ((hf₀ key hk).trans (hb.alike.files key hk)).trans (hf₁ key hk).symm
  have hend (hdb : (w₀.follow (.processDeletion k d.id locked remove)).db.Alike c w₁'.db) :
      World.Alike c (w₀.follow (.processDeletion k d.id locked remove)) w₁' :=
    hb.alike_at h rfl rfl hph (congrArg Worker.phase hw₁) (hw₁ ▸ hsd) hdb hfiles
  have hclean (hc : w₁.db.Alike c (w₁.session pending).view) :
      ∀ q, (w₁.workers k).phase = .tail q → ¬ w₁.Leaks c.sessionId q := by
    intro q hq
    obtain rfl := Phase.tail.inj (hp.symm.trans hq)
    exact (alike_view_iff hl).mp hc
  rcases hdb₀ with ⟨hor, hv⟩ | ⟨hnd, hdb⟩
  · exact ⟨fun _ => hend (hv.trans hres), fun _ => ⟨hnl, hor.imp_right fun hc => hclean hc.alike⟩⟩
  · constructor
    · rintro ⟨-, hdue | hn⟩
      · exact absurd hdue hnd
      · exact hend (hdb.trans (((alike_view_iff hl).mpr (hn pending hp)).trans hres))
    · exact fun h => ⟨hnl, .inr (hclean ((hdb.symm.trans h).trans hres.symm))⟩

/-- A crash in the middle of a deletion job leaves the database alone. -/
theorem crashDeleting {job : Uuid} {locked : List Uuid} {remove : Remove}
    (h : w₁.step (.crashDeleting k job locked remove) = some w₁') :
    (Twin.Contained c.sessionId ⟨w₀, w₁⟩ (.crashDeleting k job locked remove) →
        World.Alike c (w₀.follow (.crashDeleting k job locked remove)) w₁') ∧
      ((∀ key, c.keys key →
          (key ∈ (w₀.follow (.crashDeleting k job locked remove)).files ↔ key ∈ w₁'.files)) →
        Twin.Contained c.sessionId ⟨w₀, w₁⟩ (.crashDeleting k job locked remove)) := by
  obtain ⟨-, u, hact, he⟩ := step_eq_some.mp h
  obtain ⟨pending, d, hp, ⟨hd, rfl⟩, rfl⟩ := act_crashDeleting hact
  have hl := hb.ready₁.sound.settled.tail hp
  obtain ⟨hdm, hst, hn⟩ := due_of_candidate hl hd
  have hup := hb.caughtUp hp
  have hready : Ready c v (w₀.first [.markFailed k]) := hb.ready₀.first (by simp)
  have hw₁ : w₁'.workers k = { w₁.workers k with phase := .crashed, beat := none } := by
    rw [he]
    exact setWorker_self
  have hcrash (u : World) : u.first [.crash k] =
      u.setWorker k { u.workers k with phase := .crashed, beat := none } :=
    first_of_step (step_of_act rfl rfl rfl)
  suffices hfol : ∃ files issued, w₀.follow (.crashDeleting k d.id locked remove) =
      { (w₀.first [.markFailed k]).setWorker k { (w₀.first [.markFailed k]).workers k with
          phase := .crashed, beat := none } with files, issued } ∧
        ((∀ key, c.keys key → (key ∈ files ↔ key ∈ w₁'.files)) ↔
          Twin.Contained c.sessionId ⟨w₀, w₁⟩ (.crashDeleting k d.id locked remove)) by
    obtain ⟨files, issued, h₀, hf⟩ := hfol
    refine ⟨fun hc => ?_, fun hkeys => hf.mp (by rwa [h₀] at hkeys)⟩
    have hw₀ : (w₀.follow (.crashDeleting k d.id locked remove)).workers k =
        { (w₀.first [.markFailed k]).workers k with phase := .crashed, beat := none } := by
      rw [h₀]
      exact setWorker_self
    refine hb.alike_at (p := .crashed) h rfl rfl (congrArg Worker.phase hw₀)
      (congrArg Worker.phase hw₁) ?_ ?_ ?_
    · rw [hw₀, hw₁]
      exact hup.shutdown
    · rw [h₀, he]
      exact hup.db.symm.trans hb.alike.db
    · rw [h₀]
      exact hf.mpr hc
  have hfiles : w₁'.files = (deletionWrites remove d w₁.files).2 := by
    rw [he]
    exact deletionTx_eq.2
  rw [hfiles]
  by_cases hs : d.sessionId = some c.sessionId
  · obtain ⟨hd₀, hn₀, -⟩ := hb.due_own (k := k) hdm hs hst hn
    rcases hup.phase with ⟨p₀, hp₀, hl₀, -⟩ | ⟨hi, hi₀, -⟩
    · refine ⟨_, _, first_of_step (step_crashDeleting hp₀ hl₀ hd₀ hst hn₀), iff_of_true ?_ ?_⟩
      · rw [deletionTx_eq.2]
        exact (hb.writes_own remove hdm hs).2
      · rintro ⟨hi, -⟩
        rw [first_markFailed_of_idle hi] at hp₀
        cases hi.symm.trans hp₀
    · have hnone : (w₀.first [.markFailed k]).step (.crashDeleting k d.id
          ((w₀.first [.markFailed k]).deletionIds.filter (· ≠ d.id)) remove) = none :=
        step_of_act_none (by simp only [act, hi])
      refine ⟨_, _, (first_of_none hnone).trans (hcrash _), ?_⟩
      rw [first_markFailed_of_idle hi₀]
      constructor
      · rintro hkeys - ⟨r, hr, hri, key, hkey, ht, hok⟩
        obtain rfl := Table.eq_of_key_eq hr hdm hri
        have hc : c.keys key := (hb.ready₁.targets r hr key ht).mpr hs
        have hleft := (hkeys key hc).mp ((hb.alike.files key hc).mpr hkey)
        exact (mem_files_deletionWrites_iff.mp hleft).2 ⟨ht, hok⟩
      · intro hc key hk
        rw [mem_files_deletionWrites_iff, ← hb.alike.files key hk]
        refine ⟨fun hkey => ⟨hkey, fun ht => ?_⟩, And.left⟩
        refine hc ⟨hi₀, d, hdm, rfl, hs⟩ ⟨d, hdm, rfl, key, (hb.alike.files key hk).mp hkey, ht⟩
  · have hnl : ¬ Twin.Late c.sessionId ⟨w₀, w₁⟩ k d.id := by
      rintro ⟨-, r, hr, hri, hrs⟩
      exact hs (Table.eq_of_key_eq hr hdm hri ▸ hrs)
    have hnot : Twin.Contained c.sessionId ⟨w₀, w₁⟩ (.crashDeleting k d.id locked remove) :=
      fun hlate => absurd hlate hnl
    have hf₁ := (hb.ready₁.writes_other remove hdm hs hl).2
    have hf₀ : ∀ key, c.keys key → (key ∈ (w₀.first [.markFailed k]).files ↔ key ∈ w₁.files) :=
      fun key hk => (first_markFailed (w := w₀) (k := k)).2.2 ▸ hb.alike.files key hk
    have hfol : w₀.follow (.crashDeleting k d.id locked remove) =
      (w₀.first [.markFailed k]).first [.crashDeleting k d.id
        ((w₀.first [.markFailed k]).deletionIds.filter (· ≠ d.id)) remove, .crash k] := rfl
    rw [hfol]
    cases hc : (w₀.first [.markFailed k]).step (.crashDeleting k d.id
        ((w₀.first [.markFailed k]).deletionIds.filter (· ≠ d.id)) remove) with
    | none =>
      rw [first_of_none hc, hcrash]
      exact ⟨_, _, rfl, iff_of_true (fun key hk => (hf₀ key hk).trans (hf₁ key hk).symm) hnot⟩
    | some u =>
      obtain ⟨-, u, hact, rfl⟩ := step_eq_some.mp hc
      obtain ⟨q, r, hq, ⟨hr, hri⟩, rfl⟩ := act_crashDeleting hact
      have hlq := hready.sound.settled.tail hq
      obtain ⟨hrm, -, -⟩ := due_of_candidate hlq hr
      have hrs : r.sessionId ≠ some c.sessionId := by
        intro hrs
        have hrm₀ := (first_markFailed (w := w₀) (k := k)).1 ▸ hrm
        exact hs (Table.eq_of_key_eq ((hb.alike.db.mem_deletionJob hrs).mp hrm₀) hdm hri ▸ hrs)
      rw [first_of_step hc]
      refine ⟨_, _, rfl, iff_of_true (fun key hk => ?_) hnot⟩
      rw [deletionTx_eq.2]
      exact (((hready.writes_other remove hrm hrs hlq).2 key hk).trans (hf₀ key hk)).trans
        (hf₁ key hk).symm

/-- A step that is no request keeps both sides alike exactly when it is contained. -/
theorem contained (hn : ∀ r, a ≠ .request r) (h : w₁.step a = some w₁') :
    (Twin.Contained c.sessionId ⟨w₀, w₁⟩ a → World.Alike c (w₀.follow a) w₁') ∧
      ((w₀.follow a).db.Alike c w₁'.db →
        (∀ key, c.keys key → (key ∈ (w₀.follow a).files ↔ key ∈ w₁'.files)) →
          Twin.Contained c.sessionId ⟨w₀, w₁⟩ a) := by
  cases a with
  | request r => exact absurd rfl (hn r)
  | tick => exact ⟨fun _ => hb.tick h, fun _ _ => trivial⟩
  | beginCycle => exact ⟨fun _ => hb.beginCycle h, fun _ _ => trivial⟩
  | claim k job locked =>
    by_cases hc : w₀.Claimable job
    · exact ⟨fun _ => hb.claim_both hc h, fun _ _ => .inl hc⟩
    · obtain ⟨hto, hof⟩ := hb.claim_brought hc h
      exact ⟨fun ht => hto (ht.resolve_left hc), fun hdb _ => .inr (hof hdb)⟩
  | claimNone => exact ⟨fun _ => hb.claimNone h, fun _ _ => trivial⟩
  | runHandler => exact ⟨fun _ => hb.runHandler h, fun _ _ => trivial⟩
  | markFailed => exact ⟨fun _ => hb.markFailed h, fun _ _ => trivial⟩
  | heartbeat => exact ⟨fun _ => hb.heartbeat h, fun _ _ => trivial⟩
  | signal => exact ⟨fun _ => hb.signal h, fun _ _ => trivial⟩
  | processDeletion =>
    obtain ⟨hto, hof⟩ := hb.processDeletion h
    exact ⟨hto, fun hdb _ => hof hdb⟩
  | endCycle => exact ⟨fun _ => hb.endCycle h, fun _ _ => trivial⟩
  | crash => exact ⟨fun _ => hb.crash h, fun _ _ => trivial⟩
  | crashDeleting =>
    obtain ⟨hto, hof⟩ := hb.crashDeleting h
    exact ⟨hto, fun _ hf => hof hf⟩

end Deletions

end Beside

end World

end AiBadge
