import AiBadge.Properties.DeviceOwnership
import AiBadge.Properties.Erasure
import AiBadge.Storage.Local

/-! # The audio files on disk

The set of keys that the model keeps is what lies on the disk: each file under its path, with the
bytes of its one upload, and nothing outside of the storage directory is touched. The recording of
a session is the file of its last upload until a retraction takes it away.
-/

namespace AiBadge

open Lib Prog DbM SessionStatus

namespace World

/-- The file that an action removes. -/
def removed? (w : World) : Action → Option AudioKey
  | .processDeletion k job locked remove | .crashDeleting k job locked remove =>
    match (w.workers k).phase with
    | .tail pending => (w.deletionCandidate pending job locked).bind fun d =>
        d.target?.bind fun key => if (remove key).isOk then some key else none
    | _ => none
  | _ => none

/-- What an action does to the disk. A key is drawn for one upload, and `content` is the bytes of
that upload. -/
def diskStep {β : Type} (basePath : List Char) (content : AudioKey → β) (w : World) (a : Action)
    (d : Disk β) : Disk β :=
  match w.saved? a, w.removed? a with
  | some (_, key), _ => LocalStorage.save basePath key.text (content key) d
  | none, some key => LocalStorage.delete basePath key.text d
  | none, none => d

variable {w w' : World} {a : Action} {key : AudioKey} {sid : Uuid}
  {tr : List (Transition World Action)}

/-- The session that the deletion half of a poll cycle leaves on the disk. -/
theorem outside_deletionTx {pending : List (Db → Db)} {d : DeletionJob} {remove : Remove} :
    (w.deletionTx pending d remove).outside =
      match d.target?.bind fun key => if (remove key).isOk then some key else none with
      | some key => w.files.filter (· ≠ key)
      | none => w.files := by
  have h : (w.deletionTx pending d remove).outside = (deletionWrites remove d w.files).2 :=
    processDeletion_endsWith.2
  rw [h, deletionWrites, DeletionJob.target?]
  cases hty : d.resourceType with
  | deleteLocalAudio =>
    rw [if_pos rfl]
    simp only [audioAnswer]
    cases hkey : d.cascadeTargets.bind (·.audioKey) with
    | none => rfl
    | some key =>
      simp only [Option.bind_some]
      by_cases hk : key ∈ w.files
      · rw [if_pos hk]
        cases remove key with
        | ok => rfl
        | error => rfl
      · -- a file that is gone needs no removal
        have hsame : w.files.filter (· ≠ key) = w.files := by
          apply List.filter_eq_self.mpr
          intro k hm
          have hne : k ≠ key := fun he => hk (he ▸ hm)
          simpa using hne
        rw [if_neg hk]
        simp only [eraseAudio, hsame]
        cases remove key with
        | ok => exact hsame.symm
        | error => rfl
  | _ => rfl

theorem files_of_deletion {k : WorkerId} {job : Uuid} {locked : List Uuid} {remove : Remove}
    {pending : List (Db → Db)} {d : DeletionJob} (hp : (w.workers k).phase = .tail pending)
    (hd : w.deletionCandidate pending job locked = some d) :
    (w.deletionTx pending d remove).outside =
      match w.removed? (.processDeletion k job locked remove) with
      | some key => w.files.filter (· ≠ key)
      | none => w.files := by
  rw [outside_deletionTx]
  simp only [removed?, hp, hd, Option.bind_some]

/-- The set of stored keys over one step. -/
theorem files_of_step (h : w.step a = some w') :
    w'.files = match w.saved? a, w.removed? a with
      | some (_, key), _ => key :: w.files
      | none, some key => w.files.filter (· ≠ key)
      | none, none => w.files := by
  obtain ⟨-, w₁, hact, rfl⟩ := step_eq_some.mp h
  change w₁.files = _
  cases a with
  | request r =>
    obtain rfl := Option.some.inj hact
    rcases serve_files w r with ⟨s, key, hs, hf⟩ | ⟨hn, hf⟩
    · rw [hf, saved?_request.mpr ⟨s, hs, rfl⟩]
    · have hnone : w.saved? (.request r) = none := by
        apply Option.eq_none_iff_forall_ne_some.mpr
        intro p hp
        obtain ⟨s, hs, -⟩ := saved?_request.mp hp
        exact hn s p.2 hs
      rw [hf, hnone]
      rfl
  | processDeletion k job locked remove =>
    simp only [act] at hact
    split at hact
    next pending hp =>
      obtain ⟨d, hd, rfl⟩ := Option.map_eq_some_iff.mp hact
      refine (files_of_deletion hp hd).trans ?_
      cases w.removed? (.processDeletion k job locked remove) <;> rfl
    next => cases hact
  | crashDeleting k job locked remove =>
    have hremoved : w.removed? (.crashDeleting k job locked remove) =
        w.removed? (.processDeletion k job locked remove) := rfl
    simp only [act] at hact
    split at hact
    next pending hp =>
      obtain ⟨d, hd, rfl⟩ := Option.map_eq_some_iff.mp hact
      refine (files_of_deletion hp hd).trans ?_
      rw [hremoved]
      cases w.removed? (.processDeletion k job locked remove) <;> rfl
    next => cases hact
  | _ =>
    have he := effect_of_act hact
    generalize w₁.files = files at he
    generalize w₁.db = db at he
    cases he <;> rfl

theorem valid_of_saved (h : w.saved? a = some (sid, key)) : key.Valid := by
  unfold saved? at h
  split at h
  next =>
    split at h
    next =>
      cases h
      exact getAudioFormat_mem _ _
    next => cases h
  next => cases h

/-- The key that an accepted upload to the session is stored under. -/
def uploaded? (w : World) (sid : Uuid) : Action → Option AudioKey
  | .request (.uploadAudio user uuid4 (some id) file) =>
    if id = sid ∧ w.Accepts (.uploadAudio user uuid4 (some id) file) then
      some ⟨uuid4, getAudioFormat file.filename file.contentType⟩
    else none
  | _ => none

theorem uploaded?_eq_some : w.uploaded? sid a = some key ↔ ∃ user uuid4 file,
    a = .request (.uploadAudio user uuid4 (some sid) file) ∧
      w.Accepts (.uploadAudio user uuid4 (some sid) file) ∧
        key = ⟨uuid4, getAudioFormat file.filename file.contentType⟩ := by
  constructor
  · intro h
    unfold uploaded? at h
    split at h
    next user uuid4 id file =>
      split at h
      next hc =>
        obtain ⟨rfl, hacc⟩ := hc
        exact ⟨user, uuid4, file, rfl, hacc, (Option.some.inj h).symm⟩
      next => cases h
    next => cases h
  · rintro ⟨user, uuid4, file, rfl, hacc, rfl⟩
    exact if_pos ⟨rfl, hacc⟩

end World

/-- The disk after a run. -/
def diskAfter {β : Type} (basePath : List Char) (content : AudioKey → β) (d₀ : Disk β)
    (tr : List (Transition World Action)) : Disk β :=
  tr.foldl (fun d t => t.pre.diskStep basePath content t.act d) d₀

/-- The keys of the accepted uploads to a session, in order. -/
def uploads (tr : List (Transition World Action)) (sid : Uuid) : List AudioKey :=
  tr.filterMap fun t => t.pre.uploaded? sid t.act

section Run

variable {β : Type} {basePath : List Char} {content : AudioKey → β} {d d₀ : Disk β}
  {w w' : World} {a : Action} {key : AudioKey} {sid : Uuid} {now : Timestamp}
  {tr : List (Transition World Action)}

@[simp] theorem diskAfter_snoc {t : Transition World Action} :
    diskAfter basePath content d₀ (tr ++ [t]) =
      t.pre.diskStep basePath content t.act (diskAfter basePath content d₀ tr) := by
  simp [diskAfter]

@[simp] theorem uploads_snoc {t : Transition World Action} :
    uploads (tr ++ [t]) sid = uploads tr sid ++ (t.pre.uploaded? sid t.act).toList := by
  rw [uploads, List.filterMap_append]
  cases h : t.pre.uploaded? sid t.act <;> simp [uploads, h]

/-- The disk holds exactly the stored keys, each with its content. -/
abbrev OnDisk (basePath : List Char) (content : AudioKey → β) (files : Files) (d₀ d : Disk β) :
    Prop :=
  Mirrors AudioKey.Valid (fun key => LocalStorage.path basePath key.text) content files d₀ d

theorem onDisk_step (h : w.step a = some w') (hvalid : ∀ key, w.removed? a = some key → key.Valid)
    (hd : OnDisk basePath content w.files d₀ d) :
    OnDisk basePath content w'.files d₀ (w.diskStep basePath content a d) := by
  rw [World.files_of_step h, World.diskStep]
  have hinj : ∀ k k' : AudioKey, k.Valid → k'.Valid → LocalStorage.path basePath k.text =
      LocalStorage.path basePath k'.text → k = k' := fun _ _ => AudioKey.path_inj
  cases hs : w.saved? a with
  | some p => exact hd.write hinj (World.valid_of_saved hs)
  | none =>
    cases hr : w.removed? a with
    | some key =>
      simp only [LocalStorage.delete_eq]
      exact hd.remove hinj (hvalid key hr)
    | none => exact hd

theorem target_of_removed (hw : w.Settled) (h : w.removed? a = some key) :
    ∃ d ∈ w.db.deletionJobs, d.target? = some key := by
  have found {k : WorkerId} {job : Uuid} {locked : List Uuid} {remove : Remove}
      (h : w.removed? (.processDeletion k job locked remove) = some key) :
      ∃ d ∈ w.db.deletionJobs, d.target? = some key := by
    simp only [World.removed?] at h
    split at h
    next pending hp =>
      obtain ⟨d, hd, h⟩ := Option.bind_eq_some_iff.mp h
      obtain ⟨key', ht, h⟩ := Option.bind_eq_some_iff.mp h
      refine ⟨d, (hw.candidate hp (World.deletionCandidate_eq_some hd).1).1, ?_⟩
      split at h
      · rw [ht, Option.some.inj h]
      · cases h
    next => cases h
  cases a with
  | processDeletion => exact found h
  | crashDeleting => exact found h
  | _ => cases h

theorem valid_of_savedKeys (h : key ∈ savedKeys tr sid) : key.Valid := by
  obtain ⟨t, -, ht⟩ := List.mem_filterMap.mp h
  obtain ⟨⟨sid', key'⟩, hs, hp⟩ := Option.bind_eq_some_iff.mp ht
  split at hp
  · obtain rfl := Option.some.inj hp
    exact World.valid_of_saved hs
  · cases hp

theorem onDisk_of_run (hd₀ : ∀ key : AudioKey, key.Valid →
      d₀ (LocalStorage.path basePath key.text) = none) (hr : SystemRun now tr w) :
    OnDisk basePath content w.files d₀ (diskAfter basePath content d₀ tr) := by
  induction hr with
  | init => exact Mirrors.start hd₀
  | snoc hr hstep ih =>
    rw [diskAfter_snoc]
    apply onDisk_step hstep ?_ ih
    intro key hk
    obtain ⟨d, hd, ht⟩ := target_of_removed (World.sound_of_run hr).settled hk
    obtain ⟨sid, -, hs, -⟩ := (traced_of_run hr).targeted d hd key ht
    exact valid_of_savedKeys hs

/-- An accepted upload gives the session its key. -/
theorem audioKey_of_uploaded {s' : Session} (h : w.step a = some w')
    (hu : w.uploaded? sid a = some key) (hs' : s' ∈ w'.db.sessions) (hi : s'.id = sid) :
    s'.audioKey = some key := by
  obtain ⟨user, uuid4, file, rfl, hacc, rfl⟩ := World.uploaded?_eq_some.mp hu
  obtain ⟨-, w₁, hact, rfl⟩ := World.step_eq_some.mp h
  obtain rfl := Option.some.inj hact
  have he := serve_of_accepts hacc
  change s' ∈ (w.serve _).db.sessions at hs'
  generalize (w.serve _).db = db at he hs'
  generalize hid : some sid = id at he
  cases he with
  | @uploadAudio _ _ s _ hs =>
    obtain rfl := Option.some.inj hid
    have hrow : s' = s.withAudio ⟨uuid4, getAudioFormat file.filename file.contentType⟩
        file.size := by
      apply Table.eq_of_mem_update hs hs' hi
      intro; rfl
    rw [hrow]
    rfl

/-- The recording of a session is its last accepted upload. -/
structure Recorded (tr : List (Transition World Action)) (w : World) : Prop where
  fresh : ∀ sid, sid ∉ w.issued → uploads tr sid = []
  last : ∀ s ∈ w.db.sessions, s.audioKey = (uploads tr s.id).getLast?

theorem recorded_init (now : Timestamp) : Recorded [] (World.init now) where
  fresh _ _ := rfl
  last _ h := (Table.not_mem_empty _ h).elim

theorem Recorded.step (hw : w.Sound) (hids : ∀ s ∈ w.db.sessions, s.id ∈ w.issued)
    (h : w.step a = some w') (hrec : Recorded tr w) : Recorded (tr ++ [⟨w, a, w'⟩]) w' := by
  have unseen (sid : Uuid) (hsid : sid ∉ w.issued) : w.uploaded? sid a = none := by
    apply Option.eq_none_iff_forall_ne_some.mpr
    intro key hu
    obtain ⟨user, uuid4, file, -, hacc, -⟩ := World.uploaded?_eq_some.mp hu
    obtain ⟨s, ⟨_, _, _, -, -, hs, -⟩, rfl⟩ :=
      World.saved?_request.mp (World.saved?_of_accepts hacc)
    exact hsid (hids s hs)
  constructor
  · intro sid hsid
    rw [World.issued_of_step h, List.mem_append, not_or] at hsid
    rw [uploads_snoc, hrec.fresh sid hsid.1, unseen sid hsid.1]
    rfl
  · intro s' hs'
    rw [uploads_snoc]
    cases hu : w.uploaded? s'.id a with
    | some key =>
      rw [audioKey_of_uploaded h hu hs' rfl, Option.toList_some, List.getLast?_concat]
    | none =>
      rw [Option.toList_none, List.append_nil]
      rcases (hw.sessions h).origin s' hs' with ⟨s, hs, hi, hstep⟩ | hnew
      · rw [hi]
        rcases hstep.audioKey with he | ⟨user, uuid4, file, ha, hacc, -⟩
        · rw [he]
          exact hrec.last s hs
        · rw [hi, World.uploaded?_eq_some.mpr ⟨user, uuid4, file, ha, hacc, rfl⟩] at hu
          cases hu
      · cases hnew with
        | created ha hfree =>
          have hfresh : _ ∉ w.issued := (World.fresh_of_step h).2 _ (by
            rw [ha]
            exact List.mem_singleton.mpr rfl)
          rw [hrec.fresh _ hfresh]
          rfl

theorem recorded_of_run (hr : SystemRun now tr w) : Recorded tr w := by
  induction hr with
  | init => exact recorded_init now
  | snoc hr hstep ih =>
    exact ih.step (World.sound_of_run hr) (World.sessionIds_of_run hr) hstep

/-- After every run a key reads back the bytes of its upload as long as it is stored, and a missing
file otherwise; and every path that is no entry of the storage directory is as before. -/
theorem disk_of_run (hd₀ : ∀ key : AudioKey, key.Valid →
      d₀ (LocalStorage.path basePath key.text) = none) (hr : SystemRun now tr w) :
    (∀ key : AudioKey, key.Valid →
      LocalStorage.get basePath key.text (diskAfter basePath content d₀ tr) =
        if key ∈ w.files then .ok (content key)
        else .error (.osError "No such file or directory")) ∧
      ∀ p, (∀ name, IsFileName name → directory basePath ++ name ≠ p) →
        diskAfter basePath content d₀ tr p = d₀ p := by
  have hd : OnDisk basePath content w.files d₀ (diskAfter basePath content d₀ tr) :=
    onDisk_of_run hd₀ hr
  constructor
  · intro key hk
    rw [LocalStorage.get, hd.file key hk]
    split
    next data hs =>
      split at hs
      next hm => rw [if_pos hm, Option.some.inj hs]
      next => cases hs
    next hs =>
      split at hs
      next => cases hs
      next hm => rw [if_neg hm]
  · intro p hp
    apply hd.frame
    intro key hk
    rw [LocalStorage.path, joinPath_eq (AudioKey.isFileName_text hk).slash]
    exact hp _ (AudioKey.isFileName_text hk)

/-- The recording is uploaded again, and the second file removed by a retraction. -/
def uploadedTwice : List Action :=
  Replay.published ++
    [.request (.uploadAudio (Replay.uuid 2) (Replay.uuid 7) (some (Replay.uuid 5))
      ⟨some "y.mp3", none, 10⟩), Replay.retract 70] ++ Replay.erase 70 ++ Replay.erase 71

theorem disk_of_run_twice : ∃ tr w, SystemRun 0 tr w ∧
    (⟨Replay.uuid 6, "wav"⟩ ∈ w.files ∧ ⟨Replay.uuid 7, "mp3"⟩ ∉ w.files) ∧
      (∀ key : AudioKey, key.Valid → LocalStorage.get "/data/audio".toList key.text
        (diskAfter "/data/audio".toList AudioKey.text (fun _ => none) tr) =
          if key ∈ w.files then .ok key.text
          else .error (.osError "No such file or directory")) ∧
      ∀ p, (∀ name, IsFileName name → directory "/data/audio".toList ++ name ≠ p) →
        diskAfter "/data/audio".toList AudioKey.text (fun _ => none) tr p = none := by
  obtain ⟨tr, w, hr, hp⟩ := exists_run
    (fun _ (w : World) => decide ((⟨Replay.uuid 6, "wav"⟩ : AudioKey) ∈ w.files ∧
      (⟨Replay.uuid 7, "mp3"⟩ : AudioKey) ∉ w.files))
    (by decide +kernel : (execute World.step (World.init 0) uploadedTwice).any _ = true)
  exact ⟨tr, w, hr, of_decide_eq_true hp, disk_of_run (fun _ _ => rfl) hr⟩

/-- After every run the recording of a session is its last accepted upload, no other session has the
same, and its bytes are on the disk unless the session was retracted with it. -/
theorem recording_of_run (hd₀ : ∀ key : AudioKey, key.Valid →
      d₀ (LocalStorage.path basePath key.text) = none) (hr : SystemRun now tr w) :
    ∀ s ∈ w.db.sessions, s.audioKey = (uploads tr s.id).getLast? ∧
      ∀ key, s.audioKey = some key → (∀ r ∈ w.db.sessions, r.audioKey = some key → r = s) ∧
        (LocalStorage.get basePath key.text (diskAfter basePath content d₀ tr) = .ok (content key) ∨
          ∃ t ∈ tr, RetractsWith s.id key t) := by
  have ht := traced_of_run hr
  have hd : OnDisk basePath content w.files d₀ (diskAfter basePath content d₀ tr) :=
    onDisk_of_run hd₀ hr
  intro s hs
  refine ⟨(recorded_of_run hr).last s hs, fun key hk => ⟨fun r hrm hrk => ?_, ?_⟩⟩
  · have hid := ht.unique _ _ key (ht.recording r hrm key hrk) (ht.recording s hs key hk)
    exact Table.eq_of_key_eq hrm hs hid
  · have hsaved := ht.recording s hs key hk
    refine (ht.kept s.id key hsaved).imp (fun hm => ?_) id
    rw [LocalStorage.get, hd.file key (valid_of_savedKeys hsaved), if_pos hm]

theorem recording_of_run_twice : ∃ tr w, SystemRun 0 tr w ∧
    (w.db.sessions.any fun s => s.audioKey = some ⟨Replay.uuid 7, "mp3"⟩) = true ∧
      ∀ s ∈ w.db.sessions, s.audioKey = (uploads tr s.id).getLast? ∧
        ∀ key, s.audioKey = some key → (∀ r ∈ w.db.sessions, r.audioKey = some key → r = s) ∧
          (LocalStorage.get "/data/audio".toList key.text
            (diskAfter "/data/audio".toList AudioKey.text (fun _ => none) tr) = .ok key.text ∨
              ∃ t ∈ tr, RetractsWith s.id key t) := by
  obtain ⟨tr, w, hr, hp⟩ := exists_run
    (fun _ w => w.db.sessions.any fun s => s.audioKey = some ⟨Replay.uuid 7, "mp3"⟩)
    (by decide +kernel : (execute World.step (World.init 0) uploadedTwice).any _ = true)
  exact ⟨tr, w, hr, hp, recording_of_run (fun _ _ => rfl) hr⟩

end Run

end AiBadge
