import AiBadge.System.Invariant

/-! # The audio directory over one step

A step saves the file of an upload, removes the target of a deletion job, or
leaves the directory alone. A completed deletion job has removed its target.
-/

namespace AiBadge

open Lib Prog

/-- The session and the name of the file that an upload saves, whether or not the request
succeeds. -/
def World.saved? (w : World) : Action → Option (Uuid × AudioKey)
  | .request (.uploadAudio user uuid4 (some sid) file) =>
    if w.db.users.any (fun u => u.id = user) &&
        w.db.sessions.any (fun s => s.id = sid && s.userId = user) then
      some (sid, ⟨uuid4, getAudioFormat file.filename file.contentType⟩)
    else none
  | _ => none

/-- The file that a deletion job removes. -/
def DeletionJob.target? (d : DeletionJob) : Option AudioKey :=
  if d.resourceType = .deleteLocalAudio then d.cascadeTargets.bind (·.audioKey) else none

namespace World

variable {w w' : World} {a : Action} {key : AudioKey} {sid : Uuid}

theorem saved?_request {r : Request} :
    w.saved? (.request r) = some (sid, key) ↔ ∃ s, w.Saves r s key ∧ s.id = sid := by
  constructor
  · intro h
    unfold saved? at h
    split at h
    next user uuid4 sid' file heq =>
      obtain rfl := Action.request.inj heq
      split at h
      next hc =>
        cases h
        simp only [Bool.and_eq_true, Table.any_eq_true, decide_eq_true_eq] at hc
        obtain ⟨⟨u, hu, rfl⟩, s, hs, rfl, hsu⟩ := hc
        exact ⟨s, ⟨u.id, uuid4, file, rfl, ⟨u, hu, rfl⟩, hs, hsu, rfl⟩, rfl⟩
      next => cases h
    next => cases h
  · rintro ⟨s, ⟨user, uuid4, file, rfl, ⟨u, hu, rfl⟩, hs, hsu, rfl⟩, rfl⟩
    refine if_pos ?_
    simp only [Bool.and_eq_true, Table.any_eq_true, decide_eq_true_eq]
    exact ⟨⟨u, hu, rfl⟩, s, hs, rfl, hsu⟩

/-- A saved file has a new name. -/
theorem saved?_fresh (hf : w.Fresh a) (h : w.saved? a = some (sid, key)) :
    key.uuid ∉ w.issued ∧ key.uuid ∈ a.draws := by
  unfold saved? at h
  split at h
  next user uuid4 sid' file =>
    split at h
    next =>
      cases h
      exact ⟨hf.2 _ (List.mem_singleton.mpr rfl), List.mem_singleton.mpr rfl⟩
    next => cases h
  next => cases h

/-- An accepted upload has saved its file. -/
theorem saved?_of_accepts {user uuid4 : Uuid} {file : UploadFile}
    (h : w.Accepts (.uploadAudio user uuid4 (some sid) file)) :
    w.saved? (.request (.uploadAudio user uuid4 (some sid) file)) =
      some (sid, ⟨uuid4, getAudioFormat file.filename file.contentType⟩) := by
  obtain ⟨t, ht⟩ := h
  obtain ⟨u, _, hu, hup⟩ := returns_bind.mp ht
  obtain ⟨⟨v, hv, rfl, hvu⟩, rfl⟩ := returns_getCurrentUser.mp hu
  obtain ⟨s, _, hs, -⟩ := returns_bind.mp hup
  obtain ⟨hm, hsi, hsu, -⟩ := returns_getSessionOr404 hs
  obtain rfl := Option.some.inj hsi
  rw [hvu] at hsu
  exact saved?_request.mpr ⟨s, ⟨v.id, uuid4, file, rfl, ⟨v, hv, rfl⟩, hm, hsu, rfl⟩, rfl⟩

inductive FilesStep (w : World) (a : Action) : Files → Prop where
  | same : w.saved? a = none → FilesStep w a w.files
  | saved {sid : Uuid} {key : AudioKey} : w.saved? a = some (sid, key) →
      FilesStep w a (key :: w.files)
  | removed {d : DeletionJob} {key : AudioKey} : w.saved? a = none → d ∈ w.db.deletionJobs →
      d.target? = some key → FilesStep w a (w.files.filter (· ≠ key))

theorem filesStep_of_deletion {d : DeletionJob} {db db' : Db} {files : Files}
    (ha : w.saved? a = none) (hd : d ∈ w.db.deletionJobs)
    (h : DeletionEffect d db w.files db' files) : w.FilesStep a files := by
  cases h with
  | localAudio ht =>
    cases hk : d.cascadeTargets.bind (·.audioKey) with
    | none => exact .same ha
    | some key => exact .removed ha hd (by rw [DeletionJob.target?, if_pos ht, hk])
  | _ => exact .same ha

theorem files_of_effect {db : Db} {files : Files} (hw : w.Settled) (h : w.Effect a db files) :
    w.FilesStep a files := by
  have request (r : Request) : w.FilesStep (.request r) (w.serve r).files := by
    rcases serve_files w r with ⟨s, key, hs, hf⟩ | ⟨hn, hf⟩
    · rw [hf]
      exact .saved (saved?_request.mpr ⟨s, hs, rfl⟩)
    · rw [hf]
      refine .same (Option.eq_none_iff_forall_ne_some.mpr fun p hp => ?_)
      obtain ⟨s, hs, -⟩ := saved?_request.mp hp
      exact hn s p.2 hs
  cases h with
  | refused => exact request _
  | served => exact request _
  | silent hs =>
    refine .same ?_
    cases a <;> first | rfl | exact hs.elim
  | deletion hp hd h => exact filesStep_of_deletion rfl (hw.candidate hp hd).1 h
  | crashedDeletion hp hd h => exact filesStep_of_deletion rfl (hw.candidate hp hd).1 h
  | _ => exact .same rfl

/-- A name that is in use does not come back. -/
theorem FilesStep.absent {files : Files} (h : w.FilesStep a files) (hf : w.Fresh a)
    (hi : key.uuid ∈ w.issued) (hk : key ∉ w.files) : key ∉ files := by
  cases h with
  | same => exact hk
  | saved hs =>
    rw [List.mem_cons, not_or]
    refine ⟨?_, hk⟩
    rintro rfl
    exact (saved?_fresh hf hs).1 hi
  | removed => exact fun hm => hk (List.mem_filter.mp hm).1

/-- A retraction queues the removal of the recording. -/
theorem target_of_retracts {s : Session} {db : Db} {files : Files} (hr : w.Retracts a s.id)
    (hs : s ∈ w.db.sessions) (h : w.Effect a db files) :
    ∃ d ∈ db.deletionJobs, d.sessionId = some s.id ∧ d.target? = s.audioKey := by
  obtain ⟨user, ids, r, hrm, hi, -, hf, rfl⟩ := effect_of_retracts hr h
  obtain rfl := Table.eq_of_key_eq hrm hs hi
  refine ⟨sagaJob ids.localAudio w.now r.id .deleteLocalAudio { audioKey := r.audioKey }, ?_, rfl,
    rfl⟩
  refine Table.mem_insert_of_mem ((Table.mem_insert_of_not_mem fun d hd => ?_).mpr (.inr rfl))
  rcases Table.mem_of_mem_insert hd with hd | rfl
  · exact hf.localAudio d hd
  · exact hf.ne₁

theorem DeletionStep.target? {d d' : DeletionJob} (h : w.DeletionStep a d d') :
    d'.target? = d.target? := by
  cases h <;> rfl

theorem DeletionStep.sessionId {d d' : DeletionJob} (h : w.DeletionStep a d d') :
    d'.sessionId = d.sessionId := by
  cases h <;> rfl

/-- Completing a deletion job leaves its target removed. -/
theorem absent_of_completed {d d' : DeletionJob} {db : Db} {files : Files} (hw : w.Settled)
    (h : w.Effect a db files) (hd : d ∈ w.db.deletionJobs) (hd' : d' ∈ db.deletionJobs)
    (hi : d'.id = d.id) (hs : d.status ≠ .completed) (hs' : d'.status = .completed)
    (ht : d.target? = some key) : key ∉ files := by
  have hty : d.resourceType = .deleteLocalAudio ∧ d.cascadeTargets.bind (·.audioKey) = some key := by
    unfold DeletionJob.target? at ht
    split at ht
    next hty => exact ⟨hty, ht⟩
    next => cases ht
  obtain ⟨k, locked, remove, rfl⟩ : ∃ k locked remove, a = .processDeletion k d.id locked remove := by
    cases (deletions_of_effect hw h).row hd hd' hi with
    | same => exact absurd hs' hs
    | completed ha => exact ⟨_, _, _, ha⟩
    | failed => cases hs'
  generalize hid : d.id = id at h
  cases h with
  | silent hs => exact hs.elim
  | @deletion _ e _ _ _ _ _ hp he h =>
    obtain ⟨hem, -⟩ := hw.candidate hp he
    obtain rfl := Table.eq_of_key_eq hd hem hid
    cases h with
    | artifactRows hr => cases hty.1.symm.trans hr
    | feishuDocs hr => cases hty.1.symm.trans hr
    | localAudio =>
      rw [hty.2, eraseAudio, List.mem_filter]
      rintro ⟨-, hk⟩
      exact absurd rfl (of_decide_eq_true hk)
    | @failed message =>
      have hm : d ∈ (w.session _).view.deletionJobs := (hw.tail hp).deletionJobs ▸ hd
      have hu : d' ∈ (w.session _).view.deletionJobs.update (fun r => r.id = d.id)
        (DeletionJob.withFailure message) (by intro; rfl) := hd'
      rw [Table.eq_of_mem_update hm hu hi] at hs'
      cases hs'

end World

end AiBadge
