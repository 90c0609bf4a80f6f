import AiBadge.Lib.Cut
import AiBadge.Lib.Run
import AiBadge.System.WorkerEffect

/-! # Deletion jobs, cut at their effects

`_process_deletion` with every point at which its worker may die, and any number of
workers that process deletion jobs side by side.
-/

namespace AiBadge

open Lib Prog

/-- What `os.remove` does: its answer for a file that is there, and the exception for one that is
gone by then. -/
structure Os where
  remove : Remove
  missing : AudioKey → Exn

namespace DeletionCut

def complete (id : Uuid) : Cut Db Files := .write (completeDeletion id) (.commit .done)

def fail (id : Uuid) (message : String) : Cut Db Files :=
  .write (fun db => db.setDeletionJob id (DeletionJob.withFailure message)
    (DeletionJob.withFailure_id message)) (.commit .done)

def removed (os : Os) (key : AudioKey) (files : Files) : Files :=
  match os.remove key with
  | .ok _ => files.filter (· ≠ key)
  | .error _ => files

/-- The call of `os.remove`, which sees the directory as it is by then. -/
def remove (os : Os) (id : Uuid) (key : AudioKey) : Cut Db Files :=
  .touch (removed os key) fun files =>
    if key ∈ files then
      match os.remove key with
      | .ok _ => complete id
      | .error e => fail id e.str
    else fail id (os.missing key).str

/-- The handler call, with the failure mark of `_process_deletion`. -/
def handle (os : Os) (d : DeletionJob) : Cut Db Files :=
  match d.resourceType with
  | .deleteArtifactRows =>
    match d.sessionId with
    | some sid => .write (fun db => db.deleteArtifacts sid) (complete d.id)
    | none => complete d.id
  | .deleteLocalAudio =>
    match d.cascadeTargets.bind (·.audioKey) with
    | some key => .touch id fun files => if key ∈ files then remove os d.id key else complete d.id
    | none => complete d.id
  | .deleteFeishuDocs => complete d.id
  | .other name => fail d.id s!"Unknown deletion_job resource_type: {name}"

/-- `_process_deletion` for the row the query returned. -/
def script (os : Os) (d : DeletionJob) : Cut Db Files :=
  .write (fun db => db.setDeletionJob d.id (DeletionJob.withStatus .running)
    (DeletionJob.withStatus_id .running)) (handle os d)

/-- The handler call of `_process_deletion` under its `except` branch. -/
def handling (remove : Remove) (d : DeletionJob) : DbM Unit :=
  match deletionHandler remove d.resourceType with
  | some handler => tryCatchThe Exn (handler d) fun e => failDeletion d.id e.str
  | none => failDeletion d.id s!"Unknown deletion_job resource_type: {d.resourceType.value}"

theorem run_handle (os : Os) (d : DeletionJob) (t : Tx Db Files) :
    (handle os d).run t = handling os.remove d t := by
  cases hd : d.resourceType with
  | deleteArtifactRows =>
    simp only [handle, handling, hd, deletionHandler, handleDeleteArtifacts]
    cases d.sessionId with
    | none => rfl
    | some sid => rfl
  | deleteLocalAudio =>
    simp only [handle, handling, hd, deletionHandler, handleDeleteAudio]
    cases d.cascadeTargets.bind (·.audioKey) with
    | none => rfl
    | some key =>
      have hl : (Cut.touch id fun files => if key ∈ files then remove os d.id key
          else complete d.id).run (ε := Exn) t =
            (if key ∈ t.outside then remove os d.id key else complete d.id).run t := rfl
      have hr : ∀ b, b = decide (key ∈ t.outside) → tryCatchThe Exn (do
          when b do
            answer (os.remove key)
            writeOutside fun files => files.filter (· ≠ key)
          Prog.write (completeDeletion d.id)
          Prog.commit) (fun e => failDeletion d.id e.str) t = (if key ∈ t.outside then
            remove os d.id key else complete d.id).run t := by
        rintro b rfl
        by_cases hk : key ∈ t.outside
        · have hrun : (remove os d.id key).run (ε := Exn) t = (if key ∈ t.outside then
              match os.remove key with
              | .ok _ => complete d.id
              | .error e => fail d.id e.str
            else fail d.id (os.missing key).str).run (t.setOutside (removed os key)) := rfl
          rw [decide_eq_true hk, if_pos hk, hrun, if_pos hk]
          unfold removed
          cases os.remove key with
          | ok => rfl
          | error e => rfl
        · rw [decide_eq_false hk, if_neg hk]
          rfl
      exact hl.trans (hr _ rfl).symm
  | deleteFeishuDocs =>
    simp only [handle, handling, hd, deletionHandler]
    rfl
  | other name =>
    simp only [handle, handling, hd, deletionHandler]
    rfl

/-- Uninterrupted, the script is `_process_deletion`. -/
theorem run_script (os : Os) (d : DeletionJob) :
    (script os d).run = processDeletion os.remove d := by
  funext t
  exact run_handle os d (beginDeletion d t)

end DeletionCut

/-- A step of the workers that process deletion jobs. -/
inductive DeletionAction where
  | claim (k : WorkerId) (job : Uuid) (now : Timestamp) (locked : List Uuid) (os : Os)
  | advance (k : WorkerId)
  | crash (k : WorkerId)

abbrev DeletionSite := Site WorkerId Db Files

/-- A claim may skip any rows, which covers the rows that others have locked. -/
def DeletionSite.step (s : DeletionSite) : DeletionAction → Option DeletionSite
  | .claim k job now locked os =>
    if (s.flights k).isNone then
      ((deletionCandidates locked now s.store).find? (·.id = job)).map fun d =>
        s.begin k (DeletionCut.script os d)
    else none
  | .advance k => s.advance k
  | .crash k => some (s.drop k)

end AiBadge
