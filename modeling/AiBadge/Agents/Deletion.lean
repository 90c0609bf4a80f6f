import AiBadge.Model.Database

/-! # Deletion handlers

The handlers of the retraction cascade. Removing an audio file may fail with an
operating-system error, and no rollback brings a removed file back.
-/

namespace AiBadge

open Lib Prog DbM

/-- What `os.remove` answers for each file. -/
abbrev Remove := AudioKey → Except Exn Unit

def completeDeletion (id : Uuid) (db : Db) : Db :=
  db.setDeletionJob id (DeletionJob.withStatus .completed)

def handleDeleteArtifacts (job : DeletionJob) : DbM Unit := do
  forSome job.sessionId fun sid => write fun db => db.deleteArtifacts sid
  write (completeDeletion job.id)
  commit

def handleDeleteAudio (remove : Remove) (job : DeletionJob) : DbM Unit := do
  forSome (job.cascadeTargets.bind (·.audioKey)) fun key => do
    let exists_ ← readOutside fun files => decide (key ∈ files)
    when exists_ do
      answer (remove key)
      writeOutside fun files => files.filter (· ≠ key)
  write (completeDeletion job.id)
  commit

def handleDeleteFeishu (job : DeletionJob) : DbM Unit := do
  write (completeDeletion job.id)
  commit

/-- The entries of `JOB_HANDLERS` for the deletion queue. -/
def deletionHandler (remove : Remove) : DeletionType → Option (DeletionJob → DbM Unit)
  | .deleteArtifactRows => some handleDeleteArtifacts
  | .deleteLocalAudio => some (handleDeleteAudio remove)
  | .deleteFeishuDocs => some handleDeleteFeishu
  | .other _ => none

end AiBadge
