import AiBadge.Sessions.Router

/-! # The audit log endpoint

The rows of the log, newest first, for every user; a filter restricts them to a session.
-/

namespace AiBadge

open Lib Prog DbM

/-- The rows that the filter of a request selects. -/
def auditSelection (sessionId : Option Uuid) (db : Db) : List AuditLog :=
  match sessionId with
  | some sid => db.auditLogs.filter fun l => l.sessionId = some sid
  | none => db.auditLogs

/-- The session of a filter. An empty text is no filter; `driverUuid` is how the database driver
reads the text of an id. -/
def auditFilter (driverUuid : String → Option Uuid) : Option String → Option (Option Uuid)
  | none | some "" => some none
  | some text => (driverUuid text).map some

def listAuditLogs (driverUuid : String → Option Uuid) (plan : Plan AuditLog.createdAt)
    (sessionId : Option String) (limit offset : Int) : DbM (List AuditLog × Nat) := do
  let filter ← require (auditFilter driverUuid sessionId) (.dataError "audit_logs.session_id")
  let selected ← read (auditSelection filter)
  let logs ← paged plan limit offset selected
  return (logs, selected.length)

end AiBadge
