import Mathlib.Tactic.Simps.Basic
import AiBadge.Lib.Table
import AiBadge.Lib.Transaction
import AiBadge.Model.Rows

/-! # The database

The nine tables, the row operations the ORM emits, and inserts that check the
unique and foreign-key constraints. Audio files live beside the database, in a
directory that no rollback restores.
-/

namespace AiBadge

open Lib

structure Db where
  organizations : Table Organization.id
  users : Table User.id
  devices : Table Device.id
  sessions : Table Session.id
  jobs : Table Job.id
  workflowEvents : List WorkflowEvent
  artifacts : Table Artifact.id
  auditLogs : List AuditLog
  deletionJobs : Table DeletionJob.id

namespace Db

def empty : Db where
  organizations := ∅
  users := ∅
  devices := ∅
  sessions := ∅
  jobs := ∅
  workflowEvents := []
  artifacts := ∅
  auditLogs := []
  deletionJobs := ∅

variable (db : Db)

def session? (id : Uuid) : Option Session := db.sessions.find? fun s => s.id = id

def job? (id : Uuid) : Option Job := db.jobs.find? fun j => j.id = id

def artifact? (id : Uuid) : Option Artifact := db.artifacts.find? fun a => a.id = id

/-- `UPDATE sessions SET … WHERE id = …`. -/
@[simps] def setSession (id : Uuid) (f : Session → Session)
    (hf : ∀ s, (f s).id = s.id := by intro s; simp) : Db :=
  { db with sessions := db.sessions.update (fun s => s.id = id) f hf }

/-- `UPDATE jobs SET … WHERE id = …`. -/
@[simps] def setJob (id : Uuid) (f : Job → Job)
    (hf : ∀ j, (f j).id = j.id := by intro j; simp) : Db :=
  { db with jobs := db.jobs.update (fun j => j.id = id) f hf }

/-- `UPDATE artifacts SET … WHERE id = …`. -/
@[simps] def setArtifact (id : Uuid) (f : Artifact → Artifact)
    (hf : ∀ a, (f a).id = a.id := by intro a; simp) : Db :=
  { db with artifacts := db.artifacts.update (fun a => a.id = id) f hf }

/-- `UPDATE deletion_jobs SET … WHERE id = …`. -/
@[simps] def setDeletionJob (id : Uuid) (f : DeletionJob → DeletionJob)
    (hf : ∀ d, (f d).id = d.id := by intro d; simp) : Db :=
  { db with deletionJobs := db.deletionJobs.update (fun d => d.id = id) f hf }

@[simps] def addOrganization (o : Organization) : Db :=
  { db with organizations := db.organizations.insert o }

@[simps] def addUser (u : User) : Db := { db with users := db.users.insert u }

@[simps] def addDevice (d : Device) : Db := { db with devices := db.devices.insert d }

@[simps] def addSession (s : Session) : Db := { db with sessions := db.sessions.insert s }

@[simps] def addJob (j : Job) : Db := { db with jobs := db.jobs.insert j }

@[simps] def addArtifact (a : Artifact) : Db := { db with artifacts := db.artifacts.insert a }

@[simps] def addDeletionJob (d : DeletionJob) : Db :=
  { db with deletionJobs := db.deletionJobs.insert d }

@[simps] def addEvent (e : WorkflowEvent) : Db :=
  { db with workflowEvents := db.workflowEvents ++ [e] }

@[simps] def addAudit (l : AuditLog) : Db := { db with auditLogs := db.auditLogs ++ [l] }

@[simps] def deleteArtifacts (sessionId : Uuid) : Db :=
  { db with artifacts := db.artifacts.delete fun a => a.sessionId = sessionId }

theorem session?_eq_some {db : Db} {id : Uuid} {s : Session} :
    db.session? id = some s ↔ s ∈ db.sessions ∧ s.id = id := by
  constructor
  · intro h
    simpa using Table.find?_eq_some h
  · rintro ⟨hs, rfl⟩
    exact Table.find?_of_mem hs (by simp) (by simp)

theorem job?_eq_some {db : Db} {id : Uuid} {j : Job} :
    db.job? id = some j ↔ j ∈ db.jobs ∧ j.id = id := by
  constructor
  · intro h
    simpa using Table.find?_eq_some h
  · rintro ⟨hj, rfl⟩
    exact Table.find?_of_mem hj (by simp) (by simp)

theorem artifact?_eq_some {db : Db} {id : Uuid} {a : Artifact} :
    db.artifact? id = some a ↔ a ∈ db.artifacts ∧ a.id = id := by
  constructor
  · intro h
    simpa using Table.find?_eq_some h
  · rintro ⟨ha, rfl⟩
    exact Table.find?_of_mem ha (by simp) (by simp)

end Db

/-- The names in the audio directory. -/
abbrev Files := List AudioKey

/-- A program in a database session of the backend. -/
abbrev DbM (α : Type) := Prog Db Files Exn α

namespace DbM

open Prog

/-- Whether a text fits a `String(n)` column. PostgreSQL stores no NUL character. The columns that
use it are those of a registration: its request limits the texts, and a slug or a hash ends in no
space, so no trailing space is ever cut off. -/
def fitsVarchar (n : Nat) (s : String) : Bool :=
  s.length ≤ n && !s.toList.contains (Char.ofNat 0)

theorem fitsVarchar_iff {n : Nat} {s : String} :
    fitsVarchar n s = true ↔ s.length ≤ n ∧ Char.ofNat 0 ∉ s.toList := by
  simp [fitsVarchar]

/-- The value of a `String(n)` column, which the flush checks. -/
def varchar (column : String) (n : Nat) (text : Option String) : DbM Unit :=
  ensure (text.all (fitsVarchar n)) (.dataError column)

/-- A text column stores every text without a NUL character. -/
def fitsText (s : String) : Bool := !s.toList.contains (Char.ofNat 0)

/-- The value of a `Text` column, which the flush checks. -/
def textColumn (column : String) (text : Option String) : DbM Unit :=
  ensure (text.all fitsText) (.dataError column)

/-- Whether a text fits a `String(256)` title column. No request limits a title, and PostgreSQL
cuts off the spaces that are too many. -/
def fitsTitle (s : String) : Bool := fitsText s && (s.toList.drop 256).all (· = ' ')

/-- What a title column keeps of a text that fits. -/
def clipTitle (s : String) : String := take s 256

/-- The value of a title column, which the flush checks. -/
def titleColumn (column : String) (text : Option String) : DbM Unit :=
  ensure (text.all fitsTitle) (.dataError column)

/-- The value of a JSON column: what the column holds of it, unless the flush refuses it. -/
def jsonColumn (column : String) (value : Option Json) : DbM Json :=
  require value (.dataError column)

/-- `result.scalar_one_or_none()`. -/
def scalarOneOrNone {α : Type} : List α → DbM (Option α)
  | [] => pure none
  | [r] => pure (some r)
  | _ => throw .multipleResultsFound

def insertJob (j : Job) : DbM Unit := do
  let taken ← read fun db => db.jobs.any fun r => r.id = j.id || r.idempotencyKey = j.idempotencyKey
  ensure (!taken) (.integrityError "jobs_idempotency_key_key")
  write fun db => db.addJob j

def insertSession (s : Session) : DbM Unit := do
  let taken ← read fun db => db.sessions.any fun r => r.id = s.id
  ensure (!taken) (.integrityError "sessions_pkey")
  let device ← read fun db => db.devices.any fun d => d.id = s.deviceId
  ensure device (.integrityError "sessions_device_id_fkey")
  titleColumn "sessions.title" s.title
  write fun db => db.addSession { s with title := s.title.map clipTitle }

def insertArtifact (a : Artifact) : DbM Unit := do
  let taken ← read fun db => db.artifacts.any fun r => r.id = a.id
  ensure (!taken) (.integrityError "artifacts_pkey")
  titleColumn "artifacts.title" a.title
  write fun db => db.addArtifact { a with title := a.title.map clipTitle }

def insertDeletionJob (d : DeletionJob) : DbM Unit := do
  let taken ← read fun db => db.deletionJobs.any fun r => r.id = d.id
  ensure (!taken) (.integrityError "deletion_jobs_pkey")
  write fun db => db.addDeletionJob d

def insertOrganization (o : Organization) : DbM Unit := do
  let taken ← read fun db => db.organizations.any fun r =>
    r.id = o.id || r.name = o.name || r.slug = o.slug
  ensure (!taken) (.integrityError "organizations_name_key")
  varchar "organizations.name" 256 (some o.name)
  varchar "organizations.slug" 128 (some o.slug)
  write fun db => db.addOrganization o

def insertUser (u : User) : DbM Unit := do
  let taken ← read fun db => db.users.any fun r => r.id = u.id || r.email = u.email
  ensure (!taken) (.integrityError "users_email_key")
  varchar "users.email" 255 (some u.email)
  varchar "users.password_hash" 255 (some u.passwordHash)
  varchar "users.display_name" 128 (some u.displayName)
  write fun db => db.addUser u

def insertDevice (d : Device) : DbM Unit := do
  let taken ← read fun db => db.devices.any fun r => r.id = d.id || r.deviceKey = d.deviceKey
  ensure (!taken) (.integrityError "devices_device_key_key")
  write fun db => db.addDevice d

end DbM

end AiBadge
