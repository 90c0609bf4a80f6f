import AiBadge.Model.Database

/-! # Migration 003

The upgrade of databases whose sessions may lack a device. The gaps are filled with the
virtual microphones, then the column and its foreign key are made strict, all in one
transaction.
-/

namespace AiBadge

open Lib Prog

/-- A row of `sessions` before the migration, as far as the migration reads it. -/
structure LegacySession where
  id : Uuid
  userId : Uuid
  deviceId : Option Uuid
  title : Option String
  createdAt : Timestamp

/-- Set the device, if there is one to set. -/
def LegacySession.assign (d : Option Device) (s : LegacySession) : LegacySession :=
  match d with
  | some d => { s with deviceId := some d.id }
  | none => s

inductive OnDelete where
  | setNull | restrict
  deriving DecidableEq

structure ForeignKey where
  name : String
  onDelete : OnDelete

/-- The tables, and what the catalogue says of `sessions.device_id`. -/
structure LegacyDb where
  users : Table User.id
  devices : Table Device.id
  sessions : Table LegacySession.id
  isNullable : Bool
  deviceFk : Option ForeignKey

inductive MigrationError where
  | cannotBackfill (sessions : List LegacySession)
  | notNullViolation
  | foreignKeyViolation (name : String)

/-- Which of several joining rows an `UPDATE … FROM` takes for a row, which SQL leaves open. -/
abbrev Pick := LegacySession → Nat

namespace LegacyDb

variable (db : LegacyDb)

/-- The sessions with `device_id IS NULL`. -/
def unassigned : List LegacySession := db.sessions.select fun s => s.deviceId.isNone

/-- The devices that join with a session. -/
def joining (s : LegacySession) : List Device :=
  db.devices.select fun d => s.userId = d.userId && d.deviceKey = s!"virtual-{s.userId.str}"

def joined (pick : Pick) (s : LegacySession) : Option Device :=
  (db.joining s)[pick s % (db.joining s).length]?

theorem assign_id (pick : Pick) (s : LegacySession) : (s.assign (db.joined pick s)).id = s.id := by
  unfold LegacySession.assign
  split <;> rfl

/-- `UPDATE sessions … FROM devices …`. -/
def backfill (pick : Pick) : LegacyDb :=
  { db with
    sessions := db.sessions.update (fun s => s.deviceId.isNone)
      (fun s => s.assign (db.joined pick s)) (assign_id db pick) }

def setNotNull : LegacyDb := { db with isNullable := false }

def setDeviceFk (fk : Option ForeignKey) : LegacyDb := { db with deviceFk := fk }

/-- Every device that a session names exists, as a new foreign key checks. -/
def referencesValid : Bool :=
  db.sessions.rows.all fun s => s.deviceId.all fun i => db.devices.any fun d => d.id = i

end LegacyDb

/-- `name LIKE '%device_id%'`, where the underscore stands for any character. -/
def likeDeviceId (name : String) : Bool :=
  name.toList.tails.any fun t => t.take 6 == "device".toList && (t.drop 7).take 2 == "id".toList

abbrev MigrationM := Prog LegacyDb Unit MigrationError Unit

/-- Steps 1 and 2: find the sessions without a device and fill them. -/
def fillDevices (pick : Pick) : MigrationM := do
  let nullCount ← read fun db => db.unassigned.length
  when (0 < nullCount) do
    write fun db => db.backfill pick
    let remaining ← read LegacyDb.unassigned
    ensure remaining.isEmpty
      (.cannotBackfill (remaining.mergeSort fun s t => s.createdAt ≤ t.createdAt))

/-- Step 3: `ALTER COLUMN device_id SET NOT NULL`, unless it is that already. -/
def alterNotNull : MigrationM := do
  let isNullable ← read LegacyDb.isNullable
  when isNullable do
    let nulls ← read LegacyDb.unassigned
    ensure nulls.isEmpty .notNullViolation
    write LegacyDb.setNotNull

/-- Step 4: drop the foreign key and create it again with `ON DELETE RESTRICT`. -/
def recreateForeignKey : MigrationM := do
  let fk ← read fun db => db.deviceFk.filter fun k => likeDeviceId k.name
  forSome fk fun k => do
    write fun db => db.setDeviceFk none
    let valid ← read LegacyDb.referencesValid
    ensure valid (.foreignKeyViolation k.name)
    write fun db => db.setDeviceFk (some { k with onDelete := .restrict })

def upgrade (pick : Pick) : MigrationM := do
  fillDevices pick
  alterNotNull
  recreateForeignKey

/-- The migration's transaction: committed when `upgrade` returns, rolled back when it raises. -/
def LegacyDb.migrate (db : LegacyDb) (pick : Pick) : Except MigrationError Unit × LegacyDb :=
  match upgrade pick (Tx.start db ()) with
  | (.ok _, t) => (.ok (), t.commit.committed)
  | (.error e, t) => (.error e, t.rollback.committed)

end AiBadge
