import AiBadge.Lib.CommitOrder
import AiBadge.Lib.LockOrder
import AiBadge.System.AccountStep

/-! # A registration, cut at its statements

Two queries and three inserts. An insert locks the unique values of its row, so another
registration that inserts one of them waits for the end of this one.
-/

namespace AiBadge

open Lib Prog DbM

/-- The unique values that a registration inserts. -/
inductive AccountLock where
  | organization (id : Uuid)
  | organizationName (name : String)
  | organizationSlug (slug : String)
  | user (id : Uuid)
  | email (email : String)
  | device (id : Uuid)
  | deviceKey (key : String)
  deriving DecidableEq

abbrev AccountScript := Script Db AccountLock Exn

namespace AccountScript

/-- The exception of the first check that fails. -/
def firstFailed (checks : List (Bool × Exn)) : Option Exn :=
  checks.findSome? fun (passed, e) => if passed then none else some e

def checkOrganization (o : Organization) (db : Db) : Option Exn :=
  firstFailed [
    (!db.organizations.any fun r => r.id = o.id || r.name = o.name || r.slug = o.slug,
      .integrityError "organizations_name_key"),
    (fitsVarchar 256 o.name, .dataError "organizations.name"),
    (fitsVarchar 128 o.slug, .dataError "organizations.slug")]

def insertOrganization (o : Organization) (next : AccountScript) : AccountScript :=
  .flush [.organization o.id, .organizationName o.name, .organizationSlug o.slug]
    (checkOrganization o) (fun db => db.addOrganization o) next

def checkUser (u : User) (db : Db) : Option Exn :=
  firstFailed [
    (!db.users.any fun r => r.id = u.id || r.email = u.email, .integrityError "users_email_key"),
    (fitsVarchar 255 u.email, .dataError "users.email"),
    (fitsVarchar 255 u.passwordHash, .dataError "users.password_hash"),
    (fitsVarchar 128 u.displayName, .dataError "users.display_name")]

def insertUser (u : User) (next : AccountScript) : AccountScript :=
  .flush [.user u.id, .email u.email] (checkUser u) (fun db => db.addUser u) next

def checkDevice (d : Device) (db : Db) : Option Exn :=
  firstFailed [
    (!db.devices.any fun r => r.id = d.id || r.deviceKey = d.deviceKey,
      .integrityError "devices_device_key_key")]

def insertDevice (d : Device) (next : AccountScript) : AccountScript :=
  .flush [.device d.id, .deviceKey d.deviceKey] (checkDevice d) (fun db => db.addDevice d) next

/-- What the library function answers, or raises. -/
def answer {α : Type} (x : Except Exn α) (next : α → AccountScript) : AccountScript :=
  match x with
  | .ok a => next a
  | .error e => .raise e

end AccountScript

/-- A registration, with the values that it draws. -/
structure Registration where
  env : AuthEnv
  ids : RegisterIds
  body : RegisterRequest

namespace Registration

open AccountScript

variable (r : Registration)

/-- The database that the registration commits when it is served alone. -/
def serve? (db : Db) : Option Db :=
  match register r.env r.ids r.body (Tx.start db ([] : Files)) with
  | (.ok _, t) => some t.view
  | (.error _, _) => none

/-- The row of the organization, once it is known whether the slug is taken. -/
def organization (existingOrg : Bool) : Organization where
  id := r.ids.org
  name := r.body.orgName
  slug := if existingOrg then suffixedSlug r.env r.ids r.body else slugify r.env r.body.orgName

def inserts (existingOrg : Bool) : AccountScript :=
  insertOrganization (r.organization existingOrg) <|
  answer ((r.env.hashPassword r.body.password).mapError .valueError) fun passwordHash =>
  insertUser (ownUser r.ids r.body passwordHash) <|
  insertDevice (virtualMicrophone r.ids.device r.ids.user) .done

def script : AccountScript :=
  .query fun db =>
    .ensure (!db.users.any fun u => u.email = r.body.email) (.http 409 "Email already registered") <|
  .query fun db => r.inserts (db.organizations.any fun o => o.slug = slugify r.env r.body.orgName)

end Registration

section Pieces

open AccountScript

variable {next : AccountScript}

theorem run_insertOrganization {o : Organization} :
    (AccountScript.insertOrganization o next).run (φ := Files) =
      DbM.insertOrganization o >>= fun _ => next.run := by
  funext t
  simp only [AccountScript.insertOrganization, checkOrganization, Script.run,
    DbM.insertOrganization, DbM.varchar, Bind.bind, Prog.read, firstFailed, List.findSome?,
    Option.all]
  cases t.view.organizations.any fun r => r.id = o.id || r.name = o.name || r.slug = o.slug <;>
    cases fitsVarchar 256 o.name <;> cases fitsVarchar 128 o.slug <;> rfl

theorem run_insertUser {u : User} : (AccountScript.insertUser u next).run (φ := Files) =
    DbM.insertUser u >>= fun _ => next.run := by
  funext t
  simp only [AccountScript.insertUser, checkUser, Script.run, DbM.insertUser, DbM.varchar,
    Bind.bind, Prog.read, firstFailed, List.findSome?, Option.all]
  cases t.view.users.any fun r => r.id = u.id || r.email = u.email <;>
    cases fitsVarchar 255 u.email <;> cases fitsVarchar 255 u.passwordHash <;>
      cases fitsVarchar 128 u.displayName <;> rfl

theorem run_insertDevice {d : Device} : (AccountScript.insertDevice d next).run (φ := Files) =
    DbM.insertDevice d >>= fun _ => next.run := by
  funext t
  simp only [AccountScript.insertDevice, checkDevice, Script.run, DbM.insertDevice, Bind.bind,
    Prog.read, firstFailed, List.findSome?]
  cases t.view.devices.any fun r => r.id = d.id || r.deviceKey = d.deviceKey <;> rfl

theorem run_accountAnswer {α : Type} {x : Except Exn α} {next : α → AccountScript} :
    (AccountScript.answer x next).run (φ := Files) = Prog.answer x >>= fun a => (next a).run := by
  cases x <;> rfl

section Finish

variable {db : Db}

theorem firstFailed_eq_none {checks : List (Bool × Exn)} :
    firstFailed checks = none ↔ ∀ c ∈ checks, c.1 = true := by
  simp [firstFailed]

theorem checkOrganization_eq_none {o : Organization} :
    checkOrganization o db = none ↔ db.AcceptsOrganization o := by
  simp only [checkOrganization, firstFailed_eq_none, List.forall_mem_cons]
  constructor
  · rintro ⟨hu, hn, hs, -⟩
    exact ⟨by simpa [and_assoc] using hu, hn, hs⟩
  · rintro ⟨hu, hn, hs⟩
    exact ⟨by simpa [and_assoc] using hu, hn, hs, List.forall_mem_nil _⟩

theorem checkUser_eq_none {u : User} : checkUser u db = none ↔ db.AcceptsUser u := by
  simp only [checkUser, firstFailed_eq_none, List.forall_mem_cons]
  constructor
  · rintro ⟨hu, he, hp, hd, -⟩
    exact ⟨by simpa using hu, he, hp, hd⟩
  · rintro ⟨hu, he, hp, hd⟩
    exact ⟨by simpa using hu, he, hp, hd, List.forall_mem_nil _⟩

theorem checkDevice_eq_none {d : Device} : checkDevice d db = none ↔ db.AcceptsDevice d := by
  simp [checkDevice, firstFailed_eq_none, Db.AcceptsDevice]

end Finish

theorem Registration.run_inserts {r : Registration} {existingOrg : Bool} :
    (r.inserts existingOrg).run (φ := Files) = (do
      DbM.insertOrganization (r.organization existingOrg)
      let passwordHash ← Prog.answer ((r.env.hashPassword r.body.password).mapError .valueError)
      DbM.insertUser (ownUser r.ids r.body passwordHash)
      DbM.insertDevice (virtualMicrophone r.ids.device r.ids.user)) := by
  simp only [inserts, run_insertOrganization, run_accountAnswer, run_insertUser, run_insertDevice,
    bind_done]

/-- Run without interruption, the script is the registration. -/
theorem Registration.run_script (r : Registration) :
    r.script.run (φ := Files) = register r.env r.ids r.body := by
  funext t
  simp only [script, Script.run, run_ensure, run_inserts, register]
  rfl

theorem Registration.finish_script (r : Registration) (db : Db) :
    r.script.finish db [] = r.serve? db := by
  unfold Registration.serve?
  rw [← r.run_script]
  rcases r.script.run_cases (Tx.start db ([] : Files)) with ⟨t, hr, hf⟩ | ⟨e, t, hr, hf, -⟩
  · rw [show r.script.run _ = _ from hr]
    exact hf
  · rw [show r.script.run _ = _ from hr]
    exact hf

end Pieces

namespace Registration

variable {r : Registration} {db f : Db}

theorem finish_inserts {existingOrg : Bool} : (r.inserts existingOrg).finish db [] = some f ↔
    ∃ hash, r.env.hashPassword r.body.password = .ok hash ∧
      db.AcceptsOrganization (r.organization existingOrg) ∧
      db.AcceptsUser (ownUser r.ids r.body hash) ∧
      db.AcceptsDevice (virtualMicrophone r.ids.device r.ids.user) ∧
      f = db.addAccount (r.organization existingOrg) (ownUser r.ids r.body hash)
        (virtualMicrophone r.ids.device r.ids.user) := by
  rw [inserts, AccountScript.insertOrganization, finish_flush, checkOrganization_eq_none]
  cases hp : r.env.hashPassword r.body.password with
  | error e =>
    constructor
    · rintro ⟨-, hf⟩
      cases hf
    · rintro ⟨hash, hh, -⟩
      cases hh
  | ok hash =>
    have hrest : (AccountScript.answer ((Except.ok hash : Except String String).mapError .valueError)
          fun hash => AccountScript.insertUser (ownUser r.ids r.body hash) <|
            AccountScript.insertDevice (virtualMicrophone r.ids.device r.ids.user) .done).finish db
          [fun db => db.addOrganization (r.organization existingOrg)] = some f ↔
        db.AcceptsUser (ownUser r.ids r.body hash) ∧
          db.AcceptsDevice (virtualMicrophone r.ids.device r.ids.user) ∧
          db.addAccount (r.organization existingOrg) (ownUser r.ids r.body hash)
            (virtualMicrophone r.ids.device r.ids.user) = f := by
      simp only [Except.mapError, AccountScript.answer, AccountScript.insertUser,
        AccountScript.insertDevice, finish_flush, checkUser_eq_none, checkDevice_eq_none, finish_done]
      exact acceptsUser_addOrganization.and (Iff.rfl.and Iff.rfl)
    constructor
    · rintro ⟨ho, hf⟩
      obtain ⟨hu, hd, rfl⟩ := hrest.mp hf
      exact ⟨hash, rfl, ho, hu, hd, rfl⟩
    · rintro ⟨_, ⟨⟩, ho, hu, hd, rfl⟩
      exact ⟨ho, hrest.mpr ⟨hu, hd, rfl⟩⟩

end Registration

end AiBadge
