import AiBadge.Orchestrator.Identity
import AiBadge.System.Invariant

/-! # Organizations, users and devices over one step

A registration adds one row to each of the three tables, no other step touches them.
So every user has one virtual microphone, with the key that the registration gave it.
-/

namespace AiBadge

open Lib Prog DbM

/-- The tables that only registrations write. -/
structure Accounts where
  organizations : Table Organization.id
  users : Table User.id
  devices : Table Device.id

def Db.accounts (db : Db) : Accounts := ⟨db.organizations, db.users, db.devices⟩

/-- The slug with the suffix that keeps it apart from a slug which is taken. -/
def suffixedSlug (env : AuthEnv) (ids : RegisterIds) (body : RegisterRequest) : String :=
  s!"{slugify env body.orgName}-{take ids.suffix.hex 6}"

def ownOrganization (env : AuthEnv) (ids : RegisterIds) (body : RegisterRequest) (db : Db) :
    Organization where
  id := ids.org
  name := body.orgName
  slug := if db.organizations.any fun o => o.slug = slugify env body.orgName then
    suffixedSlug env ids body else slugify env body.orgName

def ownUser (ids : RegisterIds) (body : RegisterRequest) (passwordHash : String) : User where
  id := ids.user
  orgId := ids.org
  email := body.email
  passwordHash := passwordHash
  displayName := body.displayName
  role := "owner"

def virtualMicrophone (id user : Uuid) : Device where
  id := id
  userId := user
  name := "virtual_phone_mic"
  deviceKey := s!"virtual-{user.str}"
  deviceType := "virtual_phone_mic"
  status := "active"

def Db.addAccount (db : Db) (o : Organization) (u : User) (d : Device) : Db :=
  ((db.addOrganization o).addUser u).addDevice d

/-- Every check of a registration passes. -/
structure Db.Registers (db : Db) (env : AuthEnv) (ids : RegisterIds) (body : RegisterRequest)
    (passwordHash : String) : Prop where
  email : ∀ u ∈ db.users, u.email ≠ body.email
  password : env.hashPassword body.password = .ok passwordHash
  organization : db.AcceptsOrganization (ownOrganization env ids body db)
  user : db.AcceptsUser (ownUser ids body passwordHash)
  device : db.AcceptsDevice (virtualMicrophone ids.device ids.user)

section Register

variable {env : AuthEnv} {ids : RegisterIds} {body : RegisterRequest} {t t₀ : Tx Db Files}

theorem acceptsUser_addOrganization {db : Db} {o : Organization} {u : User} :
    (db.addOrganization o).AcceptsUser u ↔ db.AcceptsUser u :=
  ⟨fun h => ⟨h.unique, h.email, h.passwordHash, h.displayName⟩,
    fun h => ⟨h.unique, h.email, h.passwordHash, h.displayName⟩⟩

theorem mapError_valueError_eq_ok {x : Except String String} {hash : String} :
    x.mapError Exn.valueError = .ok hash ↔ x = .ok hash := by
  cases x <;> simp [Except.mapError]

theorem returns_register : (register env ids body).Returns t₀ () t ↔
    ∃ hash, t₀.view.Registers env ids body hash ∧
      t = ((t₀.flush fun db => db.addOrganization (ownOrganization env ids body t₀.view)).flush
        fun db => db.addUser (ownUser ids body hash)).flush
          fun db => db.addDevice (virtualMicrophone ids.device ids.user) := by
  simp only [register, returns_bind, returns_read, returns_ensure, returns_answer,
    returns_insertOrganization, returns_insertUser, returns_insertDevice,
    mapError_valueError_eq_ok]
  constructor
  · rintro ⟨_, _, ⟨rfl, rfl⟩, _, _, ⟨he, rfl⟩, _, _, ⟨rfl, rfl⟩, _, _, ⟨ho, rfl⟩, hash, _, ⟨hp, rfl⟩,
      _, _, ⟨hu, rfl⟩, hd, rfl⟩
    rw [Tx.view_flush, acceptsUser_addOrganization] at hu
    rw [Tx.view_flush, Tx.view_flush] at hd
    exact ⟨hash, ⟨by simpa using he, hp, ho, hu, hd⟩, rfl⟩
  · rintro ⟨hash, h, rfl⟩
    refine ⟨_, _, ⟨rfl, rfl⟩, (), _, ⟨by simpa using h.email, rfl⟩, _, _, ⟨rfl, rfl⟩, (), _,
      ⟨h.organization, rfl⟩, hash, _, ⟨h.password, rfl⟩, (), _, ⟨?_, rfl⟩, ?_, rfl⟩
    · rw [Tx.view_flush, acceptsUser_addOrganization]
      exact h.user
    · rw [Tx.view_flush, Tx.view_flush]
      exact h.device

variable {w : World}

theorem accepts_register : w.Accepts (.register env ids body) ↔
    ∃ hash, w.db.Registers env ids body hash := by
  constructor
  · rintro ⟨t, ht⟩
    obtain ⟨hash, h, -⟩ := returns_register.mp ht
    exact ⟨hash, h⟩
  · rintro ⟨hash, h⟩
    exact ⟨_, returns_register.mpr ⟨hash, h, rfl⟩⟩

theorem serve_register (h : w.Accepts (.register env ids body)) :
    ∃ hash, w.db.Registers env ids body hash ∧ (w.serve (.register env ids body)).db =
      w.db.addAccount (ownOrganization env ids body w.db) (ownUser ids body hash)
        (virtualMicrophone ids.device ids.user) := by
  obtain ⟨t, ht⟩ := h
  rw [serve_of_returns ht]
  obtain ⟨hash, hr, rfl⟩ := returns_register.mp ht
  exact ⟨hash, hr, rfl⟩

/-- The rows after a registration are the old ones and the three new ones. -/
theorem Db.Registers.mem {db : Db} {hash : String} (h : db.Registers env ids body hash) :
    let db' := db.addAccount (ownOrganization env ids body db) (ownUser ids body hash)
      (virtualMicrophone ids.device ids.user)
    (∀ o, o ∈ db'.organizations ↔ o ∈ db.organizations ∨ o = ownOrganization env ids body db) ∧
      (∀ u, u ∈ db'.users ↔ u ∈ db.users ∨ u = ownUser ids body hash) ∧
      ∀ d, d ∈ db'.devices ↔ d ∈ db.devices ∨ d = virtualMicrophone ids.device ids.user :=
  ⟨fun _ => Table.mem_insert_of_not_mem fun r hr => (h.organization.unique r hr).1,
    fun _ => Table.mem_insert_of_not_mem fun r hr => (h.user.unique r hr).1,
    fun _ => Table.mem_insert_of_not_mem fun r hr => (h.device r hr).1⟩

end Register

namespace World

variable {w w' : World} {a : Action}

theorem accounts_of_request {r : Request} {db : Db} (h : RequestEffect w r db)
    (hn : ∀ env ids body, r ≠ .register env ids body) : db.accounts = w.db.accounts := by
  cases h with
  | register => exact absurd rfl (hn _ _ _)
  | approveAll =>
    unfold advanceSession
    split <;> rfl
  | _ => rfl

theorem accounts_of_commit {input : HandlerInput} {j : Job} {db : Db}
    (h : HandlerCommit w.db input j db) : db.accounts = w.db.accounts := by
  cases h <;> rfl

theorem accounts_of_leftover {now : Timestamp} {pending : List (Db → Db)}
    (h : Leftover now pending) : (w.session pending).view.accounts = w.db.accounts := by
  cases h <;> rfl

theorem accounts_of_deletion {d : DeletionJob} {db db' : Db} {files files' : Files}
    (h : DeletionEffect d db files db' files') : db'.accounts = db.accounts := by
  cases h with
  | artifactRows => cases d.sessionId <;> rfl
  | _ => rfl

theorem accounts_of_effect {db : Db} {files : Files} (hw : w.Settled) (h : w.Effect a db files)
    (hn : ∀ env ids body, a ≠ .request (.register env ids body)) :
    db.accounts = w.db.accounts := by
  cases h with
  | served _ h => exact accounts_of_request h fun env ids body he => hn env ids body (he ▸ rfl)
  | committed _ _ _ h => exact accounts_of_commit h
  | deletion hp _ h => exact (accounts_of_deletion h).trans (accounts_of_leftover (hw.tail hp))
  | _ => rfl

theorem db_of_registration {env : AuthEnv} {ids : RegisterIds} {body : RegisterRequest}
    (h : w.step (.request (.register env ids body)) = some w')
    (ha : w.Accepts (.register env ids body)) : ∃ hash, w.db.Registers env ids body hash ∧
      w'.db = w.db.addAccount (ownOrganization env ids body w.db) (ownUser ids body hash)
        (virtualMicrophone ids.device ids.user) := by
  obtain ⟨-, w₁, hact, rfl⟩ := step_eq_some.mp h
  obtain rfl := Option.some.inj hact
  exact serve_register ha

/-- A step leaves the accounts alone, or it is a registration. -/
theorem accounts_of_step (hw : w.Settled) (h : w.step a = some w') :
    w'.db.accounts = w.db.accounts ∨ ∃ env ids body hash,
      a = .request (.register env ids body) ∧ w.db.Registers env ids body hash ∧
        w'.db = w.db.addAccount (ownOrganization env ids body w.db) (ownUser ids body hash)
          (virtualMicrophone ids.device ids.user) := by
  by_cases ha : ∃ env ids body, a = .request (.register env ids body)
  · obtain ⟨env, ids, body, rfl⟩ := ha
    by_cases hacc : w.Accepts (.register env ids body)
    · obtain ⟨hash, hr, hdb⟩ := db_of_registration h hacc
      exact .inr ⟨env, ids, body, hash, rfl, hr, hdb⟩
    · obtain ⟨-, w₁, hact, rfl⟩ := step_eq_some.mp h
      obtain rfl := Option.some.inj hact
      exact .inl (congrArg Db.accounts (serve_of_not_accepts hacc))
  · push Not at ha
    exact .inl (accounts_of_effect hw (effect_of_step h) ha)

/-- Every row of an account is one a registration made, with ids drawn for it. -/
structure Registered (w : World) : Prop where
  organizations : ∀ o ∈ w.db.organizations, o.id ∈ w.issued
  users : ∀ u ∈ w.db.users, u.id ∈ w.issued
  devices : ∀ d ∈ w.db.devices, d.id ∈ w.issued ∧ d.userId ∈ w.issued ∧
    d = virtualMicrophone d.id d.userId
  microphone : ∀ u ∈ w.db.users, ∃ d ∈ w.db.devices, d.userId = u.id
  single : ∀ d ∈ w.db.devices, ∀ e ∈ w.db.devices, e.userId = d.userId → e = d

theorem registered_init (now : Timestamp) : (World.init now).Registered where
  organizations _ h := (Table.not_mem_empty _ h).elim
  users _ h := (Table.not_mem_empty _ h).elim
  devices _ h := (Table.not_mem_empty _ h).elim
  microphone _ h := (Table.not_mem_empty _ h).elim
  single _ h := (Table.not_mem_empty _ h).elim

theorem Registered.mono (h : w.Registered) (hd : w'.db.accounts = w.db.accounts)
    (hi : ∀ u ∈ w.issued, u ∈ w'.issued) : w'.Registered := by
  obtain ⟨ho, hu, hv⟩ := Accounts.mk.inj hd
  constructor
  · exact fun o hm => hi _ (h.organizations o (ho ▸ hm))
  · exact fun u hm => hi _ (h.users u (hu ▸ hm))
  · intro d hm
    obtain ⟨h₁, h₂, h₃⟩ := h.devices d (hv ▸ hm)
    exact ⟨hi _ h₁, hi _ h₂, h₃⟩
  · intro u hm
    obtain ⟨d, hd, he⟩ := h.microphone u (hu ▸ hm)
    exact ⟨d, hv ▸ hd, he⟩
  · exact fun d hd e he => h.single d (hv ▸ hd) e (hv ▸ he)

theorem Registered.step (hw : w.Settled) (h : w.Registered) (hs : w.step a = some w') :
    w'.Registered := by
  have hissued : ∀ u ∈ w.issued, u ∈ w'.issued := by
    intro u hu
    rw [issued_of_step hs]
    exact List.mem_append_left _ hu
  rcases accounts_of_step hw hs with hd | ⟨env, ids, body, hash, rfl, hr, hdb⟩
  · exact h.mono hd hissued
  have hnew : ∀ u ∈ [ids.org, ids.user, ids.device, ids.suffix], u ∈ w'.issued := by
    intro u hu
    rw [issued_of_step hs]
    exact List.mem_append_right _ hu
  obtain ⟨ho, hu, hv⟩ := hr.mem
  rw [← hdb] at ho hu hv
  -- no device belongs to the new user yet
  have huser : ∀ d ∈ w.db.devices, d.userId ≠ ids.user := by
    intro d hd he
    exact (fresh_of_step hs).2 ids.user (by simp [Action.draws, Request.draws])
      (he ▸ (h.devices d hd).2.1)
  constructor
  · intro o hm
    rcases (ho o).mp hm with hm | rfl
    · exact hissued _ (h.organizations o hm)
    · exact hnew _ (by simp [ownOrganization])
  · intro u hm
    rcases (hu u).mp hm with hm | rfl
    · exact hissued _ (h.users u hm)
    · exact hnew _ (by simp [ownUser])
  · intro d hm
    rcases (hv d).mp hm with hm | rfl
    · obtain ⟨h₁, h₂, h₃⟩ := h.devices d hm
      exact ⟨hissued _ h₁, hissued _ h₂, h₃⟩
    · exact ⟨hnew _ (by simp [virtualMicrophone]), hnew _ (by simp [virtualMicrophone]), rfl⟩
  · intro u hm
    rcases (hu u).mp hm with hm | rfl
    · obtain ⟨d, hd, he⟩ := h.microphone u hm
      exact ⟨d, (hv d).mpr (.inl hd), he⟩
    · exact ⟨_, (hv _).mpr (.inr rfl), rfl⟩
  · intro d hd e he hde
    rcases (hv d).mp hd with hd | rfl
    · rcases (hv e).mp he with he | rfl
      · exact h.single d hd e he hde
      · exact absurd hde.symm (huser d hd)
    · rcases (hv e).mp he with he | rfl
      · exact absurd hde (huser e he)
      · rfl

theorem registered_of_run {now : Timestamp} {tr : List (Transition World Action)}
    (hr : SystemRun now tr w) : w.Sound ∧ w.Registered := by
  refine hr.invariant (I := fun w => w.Sound ∧ w.Registered)
    ⟨sound_init now, registered_init now⟩ ?_
  rintro w a w' ⟨hw, hi⟩ h
  exact ⟨hw.step h, hi.step hw.settled h⟩

end World

end AiBadge
