import AiBadge.Migrations.DeviceNotNull
import AiBadge.Properties.DeviceOwnership

/-! # Migration 003 backfills or changes nothing

The unique key leaves at most one device for a session to join with. So the update fills
every gap or the migration rolls back, and for a registered user it picks the microphone
that a new session would get.
-/

namespace AiBadge

open Lib Prog

namespace LegacyDb

/-- The constraints of a database before the migration. -/
structure Valid (db : LegacyDb) : Prop where
  keyUnique : ∀ d ∈ db.devices, ∀ e ∈ db.devices, d.deviceKey = e.deviceKey → d = e
  user : ∀ s ∈ db.sessions, ∃ u ∈ db.users, u.id = s.userId
  notNull : db.isNullable = false → ∀ s ∈ db.sessions, s.deviceId.isSome
  references : db.deviceFk.isSome → db.referencesValid = true

/-- Every session without a device belongs to a user with a virtual microphone. -/
def Backfillable (db : LegacyDb) : Prop := ∀ s ∈ db.sessions, s.deviceId = none →
  ∃ u ∈ db.users, u.id = s.userId ∧
    ∃ d ∈ db.devices, d.userId = u.id ∧ d.deviceKey = s!"virtual-{u.id.str}"

/-- No session is without a device. -/
def Complete (db : LegacyDb) : Prop := ∀ s ∈ db.sessions, s.deviceId.isSome

variable {db : LegacyDb} {pick : Pick} {s : LegacySession} {d : Device}

theorem mem_joining : d ∈ db.joining s ↔
    d ∈ db.devices ∧ d.userId = s.userId ∧ d.deviceKey = s!"virtual-{s.userId.str}" := by
  rw [joining, Table.mem_select, Bool.and_eq_true, decide_eq_true_eq, decide_eq_true_eq,
    eq_comm (a := s.userId)]

theorem joined_eq_some (h : db.joined pick s = some d) : d ∈ db.joining s :=
  List.mem_of_getElem? h

theorem joined_eq_none : db.joined pick s = none ↔ db.joining s = [] := by
  rw [joined, List.getElem?_eq_none_iff]
  constructor
  · intro h
    by_contra hne
    have hpos := List.length_pos_iff.mpr hne
    exact absurd (Nat.mod_lt (pick s) hpos) (Nat.not_lt.mpr h)
  · intro h
    rw [h]
    exact Nat.zero_le _

theorem mem_backfill : s ∈ (db.backfill pick).sessions ↔ ∃ r ∈ db.sessions,
    s = if r.deviceId.isNone then r.assign (db.joined pick r) else r := by
  rw [backfill, Table.mem_update]

theorem backfill_kept (hs : s ∈ db.sessions) (hd : s.deviceId.isSome) :
    s ∈ (db.backfill pick).sessions := by
  refine mem_backfill.mpr ⟨s, hs, ?_⟩
  rw [if_neg (by simpa using Option.isSome_iff_ne_none.mp hd)]

theorem backfill_filled (hs : s ∈ db.sessions) (hn : s.deviceId = none)
    (hd : db.joined pick s = some d) :
    { s with deviceId := some d.id } ∈ (db.backfill pick).sessions := by
  refine mem_backfill.mpr ⟨s, hs, ?_⟩
  rw [if_pos (by rw [hn]; rfl), hd]
  rfl

theorem complete_backfill_iff : (db.backfill pick).Complete ↔
    ∀ s ∈ db.sessions, s.deviceId = none → ∃ d, d ∈ db.joining s := by
  constructor
  · intro h s hs hn
    cases hj : db.joined pick s with
    | some d => exact ⟨d, joined_eq_some hj⟩
    | none =>
      have hm : s ∈ (db.backfill pick).sessions := by
        refine mem_backfill.mpr ⟨s, hs, ?_⟩
        rw [hj]
        split <;> rfl
      exact absurd (h s hm) (by simp [hn])
  · intro h s hs
    obtain ⟨r, hr, rfl⟩ := mem_backfill.mp hs
    split
    next hn =>
      obtain ⟨d, hd⟩ := h r hr (Option.isNone_iff_eq_none.mp hn)
      cases hj : db.joined pick r with
      | some d => rfl
      | none => exact absurd (joined_eq_none.mp hj ▸ hd) List.not_mem_nil
    next hn => simpa [Option.isSome_iff_ne_none] using hn

theorem backfillable_iff (hv : db.Valid) (pick : Pick) :
    db.Backfillable ↔ (db.backfill pick).Complete := by
  rw [complete_backfill_iff]
  constructor
  · intro h s hs hn
    obtain ⟨u, -, hu, d, hd, hdu, hk⟩ := h s hs hn
    exact ⟨d, mem_joining.mpr ⟨hd, hdu.trans hu, hu ▸ hk⟩⟩
  · intro h s hs hn
    obtain ⟨u, hu, hus⟩ := hv.user s hs
    obtain ⟨d, hd⟩ := h s hs hn
    obtain ⟨hd, hdu, hk⟩ := mem_joining.mp hd
    exact ⟨u, hu, hus, d, hd, hdu.trans hus.symm, by rw [hus]; exact hk⟩

theorem referencesValid_iff : db.referencesValid = true ↔
    ∀ s ∈ db.sessions, ∀ i, s.deviceId = some i → ∃ d ∈ db.devices, d.id = i := by
  simp only [referencesValid, List.all_eq_true, Option.all_eq_true, Table.any_eq_true,
    decide_eq_true_eq]
  rfl

theorem referencesValid_backfill (h : db.referencesValid = true) :
    (db.backfill pick).referencesValid = true := by
  rw [referencesValid_iff] at h ⊢
  intro s hs i hi
  obtain ⟨r, hr, rfl⟩ := mem_backfill.mp hs
  split at hi
  next hn =>
    cases hj : db.joined pick r with
    | some d =>
      rw [hj] at hi
      obtain rfl := Option.some.inj hi
      exact ⟨d, (mem_joining.mp (joined_eq_some hj)).1, rfl⟩
    | none =>
      rw [hj] at hi
      exact h r hr i hi
  next => exact h r hr i hi

theorem unassigned_eq_nil : db.unassigned = [] ↔ db.Complete := by
  simp [unassigned, Table.select, Complete, Table.mem_def, Option.isSome_iff_ne_none]

/-- Without a gap there is nothing to fill. -/
theorem backfill_eq_self (h : db.Complete) : db.backfill pick = db := by
  have hsessions : (db.backfill pick).sessions = db.sessions := by
    rw [LegacyDb.backfill, Table.update_eq_self]
    intro s hs hn
    exact absurd (Option.isNone_iff_eq_none.mp hn) (Option.isSome_iff_ne_none.mp (h s hs))
  exact congrArg (fun t => { db with sessions := t }) hsessions

end LegacyDb

section Steps

variable {pick : Pick} {t : Tx LegacyDb Unit}

/-- Steps 1 and 2 end in the update, or raise because it leaves a gap. -/
theorem fillDevices_spec (pick : Pick) (t : Tx LegacyDb Unit) :
    (t.view.backfill pick).Complete ∧
        (∃ t', (fillDevices pick).Returns t () t' ∧ t'.view = t.view.backfill pick) ∨
      ¬ (t.view.backfill pick).Complete ∧ ∃ e t', (fillDevices pick).Raises t e t' := by
  by_cases hn : t.view.Complete
  · have hc : (t.view.backfill pick).Complete := by rwa [LegacyDb.backfill_eq_self hn]
    have hzero : decide (0 < t.view.unassigned.length) = false := by
      rw [LegacyDb.unassigned_eq_nil.mpr hn]
      rfl
    refine .inl ⟨hc, t, ?_, (LegacyDb.backfill_eq_self hn).symm⟩
    rw [fillDevices, returns_bind]
    exact ⟨_, _, returns_read.mpr ⟨rfl, rfl⟩, returns_when.mpr (.inr ⟨hzero, rfl⟩)⟩
  · have hpos : decide (0 < t.view.unassigned.length) = true := by
      rw [← LegacyDb.unassigned_eq_nil] at hn
      exact decide_eq_true (List.length_pos_iff.mpr hn)
    by_cases hc : (t.view.backfill pick).Complete
    · have hnil := LegacyDb.unassigned_eq_nil.mpr hc
      refine .inl ⟨hc, t.flush fun db => db.backfill pick, ?_, Tx.view_flush ..⟩
      simp only [fillDevices, returns_bind, returns_read, returns_when, returns_write,
        returns_ensure]
      exact ⟨_, _, ⟨rfl, rfl⟩, .inl ⟨hpos, (), _, rfl, _, _, ⟨rfl, rfl⟩,
        by rw [Tx.view_flush, hnil]; rfl, rfl⟩⟩
    · have hnil : (t.view.backfill pick).unassigned.isEmpty = false := by
        rw [← Bool.not_eq_true, List.isEmpty_iff, LegacyDb.unassigned_eq_nil]
        exact hc
      refine .inr ⟨hc, ?_⟩
      simp only [fillDevices, raises_bind, returns_read, raises_read, raises_when, raises_write,
        returns_write, raises_ensure, false_or]
      exact ⟨_, _, _, _, ⟨rfl, rfl⟩, hpos, (), _, rfl, _, _, ⟨rfl, rfl⟩,
        by rw [Tx.view_flush]; exact hnil, rfl, rfl⟩

theorem LegacyDb.setNotNull_eq_self {db : LegacyDb} (h : db.isNullable = false) :
    db.setNotNull = db := by
  rw [LegacyDb.setNotNull, ← h]

theorem alterNotNull_spec (h : t.view.Complete) :
    ∃ t', alterNotNull.Returns t () t' ∧ t'.view = t.view.setNotNull := by
  have hnil := LegacyDb.unassigned_eq_nil.mpr h
  simp only [alterNotNull, returns_bind, returns_read, returns_when, returns_write, returns_ensure]
  by_cases hn : t.view.isNullable = true
  · exact ⟨_, ⟨_, _, ⟨rfl, rfl⟩, .inl ⟨hn, _, _, ⟨rfl, rfl⟩, (), _, ⟨by rw [hnil]; rfl, rfl⟩, rfl⟩⟩,
      Tx.view_flush ..⟩
  · rw [Bool.not_eq_true] at hn
    exact ⟨t, ⟨_, _, ⟨rfl, rfl⟩, .inr ⟨hn, rfl⟩⟩, (LegacyDb.setNotNull_eq_self hn).symm⟩

/-- The foreign key after step 4. -/
def strictFk (fk : Option ForeignKey) : Option ForeignKey :=
  match fk.filter fun k => likeDeviceId k.name with
  | some k => some { k with onDelete := .restrict }
  | none => fk

theorem recreateForeignKey_spec (h : t.view.deviceFk.isSome → t.view.referencesValid = true) :
    ∃ t', recreateForeignKey.Returns t () t' ∧
      t'.view = t.view.setDeviceFk (strictFk t.view.deviceFk) := by
  simp only [recreateForeignKey, returns_bind, returns_read, returns_forSome, returns_write,
    returns_ensure]
  rcases Option.eq_none_or_eq_some (t.view.deviceFk.filter fun k => likeDeviceId k.name) with
    hk | ⟨k, hk⟩
  · refine ⟨t, ⟨_, _, ⟨rfl, rfl⟩, .inr ⟨hk, rfl⟩⟩, ?_⟩
    rw [strictFk, hk]
    rfl
  · have hs : t.view.deviceFk.isSome := by
      rw [Option.eq_some_of_filter_eq_some hk]
      rfl
    refine ⟨_, ⟨_, _, ⟨rfl, rfl⟩, .inl ⟨k, hk, (), _, rfl, _, _, ⟨rfl, rfl⟩, (), _, ⟨?_, rfl⟩,
      rfl⟩⟩, ?_⟩
    · rw [Tx.view_flush]
      exact h hs
    · rw [Tx.view_flush, Tx.view_flush, strictFk, hk]
      rfl

theorem keeps_upgrade (pick : Pick) : Keeps Tx.committed (upgrade pick) := by
  refine Keeps.bind ?_ fun _ => Keeps.bind ?_ fun _ => ?_
  · exact keeps_read.bind fun _ => Keeps.when (keeps_write_committed.bind fun _ =>
      keeps_read.bind fun _ => keeps_ensure)
  · exact keeps_read.bind fun _ => Keeps.when (keeps_read.bind fun _ => keeps_ensure.bind fun _ =>
      keeps_write_committed)
  · refine keeps_read.bind fun fk => ?_
    cases fk with
    | none => exact keeps_pure
    | some k =>
      exact keeps_write_committed.bind fun _ => keeps_read.bind fun _ => keeps_ensure.bind fun _ =>
        keeps_write_committed

end Steps

section Migrate

variable {db : LegacyDb} {pick : Pick}

theorem migrate_of_returns {t : Tx LegacyDb Unit}
    (h : (upgrade pick).Returns (Tx.start db ()) () t) : db.migrate pick = (.ok (), t.view) := by
  rw [LegacyDb.migrate, show upgrade pick _ = _ from h]
  rfl

theorem migrate_of_raises {t : Tx LegacyDb Unit} {e : MigrationError}
    (h : (upgrade pick).Raises (Tx.start db ()) e t) : db.migrate pick = (.error e, db) := by
  have hc := keeps_upgrade pick (Tx.start db ())
  rw [show upgrade pick _ = _ from h] at hc
  rw [LegacyDb.migrate, show upgrade pick _ = _ from h]
  exact congrArg (Prod.mk _) hc

/-- The database after a successful migration. -/
def LegacyDb.migrated (db : LegacyDb) (pick : Pick) : LegacyDb :=
  (db.backfill pick).setNotNull.setDeviceFk (strictFk db.deviceFk)

/-- The two ways the migration can end. -/
theorem migrate_spec (hv : db.Valid) (pick : Pick) :
    (db.backfill pick).Complete ∧ db.migrate pick = (.ok (), db.migrated pick) ∨
      ¬ (db.backfill pick).Complete ∧ ∃ e, db.migrate pick = (.error e, db) := by
  rcases fillDevices_spec pick (Tx.start db ()) with ⟨hc, t₁, h₁, hv₁⟩ | ⟨hc, e, t₁, h₁⟩
  · rw [Tx.view_start] at hc hv₁
    obtain ⟨t₂, h₂, hv₂⟩ := alterNotNull_spec (hv₁ ▸ hc)
    rw [hv₁] at hv₂
    have hrefs : t₂.view.deviceFk.isSome → t₂.view.referencesValid = true := by
      rw [hv₂]
      exact fun hk => LegacyDb.referencesValid_backfill (hv.references hk)
    obtain ⟨t₃, h₃, hv₃⟩ := recreateForeignKey_spec hrefs
    have hret : (upgrade pick).Returns (Tx.start db ()) () t₃ :=
      returns_bind.mpr ⟨(), t₁, h₁, returns_bind.mpr ⟨(), t₂, h₂, h₃⟩⟩
    refine .inl ⟨hc, ?_⟩
    rw [migrate_of_returns hret, hv₃, hv₂]
    rfl
  · exact .inr ⟨hc, e, migrate_of_raises (raises_bind.mpr (.inl h₁))⟩

end Migrate

/-- What a successful migration makes of a database. -/
structure LegacyDb.Migrated (db db' : LegacyDb) : Prop where
  users : db'.users = db.users
  devices : db'.devices = db.devices
  ids : db'.sessions.rows.map (·.id) = db.sessions.rows.map (·.id)
  notNull : db'.isNullable = false ∧ ∀ s ∈ db'.sessions, s.deviceId.isSome
  kept : ∀ s ∈ db.sessions, s.deviceId.isSome → s ∈ db'.sessions
  filled : ∀ s ∈ db.sessions, s.deviceId = none → ∃ d ∈ db.devices, d.userId = s.userId ∧
    d.deviceKey = s!"virtual-{s.userId.str}" ∧ { s with deviceId := some d.id } ∈ db'.sessions
  resolved : ∀ now tr w, SystemRun now tr w → ∀ u ∈ w.db.users,
    (∀ d, d.userId = u.id → (d ∈ db.devices ↔ d ∈ w.db.devices)) →
      ∀ app : Db, app.devices = db'.devices → ∀ files, ∀ s ∈ db.sessions, s.userId = u.id →
        s.deviceId = none → ∃ i, { s with deviceId := some i } ∈ db'.sessions ∧
          (resolveDevice none u.id).Returns (Tx.start app files) i (Tx.start app files)

section Migrated

variable {db : LegacyDb} {pick : Pick}

theorem migrated_filled (hc : (db.backfill pick).Complete) {s : LegacySession}
    (hs : s ∈ db.sessions) (hn : s.deviceId = none) : ∃ d ∈ db.joining s,
      { s with deviceId := some d.id } ∈ (db.migrated pick).sessions := by
  obtain ⟨d, hd⟩ := LegacyDb.complete_backfill_iff.mp hc s hs hn
  cases hj : db.joined pick s with
  | none => exact absurd (LegacyDb.joined_eq_none.mp hj ▸ hd) List.not_mem_nil
  | some e => exact ⟨e, LegacyDb.joined_eq_some hj, LegacyDb.backfill_filled hs hn hj⟩

/-- A registered user's only microphone is what the migration and a new session take. -/
theorem resolve_of_joining {now : Timestamp} {tr : List (Transition World Action)} {w : World}
    (hr : SystemRun now tr w) {u : User}
    (hsame : ∀ d, d.userId = u.id → (d ∈ db.devices ↔ d ∈ w.db.devices)) {s : LegacySession}
    (hsu : s.userId = u.id) {d : Device} (hd : d ∈ db.joining s) {app : Db}
    (happ : app.devices = db.devices) (files : Files) :
    (resolveDevice none u.id).Returns (Tx.start app files) d.id (Tx.start app files) := by
  have hreg := (World.registered_of_run hr).2
  obtain ⟨hdm, hds, -⟩ := LegacyDb.mem_joining.mp hd
  have hdu : d.userId = u.id := hds.trans hsu
  have hdw : d ∈ w.db.devices := (hsame d hdu).mp hdm
  have htype : d.deviceType = "virtual_phone_mic" := by
    rw [(hreg.devices d hdw).2.2]
    rfl
  have hmic : app.microphone? d.userId = some d := by
    refine Db.microphone?_eq (happ ▸ hdm) htype fun e he heu => ?_
    rw [happ] at he
    exact hreg.single d hdw e ((hsame e (heu.trans hdu)).mp he) heu
  rw [hdu] at hmic
  refine resolveDevice_returns.mpr ⟨.inr ⟨rfl, ?_⟩, rfl⟩
  rw [Tx.view_start, hmic]
  rfl

theorem migrated_of_complete (hc : (db.backfill pick).Complete) :
    db.Migrated (db.migrated pick) where
  users := rfl
  devices := rfl
  ids := Table.keys_update (LegacyDb.assign_id db pick)
  notNull := ⟨rfl, hc⟩
  kept s hs hd := LegacyDb.backfill_kept hs hd
  filled s hs hn := by
    obtain ⟨d, hd, hm⟩ := migrated_filled hc hs hn
    obtain ⟨hdm, hdu, hk⟩ := LegacyDb.mem_joining.mp hd
    exact ⟨d, hdm, hdu, hk, hm⟩
  resolved now tr w hr u _ hsame app happ files s hs hsu hn := by
    obtain ⟨d, hd, hm⟩ := migrated_filled hc hs hn
    exact ⟨d.id, hm, resolve_of_joining hr hsame hsu hd happ files⟩

end Migrated

/-- The migration succeeds exactly on the databases it can fill, and otherwise changes nothing. -/
theorem migrate_correct (db : LegacyDb) (hv : db.Valid) (pick : Pick) :
    ((db.migrate pick).1.isOk = true ↔ db.Backfillable) ∧
      ((db.migrate pick).1.isOk = true → db.Migrated (db.migrate pick).2) ∧
      ((db.migrate pick).1.isOk = false → (db.migrate pick).2 = db) := by
  rw [LegacyDb.backfillable_iff hv pick]
  rcases migrate_spec hv pick with ⟨hc, h⟩ | ⟨hc, e, h⟩
  · rw [h]
    refine ⟨iff_of_true rfl hc, fun _ => migrated_of_complete hc, fun hf => ?_⟩
    exact absurd hf.symm Bool.false_ne_true
  · rw [h]
    refine ⟨iff_of_false Bool.false_ne_true hc, fun ht => ?_, fun _ => rfl⟩
    exact absurd ht Bool.false_ne_true

namespace Replay

/-- User 2 with the microphone 3 and a session without a device. -/
def legacy : LegacyDb where
  users := (∅ : Table User.id).insert ⟨uuid 2, uuid 1, "a@b", "pw", "A", "owner"⟩
  devices := (∅ : Table Device.id).insert (virtualMicrophone (uuid 3) (uuid 2))
  sessions := (∅ : Table LegacySession.id).insert ⟨uuid 5, uuid 2, none, none, 0⟩
  isNullable := true
  deviceFk := some ⟨"sessions_device_id_fkey", .setNull⟩

theorem legacy_valid : legacy.Valid where
  keyUnique d hd e he _ := by
    obtain rfl := List.mem_singleton.mp hd
    exact (List.mem_singleton.mp he).symm
  user := by decide +kernel
  notNull := by decide
  references _ := by decide +kernel

end Replay

theorem migrate_correct_legacy : (Replay.legacy.migrate fun _ => 0).1.isOk = true ∧
    Replay.legacy.Migrated (Replay.legacy.migrate fun _ => 0).2 := by
  have hok : (Replay.legacy.migrate fun _ => 0).1.isOk = true := by decide +kernel
  exact ⟨hok, (migrate_correct Replay.legacy Replay.legacy_valid fun _ => 0).2.1 hok⟩

end AiBadge
