import AiBadge.System.Acceptance
import AiBadge.System.AccountStep

/-! # Who owns the device of a session

Every user has one virtual microphone, which a creation without a device takes. A device
that the request names is only checked to exist, so the sessions of a run have devices of
their own users exactly as long as every creation names such a device.
-/

namespace AiBadge

open Lib Prog DbM SessionStatus

/-- The device that a creation without one takes. -/
def Db.microphone? (db : Db) (user : Uuid) : Option Device :=
  db.devices.find? fun d => d.userId = user && d.deviceType = "virtual_phone_mic"

theorem Db.microphone?_eq {db : Db} {d : Device} (hd : d ∈ db.devices)
    (htype : d.deviceType = "virtual_phone_mic")
    (hone : ∀ e ∈ db.devices, e.userId = d.userId → e = d) : db.microphone? d.userId = some d := by
  cases hm : db.microphone? d.userId with
  | none => exact absurd (by simpa using htype) (Table.find?_eq_none.mp hm d hd)
  | some e =>
    obtain ⟨he, hp⟩ := Table.find?_eq_some hm
    simp only [Bool.and_eq_true, decide_eq_true_eq] at hp
    rw [hone e he hp.1]

/-- The id of the device that a creation takes. -/
def Db.Resolves (db : Db) (given : Option PathId) (user deviceId : Uuid) : Prop :=
  given = some (some deviceId) ∨ given = none ∧ (db.microphone? user).map (·.id) = some deviceId

/-- Every check of a creation by the user passes. -/
structure Db.Creates (db : Db) (user uuid4 : Uuid) (body : SessionCreateRequest) (deviceId : Uuid) :
    Prop where
  resolves : db.Resolves body.deviceId user deviceId
  unique : ∀ s ∈ db.sessions, s.id ≠ uuid4
  device : ∃ d ∈ db.devices, d.id = deviceId
  title : body.title.all fitsTitle = true

def newSession (user uuid4 : Uuid) (body : SessionCreateRequest) (deviceId : Uuid) : Session where
  id := uuid4
  userId := user
  deviceId := deviceId
  title := body.title.map clipTitle
  status := idle

section Endpoint

variable {user uuid4 d : Uuid} {body : SessionCreateRequest} {t t₀ : Tx Db Files}
  {given : Option PathId}

theorem resolveDevice_returns : (resolveDevice given user).Returns t₀ d t ↔
    t₀.view.Resolves given user d ∧ t = t₀ := by
  cases given with
  | none => simp [resolveDevice, Db.Resolves, Db.microphone?, and_comm]
  | some g => simp [resolveDevice, Db.Resolves]

theorem createSession_returns : (createSession uuid4 body user).Returns t₀ () t ↔
    ∃ d, t₀.view.Creates user uuid4 body d ∧
      t = t₀.flush fun db => db.addSession (newSession user uuid4 body d) := by
  simp only [createSession, insertSession, returns_bind, returns_read, returns_ensure,
    returns_titleColumn, returns_write, resolveDevice_returns]
  constructor
  · rintro ⟨d, _, ⟨hd, rfl⟩, _, _, ⟨rfl, rfl⟩, _, _, ⟨hf, rfl⟩, _, _, ⟨rfl, rfl⟩, _, _, ⟨hv, rfl⟩,
      _, _, ⟨ht, rfl⟩, rfl⟩
    exact ⟨d, ⟨hd, by simpa using hf, by simpa using hv, ht⟩, rfl⟩
  · rintro ⟨d, h, rfl⟩
    exact ⟨d, _, ⟨h.resolves, rfl⟩, _, _, ⟨rfl, rfl⟩, (), _, ⟨by simpa using h.unique, rfl⟩, _, _,
      ⟨rfl, rfl⟩, (), _, ⟨by simpa using h.device, rfl⟩, (), _, ⟨h.title, rfl⟩, rfl⟩

variable {w : World}

theorem createSession_run : (Request.createSession user uuid4 body).run w.now =
    getCurrentUser user >>= fun u => AiBadge.createSession uuid4 body u.id := rfl

theorem accepts_createSession : w.Accepts (.createSession user uuid4 body) ↔
    (∃ u ∈ w.db.users, u.id = user) ∧ ∃ d, w.db.Creates user uuid4 body d := by
  unfold World.Accepts
  simp only [createSession_run, returns_bind, returns_getCurrentUser, createSession_returns]
  constructor
  · rintro ⟨t, u, _, ⟨⟨u, hu, rfl, rfl⟩, rfl⟩, d, h, rfl⟩
    exact ⟨⟨u, hu, rfl⟩, d, h⟩
  · rintro ⟨⟨u, hu, rfl⟩, d, h⟩
    exact ⟨_, u, _, ⟨⟨u, hu, rfl, rfl⟩, rfl⟩, d, h, rfl⟩

theorem serve_createSession (h : w.Accepts (.createSession user uuid4 body)) :
    ∃ d, w.db.Creates user uuid4 body d ∧ (w.serve (.createSession user uuid4 body)).db =
      w.db.addSession (newSession user uuid4 body d) := by
  obtain ⟨t, ht⟩ := h
  rw [serve_of_returns ht]
  simp only [createSession_run, returns_bind, returns_getCurrentUser, createSession_returns] at ht
  obtain ⟨u, _, ⟨⟨u, hu, rfl, rfl⟩, rfl⟩, d, h, rfl⟩ := ht
  exact ⟨d, h, rfl⟩

end Endpoint

namespace World

variable {w w' : World} {a : Action}

/-- Every user has one device of the type that registration gives. -/
def OneMicrophone (w : World) : Prop := ∀ u ∈ w.db.users, ∃ d ∈ w.db.devices, d.userId = u.id ∧
  d.deviceType = "virtual_phone_mic" ∧
    ∀ e ∈ w.db.devices, e.userId = u.id → e.deviceType = "virtual_phone_mic" → e = d

/-- The device of every session belongs to the user of the session. -/
def OwnDevices (w : World) : Prop :=
  ∀ s ∈ w.db.sessions, ∃ d ∈ w.db.devices, d.id = s.deviceId ∧ d.userId = s.userId

instance (w : World) : Decidable w.OwnDevices :=
  inferInstanceAs (Decidable (∀ s ∈ w.db.sessions, ∃ d ∈ w.db.devices, _))

/-- A creation without a device succeeds, if a user that there is sends it. -/
def AcceptsPlain (w : World) (a : Action) : Prop := ∀ user uuid4 title,
  a = .request (.createSession user uuid4 ⟨title, none⟩) → (∃ u ∈ w.db.users, u.id = user) →
    w.Accepts (.createSession user uuid4 ⟨title, none⟩)

/-- The condition on a creation: a title that fits the column, unless the request names a device;
and a device of the user's own, if the request names one and its title fits. -/
def NamesOwn (w : World) (a : Action) : Prop := ∀ user uuid4 body,
  a = .request (.createSession user uuid4 body) → (∃ u ∈ w.db.users, u.id = user) →
    (body.deviceId = none → body.title.all fitsTitle = true) ∧
      (body.title.all fitsTitle = true →
        ∀ d ∈ w.db.devices, body.deviceId = some (some d.id) → d.userId = user)

theorem Registered.oneMicrophone (h : w.Registered) : w.OneMicrophone := by
  intro u hu
  obtain ⟨d, hd, hdu⟩ := h.microphone u hu
  refine ⟨d, hd, hdu, ?_, fun e he heu _ => h.single d hd e he (heu.trans hdu.symm)⟩
  rw [(h.devices d hd).2.2]
  rfl

/-- The query finds the one microphone of a user. -/
theorem Registered.microphone?_eq (h : w.Registered) {d : Device} (hd : d ∈ w.db.devices) :
    w.db.microphone? d.userId = some d := by
  refine Db.microphone?_eq hd ?_ fun e he heu => h.single d hd e he heu
  rw [(h.devices d hd).2.2]
  rfl

theorem sessionIds_of_run {now : Timestamp} {tr : List (Transition World Action)}
    (hr : SystemRun now tr w) : ∀ s ∈ w.db.sessions, s.id ∈ w.issued := by
  have key : w.Sound ∧ ∀ s ∈ w.db.sessions, s.id ∈ w.issued := by
    refine hr.invariant (I := fun w => w.Sound ∧ ∀ s ∈ w.db.sessions, s.id ∈ w.issued)
      ⟨sound_init now, fun s hs => (Table.not_mem_empty s hs).elim⟩ ?_
    rintro w a w' ⟨hw, hi⟩ h
    refine ⟨hw.step h, fun s hs => ?_⟩
    rw [issued_of_step h]
    rcases (hw.sessions h).origin s hs with ⟨r, hrm, hid, -⟩ | ⟨rfl, -⟩
    · exact List.mem_append_left _ (hid ▸ hi r hrm)
    · exact List.mem_append_right _ List.mem_cons_self
  exact key.2

/-- No step takes a session from its user or its device. -/
theorem SessionStep.owner {s s' : Session} (h : w.SessionStep a s s') :
    s'.userId = s.userId ∧ s'.deviceId = s.deviceId := by
  cases h <;> exact ⟨rfl, rfl⟩

theorem devices_of_step (hw : w.Settled) (h : w.step a = some w') :
    ∀ d ∈ w.db.devices, d ∈ w'.db.devices := by
  intro d hd
  rcases accounts_of_step hw h with hacc | ⟨_, _, _, _, rfl, hr, hdb⟩
  · rw [(Accounts.mk.inj hacc).2.2]
    exact hd
  · rw [hdb]
    exact (hr.mem.2.2 d).mpr (.inl hd)

/-- Only a creation can give a session a device of another user. -/
theorem OwnDevices.step (hw : w.Sound) (ho : w.OwnDevices) (h : w.step a = some w')
    (hn : ∀ user uuid4 body, a ≠ .request (.createSession user uuid4 body)) : w'.OwnDevices := by
  intro s hs
  rcases (hw.sessions h).origin s hs with ⟨r, hr, -, hstep⟩ | ⟨ha, -⟩
  · obtain ⟨d, hd, hid, hu⟩ := ho r hr
    exact ⟨d, devices_of_step hw.settled h d hd, hid.trans hstep.owner.2.symm,
      hu.trans hstep.owner.1.symm⟩
  · exact absurd ha (hn _ _ _)

section Creation

variable {user uuid4 d : Uuid} {body : SessionCreateRequest}

theorem db_of_creation (h : w.step (.request (.createSession user uuid4 body)) = some w') :
    ¬ w.Accepts (.createSession user uuid4 body) ∧ w'.db = w.db ∨
      (∃ u ∈ w.db.users, u.id = user) ∧ ∃ d, w.db.Creates user uuid4 body d ∧
        w'.db = w.db.addSession (newSession user uuid4 body d) := by
  obtain ⟨-, w₁, hact, rfl⟩ := step_eq_some.mp h
  obtain rfl := Option.some.inj hact
  by_cases ha : w.Accepts (.createSession user uuid4 body)
  · exact .inr ⟨(accepts_createSession.mp ha).1, serve_createSession ha⟩
  · exact .inl ⟨ha, serve_of_not_accepts ha⟩

theorem mem_of_creation (hc : w.db.Creates user uuid4 body d)
    (hdb : w'.db = w.db.addSession (newSession user uuid4 body d)) (s : Session) :
    s ∈ w'.db.sessions ↔ s ∈ w.db.sessions ∨ s = newSession user uuid4 body d := by
  rw [hdb, Db.addSession_sessions]
  exact Table.mem_insert_of_not_mem hc.unique

/-- A creation keeps the invariant exactly if its device belongs to the user. -/
theorem OwnDevices.creation (ho : w.OwnDevices) (hc : w.db.Creates user uuid4 body d)
    (hdb : w'.db = w.db.addSession (newSession user uuid4 body d)) :
    w'.OwnDevices ↔ ∃ x ∈ w.db.devices, x.id = d ∧ x.userId = user := by
  have hmem := mem_of_creation hc hdb
  unfold OwnDevices
  rw [show w'.db.devices = w.db.devices by rw [hdb]; rfl]
  constructor
  · intro h
    exact h _ ((hmem _).mpr (.inr rfl))
  · intro h s hs
    rcases (hmem s).mp hs with hs | rfl
    · exact ho s hs
    · exact h

/-- A known user's creation with a fitting title takes the device it names, if that is there. -/
theorem creates_of_named (hids : ∀ s ∈ w.db.sessions, s.id ∈ w.issued)
    (hf : w.Fresh (.request (.createSession user uuid4 body)))
    (ht : body.title.all fitsTitle = true) {x : Device} (hx : x ∈ w.db.devices)
    (hr : w.db.Resolves body.deviceId user x.id) : w.db.Creates user uuid4 body x.id where
  resolves := hr
  unique s hs he := hf.2 uuid4 List.mem_cons_self (he ▸ hids s hs)
  device := ⟨x, hx, rfl⟩
  title := ht

/-- The microphone of a known user is what a creation without a device takes. -/
theorem Registered.resolves (h : w.Registered) {u : User} (hu : u ∈ w.db.users) :
    ∃ x ∈ w.db.devices, x.userId = u.id ∧ w.db.Resolves none u.id x.id := by
  obtain ⟨x, hx, hxu⟩ := h.microphone u hu
  refine ⟨x, hx, hxu, .inr ⟨rfl, ?_⟩⟩
  rw [← hxu, h.microphone?_eq hx]
  rfl

/-- The device a creation takes, if the request meets the condition. -/
theorem owner_of_creates (hu : ∃ u ∈ w.db.users, u.id = user)
    (hn : w.NamesOwn (.request (.createSession user uuid4 body)))
    (hc : w.db.Creates user uuid4 body d) : ∃ x ∈ w.db.devices, x.id = d ∧ x.userId = user := by
  obtain ⟨x, hx, rfl⟩ := hc.device
  refine ⟨x, hx, rfl, ?_⟩
  rcases hc.resolves with hr | ⟨-, hr⟩
  · exact (hn user uuid4 body rfl hu).2 hc.title x hx hr
  · obtain ⟨y, hy, hid⟩ := Option.map_eq_some_iff.mp hr
    obtain ⟨hym, hp⟩ := Table.find?_eq_some hy
    obtain rfl := Table.eq_of_key_eq hym hx hid
    simp only [Bool.and_eq_true, decide_eq_true_eq] at hp
    exact hp.1

end Creation

theorem namesOwn_of_step (hids : ∀ s ∈ w.db.sessions, s.id ∈ w.issued) (ho : w.OwnDevices)
    (h : w.step a = some w') (hown : w'.OwnDevices) (hplain : w.AcceptsPlain a) :
    w.NamesOwn a := by
  rintro user uuid4 ⟨title, given⟩ rfl hu
  constructor
  · rintro rfl
    obtain ⟨-, d, hc⟩ := accepts_createSession.mp (hplain user uuid4 title rfl hu)
    exact hc.title
  · rintro ht x hx rfl
    have hc := creates_of_named hids (fresh_of_step h) ht hx (.inl rfl)
    rcases db_of_creation h with ⟨hn, -⟩ | ⟨-, d, hd, hdb⟩
    · exact absurd (accepts_createSession.mpr ⟨hu, x.id, hc⟩) hn
    · obtain ⟨y, hy, rfl, hyu⟩ := (ho.creation hd hdb).mp hown
      rcases hd.resolves with hr | ⟨hr, -⟩
      · rwa [Table.eq_of_key_eq hx hy (Option.some.inj (Option.some.inj hr))]
      · cases hr

theorem ownDevices_of_namesOwn (hw : w.Sound) (ho : w.OwnDevices) (h : w.step a = some w')
    (hn : w.NamesOwn a) : w'.OwnDevices := by
  by_cases ha : ∃ user uuid4 body, a = .request (.createSession user uuid4 body)
  · obtain ⟨user, uuid4, body, rfl⟩ := ha
    rcases db_of_creation h with ⟨-, hdb⟩ | ⟨hu, d, hd, hdb⟩
    · unfold OwnDevices
      rwa [hdb]
    · exact (ho.creation hd hdb).mpr (owner_of_creates hu hn hd)
  · push Not at ha
    exact ho.step hw h ha

theorem acceptsPlain_of_namesOwn (hreg : w.Registered) (hids : ∀ s ∈ w.db.sessions, s.id ∈ w.issued)
    (h : w.step a = some w') (hn : w.NamesOwn a) : w.AcceptsPlain a := by
  rintro user uuid4 title rfl hu
  obtain ⟨u, hm, rfl⟩ := hu
  obtain ⟨x, hx, -, hr⟩ := hreg.resolves hm
  have ht := (hn u.id uuid4 ⟨title, none⟩ rfl ⟨u, hm, rfl⟩).1 rfl
  exact accepts_createSession.mpr
    ⟨⟨u, hm, rfl⟩, x.id, creates_of_named hids (fresh_of_step h) ht hx hr⟩

end World

namespace Replay

/-- Owner 2 creates session 5 with their own microphone. -/
def createPlain : Action := .request (.createSession (uuid 2) (uuid 5) ⟨none, none⟩)

/-- Owner 2 creates session 5 with the microphone 103 of user 102. -/
def createForeign : List Action :=
  [owner, .request (.register env ⟨uuid 101, uuid 102, uuid 103, uuid 104⟩ ⟨"c@d", "pw", "C", "P"⟩),
    .request (.createSession (uuid 2) (uuid 5) ⟨none, some (some (uuid 103))⟩)]

theorem createPlain_namesOwn (w : World) : w.NamesOwn createPlain := by
  rintro user uuid4 body ha -
  obtain ⟨rfl, rfl, rfl⟩ := Request.createSession.inj (Action.request.inj ha)
  exact ⟨fun _ => rfl, fun _ _ _ hg => by cases hg⟩

end Replay

end AiBadge
