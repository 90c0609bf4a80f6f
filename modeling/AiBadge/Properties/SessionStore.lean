import AiBadge.Lib.Projection
import AiBadge.Properties.AuditPaging
import AiBadge.Properties.DeviceOwnership

/-! # The sessions of a user as a store

What the session endpoints show of a session, apart from its status and times, is an entry of
a store that the accepted requests of its owner alone write. Workers and other users only show in
the status.
-/

namespace AiBadge

open Lib Prog DbM SessionStatus

/-- What a response shows of a session, apart from its status and times. -/
structure SessionEntry where
  id : Uuid
  userId : Uuid
  deviceId : Uuid
  title : Option String
  consentGranted : Bool
  audioKey : Option AudioKey
  audioFormat : Option String
  audioSizeBytes : Option Nat

def SessionEntry.response (e : SessionEntry) (status : SessionStatus) : SessionResponse where
  id := e.id.str
  userId := e.userId.str
  deviceId := some e.deviceId.str
  title := e.title
  status := status.value
  consentGranted := e.consentGranted
  audioKey := e.audioKey.map AudioKey.text
  audioFormat := e.audioFormat
  audioSizeBytes := e.audioSizeBytes

@[simps] def Session.entry (s : Session) : SessionEntry where
  id := s.id
  userId := s.userId
  deviceId := s.deviceId
  title := s.title
  consentGranted := s.consentGranted
  audioKey := s.audioKey
  audioFormat := s.audioFormat
  audioSizeBytes := s.audioSizeBytes

/-- The answer to a request for one session. -/
def fetched : Option SessionResponse → Except Exn Reply
  | some r => .ok (.session r)
  | none => .error (.http 404 "Session not found")

theorem Session.response_entry (s : Session) : s.entry.response s.status = s.toResponse := rfl

/-- What a user may do to the store. -/
inductive SessionChange where
  | opened (e : SessionEntry)
  | consent (id : Uuid) (granted : Bool)
  | audio (id : Uuid) (key : AudioKey) (size : Nat)

namespace SessionChange

/-- The entry with this id, changed. -/
def revise (id : Uuid) (f : SessionEntry → SessionEntry) (es : List SessionEntry) :
    List SessionEntry :=
  es.map fun e => if e.id = id then f e else e

def apply : SessionChange → List SessionEntry → List SessionEntry
  | opened e, es => es ++ [e]
  | consent id granted, es => revise id (fun e => { e with consentGranted := granted }) es
  | audio id key size, es => revise id (fun e => { e with
      audioKey := some key, audioFormat := some key.format, audioSizeBytes := some size }) es

end SessionChange

/-- The device that a creation takes. -/
def Db.deviceFor (db : Db) (given : Option PathId) (user : Uuid) : Option Uuid :=
  match given with
  | some device => device
  | none => (db.microphone? user).map (·.id)

def Request.sessionChange? (db : Db) : Request → Option SessionChange
  | createSession user uuid4 body => (db.deviceFor body.deviceId user).map fun device =>
      .opened (newSession user uuid4 body device).entry
  | updateConsent _ (some id) consent => some (.consent id consent)
  | uploadAudio _ uuid4 (some id) file =>
    some (.audio id ⟨uuid4, getAudioFormat file.filename file.contentType⟩ file.size)
  | _ => none

/-- What an action does to the store, if it is an accepted request of the user. -/
def World.sessionChange? (w : World) (user : Uuid) : Action → Option SessionChange
  | .request r => if r.user? = some user ∧ w.Accepts r then r.sessionChange? w.db else none
  | _ => none

/-- The store of a user after a run: what their accepted requests add up to. -/
def sessionStore (b : Backend) (user : Uuid) (tr : List (Transition World ApiAction)) :
    List SessionEntry :=
  project (fun w a => (a.action? b w).bind (w.sessionChange? user)) SessionChange.apply [] tr

/-- The entries of the rows of a user. -/
def Db.entries (db : Db) (user : Uuid) : List SessionEntry :=
  (db.sessions.select fun s => s.userId = user).map Session.entry

section Step

variable {w w' : World} {a : Action} {user : Uuid} {db db' : Db}

theorem Db.resolves_iff {given : Option PathId} {device : Uuid} :
    db.Resolves given user device ↔ db.deviceFor given user = some device := by
  cases given with
  | none => simp [Db.Resolves, Db.deviceFor]
  | some g => simp [Db.Resolves, Db.deviceFor]

theorem Db.entries_congr (h : db'.sessions = db.sessions) : db'.entries user = db.entries user := by
  rw [Db.entries, h, Db.entries]

/-- A change of the row `s` shows in the store of its owner alone. -/
theorem Db.entries_revised {s : Session} {f : Session → Session}
    {g : SessionEntry → SessionEntry} (hf : ∀ r, (f r).id = r.id) (hs : s ∈ db.sessions)
    (h : db'.sessions = db.sessions.update (fun r => r.id = s.id) f hf)
    (hu : ∀ r, (f r).userId = r.userId) (hg : ∀ r, (f r).entry = g r.entry) :
    db'.entries user =
      if s.userId = user then SessionChange.revise s.id g (db.entries user)
      else db.entries user := by
  have hq : ∀ r, decide ((f r).userId = user) = decide (r.userId = user) := fun r => by rw [hu]
  rw [Db.entries, h, Table.select_update hq, List.map_map]
  split
  next ho =>
    rw [SessionChange.revise, Db.entries, List.map_map]
    apply List.map_congr_left
    intro r _
    by_cases hr : r.id = s.id
    · simp [hr, hg]
    · simp [hr]
  next ho =>
    apply List.map_congr_left
    intro r hr
    obtain ⟨hr, hru⟩ := Table.mem_select.mp hr
    have hne : r.id ≠ s.id := by
      intro he
      obtain rfl := Table.eq_of_key_eq hr hs he
      exact ho (of_decide_eq_true hru)
    simp [hne]

/-- A change that the entry does not show. -/
theorem Db.entries_hidden {id : Uuid} {f : Session → Session} (hf : ∀ r, (f r).id = r.id)
    (h : db'.sessions = db.sessions.update (fun r => r.id = id) f hf)
    (hg : ∀ r, (f r).entry = r.entry) : db'.entries user = db.entries user := by
  have hq : ∀ r, decide ((f r).userId = user) = decide (r.userId = user) := by
    intro r
    have hu : (f r).userId = r.userId := congrArg SessionEntry.userId (hg r)
    rw [hu]
  rw [Db.entries, h, Table.select_update hq, List.map_map]
  apply List.map_congr_left
  intro r _
  by_cases hr : r.id = id
  · simp [hr, hg]
  · simp [hr]

theorem Db.entries_addSession {s : Session} (hfree : ∀ r ∈ db.sessions, r.id ≠ s.id) :
    (db.addSession s).entries user =
      if s.userId = user then db.entries user ++ [s.entry] else db.entries user := by
  rw [Db.entries, Db.addSession_sessions, Table.select_insert_of_not_mem hfree, List.map_append]
  by_cases hu : s.userId = user
  · simp [hu, Db.entries]
  · simp [hu, Db.entries]

/-- A request that is served does to the store of its user what it asks for. -/
theorem entries_of_served {r : Request} (ha : w.Accepts r) (h : RequestEffect w r db)
    (hserve : (w.serve r).db = db) :
    db.entries user = (w.sessionChange? user (.request r)).elim (w.db.entries user)
      fun c => c.apply (w.db.entries user) := by
  have other (hn : r.sessionChange? w.db = none) (he : db.entries user = w.db.entries user) :
      db.entries user = (w.sessionChange? user (.request r)).elim (w.db.entries user)
        fun c => c.apply (w.db.entries user) := by
    have hnone : w.sessionChange? user (.request r) = none := by
      rw [World.sessionChange?, hn, ite_self]
    rw [hnone, he]
    rfl
  have own (v : Uuid) (c : SessionChange) (hv : r.user? = some v)
      (hc : r.sessionChange? w.db = some c)
      (he : db.entries user = if v = user then c.apply (w.db.entries user)
        else w.db.entries user) :
      db.entries user = (w.sessionChange? user (.request r)).elim (w.db.entries user)
        fun c => c.apply (w.db.entries user) := by
    rw [he, World.sessionChange?, hv, hc]
    by_cases hu : v = user
    · simp [hu, ha]
    · simp [hu]
  cases h with
  | register hs => exact other rfl (Db.entries_congr hs)
  | @createSession v uuid4 device body hfree =>
    obtain ⟨d, hd, hdb⟩ := serve_createSession ha
    have hwritten : w.db.addSession (newSession v uuid4 body device) =
        w.db.addSession (newSession v uuid4 body d) := hserve.symm.trans hdb
    apply own v (.opened (newSession v uuid4 body d).entry) rfl
    · rw [Request.sessionChange?, Db.resolves_iff.mp hd.resolves]
      rfl
    · exact (congrArg (Db.entries · user) hwritten).trans (Db.entries_addSession hfree)
  | @updateConsent v s consent hs hu =>
    apply own v (.consent s.id consent) rfl rfl
    rw [← hu]
    exact Db.entries_revised (by intro; rfl) hs rfl (by intro; rfl) (by intro; rfl)
  | updateStatus => exact other rfl (Db.entries_hidden (by intro; rfl) rfl (by intro; rfl))
  | startProcessing => exact other rfl (Db.entries_hidden (by intro; rfl) rfl (by intro; rfl))
  | @uploadAudio v uuid4 s file hs hu =>
    apply own v (.audio s.id _ file.size) rfl rfl
    rw [← hu]
    exact Db.entries_revised (by intro; rfl) hs rfl (by intro; rfl) (by intro; rfl)
  | cancelSession => exact other rfl (Db.entries_hidden (by intro; rfl) rfl (by intro; rfl))
  | retractSession => exact other rfl (Db.entries_hidden (by intro; rfl) rfl (by intro; rfl))
  | updateArtifact => exact other rfl rfl
  | approve => exact other rfl rfl
  | approveAll =>
    apply other rfl
    exact Db.entries_hidden (by intro; rfl) (advanceSession_sessions _ _) (by intro; rfl)
  | reject => exact other rfl rfl
  | publishArtifact => exact other rfl (Db.entries_hidden (by intro; rfl) rfl (by intro; rfl))

/-- What an action does to the rows of a user is what it does to their store. -/
theorem entries_of_step (hw : w.Settled) (h : w.step a = some w') :
    w'.db.entries user = (w.sessionChange? user a).elim (w.db.entries user)
      fun c => c.apply (w.db.entries user) := by
  obtain ⟨-, w₁, hact, rfl⟩ := World.step_eq_some.mp h
  have he := World.effect_of_act hact
  have hserve : ∀ r, a = .request r → (w.serve r).db = w₁.db := by
    rintro r rfl
    rw [Option.some.inj hact]
  change w₁.db.entries user = _
  generalize w₁.files = files at he
  generalize w₁.db = db at he hserve
  cases he with
  | @refused r hn =>
    have hnone : w.sessionChange? user (.request r) = none := if_neg fun hc => hn hc.2
    rw [hnone]
    rfl
  | served ha he => exact entries_of_served ha he (hserve _ rfl)
  | silent hs => cases a <;> first | rfl | exact hs.elim
  | committed _ _ _ he =>
    cases he with
    | transcribe => rfl
    | summarize => rfl
    | extractArtifact =>
      exact Db.entries_hidden (by intro; rfl) (extractWrites_sessions _ _ _ _) (by intro; rfl)
    | publishMissing => rfl
    | publish => exact Db.entries_hidden (by intro; rfl) rfl (by intro; rfl)
  | @deletion k d _ _ _ _ _ hp _ he =>
    have hl := hw.tail hp
    have hv : db.sessions = w.db.sessions := by
      rw [← hl.sessions (w := w)]
      cases he with
      | artifactRows => cases d.sessionId <;> rfl
      | localAudio => rfl
      | feishuDocs => rfl
      | failed => rfl
    exact Db.entries_congr hv
  | _ => rfl

end Step

section Run

variable {b : Backend} {w : World} {u : User} {token : String} {now : Timestamp}
  {tr : List (Transition World ApiAction)}

/-- The rows of a user are their store. -/
theorem entries_of_run (hr : ApiRun b now tr w) (user : Uuid) :
    w.db.entries user = sessionStore b user tr := by
  apply hr.eq_project (f := fun w => w.db.entries user)
  intro tr w a w' hr hstep
  have hs := apiStep_refines hstep
  cases ha : a.action? b w with
  | none =>
    rw [ha] at hs
    obtain rfl := hs
    rfl
  | some s =>
    rw [ha] at hs
    exact entries_of_step (World.settled_of_apiRun hr) hs

theorem map_eq_bind {α β : Type} {p : DbM α} {f : α → β} :
    f <$> p = p >>= fun a => pure (f a) := rfl

/-- The rows that a user may fetch and list. -/
def World.ownSessions (w : World) (user : Uuid) : List Session :=
  w.db.sessions.select fun s => s.userId = user

theorem answer_of_caller {e : Endpoint} (hu : w.caller? b token = some u) :
    w.answer b (.endpoint token e) = w.transact (e.run b w.now u) :=
  World.transact_congr (bind_of_returns (World.returns_of_caller hu))

theorem answer_listSessions {createdAt : Session → Timestamp} {plan : Plan createdAt}
    {limit offset : Int} (hu : w.caller? b token = some u) (hlimit : 0 ≤ limit ∧ limit < 2 ^ 63)
    (hoffset : 0 ≤ offset ∧ offset < 2 ^ 63) :
    (w.answer b (.endpoint token (.listSessions plan limit offset))).1 =
      .ok (.sessions ((page limit.toNat offset.toNat (plan.sort (w.ownSessions u.id))).map
        Session.toResponse) (w.ownSessions u.id).length) := by
  rw [answer_of_caller hu, World.transact_eq_ok]
  simp only [Endpoint.run, listSessions, returns_bind, returns_read, returns_paged, returns_pure]
  exact ⟨_, _, _, ⟨_, _, ⟨rfl, rfl⟩, _, _, ⟨⟨hlimit.1, hlimit.2, hoffset.1, hoffset.2⟩, rfl, rfl⟩,
    rfl, rfl⟩, rfl, rfl⟩

theorem transact_eq_error {α : Type} {p : DbM α} {e : Exn} : (w.transact p).1 = .error e ↔
    ∃ t, p.Raises (Tx.start w.db w.files) e t := by
  rw [World.transact]
  unfold Raises
  rcases p (Tx.start w.db w.files) with ⟨_ | _, t⟩ <;> simp

theorem answer_getSession {text : String} (hu : w.caller? b token = some u) :
    (w.answer b (.endpoint token (.getSession text))).1 =
      fetched (((w.ownSessions u.id).find? fun s => some s.id = b.uuid? text).map
        Session.toResponse) := by
  rw [answer_of_caller hu, Endpoint.run, map_eq_bind]
  cases hid : b.uuid? text with
  | none =>
    have hfind : (w.ownSessions u.id).find? (fun s => some s.id = none) = none := by simp
    rw [hfind, Option.map_none, fetched, transact_eq_error]
    exact ⟨Tx.start w.db w.files, by simp [getSession, getSessionOr404]⟩
  | some sid =>
    have hfind : (w.ownSessions u.id).find? (fun s => some s.id = some sid) =
        w.db.sessions.find? fun s => s.id = sid && s.userId = u.id := by
      simp only [World.ownSessions, Table.select, Table.find?, List.find?_filter, Option.some.injEq]
      congr 1
      funext s
      rw [Bool.and_comm]
      simp
    rw [hfind]
    cases hs : w.db.sessions.find? fun s => s.id = sid && s.userId = u.id with
    | none =>
      rw [Option.map_none, fetched, transact_eq_error]
      exact ⟨Tx.start w.db w.files, by simp [getSession, getSessionOr404, hs]⟩
    | some s =>
      rw [Option.map_some, fetched, World.transact_eq_ok]
      exact ⟨Tx.start w.db w.files, by simp [getSession, getSessionOr404, hs]⟩

/-- What a user is shown of their sessions, apart from the status, is what their own accepted
requests add up to: a listing is a page of all entries in the order of its query, and an entry is
fetched by every text that spells its id. -/
theorem sessions_of_run (hr : ApiRun b now tr w) (hu : w.caller? b token = some u) :
    ((sessionStore b u.id tr).map (·.id)).Nodup ∧ (∀ e ∈ sessionStore b u.id tr, e.userId = u.id) ∧
      ∃ status : Uuid → SessionStatus,
        (∀ {createdAt : Session → Timestamp} (plan : Plan createdAt) (limit offset : Int),
          0 ≤ limit ∧ limit < 2 ^ 63 → 0 ≤ offset ∧ offset < 2 ^ 63 →
            ∃ es, es.Perm (sessionStore b u.id tr) ∧
              (w.answer b (.endpoint token (.listSessions plan limit offset))).1 =
                .ok (.sessions ((page limit.toNat offset.toNat es).map fun e =>
                  e.response (status e.id)) (sessionStore b u.id tr).length)) ∧
        ∀ text, (w.answer b (.endpoint token (.getSession text))).1 =
          fetched (((sessionStore b u.id tr).find? fun e => some e.id = b.uuid? text).map fun e =>
            e.response (status e.id)) := by
  have hstore : sessionStore b u.id tr = (w.ownSessions u.id).map Session.entry :=
    (entries_of_run hr u.id).symm
  have hids : (sessionStore b u.id tr).map (·.id) = (w.ownSessions u.id).map Session.id := by
    rw [hstore, List.map_map]
    rfl
  have hnodup : ((w.ownSessions u.id).map Session.id).Nodup :=
    (List.filter_sublist.map Session.id).nodup w.db.sessions.nodup
  let status (id : Uuid) : SessionStatus :=
    ((w.ownSessions u.id).find? fun s => s.id = id).elim idle Session.status
  have hstatus : ∀ s ∈ w.ownSessions u.id, s.entry.response (status s.id) = s.toResponse := by
    intro s hs
    have hfind : (w.ownSessions u.id).find? (fun r => r.id = s.id) = some s := by
      cases hf : (w.ownSessions u.id).find? (fun r => r.id = s.id) with
      | none => simpa using List.find?_eq_none.mp hf s hs
      | some r =>
        have hid : r.id = s.id := by simpa using List.find?_some hf
        rw [List.inj_on_of_nodup_map hnodup (List.mem_of_find?_eq_some hf) hs hid]
    simp only [status, hfind, Option.elim_some, Session.response_entry]
  rw [hids]
  refine ⟨hnodup, ?_, status, ?_, ?_⟩
  · intro e he
    rw [hstore] at he
    obtain ⟨s, hs, rfl⟩ := List.mem_map.mp he
    exact of_decide_eq_true (Table.mem_select.mp hs).2
  · intro createdAt plan limit offset hlimit hoffset
    refine ⟨(plan.sort (w.ownSessions u.id)).map Session.entry, ?_, ?_⟩
    · rw [hstore]
      exact (plan.perm _).map _
    · rw [answer_listSessions hu hlimit hoffset, hstore, List.length_map, page, page,
        ← List.map_drop, ← List.map_take, List.map_map]
      congr 2
      apply List.map_congr_left
      intro s hs
      exact (hstatus s (Plan.mem_sort.mp (mem_of_mem_page hs))).symm
  · intro text
    have hfind : (sessionStore b u.id tr).find? (fun e => some e.id = b.uuid? text) =
        ((w.ownSessions u.id).find? fun s => some s.id = b.uuid? text).map Session.entry := by
      rw [hstore, List.find?_map]
      simp only [Function.comp_def, Session.entry_id]
    rw [answer_getSession hu, hfind]
    cases hf : (w.ownSessions u.id).find? fun s => some s.id = b.uuid? text with
    | none => rfl
    | some s =>
      simp only [Option.map_some, Session.entry_id, hstatus s (List.mem_of_find?_eq_some hf)]

/-- A user of two sessions consents to the second and uploads to it, while another signs up. -/
def Replay.twoSessions : List ApiAction :=
  [enrol, byToken 0 (.createSession (uuid 5) (some "first") none),
    .call (.register "salt" ⟨uuid 11, uuid 12, uuid 13, uuid 14⟩ ⟨"c@d", "pw", "C", "P"⟩),
    byToken 0 (.createSession (uuid 6) none none),
    byToken 0 (.updateConsent (uuid 6).str true),
    byToken 0 (.uploadAudio (uuid 7) (uuid 6).str ⟨some "x.wav", none, 10⟩)]

/-- The token of the first account. -/
def Replay.firstToken : String := (tokenResponse backend 0 (uuid 2) (uuid 1) "owner").accessToken

theorem sessions_of_run_two : ∃ tr w u, ApiRun Replay.backend 0 tr w ∧
    w.caller? Replay.backend Replay.firstToken = some u ∧
      (sessionStore Replay.backend u.id tr).length = 2 ∧
      ((sessionStore Replay.backend u.id tr).map (·.id)).Nodup ∧
        ∃ status : Uuid → SessionStatus, ∀ text,
          (w.answer Replay.backend (.endpoint Replay.firstToken (.getSession text))).1 =
            fetched (((sessionStore Replay.backend u.id tr).find? fun e =>
              some e.id = Replay.backend.uuid? text).map fun e => e.response (status e.id)) := by
  obtain ⟨tr, w, hr, hp⟩ := exists_run
    (fun (_ : List (Transition World ApiAction)) w =>
      (w.caller? Replay.backend Replay.firstToken).any fun u => (w.db.entries u.id).length = 2)
    (by decide +kernel : (execute (World.apiStep Replay.backend) (World.init 0)
      Replay.twoSessions).any _ = true)
  obtain ⟨u, hu, hlen⟩ := (Option.any_eq_true _ _).mp hp
  obtain ⟨hnodup, -, status, -, hget⟩ := sessions_of_run hr hu
  refine ⟨tr, w, u, hr, hu, ?_, hnodup, status, hget⟩
  rw [← entries_of_run hr]
  exact of_decide_eq_true hlen

end Run

end AiBadge
