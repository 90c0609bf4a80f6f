import AiBadge.Audit.Router
import AiBadge.Auth.Service
import AiBadge.System.RequestEffect
import Mathlib.Data.Nat.Digits.Defs

/-! # The HTTP API

Calls as clients make them, with a bearer token and the texts of ids, and the reading
endpoints. Every run of the API is a run of the system: a call is the request of the user
behind its token, or it changes nothing.
-/

namespace AiBadge

open Lib Prog DbM

/-- The endpoints behind authentication, with the ids they draw and the order of their queries. -/
inductive Endpoint where
  | createSession (uuid4 : Uuid) (title deviceId : Option String)
  | listSessions {createdAt : Session → Timestamp} (plan : Plan createdAt) (limit offset : Int)
  | getSession (session : String)
  | updateConsent (session : String) (consent : Bool)
  | updateSessionStatus (ids : PipelineIds) (session status : String)
  | uploadAudio (uuid4 : Uuid) (session : String) (file : UploadFile)
  | cancelSession (session : String)
  | retractSession (ids : SagaIds) (session : String)
  | listArtifacts {createdAt : Artifact → Timestamp} (plan : Plan createdAt) (limit offset : Int)
  | getArtifact (artifact : String)
  | updateArtifact (artifact : String) (body : ArtifactUpdateRequest)
  | reviewArtifact (ids : RetryIds) (artifact : String) (body : ReviewRequest)
  | publishArtifact (uuid4 : Uuid) (artifact : String)
  | listAuditLogs (driverUuid : String → Option Uuid) (plan : Plan AuditLog.createdAt)
      (session : Option String) (limit offset : Int)

inductive ApiCall where
  | register (salt : String) (ids : RegisterIds) (body : RegisterRequest)
  | login (body : LoginRequest)
  | endpoint (token : String) (e : Endpoint)

/-- The body of a response. Behind a change it is the changed row, which is left out here. -/
inductive Reply where
  | token (response : TokenResponse)
  | changed
  | session (response : SessionResponse)
  | sessions (rows : List SessionResponse) (total : Nat)
  | artifact (response : ArtifactResponse)
  | artifacts (rows : List ArtifactResponse) (total : Nat)
  | auditLogs (rows : List AuditLog) (total : Nat)

namespace Endpoint

variable (b : Backend)

/-- `uuid.UUID(text) if text else None`. -/
def givenId (text : Option String) : Option PathId :=
  text.bind fun text => if text = "" then none else some (b.uuid? text)

def run (now : Timestamp) (user : User) : Endpoint → DbM Reply
  | createSession uuid4 title deviceId => do
    AiBadge.createSession uuid4 ⟨title, givenId b deviceId⟩ user.id
    return .changed
  | listSessions plan limit offset => do
    let (rows, total) ← AiBadge.listSessions plan limit offset user.id
    return .sessions rows total
  | getSession session => .session <$> AiBadge.getSession (b.uuid? session) user.id
  | updateConsent session consent => do
    AiBadge.updateConsent now (b.uuid? session) consent user.id
    return .changed
  | updateSessionStatus ids session status => do
    AiBadge.updateSessionStatus ids now (b.uuid? session) status user.id
    return .changed
  | uploadAudio uuid4 session file => do
    AiBadge.uploadAudio uuid4 (b.uuid? session) file user.id
    return .changed
  | cancelSession session => do
    AiBadge.cancelSession (b.uuid? session) user.id
    return .changed
  | retractSession ids session => do
    retractSessionEndpoint ids now (b.uuid? session) user.id
    return .changed
  | listArtifacts plan limit offset => do
    let (rows, total) ← AiBadge.listArtifacts plan limit offset
    return .artifacts rows total
  | getArtifact artifact => .artifact <$> AiBadge.getArtifact (b.uuid? artifact)
  | updateArtifact artifact body => do
    AiBadge.updateArtifact (b.uuid? artifact) body
    return .changed
  | reviewArtifact ids artifact body => do
    AiBadge.reviewArtifact ids now (b.uuid? artifact) body user.id
    return .changed
  | publishArtifact uuid4 artifact => do
    AiBadge.publishArtifact uuid4 now (b.uuid? artifact)
    return .changed
  | listAuditLogs driverUuid plan session limit offset => do
    let (rows, total) ← AiBadge.listAuditLogs driverUuid plan session limit offset
    return .auditLogs rows total

/-- The request of a user that a changing endpoint serves. -/
def request (user : Uuid) : Endpoint → Option Request
  | createSession uuid4 title deviceId =>
    some (.createSession user uuid4 ⟨title, givenId b deviceId⟩)
  | updateConsent session consent => some (.updateConsent user (b.uuid? session) consent)
  | updateSessionStatus ids session status =>
    some (.updateSessionStatus user ids (b.uuid? session) status)
  | uploadAudio uuid4 session file => some (.uploadAudio user uuid4 (b.uuid? session) file)
  | cancelSession session => some (.cancelSession user (b.uuid? session))
  | retractSession ids session => some (.retractSession user ids (b.uuid? session))
  | updateArtifact artifact body => some (.updateArtifact user (b.uuid? artifact) body)
  | reviewArtifact ids artifact body =>
    some (.reviewArtifact user ids (b.uuid? artifact) body)
  | publishArtifact uuid4 artifact => some (.publishArtifact user uuid4 (b.uuid? artifact))
  | listSessions .. | getSession _ | listArtifacts .. | getArtifact _ | listAuditLogs .. => none

end Endpoint

def ApiCall.run (b : Backend) (now : Timestamp) : ApiCall → DbM Reply
  | register salt ids body => .token <$> registerEndpoint b salt ids now body
  | login body => .token <$> AiBadge.login b now body
  | endpoint token e => do e.run b now (← b.getCurrentUser now token)

namespace World

variable (w : World)

/-- A transaction of the API: commit on success, roll back on an exception. -/
def transact {α : Type} (p : DbM α) : Except Exn α × World :=
  match p (Tx.start w.db w.files) with
  | (.ok a, t) => (.ok a, { w with db := t.commit.committed, files := t.outside })
  | (.error e, t) => (.error e, { w with db := t.rollback.committed, files := t.outside })

/-- The response to a call, and what the call leaves. -/
def answer (b : Backend) (c : ApiCall) : Except Exn Reply × World := w.transact (c.run b w.now)

/-- The user behind a token. -/
def caller? (b : Backend) (token : String) : Option User :=
  (w.transact (b.getCurrentUser w.now token)).1.toOption

end World

/-- The request that a call makes, once its token is accepted. -/
def ApiCall.request? (b : Backend) (w : World) : ApiCall → Option Request
  | register salt ids body => some (.register (b.authEnv salt) ids body)
  | login _ => none
  | endpoint token e => (w.caller? b token).bind fun u => e.request b u.id

/-- What may happen next: a call, or a step of the workers or the clock. -/
inductive ApiAction where
  | call (c : ApiCall)
  | system (a : Action)

def Action.isRequest : Action → Bool
  | request _ => true
  | _ => false

/-- The step of the system behind an action. -/
def ApiAction.action? (b : Backend) (w : World) : ApiAction → Option Action
  | call c => (c.request? b w).map .request
  | system a => some a

/-- The ids that an endpoint draws, which it does behind the authentication. -/
def ApiAction.drawn (b : Backend) (w : World) (a : ApiAction) : List Uuid :=
  (a.action? b w).elim [] Action.draws

/-- One step of the backend, as its clients see it. -/
def World.apiStep (b : Backend) (w : World) (a : ApiAction) : Option World :=
  match a with
  | .call c =>
    if (a.drawn b w).Nodup ∧ ∀ u ∈ a.drawn b w, u ∉ w.issued then
      some { (w.answer b c).2 with issued := w.issued ++ a.drawn b w }
    else none
  | .system s => if s.isRequest then none else w.step s

/-- The runs of the API from the empty database. -/
abbrev ApiRun (b : Backend) (now : Timestamp) (tr : List (Transition World ApiAction))
    (w : World) : Prop :=
  Run (World.apiStep b) (World.init now) tr w

section Transactions

variable {α β : Type} {b : Backend} {w w' : World} {p q : DbM α} {u : User} {token : String}

theorem World.transact_congr (h : p (Tx.start w.db w.files) = q (Tx.start w.db w.files)) :
    w.transact p = w.transact q := by
  rw [World.transact, World.transact, h]

/-- What is returned in the end does not change what is committed. -/
theorem World.transact_bind_pure {f : α → β} :
    (w.transact (p >>= fun a => pure (f a))).2 = (w.transact p).2 := by
  simp only [World.transact, bind, pure]
  rcases p (Tx.start w.db w.files) with ⟨_ | _, t⟩ <;> rfl

theorem World.transact_map {f : α → β} : (w.transact (f <$> p)).2 = (w.transact p).2 :=
  World.transact_bind_pure

theorem World.transact_run (r : Request) : (w.transact (r.run w.now)).2 = w.serve r := by
  rw [World.transact, World.serve]
  rcases r.run w.now (Tx.start w.db w.files) with ⟨_ | _, t⟩ <;> rfl

theorem World.transact_of_unchanged
    (h : (p (Tx.start w.db w.files)).2 = Tx.start w.db w.files) : (w.transact p).2 = w := by
  rw [World.transact]
  generalize p (Tx.start w.db w.files) = x at h
  rcases x with ⟨_ | _, t⟩ <;> obtain rfl := h <;> rfl

/-- A program that only reads leaves the world as it is. -/
theorem World.transact_of_keeps (h : Keeps id p) : (w.transact p).2 = w :=
  World.transact_of_unchanged (h _)

theorem World.transact_eq_ok {x : α} : (w.transact p).1 = .ok x ↔
    ∃ t, p.Returns (Tx.start w.db w.files) x t := by
  rw [World.transact]
  unfold Returns
  rcases p (Tx.start w.db w.files) with ⟨_ | _, t⟩ <;> simp

theorem returns_map {f : α → β} {y : β} {t t₀ : Tx Db Files} :
    (f <$> p).Returns t₀ y t ↔ ∃ x, p.Returns t₀ x t ∧ y = f x := by
  have hm : f <$> p = p >>= fun x => pure (f x) := rfl
  rw [hm, returns_bind]
  constructor
  · rintro ⟨x, _, hx, hy⟩
    obtain ⟨rfl, rfl⟩ := returns_pure.mp hy
    exact ⟨x, hx, rfl⟩
  · rintro ⟨x, hx, rfl⟩
    exact ⟨x, t, hx, returns_pure.mpr ⟨rfl, rfl⟩⟩

theorem keeps_bearer {now : Timestamp} : Keeps id (b.getCurrentUser now token) :=
  keeps_require.bind fun _ => keeps_require.bind fun _ => keeps_require.bind fun _ =>
    keeps_read.bind fun _ => keeps_require

theorem returns_bearer {now : Timestamp} {t t₀ : Tx Db Files} :
    (b.getCurrentUser now token).Returns t₀ u t ↔ (∃ payload sub, b.decode now token = some payload ∧
      payload.sub = some sub ∧ b.uuid? sub = some u.id ∧ u ∈ t₀.view.users) ∧ t = t₀ := by
  simp only [Backend.getCurrentUser, returns_bind, returns_require, returns_getCurrentUser]
  constructor
  · rintro ⟨payload, _, ⟨hd, rfl⟩, sub, _, ⟨hs, rfl⟩, _, _, ⟨hu, rfl⟩, ⟨v, hv, rfl, rfl⟩, rfl⟩
    exact ⟨⟨payload, sub, hd, hs, hu, hv⟩, rfl⟩
  · rintro ⟨⟨payload, sub, hd, hs, hu, hv⟩, rfl⟩
    exact ⟨payload, _, ⟨hd, rfl⟩, sub, _, ⟨hs, rfl⟩, u.id, _, ⟨hu, rfl⟩, ⟨u, hv, rfl, rfl⟩, rfl⟩

theorem World.returns_of_caller (h : w.caller? b token = some u) :
    (b.getCurrentUser w.now token).Returns (Tx.start w.db w.files) u (Tx.start w.db w.files) := by
  have hk : (b.getCurrentUser w.now token (Tx.start w.db w.files)).2 = Tx.start w.db w.files :=
    keeps_bearer _
  rw [World.caller?, World.transact] at h
  rw [Returns]
  generalize b.getCurrentUser w.now token (Tx.start w.db w.files) = x at hk h
  rcases x with ⟨_ | v, t⟩
  · cases h
  · obtain rfl : t = _ := hk
    obtain rfl : v = u := Option.some.inj h
    rfl

/-- The user behind a token has an account, and the payload of the token names it. -/
theorem World.caller?_eq_some : w.caller? b token = some u ↔
    ∃ payload sub, b.decode w.now token = some payload ∧ payload.sub = some sub ∧
      b.uuid? sub = some u.id ∧ u ∈ w.db.users := by
  constructor
  · intro h
    exact (returns_bearer.mp (w.returns_of_caller h)).1
  · intro h
    have hr : (b.getCurrentUser w.now token).Returns (Tx.start w.db w.files) u
        (Tx.start w.db w.files) := returns_bearer.mpr ⟨h, rfl⟩
    rw [World.caller?, World.transact, hr]
    rfl

/-- Only a registration and a login answer with a token. -/
theorem not_token_of_endpoint {e : Endpoint} {now : Timestamp} {reply : Reply}
    {t t₀ : Tx Db Files} (h : (e.run b now u).Returns t₀ reply t) (r : TokenResponse) :
    reply ≠ .token r := by
  have changed {q : DbM Unit} (hq : (q >>= fun _ => pure Reply.changed).Returns t₀ reply t) :
      reply ≠ .token r := by
    obtain ⟨_, _, -, hp⟩ := returns_bind.mp hq
    rw [(returns_pure.mp hp).1]
    exact nofun
  cases e with
  | getSession => obtain ⟨_, -, rfl⟩ := returns_map.mp h; exact nofun
  | getArtifact => obtain ⟨_, -, rfl⟩ := returns_map.mp h; exact nofun
  | listSessions | listArtifacts | listAuditLogs =>
    obtain ⟨_, _, -, hp⟩ := returns_bind.mp h
    rw [(returns_pure.mp hp).1]
    exact nofun
  | _ => exact changed h

end Transactions

section Refinement

variable {b : Backend} {w w' : World} {u : User}

/-- A changing endpoint behind the authentication of `u` is the request of `u`. -/
theorem transact_endpoint {e : Endpoint} {r : Request} (hu : u ∈ w.db.users)
    (hr : e.request b u.id = some r) : (w.transact (e.run b w.now u)).2 = w.serve r := by
  have auth {p : User → DbM Unit} : w.transact (getCurrentUser u.id >>= p) = w.transact (p u) :=
    World.transact_congr (bind_of_returns (returns_getCurrentUser.mpr ⟨⟨u, hu, rfl, rfl⟩, rfl⟩))
  rw [← World.transact_run]
  cases e with
  | listSessions | getSession | listArtifacts | getArtifact | listAuditLogs => cases hr
  | _ =>
    obtain rfl := Option.some.inj hr
    rw [Request.run, auth, Endpoint.run, World.transact_bind_pure]

theorem keeps_paged {α : Type} {key : α → Int} {plan : Plan key} {limit offset : Int}
    {rows : List α} : Keeps id (paged plan limit offset rows) :=
  keeps_ensure.bind fun _ => keeps_pure

theorem keeps_map {α β : Type} {p : DbM α} {g : α → β} (hp : Keeps id p) : Keeps id (g <$> p) :=
  hp.bind fun _ => keeps_pure

/-- The other endpoints only read. -/
theorem keeps_endpoint {e : Endpoint} (hr : e.request b u.id = none) {now : Timestamp} :
    Keeps id (e.run b now u) := by
  cases e with
  | listSessions plan limit offset =>
    have hl : Keeps id (listSessions plan limit offset u.id) :=
      keeps_read.bind fun _ => keeps_paged.bind fun _ => keeps_pure
    exact hl.bind fun _ => keeps_pure
  | getSession session =>
    have hg : Keeps id (getSession (b.uuid? session) u.id) :=
      keeps_getSessionOr404.bind fun _ => keeps_pure
    exact keeps_map hg
  | listArtifacts plan limit offset =>
    have hl : Keeps id (listArtifacts plan limit offset) :=
      keeps_read.bind fun _ => keeps_paged.bind fun _ => keeps_ensure.bind fun _ => keeps_pure
    exact hl.bind fun _ => keeps_pure
  | getArtifact artifact =>
    have hg : Keeps id (getArtifact (b.uuid? artifact)) :=
      keeps_getArtifactOr404.bind fun _ => keeps_ensure.bind fun _ => keeps_pure
    exact keeps_map hg
  | listAuditLogs driverUuid plan session limit offset =>
    have hl : Keeps id (listAuditLogs driverUuid plan session limit offset) :=
      keeps_require.bind fun _ => keeps_read.bind fun _ => keeps_paged.bind fun _ => keeps_pure
    exact hl.bind fun _ => keeps_pure
  | _ => cases hr

theorem keeps_login {now : Timestamp} {body : LoginRequest} : Keeps id (login b now body) :=
  keeps_read.bind fun _ => keeps_require.bind fun _ => keeps_answer.bind fun _ =>
    keeps_ensure.bind fun _ => keeps_pure

/-- A call is the request of the user behind its token, or it changes nothing. -/
theorem answer_refines (b : Backend) (w : World) (c : ApiCall) :
    (w.answer b c).2 = (c.request? b w).elim w w.serve := by
  cases c with
  | register salt ids body =>
    rw [World.answer, ApiCall.run, World.transact_map, registerEndpoint, World.transact_bind_pure]
    exact World.transact_run (.register (b.authEnv salt) ids body)
  | login body =>
    rw [World.answer, ApiCall.run, World.transact_map]
    exact World.transact_of_keeps keeps_login
  | endpoint token e =>
    rw [World.answer, ApiCall.run, ApiCall.request?]
    cases hc : w.caller? b token with
    | none =>
      have hn : ∀ u t, ¬ (b.getCurrentUser w.now token).Returns (Tx.start w.db w.files) u t := by
        intro u t hr
        rw [World.caller?_eq_some.mpr (returns_bearer.mp hr).1] at hc
        cases hc
      have hk : Keeps id (b.getCurrentUser w.now token) := keeps_bearer
      exact World.transact_of_unchanged (hk.bind_of_not_returns hn)
    | some u =>
      have hr := w.returns_of_caller hc
      obtain ⟨_, _, -, -, -, hu⟩ := World.caller?_eq_some.mp hc
      rw [World.transact_congr (bind_of_returns hr), Option.bind_some]
      cases he : e.request b u.id with
      | none => exact World.transact_of_keeps (keeps_endpoint he)
      | some r => exact transact_endpoint hu he

/-- One step of the API is the step of the system behind it, if there is one. -/
theorem apiStep_refines {a : ApiAction} (h : w.apiStep b a = some w') :
    match a.action? b w with
    | some s => w.step s = some w'
    | none => w' = w := by
  cases a with
  | call c =>
    obtain ⟨hf, he⟩ := Option.ite_none_right_eq_some.mp h
    obtain rfl := Option.some.inj he
    rw [answer_refines]
    cases hr : c.request? b w with
    | none => simp [ApiAction.action?, ApiAction.drawn, hr]
    | some r =>
      simp only [ApiAction.action?, ApiAction.drawn, hr, Option.map_some, Option.elim_some] at hf ⊢
      exact World.step_eq_some.mpr ⟨hf, _, rfl, rfl⟩
  | system s =>
    exact (Option.ite_none_left_eq_some.mp h).2

/-- The steps of the system behind a run of the API. -/
theorem systemRun_of_apiRun {now : Timestamp} {tr : List (Transition World ApiAction)}
    (hr : ApiRun b now tr w) : ∃ tr', SystemRun now tr' w ∧
      tr'.map Transition.act = tr.filterMap fun t => t.act.action? b t.pre := by
  induction hr with
  | init => exact ⟨[], .init, rfl⟩
  | @snoc tr s s' a hr hstep ih =>
    obtain ⟨tr', hr', hact⟩ := ih
    have hs := apiStep_refines hstep
    cases ha : a.action? b s with
    | none =>
      rw [ha] at hs
      obtain rfl := hs
      exact ⟨tr', hr', by simp [hact, ha]⟩
    | some x =>
      rw [ha] at hs
      exact ⟨tr' ++ [⟨s, x, s'⟩], .snoc hr' hs, by simp [hact, ha]⟩

end Refinement

/-! ## Inputs for replays -/

namespace Replay

/-- An integer in binary, the sign first. -/
def intText (n : Int) : List Char :=
  (if n < 0 then '-' else '+') :: (Nat.digits 2 n.natAbs).map fun d => if d = 1 then '1' else '0'

def readInt (text : List Char) : Int :=
  let n : Nat := Nat.ofDigits 2 (text.tail.map fun c => if c = '1' then 1 else 0)
  if text.head? = some '-' then -(n : Int) else n

theorem readInt_intText (n : Int) : readInt (intText n) = n := by
  have hbits : (((Nat.digits 2 n.natAbs).map fun d => if d = 1 then '1' else '0').map
      fun c => if c = '1' then 1 else 0) = Nat.digits 2 n.natAbs := by
    rw [List.map_map]
    conv_rhs => rw [← List.map_id (Nat.digits 2 n.natAbs)]
    apply List.map_congr_left
    intro d hd
    have hlt : d < 2 := Nat.digits_lt_base (by decide) hd
    obtain rfl | rfl : d = 0 ∨ d = 1 := by omega
    · rfl
    · rfl
  simp only [readInt, intText, List.tail_cons, List.head?_cons, hbits, Nat.ofDigits_digits]
  by_cases hn : n < 0
  · rw [if_pos hn, if_pos rfl]
    omega
  · rw [if_neg hn, if_neg (by decide)]
    omega

/-- Plain hashes, and tokens that hold the second of their expiry and the subject. -/
def backend : Backend where
  lower := id
  tables := ⟨fun c => c = ' ', fun _ => none⟩
  hashpw _ password := .ok password
  checkpw password hash := .ok (password = hash)
  encode c := String.ofList (intText c.exp.whole ++ ' ' :: c.sub.toList)
  decode now token :=
    if now.whole ≤ readInt (token.toList.takeWhile (· ≠ ' ')) then
      some ⟨some (String.ofList ((token.toList.dropWhile (· ≠ ' ')).drop 1))⟩
    else none

theorem blank_notMem_intText (n : Int) : ∀ c ∈ intText n, decide (c ≠ ' ') = true := by
  intro c hc
  rcases List.mem_cons.mp hc with rfl | hc
  · split <;> decide
  · obtain ⟨d, -, rfl⟩ := List.mem_map.mp hc
    split <;> decide

theorem backend_sound : backend.Sound (id : String → String) where
  decode_encode c now := by
    have htake : (intText c.exp.whole ++ ' ' :: c.sub.toList).takeWhile (· ≠ ' ') =
        intText c.exp.whole := by
      rw [List.takeWhile_append_of_pos (blank_notMem_intText _)]
      simp
    have hdrop : (intText c.exp.whole ++ ' ' :: c.sub.toList).dropWhile (· ≠ ' ') =
        ' ' :: c.sub.toList := by
      rw [List.dropWhile_append_of_pos (blank_notMem_intText _)]
      simp
    simp only [backend, String.toList_ofList, htake, hdrop, readInt_intText, List.drop_succ_cons,
      List.drop_zero, String.ofList_toList]
  checkpw_hashpw _ password hash h p := by
    obtain rfl := Except.ok.inj h
    simp [backend]

def enrol : ApiAction :=
  .call (.register "salt" ⟨uuid 1, uuid 2, uuid 3, uuid 4⟩ ⟨"a@b", "pw", "A", "O"⟩)

/-- What the owner does with the token that is handed out at a time. -/
def byToken (t : Timestamp) (e : Endpoint) : ApiAction :=
  .call (.endpoint (tokenResponse backend t (uuid 2) (uuid 1) "owner").accessToken e)

/-- The token of the registration is used, expires, and gives way to the one of a login. -/
def visits : List ApiAction :=
  [enrol, byToken 0 (.createSession (uuid 5) none none), .system (.tick 7200000000),
    byToken 0 (.getSession (uuid 5).str), .call (.login ⟨"a@b", "pw"⟩),
    byToken 7200000000 (.getSession (uuid 5).str)]

end Replay

end AiBadge
