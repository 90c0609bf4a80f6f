import AiBadge.Auth.Router
import AiBadge.Lib.Paging
import AiBadge.Orchestrator.Service
import AiBadge.Sessions.Service
import AiBadge.Trust.Policy
import Mathlib.Algebra.Group.Int.Defs

/-! # Session endpoints

Each endpoint runs as one request transaction; a raised exception rolls the
database back, but not the audio directory.
-/

namespace AiBadge

open Lib Prog DbM SessionStatus

/-- A path parameter as `uuid.UUID` reads it; `none` when the text is no UUID. -/
abbrev PathId := Option Uuid

def getSessionOr404 (sessionId : PathId) (userId : Uuid) : DbM Session := do
  let sid ← require sessionId (.http 404 "Session not found")
  require (← read fun db => db.sessions.find? fun s => s.id = sid && s.userId = userId)
    (.http 404 "Session not found")

structure SessionCreateRequest where
  title : Option String
  /-- Absent, or the text of an id as `uuid.UUID` reads it. -/
  deviceId : Option PathId

def resolveDevice (given : Option PathId) (currentUser : Uuid) : DbM Uuid := do
  match given with
  | some deviceId => require deviceId (.valueError "badly formed hexadecimal UUID string")
  | none =>
    let virtualDevice ← read fun db => db.devices.find? fun d =>
      d.userId = currentUser && d.deviceType = "virtual_phone_mic"
    require (virtualDevice.map (·.id))
      (.http 400 "No device_id provided and no virtual_phone_mic found for user")

def createSession (uuid4 : Uuid) (body : SessionCreateRequest) (currentUser : Uuid) : DbM Unit := do
  let deviceId ← resolveDevice body.deviceId currentUser
  insertSession
    { id := uuid4, userId := currentUser, deviceId, title := body.title, status := idle }

/-- The statuses in which `update_consent` refuses to change the flag. -/
def consentClosed : List SessionStatus := [published, retracted, retracting, cancelled]

/-- The audit row of a session-level action. -/
def sessionAudit (now : Timestamp) (action : AuditAction) (sessionId userId : Uuid) : AuditLog :=
  { userId := some userId, action, resourceType := .session, resourceId := some sessionId
    sessionId := some sessionId, createdAt := now }

def updateConsent (now : Timestamp) (sessionId : PathId) (consent : Bool) (currentUser : Uuid) :
    DbM Unit := do
  let session ← getSessionOr404 sessionId currentUser
  ensure (session.status ∉ consentClosed) (.http 409 <|
    if consent then s!"Cannot grant consent in status {session.status.value}"
    else "Cannot revoke consent from terminal state")
  write fun db => db.setSession session.id (Session.withConsent consent)
  write fun db => db.addAudit (sessionAudit now
    (if consent then .consentGranted else .consentRevoked) session.id currentUser)

def updateSessionStatus (ids : PipelineIds) (now : Timestamp) (sessionId : PathId)
    (status : String) (currentUser : Uuid) : DbM Unit := do
  let session ← getSessionOr404 sessionId currentUser
  let target ← require (parse? status) (.http 400 s!"Invalid status: {status}")
  let verdict := canTransition session.status target session.consentGranted
  ensure verdict.1
    (if target = capturing ∧ session.consentGranted = false then .http 403 verdict.2
    else .http 409 verdict.2)
  write fun db =>
    db.setSession session.id (Session.withStatus target) (Session.withStatus_id target)
  when (target = processing) do
    ensure session.audioKey.isSome (.http 400 "Audio must be uploaded before starting processing")
    createJobsForSession ids now session.id

structure UploadFile where
  filename : Option String
  contentType : Option String
  size : Nat

/-- The extension after the last dot, in lower case. -/
def extension (filename : String) : String :=
  String.ofList ((filename.toList.reverse.takeWhile (· ≠ '.')).reverse.map Char.toLower)

def getAudioFormat (filename contentType : Option String) : String :=
  match filename.map extension with
  | some ext =>
    if ext ∈ ["opus", "wav", "mp3", "m4a", "ogg", "webm"] then ext else byContentType contentType
  | none => byContentType contentType
where
  byContentType : Option String → String
    | some "audio/wav" => "wav"
    | some "audio/mpeg" => "mp3"
    | some "audio/mp4" => "m4a"
    | some "audio/ogg" => "ogg"
    | some "audio/webm" => "webm"
    | _ => "opus"

def uploadAudio (uuid4 : Uuid) (sessionId : PathId) (file : UploadFile) (currentUser : Uuid) :
    DbM Unit := do
  let session ← getSessionOr404 sessionId currentUser
  let fileKey : AudioKey := ⟨uuid4, getAudioFormat file.filename file.contentType⟩
  writeOutside fun files => fileKey :: files
  -- the flush refuses a size that the INTEGER column cannot hold; the file stays
  ensure (file.size < 2 ^ 31) (.dataError "sessions.audio_size_bytes")
  write fun db => db.setSession session.id (Session.withAudio fileKey file.size)

def cancelSession (sessionId : PathId) (currentUser : Uuid) : DbM Unit := do
  let session ← getSessionOr404 sessionId currentUser
  let verdict := canTransition session.status cancelled
  ensure verdict.1 (.http 409 verdict.2)
  write fun db => db.setSession session.id (Session.withStatus cancelled)

def retractSessionEndpoint (ids : SagaIds) (now : Timestamp) (sessionId : PathId)
    (currentUser : Uuid) : DbM Unit := do
  let session ← getSessionOr404 sessionId currentUser
  checkRetract session
  retractSession ids now session.id currentUser ""
  write fun db => db.addAudit (sessionAudit now .retractInitiated session.id currentUser)

structure SessionResponse where
  id : String
  userId : String
  deviceId : Option String
  title : Option String
  status : String
  consentGranted : Bool
  audioKey : Option String
  audioFormat : Option String
  audioSizeBytes : Option Nat

/-- `_to_response` of a session. -/
def Session.toResponse (s : Session) : SessionResponse where
  id := s.id.str
  userId := s.userId.str
  deviceId := some s.deviceId.str
  title := s.title
  status := s.status.value
  consentGranted := s.consentGranted
  audioKey := s.audioKey.map AudioKey.text
  audioFormat := s.audioFormat
  audioSizeBytes := s.audioSizeBytes

def getSession (sessionId : PathId) (currentUser : Uuid) : DbM SessionResponse := do
  return (← getSessionOr404 sessionId currentUser).toResponse

/-- The page of a sorted query. PostgreSQL refuses a bound that is negative or no `bigint`. -/
def paged {α : Type} {key : α → Int} (plan : Plan key) (limit offset : Int) (rows : List α) :
    DbM (List α) := do
  ensure (0 ≤ limit && limit < 2 ^ 63 && 0 ≤ offset && offset < 2 ^ 63) (.dataError "LIMIT")
  return page limit.toNat offset.toNat (plan.sort rows)

/-- The rows of a user and their number; `createdAt` is a column that the rows leave out. -/
def listSessions {createdAt : Session → Timestamp} (plan : Plan createdAt) (limit offset : Int)
    (currentUser : Uuid) : DbM (List SessionResponse × Nat) := do
  let own ← read fun db => db.sessions.select fun s => s.userId = currentUser
  let sessions ← paged plan limit offset own
  return (sessions.map Session.toResponse, own.length)

end AiBadge
