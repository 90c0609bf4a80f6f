import AiBadge.Artifacts.Service
import AiBadge.Sessions.Router

/-! # Artifact endpoints

Reading, editing, review and publication requests. They look an artifact up by
its id alone and leave the session to the artifact service.
-/

namespace AiBadge

open Lib Prog DbM

def getArtifactOr404 (artifactId : PathId) : DbM Artifact := do
  let aid ← require artifactId (.http 404 "Artifact not found")
  require (← read fun db => db.artifact? aid) (.http 404 "Artifact not found")

structure ArtifactResponse where
  id : String
  sessionId : String
  jobId : Option String
  artifactType : String
  title : Option String
  content : Json
  summary : Option String
  status : ArtifactStatus
  reviewStatus : Option ArtifactStatus
  reviewComment : Option String
  publishedAt : Option Timestamp

/-- The fields of `_to_response`. -/
def Artifact.response (a : Artifact) : ArtifactResponse where
  id := a.id.str
  sessionId := a.sessionId.str
  jobId := a.jobId.map Uuid.str
  artifactType := a.artifactType.value
  title := a.title
  content := a.content
  summary := a.summary
  status := a.status
  reviewStatus := a.reviewStatus
  reviewComment := a.reviewComment
  publishedAt := a.publishedAt

/-- `_to_response` of an artifact, whose model takes a dictionary as `content` only. -/
def Artifact.toResponse (a : Artifact) : DbM ArtifactResponse := do
  ensure a.content.isObj (.validationError "content")
  return a.response

/-- `db.refresh` of an artifact, and its response. -/
def respondArtifact (id : Uuid) : DbM ArtifactResponse := do
  let artifact ← require (← read fun db => db.artifact? id)
    (.invalidRequest "Could not refresh instance")
  artifact.toResponse

/-- A body without content meets the condition on its content. -/
theorem isObj_of_none (x : Json) (h : (none : Option (Option Json)) = some (some x)) :
    x.isObj = true := absurd h.symm (Option.some_ne_none _)

/-- The body of an edit. Its content is given as a JSON column holds it, or as `none` if no such
column takes it, and is a dictionary. -/
structure ArtifactUpdateRequest where
  title : Option String := none
  content : Option (Option Json) := none
  summary : Option String := none
  isDict : ∀ x, content = some (some x) → x.isObj = true := by exact isObj_of_none

/-- The columns an edit request sets; absent fields keep their value. -/
@[simps] def ArtifactUpdateRequest.apply (body : ArtifactUpdateRequest) (a : Artifact) : Artifact :=
  { a with
    title := body.title.map clipTitle <|> a.title
    content := body.content.join.getD a.content
    summary := body.summary <|> a.summary }

def updateArtifact (artifactId : PathId) (body : ArtifactUpdateRequest) : DbM Unit := do
  let artifact ← getArtifactOr404 artifactId
  titleColumn "artifacts.title" body.title
  ensure (body.content.all Option.isSome) (.dataError "artifacts.content")
  textColumn "artifacts.summary" body.summary
  write fun db => db.setArtifact artifact.id body.apply
  let _ ← respondArtifact artifact.id
  return

inductive ReviewAction where
  | approve | reject
  deriving DecidableEq

structure ReviewRequest where
  action : ReviewAction
  comment : String := ""

def reviewArtifact (ids : RetryIds) (now : Timestamp) (artifactId : PathId) (body : ReviewRequest)
    (currentUser : Uuid) : DbM Unit := do
  let artifact ← getArtifactOr404 artifactId
  match body.action with
  | .approve => approveArtifact artifact currentUser body.comment
  | .reject => rejectArtifact ids now artifact currentUser body.comment
  let _ ← respondArtifact artifact.id
  return

def publishArtifact (uuid4 : Uuid) (now : Timestamp) (artifactId : PathId) : DbM Unit := do
  let artifact ← getArtifactOr404 artifactId
  ensure (artifact.status = .approved) (.http 403 "Only approved artifacts can be published")
  requestPublish uuid4 now artifact
  let _ ← respondArtifact artifact.id
  return

def getArtifact (artifactId : PathId) : DbM ArtifactResponse := do
  let artifact ← getArtifactOr404 artifactId
  artifact.toResponse

def listArtifacts {createdAt : Artifact → Timestamp} (plan : Plan createdAt) (limit offset : Int) :
    DbM (List ArtifactResponse × Nat) := do
  let all ← read fun db => db.artifacts.rows
  let artifacts ← paged plan limit offset all
  -- one row that has no response ends the request
  ensure (artifacts.all (·.content.isObj)) (.validationError "content")
  return (artifacts.map Artifact.response, all.length)

end AiBadge
