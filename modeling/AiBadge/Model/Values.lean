import Mathlib.Algebra.Group.Nat.Defs
import Mathlib.Data.List.Defs
import Mathlib.Tactic.TypeStar

/-! # Column values

UUIDs, timestamps, JSON payloads and the status enumerations of the tables,
with the texts the source gives them.
-/

namespace AiBadge

/-- Microseconds on the clock that the database, the API and the workers share. -/
abbrev Timestamp := Int

/-- `timedelta(seconds=n)`. -/
def seconds (n : Int) : Int := n * 1000000

structure Uuid where
  bits : BitVec 128
  deriving DecidableEq

namespace Uuid

def hexDigit (n : Nat) : Char := if n < 10 then Char.ofNat (48 + n) else Char.ofNat (87 + n)

/-- The 32 hexadecimal digits of `uuid.hex`. -/
def hexChars (u : Uuid) : List Char :=
  (List.range 32).map fun i => hexDigit (u.bits.toNat / 16 ^ (31 - i) % 16)

def hex (u : Uuid) : String := String.ofList u.hexChars

/-- The canonical text `str(u)`. -/
def str (u : Uuid) : String :=
  let d := u.hexChars
  String.ofList (d.take 8 ++ '-' :: (d.drop 8).take 4 ++ '-' :: (d.drop 12).take 4 ++
    '-' :: (d.drop 16).take 4 ++ '-' :: d.drop 20)

end Uuid

/-- The text of a prefix of a string, `s[:n]`. -/
def take (s : String) (n : Nat) : String := String.ofList (s.toList.take n)

inductive Json where
  | null
  | bool (b : Bool)
  | num (lexeme : String)
  | str (s : String)
  | arr (items : List Json)
  | obj (fields : List (String × Json))

/-- `d.get(key)` of a decoded object. -/
def Json.get? : Json → String → Option Json
  | .obj fields, key => (fields.find? (·.1 = key)).map (·.2)
  | _, _ => none

/-- `str(x)` of a decoded scalar. -/
def Json.pyStr : Json → String
  | .null => "None"
  | .bool true => "True"
  | .bool false => "False"
  | .num lexeme => lexeme
  | .str s => s
  | _ => ""

def Json.isObj : Json → Bool
  | .obj _ => true
  | _ => false

/-- `type(x).__name__` of a decoded value. -/
def Json.pyType : Json → String
  | .null => "NoneType"
  | .bool _ => "bool"
  | .num lexeme => if lexeme.toList.any (· ∈ ['.', 'e', 'E']) then "float" else "int"
  | .str _ => "str"
  | .arr _ => "list"
  | .obj _ => "dict"

/-- The name `f"{uuid4()}.{format}"` of an uploaded file. -/
structure AudioKey where
  uuid : Uuid
  format : String
  deriving DecidableEq

def AudioKey.text (k : AudioKey) : String := s!"{k.uuid.str}.{k.format}"

inductive SessionStatus where
  | idle | capturing | paused | processing | processingFailed | needsReview | reviewing
  | approved | publishing | publishFailed | published | retracting | retracted | cancelled
  deriving DecidableEq

namespace SessionStatus

def value : SessionStatus → String
  | idle => "idle"
  | capturing => "capturing"
  | paused => "paused"
  | processing => "processing"
  | processingFailed => "processing_failed"
  | needsReview => "needs_review"
  | reviewing => "reviewing"
  | approved => "approved"
  | publishing => "publishing"
  | publishFailed => "publish_failed"
  | published => "published"
  | retracting => "retracting"
  | retracted => "retracted"
  | cancelled => "cancelled"

def all : List SessionStatus :=
  [idle, capturing, paused, processing, processingFailed, needsReview, reviewing, approved,
    publishing, publishFailed, published, retracting, retracted, cancelled]

/-- `SessionStatus(text)`, which raises on any other text. -/
def parse? (text : String) : Option SessionStatus := all.find? (·.value = text)

@[simp] theorem parse?_value (s : SessionStatus) : parse? s.value = some s := by
  cases s <;> decide +kernel

end SessionStatus

/-- The statuses that `jobs` and `deletion_jobs` rows take. -/
inductive JobStatus where
  | pending | running | completed | failed
  deriving DecidableEq

inductive JobType where
  | transcribe | summarize | extractArtifact | publish
  | other (name : String)
  deriving DecidableEq

def JobType.value : JobType → String
  | transcribe => "transcribe"
  | summarize => "summarize"
  | extractArtifact => "extract_artifact"
  | publish => "publish"
  | other name => name

inductive ArtifactStatus where
  | draft | pendingReview | approved | rejected | published
  deriving DecidableEq

inductive ArtifactType where
  | meetingMinutes | decisionRecord | faqDraft | sopDraft
  deriving DecidableEq

namespace ArtifactType

def value : ArtifactType → String
  | meetingMinutes => "meeting_minutes"
  | decisionRecord => "decision_record"
  | faqDraft => "faq_draft"
  | sopDraft => "sop_draft"

/-- The keys of `ARTIFACT_SCHEMAS`. -/
def all : List ArtifactType := [meetingMinutes, decisionRecord, faqDraft, sopDraft]

/-- `ARTIFACT_SCHEMAS.get(text)`. -/
def schema? (text : String) : Option ArtifactType := all.find? (·.value = text)

@[simp] theorem schema?_value (t : ArtifactType) : schema? t.value = some t := by
  cases t <;> decide +kernel

end ArtifactType

inductive DeletionType where
  | deleteArtifactRows | deleteLocalAudio | deleteFeishuDocs
  | other (name : String)
  deriving DecidableEq

def DeletionType.value : DeletionType → String
  | deleteArtifactRows => "delete_artifact_rows"
  | deleteLocalAudio => "delete_local_audio"
  | deleteFeishuDocs => "delete_feishu_docs"
  | other name => name

/-- What a request, a handler or a statement raises. -/
inductive Exn where
  | http (status : Nat) (detail : String)
  | valueError (message : String)
  | typeError (message : String)
  | attributeError (message : String)
  | policyViolation (reason level : String)
  | integrityError (constraint : String)
  | dataError (column : String)
  | multipleResultsFound
  | invalidRequest (message : String)
  | validationError (field : String)
  | provider (message : String)
  | osError (message : String)

namespace Exn

/-- `str(e)`. -/
def str : Exn → String
  | http _ detail => detail
  | valueError message => message
  | typeError message => message
  | attributeError message => message
  | policyViolation reason _ => reason
  | integrityError constraint => constraint
  | dataError column => column
  | multipleResultsFound => "Multiple rows were found when one or none was required"
  | invalidRequest message => message
  | validationError field => field
  | provider message => message
  | osError message => message

/-- Exceptions of a flush: the session's transaction is rolled back, its rows expire and it
refuses further work. -/
def abortsSession : Exn → Bool
  | integrityError _ | dataError _ => true
  | _ => false

end Exn

end AiBadge
