import AiBadge.Model.Database

/-! # Trust policy

The L1 red lines of a session and its artifacts, and the checks built on them. Only
`check_retract` is called by an endpoint.
-/

namespace AiBadge

open Lib Prog

structure RedlineResult where
  passed : Bool
  reason : String
  level : String

def redlineConsentRequired (session : Session) : RedlineResult :=
  if session.consentGranted = false then ⟨false, "Consent not granted", "L1"⟩ else ⟨true, "", "L1"⟩

/-- The column `device_id` is never null. -/
def redlineNoCaptureWithoutDevice (deviceId : Option Uuid) : RedlineResult :=
  if deviceId.isNone then ⟨false, "No device assigned to session", "L1"⟩ else ⟨true, "", "L1"⟩

def redlineAudioRequiredForProcessing (session : Session) : RedlineResult :=
  if session.audioKey.isNone then ⟨false, "No audio file uploaded", "L1"⟩ else ⟨true, "", "L1"⟩

def redlineAllArtifactsApprovedForPublish (artifacts : List Artifact) : RedlineResult :=
  let unapproved := artifacts.filter (·.status ≠ .approved)
  if unapproved.length ≠ 0 then
    ⟨false, s!"{unapproved.length} artifact(s) not yet approved", "L1"⟩
  else ⟨true, "", "L1"⟩

def redlinePublishedBeforeRetract (session : Session) : RedlineResult :=
  if session.status ≠ .published then
    ⟨false, s!"Session status is '{session.status.value}', not 'published'", "L1"⟩
  else ⟨true, "", "L1"⟩

/-- A red line that is not passed raises. -/
def enforce (result : RedlineResult) : DbM Unit :=
  ensure result.passed (.policyViolation result.reason result.level)

def checkConsent (session : Session) : DbM Unit := enforce (redlineConsentRequired session)

def checkCapture (session : Session) : DbM Unit := do
  checkConsent session
  enforce (redlineNoCaptureWithoutDevice (some session.deviceId))

def checkReviewed (artifacts : List Artifact) (_ : Session) : DbM Unit :=
  enforce (redlineAllArtifactsApprovedForPublish artifacts)

def checkPublish (artifacts : List Artifact) (session : Session) : DbM Unit := do
  checkReviewed artifacts session
  enforce (redlineAudioRequiredForProcessing session)

def checkRetract (session : Session) : DbM Unit :=
  let result := redlinePublishedBeforeRetract session
  ensure result.passed (.policyViolation result.reason result.level)

@[simp] theorem redlineConsentRequired_passed {session : Session} :
    (redlineConsentRequired session).passed = true ↔ session.consentGranted = true := by
  unfold redlineConsentRequired
  split <;> simp_all

@[simp] theorem redlineNoCaptureWithoutDevice_passed {deviceId : Option Uuid} :
    (redlineNoCaptureWithoutDevice deviceId).passed = true ↔ deviceId.isSome = true := by
  cases deviceId <;> simp [redlineNoCaptureWithoutDevice]

@[simp] theorem redlineAudioRequiredForProcessing_passed {session : Session} :
    (redlineAudioRequiredForProcessing session).passed = true ↔ session.audioKey.isSome = true := by
  unfold redlineAudioRequiredForProcessing
  cases session.audioKey <;> simp

@[simp] theorem redlineAllArtifactsApprovedForPublish_passed {artifacts : List Artifact} :
    (redlineAllArtifactsApprovedForPublish artifacts).passed = true ↔
      ∀ x ∈ artifacts, x.status = .approved := by
  simp only [redlineAllArtifactsApprovedForPublish]
  split <;> simp_all

@[simp] theorem redlinePublishedBeforeRetract_passed {session : Session} :
    (redlinePublishedBeforeRetract session).passed = true ↔ session.status = .published := by
  unfold redlinePublishedBeforeRetract
  split <;> simp_all

end AiBadge
