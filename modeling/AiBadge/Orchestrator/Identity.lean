import AiBadge.Artifacts.Service
import AiBadge.Model.UuidText
import AiBadge.Orchestrator.Service

/-! # What a job is for

The identity behind the key of a job: a stage of a session, one more extraction after
a rejection, or the publication of an artifact. Four functions build keys, each with a
format of its own, and no two identities share a key.
-/

namespace AiBadge

open Lib

/-- The stages of the pipeline. -/
inductive Stage where
  | transcribe | summarize | extractArtifact
  deriving DecidableEq

def Stage.jobType : Stage → JobType
  | transcribe => .transcribe
  | summarize => .summarize
  | extractArtifact => .extractArtifact

theorem stage_of_pipelineNext {ty next : JobType} (h : pipelineNext ty = some next) :
    ∃ stage : Stage, next = stage.jobType := by
  cases ty with
  | transcribe => exact ⟨.summarize, (Option.some.inj h).symm⟩
  | summarize => exact ⟨.extractArtifact, (Option.some.inj h).symm⟩
  | extractArtifact => cases h
  | publish => cases h
  | other => cases h

/-- What a job is for. The suffix tells the rejections of a session apart. -/
inductive Identity where
  | stage (sessionId : Option Uuid) (stage : Stage)
  | retry (sessionId : Uuid) (suffix : String)
  | publish (sessionId artifactId : Uuid)

namespace Identity

def sessionId : Identity → Option Uuid
  | stage sid _ => sid
  | retry sid _ => some sid
  | publish sid _ => some sid

def jobType : Identity → JobType
  | stage _ st => st.jobType
  | retry .. => .extractArtifact
  | publish .. => .publish

def artifactId : Identity → Option Uuid
  | publish _ aid => some aid
  | _ => none

def key : Identity → String
  | stage sid st => nextKey sid st.jobType
  | retry sid suffix => s!"{sid.str}:extract_artifact:retry-{suffix}"
  | publish sid aid => publishKey sid aid

/-- What stands before the first colon of a key. -/
def sessionText : Option Uuid → List Char
  | some sid => sid.str.toList
  | none => "None".toList

/-- What stands after the first colon of a key. -/
def purposeText : Identity → List Char
  | stage _ st => st.jobType.value.toList
  | retry _ suffix => "extract_artifact".toList ++ ':' :: ("retry-".toList ++ suffix.toList)
  | publish _ aid => "publish".toList ++ ':' :: aid.str.toList

theorem toList_key (i : Identity) :
    i.key.toList = sessionText i.sessionId ++ ':' :: i.purposeText := by
  cases i with
  | stage sid st =>
    have colon : ":".toList = [':'] := by decide
    have hs (text : String) :
        (text ++ ":" ++ st.jobType.value).toList = text.toList ++ ':' :: st.jobType.value.toList := by
      rw [String.toList_append, String.toList_append, colon, List.append_assoc]
      rfl
    have hnone : key (stage none st) = "None" ++ ":" ++ st.jobType.value := by
      cases st <;> decide
    cases sid with
    | none => exact (congrArg String.toList hnone).trans (hs "None")
    | some sid => exact hs sid.str
  | retry sid suffix =>
    have hs : (sid.str ++ ":extract_artifact:retry-" ++ suffix).toList =
        sid.str.toList ++
          ':' :: ("extract_artifact".toList ++ ':' :: ("retry-".toList ++ suffix.toList)) := by
      rw [String.toList_append, String.toList_append, List.append_assoc]
      rfl
    exact hs
  | publish sid aid =>
    have hs : (sid.str ++ ":publish:" ++ aid.str).toList =
        sid.str.toList ++ ':' :: ("publish".toList ++ ':' :: aid.str.toList) := by
      rw [String.toList_append, String.toList_append, List.append_assoc]
      rfl
    exact hs

theorem sessionText_injective : Function.Injective sessionText := by
  have none_ne (u : Uuid) : sessionText none ≠ sessionText (some u) := by
    intro h
    have hf := congrArg (List.filter (· ≠ '-')) h
    have hl := congrArg List.length (hf.trans u.filter_str)
    simp [Uuid.hexChars, sessionText] at hl
  intro a b h
  cases a with
  | none =>
    cases b with
    | none => rfl
    | some v => exact absurd h (none_ne v)
  | some u =>
    cases b with
    | none => exact absurd h.symm (none_ne u)
    | some v => rw [Uuid.str_injective (String.toList_injective h)]

theorem colon_notMem_sessionText (sid : Option Uuid) : ':' ∉ sessionText sid := by
  cases sid with
  | none => decide
  | some u => exact u.colon_notMem_str

theorem colon_notMem_value (st : Stage) : ':' ∉ st.jobType.value.toList := by
  cases st <;> decide

theorem value_injective : Function.Injective fun st : Stage => st.jobType.value.toList := by
  intro a b h
  revert h
  cases a <;> cases b <;> decide

/-- No two identities share a key. -/
theorem key_inj {i j : Identity} (h : i.key = j.key) : i = j := by
  have hl := congrArg String.toList h
  rw [toList_key, toList_key] at hl
  obtain ⟨hs, hp⟩ := framed_inj (colon_notMem_sessionText _) (colon_notMem_sessionText _) hl
  replace hs := sessionText_injective hs
  cases i with
  | stage sid st =>
    obtain rfl := hs
    cases j with
    | stage _ st' => rw [value_injective hp]; rfl
    | retry => exact absurd hp.symm (framed_ne (colon_notMem_value st))
    | publish => exact absurd hp.symm (framed_ne (colon_notMem_value st))
  | retry sid suffix =>
    cases j with
    | stage _ st' => exact absurd hp (framed_ne (colon_notMem_value st'))
    | retry sid' suffix' =>
      obtain rfl := Option.some.inj hs
      obtain ⟨-, ht⟩ := framed_inj (by decide) (by decide) hp
      rw [String.toList_injective (List.append_cancel_left ht)]
    | publish =>
      obtain ⟨hn, -⟩ := framed_inj (by decide) (by decide) hp
      exact absurd hn (by decide)
  | publish sid aid =>
    cases j with
    | stage _ st' => exact absurd hp (framed_ne (colon_notMem_value st'))
    | retry =>
      obtain ⟨hn, -⟩ := framed_inj (by decide) (by decide) hp
      exact absurd hn (by decide)
    | publish sid' aid' =>
      obtain rfl := Option.some.inj hs
      obtain ⟨-, ha⟩ := framed_inj (by decide) (by decide) hp
      rw [Uuid.str_injective (String.toList_injective ha)]

end Identity

/-- Keys of two stages of a session are two keys. -/
theorem stageKey_ne {sid : Uuid} {a b : Stage} (h : a ≠ b) :
    stageKey sid a.jobType ≠ stageKey sid b.jobType := by
  intro he
  have hk : (Identity.stage (some sid) a).key = (Identity.stage (some sid) b).key := he
  injection Identity.key_inj hk with _ hs
  exact h hs

/-- The row is a job for this purpose, under the key of the purpose. -/
structure Job.Means (j : Job) (i : Identity) : Prop where
  key : j.idempotencyKey = i.key
  sessionId : j.sessionId = i.sessionId
  jobType : j.jobType = i.jobType
  artifactId : j.inputPayload.artifactId = i.artifactId

theorem nextJob_means (id : Uuid) (now : Timestamp) (sid : Option Uuid) (st : Stage) :
    (nextJob id now sid st.jobType).Means (.stage sid st) := by
  constructor <;> rfl

theorem retryJob_means (ids : RetryIds) (now : Timestamp) (x : Artifact) (comment : String) :
    (retryJob ids now x comment).Means (.retry x.sessionId (take ids.suffix.hex 8)) := by
  constructor <;> rfl

theorem publishJob_means (id : Uuid) (now : Timestamp) (x : Artifact) :
    (publishJob id now x).Means (.publish x.sessionId x.id) := by
  constructor <;> rfl

end AiBadge
