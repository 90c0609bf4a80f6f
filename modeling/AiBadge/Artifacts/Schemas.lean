import AiBadge.Model.Values

/-! # Artifact schemas

The structured output types of the extraction, by the fields that their models declare.
-/

namespace AiBadge

/-- The annotations `str`, `list[str]` and `list[dict]`. -/
inductive FieldType where
  | str | listStr | listDict

def Json.isStr : Json → Bool
  | .str _ => true
  | _ => false

namespace FieldType

def accepts : FieldType → Json → Bool
  | str, x => x.isStr
  | listStr, .arr items => items.all Json.isStr
  | listDict, .arr items => items.all Json.isObj
  | _, _ => false

end FieldType

/-- A field of a model, which is required unless it has a default. -/
structure SchemaField where
  name : String
  type : FieldType
  default : Option Json

namespace SchemaField

def required (name : String) (type : FieldType) : SchemaField := ⟨name, type, none⟩

/-- `Field(default="")`. -/
def text (name : String) : SchemaField := ⟨name, .str, some (.str "")⟩

/-- `Field(default_factory=list)`. -/
def list (name : String) (type : FieldType) : SchemaField := ⟨name, type, some (.arr [])⟩

/-- The content has the field with its type, or lacks it and the default takes its place. -/
def validates (f : SchemaField) (content : Json) : Bool :=
  match content.get? f.name with
  | some x => f.type.accepts x
  | none => f.default.isSome

end SchemaField

open FieldType SchemaField

def MeetingMinutes : List SchemaField :=
  [required "title" str, required "date" str, list "participants" listStr, required "summary" str,
    list "key_points" listStr, list "decisions" listDict, list "action_items" listDict]

def DecisionRecord : List SchemaField :=
  [required "title" str, required "context" str, required "decision" str,
    required "rationale" str, list "alternatives_considered" listStr, text "implications"]

def FAQDraft : List SchemaField := [required "title" str, list "questions" listDict]

def SOPDraft : List SchemaField :=
  [required "title" str, required "purpose" str, text "scope", list "steps" listDict,
    list "references" listStr]

namespace ArtifactType

/-- The values of `ARTIFACT_SCHEMAS`. -/
def fields : ArtifactType → List SchemaField
  | meetingMinutes => MeetingMinutes
  | decisionRecord => DecisionRecord
  | faqDraft => FAQDraft
  | sopDraft => SOPDraft

theorem mem_all (t : ArtifactType) : t ∈ all := by cases t <;> simp [all]

/-- The content satisfies the model that is registered for the type. -/
def conforms (t : ArtifactType) (content : Json) : Bool :=
  content.isObj && t.fields.all fun f => f.validates content

/-- Every model requires a title. -/
theorem title_of_conforms {t : ArtifactType} {content : Json} (h : t.conforms content = true) :
    ∃ s, content.get? "title" = some (.str s) := by
  have hm : required "title" str ∈ t.fields := by cases t <;> exact List.mem_cons_self
  have hv := List.all_eq_true.mp (Bool.and_eq_true_iff.mp h).2 _ hm
  unfold validates at hv
  split at hv
  · next x hx =>
    cases x with
    | str s => exact ⟨s, hx⟩
    | _ => cases hv
  · cases hv

end ArtifactType

end AiBadge
