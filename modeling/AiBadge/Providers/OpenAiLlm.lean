import AiBadge.Agents.Handlers
import AiBadge.Lib.PyJson

/-! # The OpenAI language model

The text of a completion becomes the value that it encodes, or is wrapped when it is not
JSON. A JSON column refuses some of these values, as PostgreSQL does.
-/

namespace AiBadge

open Lib PyJson

/-- How deep a value may nest: for the decoder, and inside the outermost container for the
encoder of a column. -/
structure Limits where
  decoding : Nat
  encoding : Nat

def isSurrogate (u : Nat) : Bool := isHighSurrogate u || isLowSurrogate u

/-- The text of a JSON column has no NUL and no lone surrogate. -/
def columnText (codePoints : List Nat) : Option String :=
  if codePoints.all fun u => u ≠ 0 && !isSurrogate u then
    some (String.ofList (codePoints.map Char.ofNat))
  else none

mutual

/-- A value as a JSON column holds it, if it does. -/
def columnValue : Nat → PyValue → Option Json
  | _, .none => some .null
  | _, .bool b => some (.bool b)
  | _, .int n => some (.num (toString n))
  | _, .float lexeme => some (.num lexeme)
  | _, .nan => none
  | _, .infinity _ => none
  | _, .str codePoints => (columnText codePoints).map .str
  | 0, .list _ => none
  | 0, .dict _ => none
  | depth + 1, .list items => (columnItems depth items).map .arr
  | depth + 1, .dict items => (columnFields depth items).map .obj

def columnItems : Nat → List PyValue → Option (List Json)
  | _, [] => some []
  | depth, v :: vs => do return (← columnValue depth v) :: (← columnItems depth vs)

def columnFields : Nat → List (List Nat × PyValue) → Option (List (String × Json))
  | _, [] => some []
  | depth, (key, v) :: vs => do
    return (← columnText key, ← columnValue depth v) :: (← columnFields depth vs)

end

def codePoints (text : String) : List Nat := text.toList.map Char.toNat

theorem isSurrogate_toNat (c : Char) : isSurrogate c.toNat = false := by
  have hv := c.valid
  simp only [UInt32.isValidChar, Nat.isValidChar] at hv
  simp only [isSurrogate, isHighSurrogate, isLowSurrogate, Char.toNat]
  grind

theorem toNat_eq_zero {c : Char} : c.toNat = 0 ↔ c = Char.ofNat 0 := by
  constructor
  · intro h
    rw [← h, Char.ofNat_toNat]
  · rintro rfl
    rfl

/-- A column refuses a text with a NUL and keeps every other. -/
theorem columnText_codePoints (text : String) : columnText (codePoints text) =
    if Char.ofNat 0 ∈ text.toList then none else some text := by
  have hall : ((codePoints text).all fun u => u ≠ 0 && !isSurrogate u) = true ↔
      Char.ofNat 0 ∉ text.toList := by
    simp only [codePoints, List.all_map, List.all_eq_true, Function.comp_apply,
      isSurrogate_toNat, Bool.not_false, Bool.and_true, decide_eq_true_eq, ne_eq, toNat_eq_zero]
    exact ⟨fun h hm => h _ hm rfl, fun h c hc he => h (he ▸ hc)⟩
  have hmap : (codePoints text).map Char.ofNat = text.toList := by
    simp [codePoints, Function.comp_def]
  unfold columnText
  by_cases hn : Char.ofNat 0 ∈ text.toList
  · rw [if_pos hn, if_neg (hall.not_left.mpr hn)]
  · rw [if_neg hn, if_pos (hall.mpr hn), hmap, String.ofList_toList]

/-- What a column makes of a text that is not JSON. -/
theorem columnValue_rawText (depth : Nat) (text : String) :
    columnValue (depth + 1) (.dict [(codePoints "raw_text", .str (codePoints text))]) =
      if Char.ofNat 0 ∈ text.toList then none else some (.obj [("raw_text", .str text)]) := by
  have hk : columnText (codePoints "raw_text") = some "raw_text" := by
    rw [columnText_codePoints, if_neg (by decide)]
  simp only [columnValue, columnFields, hk, columnText_codePoints]
  by_cases hn : Char.ofNat 0 ∈ text.toList
  · simp [hn]
  · simp [hn]

/-- `content or "{}"`. -/
def completionText : Option String → String
  | none => "{}"
  | some text => if text = "" then "{}" else text

/-- The value that `complete` returns for a text. -/
def decodeCompletion (limits : Limits) (text : String) : Except String PyValue :=
  match loads limits.decoding text with
  | .ok v => .ok v
  | .error .decode => .ok (.dict [(codePoints "raw_text", .str (codePoints text))])
  | .error .value => .error "ValueError"
  | .error .recursion => .error "RecursionError"

/-- `complete`, with its value as the JSON column that it is for holds it. -/
def OpenAILLMProvider.complete (limits : Limits) (content : Option String) :
    Except String (Option Json) := do
  return columnValue (limits.encoding + 1) (← decodeCompletion limits (completionText content))

/-- The providers of a worker, from what the two services answer. -/
def openAiProviders (limits : Limits) (transcribe : AudioKey → Except String TranscriptResult)
    (answers : Prompt → Except String (Option String)) : Providers where
  transcribe := transcribe
  complete prompt := do OpenAILLMProvider.complete limits (← answers prompt)

end AiBadge
