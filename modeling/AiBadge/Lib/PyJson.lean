import Mathlib.Algebra.Group.Nat.Defs
import Mathlib.Data.List.TakeWhile

/-! # Decoding JSON as Python does

`json.loads`, by the scanners of its decoder. The last value of a repeated key counts, an
integer has at most 4300 digits, and the interpreter's stack limits how deep a value nests.
-/

namespace AiBadge.Lib

/-- `JSONDecodeError`, the `ValueError` of a long integer, and `RecursionError`. -/
inductive LoadError where
  | decode | value | recursion
  deriving DecidableEq

/-- A decoded value; strings are code points, which may be lone surrogates. -/
inductive PyValue where
  | none
  | bool (b : Bool)
  | int (n : Int)
  | float (lexeme : String)
  | nan
  | infinity (negative : Bool)
  | str (codePoints : List Nat)
  | list (items : List PyValue)
  | dict (items : List (List Nat × PyValue))

namespace PyJson

/-- What is left of a text behind a token. -/
structure Rest (cs : List Char) where
  chars : List Char
  shorter : chars.length < cs.length

def Rest.widen {cs ds : List Char} (r : Rest ds) (h : ds.length ≤ cs.length) : Rest cs :=
  ⟨r.chars, Nat.lt_of_lt_of_le r.shorter h⟩

/-- What is left behind a second token. -/
def Rest.trans {cs : List Char} (r : Rest cs) (r' : Rest r.chars) : Rest cs :=
  r'.widen (Nat.le_of_lt r.shorter)

/-- A scanner reads one token off the front of a text. -/
abbrev Scan (α : Type) := (cs : List Char) → Except LoadError (α × Rest cs)

section Strings

def hexDigit? (c : Char) : Option Nat :=
  if '0' ≤ c ∧ c ≤ '9' then some (c.toNat - 48)
  else if 'a' ≤ c ∧ c ≤ 'f' then some (c.toNat - 87)
  else if 'A' ≤ c ∧ c ≤ 'F' then some (c.toNat - 55)
  else none

/-- The code unit of the four digits behind `\u`. -/
def hexUnit? (a b c d : Char) : Option Nat := do
  return 4096 * (← hexDigit? a) + 256 * (← hexDigit? b) + 16 * (← hexDigit? c) + (← hexDigit? d)

/-- The escapes of one character. -/
def escape? : Char → Option Nat
  | '"' => some 34
  | '\\' => some 92
  | '/' => some 47
  | 'b' => some 8
  | 'f' => some 12
  | 'n' => some 10
  | 'r' => some 13
  | 't' => some 9
  | _ => none

/-- The code units of a string, up to its closing quote. -/
def scanUnits : Scan (List Nat)
  | '"' :: cs => return ([], ⟨cs, Nat.lt_succ_self _⟩)
  | '\\' :: 'u' :: a :: b :: c :: d :: cs =>
    match hexUnit? a b c d with
    | none => throw .decode
    | some unit => do
      let (units, r) ← scanUnits cs
      return (unit :: units, r.widen (by simp only [List.length_cons]; omega))
  | '\\' :: e :: cs =>
    match escape? e with
    | none => throw .decode
    | some unit => do
      let (units, r) ← scanUnits cs
      return (unit :: units, r.widen (by simp only [List.length_cons]; omega))
  | c :: cs =>
    -- control characters must be escaped
    if c.toNat < 32 then throw .decode
    else do
      let (units, r) ← scanUnits cs
      return (c.toNat :: units, r.widen (Nat.le_succ _))
  | [] => throw .decode

def isHighSurrogate (u : Nat) : Bool := 0xD800 ≤ u && u ≤ 0xDBFF

def isLowSurrogate (u : Nat) : Bool := 0xDC00 ≤ u && u ≤ 0xDFFF

/-- Two escapes that are a surrogate pair become one code point. -/
def joinSurrogates : List Nat → List Nat
  | high :: low :: us =>
    if isHighSurrogate high && isLowSurrogate low then
      (0x10000 + 0x400 * (high - 0xD800) + (low - 0xDC00)) :: joinSurrogates us
    else high :: joinSurrogates (low :: us)
  | us => us

/-- `scanstring`, behind the opening quote. -/
def scanString : Scan (List Nat) := fun cs => do
  let (units, r) ← scanUnits cs
  return (joinSurrogates units, r)

end Strings

section Numbers

def isDigit (c : Char) : Bool := '0' ≤ c && c ≤ '9'

def digitsValue (ds : List Char) : Nat := ds.foldl (fun n c => 10 * n + (c.toNat - 48)) 0

structure Numeral where
  negative : Bool
  whole : List Char
  fraction : List Char
  /-- The digits of the exponent, and whether it is negative. -/
  exponent : Option (Bool × List Char)

def scanWhole? : List Char → Option (List Char × List Char)
  | '0' :: cs => some (['0'], cs)
  | cs => if (cs.takeWhile isDigit).isEmpty then none
    else some (cs.takeWhile isDigit, cs.dropWhile isDigit)

/-- The fraction, if a digit follows the point. -/
def scanFraction : List Char → List Char × List Char
  | '.' :: cs => if (cs.takeWhile isDigit).isEmpty then ([], '.' :: cs)
    else (cs.takeWhile isDigit, cs.dropWhile isDigit)
  | cs => ([], cs)

def scanSign : List Char → Bool × List Char
  | '-' :: cs => (true, cs)
  | '+' :: cs => (false, cs)
  | cs => (false, cs)

/-- The exponent, if a digit follows its sign. -/
def scanExponent : List Char → Option (Bool × List Char) × List Char
  | c :: cs =>
    let (negative, ds) := scanSign cs
    if (c = 'e' ∨ c = 'E') ∧ ¬ (ds.takeWhile isDigit).isEmpty then
      (some (negative, ds.takeWhile isDigit), ds.dropWhile isDigit)
    else (none, c :: cs)
  | [] => (none, [])

/-- The longest numeral at the front of a text. -/
def scanNumeral? (cs : List Char) : Option (Numeral × List Char) := do
  let negative := cs.head? = some '-'
  let (whole, cs₁) ← scanWhole? (if negative then cs.tail else cs)
  let (fraction, cs₂) := scanFraction cs₁
  let (exponent, cs₃) := scanExponent cs₂
  return (⟨negative, whole, fraction, exponent⟩, cs₃)

/-- A float rounds to an infinity from `2 ^ 1024 - 2 ^ 970` on. -/
def Numeral.overflows (n : Numeral) : Bool :=
  let mantissa := digitsValue (n.whole ++ n.fraction)
  let bound := 2 ^ 1024 - 2 ^ 970
  match n.exponent with
  | none => bound * 10 ^ n.fraction.length ≤ mantissa
  | some (true, ds) => bound * 10 ^ (n.fraction.length + digitsValue ds) ≤ mantissa
  | some (false, ds) => bound * 10 ^ n.fraction.length ≤ mantissa * 10 ^ digitsValue ds

/-- `int(lexeme)` or `float(lexeme)`. -/
def Numeral.convert (n : Numeral) (lexeme : List Char) : Except LoadError PyValue :=
  if n.fraction.isEmpty && n.exponent.isNone then
    if n.whole.length ≤ 4300 then
      return .int (if n.negative then -(digitsValue n.whole : Int) else digitsValue n.whole)
    else throw .value
  else return if n.overflows then .infinity n.negative else .float (String.ofList lexeme)

theorem length_dropWhile_isDigit {cs : List Char} (h : (cs.takeWhile isDigit).isEmpty = false) :
    (cs.dropWhile isDigit).length < cs.length := by
  have hl := congrArg List.length (cs.takeWhile_append_dropWhile (p := isDigit))
  have hp := List.length_pos_iff.mpr (List.isEmpty_eq_false_iff.mp h)
  rw [List.length_append] at hl
  omega

theorem length_scanWhole? {cs ds rest : List Char} (h : scanWhole? cs = some (ds, rest)) :
    rest.length < cs.length := by
  unfold scanWhole? at h
  split at h
  · obtain ⟨rfl, rfl⟩ := Prod.mk.inj (Option.some.inj h)
    exact Nat.lt_succ_self _
  · split at h
    · cases h
    · next hd =>
      obtain ⟨rfl, rfl⟩ := Prod.mk.inj (Option.some.inj h)
      exact length_dropWhile_isDigit (Bool.not_eq_true _ ▸ hd)

theorem length_scanFraction (cs : List Char) : (scanFraction cs).2.length ≤ cs.length := by
  unfold scanFraction
  split
  · split
    · exact Nat.le_refl _
    · exact Nat.le_succ_of_le (List.length_dropWhile_le _ _)
  · exact Nat.le_refl _

theorem length_scanSign (cs : List Char) : (scanSign cs).2.length ≤ cs.length := by
  unfold scanSign
  split
  · exact Nat.le_succ _
  · exact Nat.le_succ _
  · exact Nat.le_refl _

theorem length_scanExponent (cs : List Char) : (scanExponent cs).2.length ≤ cs.length := by
  unfold scanExponent
  split
  · next c ds =>
    dsimp only
    split
    · exact Nat.le_succ_of_le ((List.length_dropWhile_le _ _).trans (length_scanSign ds))
    · exact Nat.le_refl _
  · exact Nat.le_refl _

theorem length_scanNumeral? {cs rest : List Char} {n : Numeral}
    (h : scanNumeral? cs = some (n, rest)) : rest.length < cs.length := by
  simp only [scanNumeral?, Option.bind_eq_bind, Option.bind_eq_some_iff, Option.pure_def,
    Option.some.injEq, Prod.mk.injEq] at h
  obtain ⟨⟨ds, cs₁⟩, hw, -, rfl⟩ := h
  have hw := length_scanWhole? hw
  have hf := length_scanFraction cs₁
  have he := length_scanExponent (scanFraction cs₁).2
  have hs : (if cs.head? = some '-' then cs.tail else cs).length ≤ cs.length := by
    split
    · exact List.length_tail ▸ Nat.sub_le _ _
    · exact Nat.le_refl _
  exact (he.trans hf).trans_lt (hw.trans_le hs)

def scanNumber : Scan PyValue := fun cs =>
  match h : scanNumeral? cs with
  | none => throw .decode
  | some (n, rest) => do
    let v ← n.convert (cs.take (cs.length - rest.length))
    return (v, ⟨rest, length_scanNumeral? h⟩)

end Numbers

section Containers

def isBlank (c : Char) : Bool := c = ' ' || c = '\t' || c = '\n' || c = '\r'

def skipBlanks (cs : List Char) : List Char := cs.dropWhile isBlank

theorem length_skipBlanks (cs : List Char) : (skipBlanks cs).length ≤ cs.length :=
  List.length_dropWhile_le _ _

def Rest.skipBlanks {cs : List Char} (r : Rest cs) : Rest cs :=
  ⟨PyJson.skipBlanks r.chars, (length_skipBlanks r.chars).trans_lt r.shorter⟩

/-- The next character that is not blank. -/
def delimiter? (cs : List Char) : Option (Char × Rest cs) :=
  match h : skipBlanks cs with
  | [] => none
  | c :: ds => some (c, ⟨ds, Nat.lt_of_succ_le ((congrArg List.length h).symm.trans_le
      (length_skipBlanks cs))⟩)

/-- `JSONArray`, from the first item on. -/
def scanItems (scanOnce : Scan PyValue) (cs : List Char) :
    Except LoadError (List PyValue × Rest cs) := do
  let (v, r) ← scanOnce cs
  match delimiter? r.chars with
  | some (']', r₁) => return ([v], r.trans r₁)
  | some (',', r₁) =>
    let r₂ := (r.trans r₁).skipBlanks
    let (vs, r₃) ← scanItems scanOnce r₂.chars
    return (v :: vs, r₂.trans r₃)
  | _ => throw .decode
termination_by cs.length
decreasing_by exact r₂.shorter

/-- A key with its value, of the two up to the delimiter behind them. -/
def scanField (scanOnce : Scan PyValue) : Scan (List Nat × PyValue)
  | '"' :: cs => do
    let (key, r) ← scanString cs
    match delimiter? r.chars with
    | some (':', r₁) =>
      let r₂ := (r.trans r₁).skipBlanks
      let (v, r₃) ← scanOnce r₂.chars
      return ((key, v), (r₂.trans r₃).widen (Nat.le_succ _))
    | _ => throw .decode
  | _ => throw .decode

/-- `JSONObject`, from the first key on. -/
def scanFields (scanOnce : Scan PyValue) (cs : List Char) :
    Except LoadError (List (List Nat × PyValue) × Rest cs) := do
  let (f, r) ← scanField scanOnce cs
  match delimiter? r.chars with
  | some ('}', r₁) => return ([f], r.trans r₁)
  | some (',', r₁) =>
    let r₂ := (r.trans r₁).skipBlanks
    let (fs, r₃) ← scanFields scanOnce r₂.chars
    return (f :: fs, r₂.trans r₃)
  | _ => throw .decode
termination_by cs.length
decreasing_by exact r₂.shorter

/-- `d[key] = v`. -/
def setItem (d : List (List Nat × PyValue)) (key : List Nat) (v : PyValue) :
    List (List Nat × PyValue) :=
  if d.any (·.1 = key) then d.map fun f => if f.1 = key then (key, v) else f
  else d ++ [(key, v)]

/-- `dict(pairs)`. -/
def dictOf (pairs : List (List Nat × PyValue)) : PyValue :=
  .dict (pairs.foldl (fun d f => setItem d f.1 f.2) [])

/-- One value; `nested` scans the values in it, unless the stack is used up. -/
def scanValue (nested : Option (Scan PyValue)) : Scan PyValue
  | '"' :: cs => do
    let (codePoints, r) ← scanString cs
    return (.str codePoints, r.widen (Nat.le_succ _))
  | '{' :: cs =>
    match nested with
    | none => throw .recursion
    | some scanOnce =>
      match delimiter? cs with
      | some ('}', r) => return (.dict [], r.widen (Nat.le_succ _))
      | _ => do
        let (fields, r) ← scanFields scanOnce (skipBlanks cs)
        return (dictOf fields, r.widen (Nat.le_succ_of_le (length_skipBlanks cs)))
  | '[' :: cs =>
    match nested with
    | none => throw .recursion
    | some scanOnce =>
      match delimiter? cs with
      | some (']', r) => return (.list [], r.widen (Nat.le_succ _))
      | _ => do
        let (items, r) ← scanItems scanOnce (skipBlanks cs)
        return (.list items, r.widen (Nat.le_succ_of_le (length_skipBlanks cs)))
  | 'n' :: 'u' :: 'l' :: 'l' :: cs => return (.none, ⟨cs, by simp only [List.length_cons]; omega⟩)
  | 't' :: 'r' :: 'u' :: 'e' :: cs =>
    return (.bool true, ⟨cs, by simp only [List.length_cons]; omega⟩)
  | 'f' :: 'a' :: 'l' :: 's' :: 'e' :: cs =>
    return (.bool false, ⟨cs, by simp only [List.length_cons]; omega⟩)
  | 'N' :: 'a' :: 'N' :: cs => return (.nan, ⟨cs, by simp only [List.length_cons]; omega⟩)
  | 'I' :: 'n' :: 'f' :: 'i' :: 'n' :: 'i' :: 't' :: 'y' :: cs =>
    return (.infinity false, ⟨cs, by simp only [List.length_cons]; omega⟩)
  | '-' :: 'I' :: 'n' :: 'f' :: 'i' :: 'n' :: 'i' :: 't' :: 'y' :: cs =>
    return (.infinity true, ⟨cs, by simp only [List.length_cons]; omega⟩)
  | cs => scanNumber cs

/-- `scan_once`, with stack for `depth` nested values. -/
def scanOnce : Nat → Scan PyValue
  | 0 => scanValue none
  | depth + 1 => scanValue (some (scanOnce depth))

/-- `json.loads(text)`. -/
def loads (depth : Nat) (text : String) : Except LoadError PyValue := do
  let (v, r) ← scanOnce depth (skipBlanks text.toList)
  if (delimiter? r.chars).isNone then return v else throw .decode

end Containers

end PyJson

end AiBadge.Lib
