import AiBadge.Lib.Encoding
import AiBadge.Lib.PyJson
import AiBadge.Lib.Separated
import Mathlib.Algebra.Group.Int.Defs

/-! # Reading a UUID as Python does

`uuid.UUID(text)` drops the prefixes `urn:` and `uuid:`, the braces at both ends and every
hyphen, and reads the 32 characters that remain with `int(text, 16)`.
-/

namespace AiBadge.Lib

/-- What `int` takes from the Unicode tables, for the characters beyond ASCII. -/
structure Unicode where
  isSpace : Char → Bool
  decimal : Char → Option (Fin 10)

namespace PyUuid

open PyJson (hexDigit?)

/-- The `ValueError`s of `uuid.UUID(text)`: a wrong length, no literal, a value out of range. -/
inductive UuidError where
  | length | literal | range
  deriving DecidableEq

/-- `text.replace(pattern, "")`; `skip` characters of the current match are still to go. -/
def removeAll (pattern : List Char) : Nat → List Char → List Char
  | _, [] => []
  | skip + 1, _ :: cs => removeAll pattern skip cs
  | 0, c :: cs =>
    if pattern.isPrefixOf (c :: cs) then removeAll pattern (pattern.length - 1) cs
    else c :: removeAll pattern 0 cs

/-- The ASCII form of the spaces and digits of a text; any other character ends it. -/
def toAscii (tables : Unicode) : List Char → List Char
  | [] => []
  | c :: cs =>
    if c.toNat < 127 then c :: toAscii tables cs
    else if tables.isSpace c then ' ' :: toAscii tables cs
    else match tables.decimal c with
      | some d => Char.ofNat (48 + d) :: toAscii tables cs
      | none => ['?']

def isSpace (c : Char) : Bool := c = ' ' || (9 ≤ c.toNat && c.toNat ≤ 13)

/-- The digits behind the first, with single underscores between them: the value of all, and
what is left. -/
def scanDigits (value : Nat) : List Char → Option (Nat × List Char)
  | '_' :: c :: cs => (hexDigit? c).bind fun d => scanDigits (16 * value + d) cs
  | c :: cs =>
    match hexDigit? c with
    | some d => scanDigits (16 * value + d) cs
    | none => some (value, c :: cs)
  | [] => some (value, [])

def scanLiteral : List Char → Option (Nat × List Char)
  | c :: cs => (hexDigit? c).bind fun d => scanDigits d cs
  | [] => none

def dropSign : List Char → Bool × List Char
  | '+' :: cs => (false, cs)
  | '-' :: cs => (true, cs)
  | cs => (false, cs)

/-- The marker `0x`, which one underscore may follow. -/
def dropMarker : List Char → List Char
  | '0' :: 'x' :: '_' :: cs => cs
  | '0' :: 'X' :: '_' :: cs => cs
  | '0' :: 'x' :: cs => cs
  | '0' :: 'X' :: cs => cs
  | cs => cs

/-- `int(text, 16)`. -/
def int16 (tables : Unicode) (text : List Char) : Option Int := do
  let signed := dropSign ((toAscii tables text).dropWhile isSpace)
  let (n, rest) ← scanLiteral (dropMarker signed.2)
  if rest.all isSpace then some (if signed.1 then -(n : Int) else n) else none

def isBrace (c : Char) : Bool := c = '{' || c = '}'

/-- What `uuid.UUID` passes on to `int`. -/
def bare (text : List Char) : List Char :=
  (trim isBrace (removeAll "uuid:".toList 0 (removeAll "urn:".toList 0 text))).filter (· ≠ '-')

/-- The 128-bit value of `uuid.UUID(text)`. -/
def read (tables : Unicode) (text : List Char) : Except UuidError Nat :=
  if (bare text).length ≠ 32 then .error .length
  else match int16 tables (bare text) with
    | none => .error .literal
    | some n => if 0 ≤ n ∧ n < 2 ^ 128 then .ok n.toNat else .error .range

section Digits

variable {c : Char} {d n value : Nat} {cs rest : List Char}

theorem hexDigit?_eq_some : hexDigit? c = some d ↔
    (48 ≤ c.toNat ∧ c.toNat ≤ 57 ∧ d = c.toNat - 48) ∨
    (97 ≤ c.toNat ∧ c.toNat ≤ 102 ∧ d = c.toNat - 87) ∨
    (65 ≤ c.toNat ∧ c.toNat ≤ 70 ∧ d = c.toNat - 55) := by
  have hle (a b : Char) : a ≤ b ↔ a.toNat ≤ b.toNat := Iff.rfl
  unfold hexDigit?
  simp only [hle, Char.reduceToNat]
  grind

theorem hexDigit?_ascii (h : hexDigit? c = some d) : c.toNat < 127 := by
  rw [hexDigit?_eq_some] at h
  omega

theorem hexDigit?_not_isSpace (h : hexDigit? c = some d) : isSpace c = false := by
  have hc : c ≠ ' ' := by
    rintro rfl
    cases h
  rw [hexDigit?_eq_some] at h
  simp [isSpace, hc]
  omega

theorem hexDigit?_not_isBrace (h : hexDigit? c = some d) : isBrace c = false := by
  have hc : c ≠ '{' ∧ c ≠ '}' := by
    constructor <;> (rintro rfl; cases h)
  simp [isBrace, hc]

/-- The digits of a literal do not change on the way to their value. -/
theorem toAscii_eq_self {tables : Unicode} (h : ∀ c ∈ cs, c.toNat < 127) :
    toAscii tables cs = cs := by
  induction cs with
  | nil => rfl
  | cons c cs ih =>
    obtain ⟨hc, hcs⟩ := List.forall_mem_cons.mp h
    rw [toAscii, if_pos hc, ih hcs]

theorem scanDigits_of_digits {ds : List Nat} (h : cs.map hexDigit? = ds.map some) :
    scanDigits value cs = some (ofDigits 16 value ds, []) := by
  induction cs generalizing value ds with
  | nil =>
    obtain rfl := List.map_eq_nil_iff.mp h.symm
    rfl
  | cons c cs ih =>
    cases ds with
    | nil => cases h
    | cons d ds =>
      obtain ⟨hc, hcs⟩ := List.cons.inj h
      have hne : c ≠ '_' := by
        rintro rfl
        cases hc
      rw [scanDigits.eq_2 _ _ _ (fun _ _ he _ => hne he), hc]
      exact ih hcs

theorem dropSign_of_digits (h : ∀ c ∈ cs, (hexDigit? c).isSome = true) :
    dropSign cs = (false, cs) := by
  unfold dropSign
  split
  · exact absurd (h '+' List.mem_cons_self) (by decide)
  · exact absurd (h '-' List.mem_cons_self) (by decide)
  · rfl

theorem dropMarker_of_digits (h : ∀ c ∈ cs, (hexDigit? c).isSome = true) :
    dropMarker cs = cs := by
  unfold dropMarker
  split
  case h_5 => rfl
  all_goals exact absurd (List.forall_mem_cons.mp (List.forall_mem_cons.mp h).2).1 (by decide)

theorem int16_of_digits {tables : Unicode} {ds : List Nat} (hne : cs ≠ [])
    (h : cs.map hexDigit? = ds.map some) : int16 tables cs = some (ofDigits 16 0 ds : Int) := by
  have hdigit : ∀ c ∈ cs, (hexDigit? c).isSome = true := by
    intro c hc
    have hm : hexDigit? c ∈ ds.map some := h ▸ List.mem_map_of_mem hc
    obtain ⟨d, -, hd⟩ := List.mem_map.mp hm
    rw [← hd]
    rfl
  have hascii : ∀ c ∈ cs, c.toNat < 127 := by
    intro c hc
    obtain ⟨d, hd⟩ := Option.isSome_iff_exists.mp (hdigit c hc)
    exact hexDigit?_ascii hd
  have hspace : cs.dropWhile isSpace = cs := by
    apply dropWhile_of_head?
    intro c hc
    obtain ⟨d, hd⟩ := Option.isSome_iff_exists.mp (hdigit c (List.mem_of_mem_head? hc))
    exact hexDigit?_not_isSpace hd
  obtain ⟨c, cs, rfl⟩ := List.exists_cons_of_ne_nil hne
  cases ds with
  | nil => cases h
  | cons d ds =>
    obtain ⟨hc, hcs⟩ := List.cons.inj h
    have hscan : scanLiteral (c :: cs) = some (ofDigits 16 d ds, []) := by
      rw [scanLiteral, hc]
      exact scanDigits_of_digits hcs
    have hvalue : ofDigits 16 0 (d :: ds) = ofDigits 16 d ds := by
      rw [ofDigits, List.foldl_cons, Nat.mul_zero, Nat.zero_add]
      rfl
    simp only [int16, toAscii_eq_self hascii, hspace, dropSign_of_digits hdigit,
      dropMarker_of_digits hdigit, hscan, hvalue]
    rfl

end Digits

section Spelling

variable {tables : Unicode} {pattern cs body : List Char} {n : Nat}

theorem removeAll_of_notMem {x : Char} (hx : x ∈ pattern) (h : x ∉ cs) :
    removeAll pattern 0 cs = cs := by
  induction cs with
  | nil => rfl
  | cons c cs ih =>
    have hno : ¬ pattern.isPrefixOf (c :: cs) = true := by
      intro hp
      exact h ((List.isPrefixOf_iff_prefix.mp hp).subset hx)
    rw [removeAll, if_neg hno, ih fun hm => h (List.mem_cons_of_mem _ hm)]

theorem removeAll_skip (skip : List Char) : removeAll pattern skip.length (skip ++ cs) =
    removeAll pattern 0 cs := by
  induction skip with
  | nil => rfl
  | cons c skip ih => exact ih

theorem removeAll_append (hp : pattern ≠ []) :
    removeAll pattern 0 (pattern ++ cs) = removeAll pattern 0 cs := by
  obtain ⟨c, rest, rfl⟩ := List.exists_cons_of_ne_nil hp
  have hprefix : (c :: rest).isPrefixOf (c :: (rest ++ cs)) = true :=
    List.isPrefixOf_iff_prefix.mpr ⟨cs, rfl⟩
  rw [List.cons_append, removeAll, if_pos hprefix]
  exact removeAll_skip rest

/-- The 32 digits of a value, in either case, with hyphens anywhere. -/
def IsDigits (n : Nat) (body : List Char) : Prop :=
  (body.filter (· ≠ '-')).map hexDigit? = (digitsOf 16 32 n).map some

/-- A text that spells a value: its digits in braces, behind a prefix. -/
structure Spells (n : Nat) (text : List Char) : Prop where
  lt : n < 2 ^ 128
  shape : ∃ marker ∈ ["", "urn:", "uuid:", "urn:uuid:"], ∃ opening body closing : List Char,
    (∀ c ∈ opening, isBrace c = true) ∧ (∀ c ∈ closing, isBrace c = true) ∧
    IsDigits n body ∧ text = marker.toList ++ (opening ++ body ++ closing)

theorem IsDigits.mem (h : IsDigits n body) {c : Char} (hc : c ∈ body) :
    c = '-' ∨ ∃ d, hexDigit? c = some d := by
  by_cases hd : c = '-'
  · exact .inl hd
  · right
    have hm : hexDigit? c ∈ (digitsOf 16 32 n).map some :=
      h ▸ List.mem_map_of_mem (List.mem_filter.mpr ⟨hc, by simpa using hd⟩)
    obtain ⟨d, -, hd⟩ := List.mem_map.mp hm
    exact ⟨d, hd.symm⟩

theorem Spells.bare {text : List Char} (h : Spells n text) :
    ∃ body, IsDigits n body ∧ PyUuid.bare text = body.filter (· ≠ '-') := by
  obtain ⟨marker, hm, opening, body, closing, ho, hc, hb, rfl⟩ := h.shape
  have hplain : ∀ c ∈ opening ++ body ++ closing, c ≠ 'n' ∧ c ≠ 'i' := by
    have brace (c : Char) (h : isBrace c = true) : c ≠ 'n' ∧ c ≠ 'i' := by
      constructor <;> (rintro rfl; cases h)
    intro c hmem
    rcases List.mem_append.mp hmem with hmem | hmem
    · rcases List.mem_append.mp hmem with hmem | hmem
      · exact brace c (ho c hmem)
      · rcases hb.mem hmem with rfl | ⟨d, hd⟩
        · decide
        · constructor <;> (rintro rfl; cases hd)
    · exact brace c (hc c hmem)
  have hn : 'n' ∉ opening ++ body ++ closing := fun hmem => (hplain _ hmem).1 rfl
  have hi : 'i' ∉ opening ++ body ++ closing := fun hmem => (hplain _ hmem).2 rfl
  have hremoved : removeAll "uuid:".toList 0 (removeAll "urn:".toList 0
      (marker.toList ++ (opening ++ body ++ closing))) = opening ++ body ++ closing := by
    have urn {l : List Char} (hl : 'n' ∉ l) : removeAll "urn:".toList 0 l = l :=
      removeAll_of_notMem (by decide) hl
    have uuid : removeAll "uuid:".toList 0 (opening ++ body ++ closing) =
        opening ++ body ++ closing := removeAll_of_notMem (by decide) hi
    have huuid : 'n' ∉ "uuid:".toList ++ (opening ++ body ++ closing) := by
      intro hmem
      rcases List.mem_append.mp hmem with hmem | hmem
      · exact absurd hmem (by decide)
      · exact hn hmem
    simp only [List.mem_cons, List.not_mem_nil, or_false] at hm
    rcases hm with rfl | rfl | rfl | rfl
    · rw [String.toList_empty, List.nil_append, urn hn, uuid]
    · rw [removeAll_append (by decide), urn hn, uuid]
    · rw [urn huuid, removeAll_append (by decide), uuid]
    · have hsplit : "urn:uuid:".toList ++ (opening ++ body ++ closing) =
          "urn:".toList ++ ("uuid:".toList ++ (opening ++ body ++ closing)) := by
        rw [← List.append_assoc]
        rfl
      rw [hsplit, removeAll_append (by decide), urn huuid, removeAll_append (by decide), uuid]
  refine ⟨body, hb, ?_⟩
  rw [PyUuid.bare, hremoved, trim_of_ends _ ho hc]
  · intro c hmem
    rcases hb.mem hmem with rfl | ⟨d, hd⟩
    · decide
    · exact hexDigit?_not_isBrace hd
  · rintro rfl
    exact absurd (congrArg List.length hb) (by simp [digitsOf])

/-- Every spelling of a value is read as the value. -/
theorem read_of_spells {text : List Char} (h : Spells n text) : read tables text = .ok n := by
  obtain ⟨body, hb, hbare⟩ := h.bare
  have hlength : (PyUuid.bare text).length = 32 := by
    have hl := congrArg List.length hb
    rw [List.length_map, List.length_map, digitsOf, List.length_map, List.length_range] at hl
    rw [hbare, hl]
  have hne : PyUuid.bare text ≠ [] := by
    intro he
    rw [he] at hlength
    cases hlength
  have hvalue : ofDigits 16 0 (digitsOf 16 32 n) = n := by
    rw [ofDigits_digitsOf, Nat.zero_mul, Nat.zero_add]
    exact Nat.mod_eq_of_lt (Nat.lt_of_lt_of_eq h.lt (by decide))
  have hint : int16 tables (PyUuid.bare text) = some (n : Int) := by
    rw [int16_of_digits hne ((congrArg (List.map hexDigit?) hbare).trans hb), hvalue]
  have hrange : 0 ≤ (n : Int) ∧ (n : Int) < 2 ^ 128 := by
    have hlt := h.lt
    omega
  rw [read, if_neg (fun hn => hn hlength), hint]
  simp only [if_pos hrange, Int.toNat_natCast]

end Spelling

end PyUuid

end AiBadge.Lib
