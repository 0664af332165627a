import CssResources.Json.Basic
import CssResources.Number.Hexadecimal
import CssResources.Text.Reading

/-!
# Reading JSON

`CssResources.JsonValue.ofText?` reads a text that is one JSON value with blanks around
it. Each reader takes a character or more and hands on the rest, so values within values
are read by recursion on the length of the text.
-/

namespace CssResources

namespace JsonValue

/-- The blanks between the parts of a JSON text. -/
def isSpace (c : Char) : Bool := c == ' ' || c == '\t' || c == '\n' || c == '\x0d'

/-- The text after the blanks at its start. -/
def skipSpace (t : Text) : Text := t.dropWhile isSpace

theorem length_skipSpace_le (t : Text) : (skipSpace t).length ≤ t.length :=
  length_dropWhile_le isSpace t

/-! ### Strings -/

/-- **A part of a string**: a character, or a code that an escape writes, which may be
half of a character. -/
inductive StringPart where
  /-- A character. -/
  | char (c : Char)
  /-- A code of sixteen bits. -/
  | code (n : Nat)

/-- The first half of a character beyond sixteen bits. -/
def isHighHalf (n : Nat) : Bool := 0xd800 ≤ n && n < 0xdc00

/-- The second half of a character beyond sixteen bits. -/
def isLowHalf (n : Nat) : Bool := 0xdc00 ≤ n && n < 0xe000

/-- The text of the parts of a string. A half of a character has one only beside the
other half. -/
def textOfParts? : List StringPart → Option Text
  | [] => some []
  | .char c :: ps => (textOfParts? ps).map (c :: ·)
  | .code n :: ps =>
    if isHighHalf n then
      match ps with
      | .code m :: ps =>
        if isLowHalf m then
          (textOfParts? ps).map
            (Char.ofNat (0x10000 + 0x400 * (n - 0xd800) + (m - 0xdc00)) :: ·)
        else none
      | _ => none
    else if isLowHalf n then none
    else (textOfParts? ps).map (Char.ofNat n :: ·)

/-- The character that a backslash and a letter stand for. -/
def escaped? : Char → Option Char
  | '"' => some '"'
  | '\\' => some '\\'
  | '/' => some '/'
  | 'b' => some '\x08'
  | 'f' => some '\x0c'
  | 'n' => some '\n'
  | 'r' => some '\x0d'
  | 't' => some '\t'
  | _ => none

/-- The parts of a string after its opening quote, up to the closing one. Control
characters do not stand in a string. -/
def readParts : (t : Text) → Option (Reading (List StringPart) t)
  | [] => none
  | '"' :: _ => some (.head [])
  | '\\' :: 'u' :: a :: b :: c :: d :: r => do
    let n ← natOfHex? [a, b, c, d]
    let ps ← readParts r
    some ((ps.map (.code n :: ·)).after ['\\', 'u', a, b, c, d])
  | '\\' :: e :: r => do
    let c ← escaped? e
    let ps ← readParts r
    some (ps.map (.char c :: ·)).ofTail.ofTail
  | c :: r =>
    if c < ' ' || c = '\\' then none
    else (readParts r).map fun ps => (ps.map (.char c :: ·)).ofTail

/-- A string after its opening quote. -/
def readString (t : Text) : Option (Reading (Option Text) t) :=
  (readParts t).map (·.map textOfParts?)

/-! ### Words and numbers -/

/-- A character of a word or a number. -/
def isWordChar (c : Char) : Bool := c.isAlphanum || c == '+' || c == '-' || c == '.'

/-- One digit or more. -/
def isDigits (t : Text) : Bool := !t.isEmpty && t.all Char.isDigit

/-- The power of ten of a number, if there is one: `e`, a sign, and digits. -/
def isExponent : Text → Bool
  | [] => true
  | e :: t =>
    (e == 'e' || e == 'E') &&
      match t with
      | '+' :: r => isDigits r
      | '-' :: r => isDigits r
      | r => isDigits r

/-- What may follow the whole part of a number: a point with digits, and a power of
ten. -/
def isFraction : Text → Bool
  | '.' :: t => !(t.takeWhile Char.isDigit).isEmpty && isExponent (t.dropWhile Char.isDigit)
  | t => isExponent t

/-- A number without its sign. The whole part has no zero in front. -/
def isUnsignedNumber : Text → Bool
  | '0' :: t => isFraction t
  | c :: t => c.isDigit && isFraction (t.dropWhile Char.isDigit)
  | [] => false

/-- **A number**: an optional minus, a whole part, and what may follow it. -/
def isNumber : Text → Bool
  | '-' :: t => isUnsignedNumber t
  | t => isUnsignedNumber t

/-- The value of a word or a number. -/
def ofWord? (word : Text) : Option JsonValue :=
  if word = "null".toList then some .null
  else if word = "true".toList then some (.boolean true)
  else if word = "false".toList then some (.boolean false)
  else if isNumber word then some (.number word)
  else none

/-- A word or a number. -/
def readWord (t : Text) : Option (Reading JsonValue t) := do
  let r ← readWhile isWordChar t
  let v ← ofWord? r.value
  some (r.map fun _ => v)

/-! ### Values -/

mutual

/-- A value, which begins with the first character of the text. -/
def readValue (t : Text) : Option (Reading JsonValue t) :=
  match t with
  | '"' :: r => (readString r).map fun s => (s.map .string).ofTail
  | '[' :: r =>
    match _h : skipSpace r with
    | ']' :: rest => some ⟨.array [], rest, by
        have := length_skipSpace_le r
        simp only [_h, List.length_cons] at this ⊢
        omega⟩
    | _ => (readItems r).map fun vs => (vs.map .array).ofTail
  | '{' :: r =>
    match _h : skipSpace r with
    | '}' :: rest => some ⟨.object [], rest, by
        have := length_skipSpace_le r
        simp only [_h, List.length_cons] at this ⊢
        omega⟩
    | _ => (readMembers r).map fun ms => (ms.map .object).ofTail
  | t => readWord t
termination_by 2 * t.length
decreasing_by all_goals (simp only [List.length_cons]; omega)

/-- The items of an array, of which there is one at least, and the closing bracket. -/
def readItems (t : Text) : Option (Reading (List JsonValue) t) :=
  match readValue (skipSpace t) with
  | none => none
  | some v =>
    match _h : skipSpace v.rest with
    | ',' :: r =>
      match readItems r with
      | none => none
      | some vs => some ((vs.map (v.value :: ·)).weaken (by
          have h₁ := length_skipSpace_le t
          have h₂ := length_skipSpace_le v.rest
          have h₃ := v.shorter
          simp only [_h, List.length_cons] at h₂
          omega))
    | ']' :: r => some ⟨[v.value], r, by
        have h₁ := length_skipSpace_le t
        have h₂ := length_skipSpace_le v.rest
        have h₃ := v.shorter
        simp only [_h, List.length_cons] at h₂
        omega⟩
    | _ => none
termination_by 2 * t.length + 1
decreasing_by
  · have := length_skipSpace_le t
    omega
  · have h₁ := length_skipSpace_le t
    have h₂ := length_skipSpace_le v.rest
    have h₃ := v.shorter
    simp only [_h, List.length_cons] at h₂
    omega

/-- The members of an object, of which there is one at least, and the closing brace. -/
def readMembers (t : Text) : Option (Reading (List (Option Text × JsonValue)) t) :=
  match _h₀ : skipSpace t with
  | '"' :: r₀ =>
    match readString r₀ with
    | none => none
    | some name =>
      match _h₁ : skipSpace name.rest with
      | ':' :: r₁ =>
        match readValue (skipSpace r₁) with
        | none => none
        | some v =>
          have shorter : v.rest.length + 3 ≤ t.length := by
            have h₁ := length_skipSpace_le t
            have h₂ := name.shorter
            have h₃ := length_skipSpace_le name.rest
            have h₄ := length_skipSpace_le r₁
            have h₅ := v.shorter
            simp only [_h₀, _h₁, List.length_cons] at h₁ h₃
            omega
          match _h₂ : skipSpace v.rest with
          | ',' :: r =>
            match readMembers r with
            | none => none
            | some ms => some ((ms.map ((name.value, v.value) :: ·)).weaken (by
                have h := length_skipSpace_le v.rest
                simp only [_h₂, List.length_cons] at h
                omega))
          | '}' :: r => some ⟨[(name.value, v.value)], r, by
              have h := length_skipSpace_le v.rest
              simp only [_h₂, List.length_cons] at h
              omega⟩
          | _ => none
      | _ => none
  | _ => none
termination_by 2 * t.length + 1
decreasing_by
  · have h₁ := length_skipSpace_le t
    have h₂ := name.shorter
    have h₃ := length_skipSpace_le name.rest
    have h₄ := length_skipSpace_le r₁
    simp only [_h₀, _h₁, List.length_cons] at h₁ h₃
    omega
  · have h := length_skipSpace_le v.rest
    simp only [_h₂, List.length_cons] at h
    omega

end

/-- **Reads a text that is one JSON value**, with blanks around it and nothing else. -/
def ofText? (t : Text) : Option JsonValue :=
  match readValue (skipSpace t) with
  | some v => if (skipSpace v.rest).isEmpty then some v.value else none
  | none => none

end JsonValue

end CssResources
