import CssResources.Toml.Quoted
import CssResources.Toml.Scalar
import CssResources.Toml.Table

/-!
# Reading TOML

`CssResources.TomlValue.document?` reads a text as a TOML document. Arrays and tables
between braces hold values, so their readers go on with the rest of the text, which gets
shorter; arrays may span lines and hold comments, tables between braces do neither.

Values are nested to a depth of 79 at most, and a dotted key has 79 parts at most.
-/

namespace CssResources

namespace TomlValue

/-- The greatest depth of nesting, and the greatest number of parts of a key. -/
def depthLimit : Nat := 79

/-! ### Keys -/

/-- A character of a key without quotes. -/
def isBareChar (c : Char) : Bool := c.isAlphanum || c == '_' || c == '-'

/-- One part of a key. -/
def readName : (t : Text) → Option (Reading Text t)
  | '"' :: r => (readBasic r).map Reading.ofTail
  | '\'' :: r => (readLiteral r).map Reading.ofTail
  | t => readWhile isBareChar t

/-- The parts of a key, with dots between them and blanks around the dots. -/
def readPath (t : Text) : Option (Reading (List Text) t) :=
  match readName t with
  | none => none
  | some name =>
    match _h : skipSpace name.rest with
    | '.' :: r =>
      match readPath (skipSpace r) with
      | none => none
      | some path => some ((path.map (name.value :: ·)).weaken (by
          have h₁ := name.shorter
          have h₂ := length_skipSpace_le name.rest
          have h₃ := length_skipSpace_le r
          simp only [_h, List.length_cons] at h₂
          omega))
    | _ => some (name.map fun k => [k])
termination_by t.length
decreasing_by
  have h₁ := name.shorter
  have h₂ := length_skipSpace_le name.rest
  have h₃ := length_skipSpace_le r
  simp only [_h, List.length_cons] at h₂
  omega

/-- **A key.** -/
def readKey (t : Text) : Option (Reading (List Text) t) :=
  (readPath t).filter fun k => k.value.length ≤ depthLimit

/-! ### Blanks, comments and ends of lines -/

/-- The text after blanks, comments and ends of lines. -/
def skipFiller (t : Text) : Text :=
  match t with
  | '#' :: r => skipFiller (r.dropWhile isPlain)
  | '\x0d' :: '\n' :: r => skipFiller r
  | c :: r => if isSpace c || c == '\n' then skipFiller r else c :: r
  | [] => []
termination_by t.length
decreasing_by
  · exact Nat.lt_succ_of_le (length_dropWhile_le isPlain r)
  · simp only [List.length_cons]
    omega
  · simp

theorem length_skipFiller_le (t : Text) : (skipFiller t).length ≤ t.length := by
  fun_induction skipFiller t with
  | case1 r ih =>
    have := length_dropWhile_le isPlain r
    simp only [List.length_cons]
    omega
  | case2 r ih => simp only [List.length_cons]; omega
  | case3 c r _ _ _ ih => simp only [List.length_cons]; omega
  | case4 => exact Nat.le_refl _
  | case5 => exact Nat.le_refl _

/-- A comment at the start of a text is left out, up to the end of its line. -/
def skipComment : Text → Text
  | '#' :: r => r.dropWhile isPlain
  | t => t

theorem length_skipComment_le (t : Text) : (skipComment t).length ≤ t.length := by
  unfold skipComment
  split
  · rename_i r
    have := length_dropWhile_le isPlain r
    simp only [List.length_cons]
    omega
  · exact Nat.le_refl _

/-- **The lines after this one**, if nothing is left of it but blanks and a comment. -/
def afterLine? (t : Text) : Option Text :=
  match skipComment (skipSpace t) with
  | [] => some []
  | r => afterNewline? r

theorem length_afterLine? {t r : Text} (h : afterLine? t = some r) : r.length ≤ t.length := by
  have h₁ := length_skipComment_le (skipSpace t)
  have h₂ := length_skipSpace_le t
  unfold afterLine? at h
  split at h
  · obtain rfl := Option.some.inj h
    exact Nat.zero_le _
  · have := length_afterNewline? h
    omega

/-! ### Values -/

/-- The text begins with the hours of a time: two digits and a colon. -/
def beginsTime (t : Text) : Bool :=
  match twoDigits? t with
  | some (_, ':' :: _) => true
  | _ => false

/-- **A word.** A date and a time may have a space between them, which no other word
has. -/
def readWord (t : Text) : Option (Reading TomlValue t) := do
  let w ← readWhile isWordChar t
  match _h : w.rest with
  | ' ' :: r =>
    if afterDate? w.value = some [] && beginsTime r then
      let time ← readWhile isWordChar r
      let v ← ofWord? (w.value ++ ' ' :: time.value)
      some ⟨v, time.rest, by
        have h₁ := w.shorter
        have h₂ := time.shorter
        simp only [_h, List.length_cons] at h₁
        omega⟩
    else (ofWord? w.value).map fun v => w.map fun _ => v
  | _ => (ofWord? w.value).map fun v => w.map fun _ => v

mutual

/-- A value, which begins with the first character of the text, with values nested in it
to so many levels at most. -/
def readValue (depth : Nat) (t : Text) : Option (Reading TomlValue t) :=
  match t with
  | '"' :: r => (readString ('"' :: r)).map (·.map .string)
  | '\'' :: r => (readString ('\'' :: r)).map (·.map .string)
  | '[' :: r =>
    match depth with
    | 0 => none
    | d + 1 => (readItems d r).map fun vs => (vs.map .array).ofTail
  | '{' :: r =>
    match depth with
    | 0 => none
    | d + 1 =>
      match _h : skipSpace r with
      | '}' :: rest => some ⟨.inlineTable [], rest, by
          have := length_skipSpace_le r
          simp only [_h, List.length_cons] at this ⊢
          omega⟩
      | _ =>
        match readPairs d r with
        | none => none
        | some ps =>
          (TomlEntries.insertAll ps.value []).map fun es => (ps.map fun _ => inlineTable es).ofTail
  | t => readWord t
termination_by 2 * t.length
decreasing_by all_goals (simp only [List.length_cons]; omega)

/-- The items of an array up to the closing bracket. A comma may follow the last. -/
def readItems (depth : Nat) (t : Text) : Option (Reading (List TomlValue) t) :=
  match _h₀ : skipFiller t with
  | ']' :: r => some ⟨[], r, by
      have := length_skipFiller_le t
      simp only [_h₀, List.length_cons] at this
      omega⟩
  | s =>
    match readValue depth s with
    | none => none
    | some v =>
      have shorter : v.rest.length < t.length := by
        have h₁ := length_skipFiller_le t
        have h₂ := v.shorter
        rw [_h₀] at h₁
        omega
      match _h₁ : skipFiller v.rest with
      | ',' :: r =>
        match readItems depth r with
        | none => none
        | some vs => some ((vs.map (v.value :: ·)).weaken (by
            have h := length_skipFiller_le v.rest
            simp only [_h₁, List.length_cons] at h
            omega))
      | ']' :: r => some ⟨[v.value], r, by
          have h := length_skipFiller_le v.rest
          simp only [_h₁, List.length_cons] at h
          omega⟩
      | _ => none
termination_by 2 * t.length + 1
decreasing_by
  · have h₁ := length_skipFiller_le t
    rw [_h₀] at h₁
    omega
  · have h := length_skipFiller_le v.rest
    simp only [_h₁, List.length_cons] at h
    omega

/-- The pairs of a table between braces, of which there is one at least, and the closing
brace. -/
def readPairs (depth : Nat) (t : Text) : Option (Reading (List (List Text × TomlValue)) t) :=
  match readKey (skipSpace t) with
  | none => none
  | some key =>
    match _h₀ : skipSpace key.rest with
    | '=' :: r₀ =>
      match readValue depth (skipSpace r₀) with
      | none => none
      | some v =>
        have shorter : v.rest.length + 2 ≤ t.length := by
          have h₁ := length_skipSpace_le t
          have h₂ := key.shorter
          have h₃ := length_skipSpace_le key.rest
          have h₄ := length_skipSpace_le r₀
          have h₅ := v.shorter
          simp only [_h₀, List.length_cons] at h₃
          omega
        match _h₁ : skipSpace v.rest with
        | ',' :: r =>
          match readPairs depth r with
          | none => none
          | some ps => some ((ps.map ((key.value, v.value) :: ·)).weaken (by
              have h := length_skipSpace_le v.rest
              simp only [_h₁, List.length_cons] at h
              omega))
        | '}' :: r => some ⟨[(key.value, v.value)], r, by
            have h := length_skipSpace_le v.rest
            simp only [_h₁, List.length_cons] at h
            omega⟩
        | _ => none
    | _ => none
termination_by 2 * t.length + 1
decreasing_by
  · have h₁ := length_skipSpace_le t
    have h₂ := key.shorter
    have h₃ := length_skipSpace_le key.rest
    have h₄ := length_skipSpace_le r₀
    simp only [_h₀, List.length_cons] at h₃
    omega
  · have h := length_skipSpace_le v.rest
    simp only [_h₁, List.length_cons] at h
    omega

end

/-! ### Lines and documents -/

/-- A header after its opening brackets, with the brackets that close it. -/
def readHeader (closing : Text) (t : Text) : Option (Reading (List Text) t) := do
  let key ← readKey (skipSpace t)
  match _h : afterStart? closing (skipSpace key.rest) with
  | none => none
  | some r => some ⟨key.value, r, by
      have h₁ := length_skipSpace_le t
      have h₂ := key.shorter
      have h₃ := length_skipSpace_le key.rest
      have h₄ := congrArg List.length (afterStart?_eq_some_iff.mp _h)
      rw [List.length_append] at h₄
      omega⟩

/-- A pair of key and value. -/
def readPair (t : Text) : Option (Reading TomlLine t) := do
  let key ← readKey t
  match _h : skipSpace key.rest with
  | '=' :: r =>
    let v ← readValue depthLimit (skipSpace r)
    some ⟨.pair key.value v.value, v.rest, by
      have h₁ := key.shorter
      have h₂ := length_skipSpace_le key.rest
      have h₃ := length_skipSpace_le r
      have h₄ := v.shorter
      simp only [_h, List.length_cons] at h₂
      omega⟩
  | _ => none

/-- **What a line says**, for a line that begins with a character of it. -/
def readLine : (t : Text) → Option (Reading TomlLine t)
  | '[' :: '[' :: r => (readHeader [']', ']'] r).map fun h => (h.map .itemHeader).ofTail.ofTail
  | '[' :: r => (readHeader [']'] r).map fun h => (h.map .tableHeader).ofTail
  | t => readPair t

/-- The lines of a text that say something. -/
def lines? (t : Text) : Option (List TomlLine) :=
  match _h₀ : skipSpace t with
  | [] => some []
  | '#' :: r =>
    match _h₁ : afterLine? (r.dropWhile isPlain) with
    | some rest => lines? rest
    | none => none
  | '\n' :: r => lines? r
  | '\x0d' :: '\n' :: r => lines? r
  | s =>
    match readLine s with
    | none => none
    | some l =>
      match _h₁ : afterLine? l.rest with
      | some rest => (lines? rest).map (l.value :: ·)
      | none => none
termination_by t.length
decreasing_by
  · have h₁ := length_skipSpace_le t
    have h₂ := length_dropWhile_le isPlain r
    have h₃ := length_afterLine? _h₁
    simp only [_h₀, List.length_cons] at h₁
    omega
  · have h₁ := length_skipSpace_le t
    simp only [_h₀, List.length_cons] at h₁
    omega
  · have h₁ := length_skipSpace_le t
    simp only [_h₀, List.length_cons] at h₁
    omega
  · have h₁ := length_skipSpace_le t
    have h₂ := l.shorter
    have h₃ := length_afterLine? _h₁
    rw [_h₀] at h₁
    omega

/-- The text without the mark of its encoding, if it begins with one. -/
def skipMark : Text → Text
  | '\ufeff' :: t => t
  | t => t

/-- **Reads a TOML document.** -/
def document? (t : Text) : Option TomlEntries := (lines? (skipMark t)).bind TomlEntries.ofLines?

end TomlValue

end CssResources
