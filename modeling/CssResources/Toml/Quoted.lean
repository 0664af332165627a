import CssResources.Number.Hexadecimal
import CssResources.Text.Reading
import CssResources.Toml.Basic

/-!
# Strings of TOML

A string stands between quotes, of which there are four kinds: in double quotes a
backslash begins an escape, in single quotes it does not; and with three quotes at each
end the string may have several lines. At the end of such a string one or two quotes may
stand in front of the closing three.
-/

namespace CssResources

namespace TomlValue

/-- A character that stands for itself in strings and comments: a tab, or one that is no
control. -/
def isPlain (c : Char) : Bool := c == '\t' || (' ' ≤ c && c ≠ '\x7f')

/-- A blank within a line. -/
def isSpace (c : Char) : Bool := c == ' ' || c == '\t'

/-- The text after the blanks at its start. -/
def skipSpace (t : Text) : Text := t.dropWhile isSpace

theorem length_skipSpace_le (t : Text) : (skipSpace t).length ≤ t.length :=
  length_dropWhile_le isSpace t

/-- What follows the end of a line at the start of a text. -/
def afterNewline? : Text → Option Text
  | '\n' :: t => some t
  | '\x0d' :: '\n' :: t => some t
  | _ => none

/-- The end of a line is a character or more. -/
theorem length_afterNewline? {t r : Text} (h : afterNewline? t = some r) :
    r.length < t.length := by
  unfold afterNewline? at h
  split at h
  · obtain rfl := Option.some.inj h
    exact Nat.lt_succ_self _
  · obtain rfl := Option.some.inj h
    simp only [List.length_cons]
    omega
  · exact nomatch h

/-- The text after a first line that is empty. -/
def skipFirstNewline (t : Text) : Text := (afterNewline? t).getD t

theorem length_skipFirstNewline_le (t : Text) : (skipFirstNewline t).length ≤ t.length := by
  unfold skipFirstNewline
  cases h : afterNewline? t with
  | none => exact Nat.le_refl _
  | some r => exact Nat.le_of_lt (length_afterNewline? h)

/-- The text after blanks and ends of lines. A carriage return belongs to the end of a
line only. -/
def skipLines : Text → Text
  | '\x0d' :: '\n' :: t => skipLines t
  | c :: t => if isSpace c || c == '\n' then skipLines t else c :: t
  | [] => []

theorem length_skipLines_le (t : Text) : (skipLines t).length ≤ t.length := by
  fun_induction skipLines t with
  | case1 t ih => simp only [List.length_cons]; omega
  | case2 c t _ _ ih => simp only [List.length_cons]; omega
  | case3 => exact Nat.le_refl _
  | case4 => exact Nat.le_refl _

/-! ### Escapes -/

/-- The character of a code, unless the code is that of half a character or of none. -/
def charOfCode? (n : Nat) : Option Char :=
  if h : n.isValidChar then some (Char.ofNatAux n h) else none

/-- The character that a backslash and a letter stand for. -/
def escaped? : Char → Option Char
  | 'b' => some '\x08'
  | 't' => some '\t'
  | 'n' => some '\n'
  | 'f' => some '\x0c'
  | 'r' => some '\x0d'
  | '"' => some '"'
  | '\\' => some '\\'
  | _ => none

/-- **An escape after its backslash**: a letter, or the code of a character in four or
eight hexadecimal digits. -/
def readEscape : (t : Text) → Option (Reading Char t)
  | 'u' :: a :: b :: c :: d :: _ =>
    ((natOfHex? [a, b, c, d]).bind charOfCode?).map fun x => (Reading.head x).after ['u', a, b, c]
  | 'U' :: a :: b :: c :: d :: e :: f :: g :: h :: _ =>
    ((natOfHex? [a, b, c, d, e, f, g, h]).bind charOfCode?).map fun x =>
      (Reading.head x).after ['U', a, b, c, d, e, f, g]
  | c :: _ => (escaped? c).map fun x => .head x
  | [] => none

/-! ### Strings of one line -/

/-- A string in double quotes after its opening quote. -/
def readBasic (t : Text) : Option (Reading Text t) :=
  match t with
  | [] => none
  | c :: r =>
    if c = '"' then some (.head [])
    else if c = '\\' then
      match readEscape r with
      | none => none
      | some x =>
        (readBasic x.rest).map fun s =>
          ((s.map (x.value :: ·)).weaken (Nat.le_of_lt x.shorter)).ofTail
    else if isPlain c then (readBasic r).map fun s => (s.map (c :: ·)).ofTail
    else none
termination_by t.length
decreasing_by
  · have := x.shorter
    simp only [List.length_cons]
    omega
  · simp

/-- A string in single quotes after its opening quote. -/
def readLiteral : (t : Text) → Option (Reading Text t)
  | [] => none
  | c :: r =>
    if c = '\'' then some (.head [])
    else if isPlain c then (readLiteral r).map fun s => (s.map (c :: ·)).ofTail
    else none

/-! ### Strings of several lines -/

/-- **The end of a string of several lines** at a run of its quotes: three to five quotes
end it, and those before the last three belong to it. More do not occur. -/
def readClosing (quote : Char) (t : Text) : Option (Reading Text t) :=
  if h : 3 ≤ (t.takeWhile (· == quote)).length ∧ (t.takeWhile (· == quote)).length ≤ 5 then
    some ⟨(t.takeWhile (· == quote)).drop 3, t.dropWhile (· == quote), by
      have hrun : t.takeWhile (· == quote) ++ t.dropWhile (· == quote) = t :=
        List.takeWhile_append_dropWhile
      have hsum := congrArg List.length hrun
      rw [List.length_append] at hsum
      omega⟩
  else none

/-- The text begins with three quotes or more. -/
def atClosing (quote : Char) (t : Text) : Bool := [quote, quote, quote].isPrefixOf t

/-- What follows a backslash, the end of its line, and all blanks and ends of lines after
it. -/
def afterContinuation? (t : Text) : Option Text := (afterNewline? (skipSpace t)).map skipLines

theorem length_afterContinuation? {t r : Text} (h : afterContinuation? t = some r) :
    r.length ≤ t.length := by
  obtain ⟨s, hs, rfl⟩ := Option.map_eq_some_iff.mp h
  have h₁ := length_skipLines_le s
  have h₂ := length_skipSpace_le t
  have h₃ := length_afterNewline? hs
  omega

/-- **A string of several lines after its opening quotes** and a first line that is
empty. Ends of lines are read as line breaks; in double quotes escapes are read, and a
backslash at the end of a line takes away the blanks up to the next text. -/
def readMultiline (quote : Char) (t : Text) : Option (Reading Text t) :=
  if atClosing quote t then readClosing quote t
  else
    match t with
    | [] => none
    | c :: r =>
      if c = '\\' ∧ quote = '"' then
        match _h : afterContinuation? r with
        | some rest =>
          (readMultiline quote rest).map fun s => (s.weaken (length_afterContinuation? _h)).ofTail
        | none =>
          match readEscape r with
          | none => none
          | some x =>
            (readMultiline quote x.rest).map fun s =>
              ((s.map (x.value :: ·)).weaken (Nat.le_of_lt x.shorter)).ofTail
      else if isPlain c || c = '\n' then
        (readMultiline quote r).map fun s => (s.map (c :: ·)).ofTail
      else
        match c, r with
        | '\x0d', '\n' :: r' =>
          (readMultiline quote r').map fun s => (s.map ('\n' :: ·)).ofTail.ofTail
        | _, _ => none
termination_by t.length
decreasing_by
  · have := length_afterContinuation? _h
    simp only [List.length_cons]
    omega
  · have := x.shorter
    simp only [List.length_cons]
    omega
  · simp
  · simp only [List.length_cons]
    omega

/-- **A string** of any of the four kinds, which begins with the first character of the
text. -/
def readString : (t : Text) → Option (Reading Text t)
  | '"' :: '"' :: '"' :: r =>
    (readMultiline '"' (skipFirstNewline r)).map fun s =>
      s.weaken (by have := length_skipFirstNewline_le r; simp only [List.length_cons]; omega)
  | '\'' :: '\'' :: '\'' :: r =>
    (readMultiline '\'' (skipFirstNewline r)).map fun s =>
      s.weaken (by have := length_skipFirstNewline_le r; simp only [List.length_cons]; omega)
  | '"' :: r => (readBasic r).map Reading.ofTail
  | '\'' :: r => (readLiteral r).map Reading.ofTail
  | _ => none

end TomlValue

end CssResources
