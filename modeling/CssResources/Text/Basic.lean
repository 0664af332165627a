/-!
# Text

Every text this library handles – a stylesheet, a value, a name, a document – is the
list of its characters. Splitting, matching and substituting are then recursions on
that list, and what they keep or lose is a statement about lists.

| notion | definition |
|---|---|
| blank characters | `CssResources.isBlank` |
| a text without the blanks at its ends | `CssResources.trim` |
| the two sides of the first separator | `CssResources.splitOnce?` |
| line breaks | `CssResources.newlines` |
| size when written out | `CssResources.utf8Size` |
-/

namespace CssResources

/-- A text is the list of its characters. -/
abbrev Text := List Char

/-- It can be decided if a text is among others. -/
instance Text.decidableMem (t : Text) (ts : List Text) : Decidable (t ∈ ts) := inferInstance

/-! ### Blank characters -/

/-- **A blank character**: the Unicode property `White_Space`, that is, the five
controls from tab to carriage return, the space, the next-line control, and the
separators of the space, line and paragraph categories. -/
def isBlank (c : Char) : Bool :=
  ('\t' ≤ c && c ≤ '\x0d') || c == ' ' || c == '\u0085' || c == '\u00a0' || c == '\u1680'
    || ('\u2000' ≤ c && c ≤ '\u200a') || c == '\u2028' || c == '\u2029' || c == '\u202f'
    || c == '\u205f' || c == '\u3000'

/-- A text of blanks only. -/
def isAllBlank (t : Text) : Bool := t.all isBlank

/-- The text from its first character that is not blank. -/
def trimStart (t : Text) : Text := t.dropWhile isBlank

/-- The text up to its last character that is not blank. -/
def trimEnd (t : Text) : Text := (t.reverse.dropWhile isBlank).reverse

/-- The text without the blanks at its two ends. -/
def trim (t : Text) : Text := trimEnd (trimStart t)

/-- The text without the run of `c` at its end. -/
def trimEndOf (c : Char) (t : Text) : Text := (t.reverse.dropWhile (· == c)).reverse

@[simp] theorem trimStart_nil : trimStart [] = [] := rfl

@[simp] theorem trimEnd_nil : trimEnd [] = [] := rfl

@[simp] theorem trim_nil : trim [] = [] := rfl

/-! ### Ends and separators -/

/-- What follows `lead` in a text that starts with it. -/
def afterStart? : Text → Text → Option Text
  | [], t => some t
  | _ :: _, [] => none
  | c :: lead, x :: t => if c = x then afterStart? lead t else none

@[simp] theorem afterStart?_nil_left (t : Text) : afterStart? [] t = some t := rfl

/-- A text starts with `lead` exactly if it is `lead` and what follows. -/
theorem afterStart?_eq_some_iff {lead t rest : Text} :
    afterStart? lead t = some rest ↔ t = lead ++ rest := by
  induction lead generalizing t with
  | nil => simp [eq_comm]
  | cons c lead ih =>
    cases t with
    | nil => simp [afterStart?]
    | cons x t =>
      by_cases h : c = x
      · simp [afterStart?, h, ih]
      · simp [afterStart?, h, Ne.symm h]

/-- What comes before `tail` in a text that ends with it. -/
def beforeEnd? (tail t : Text) : Option Text :=
  (afterStart? tail.reverse t.reverse).map List.reverse

/-- A text ends with `tail` exactly if it is what comes before and `tail`. -/
theorem beforeEnd?_eq_some_iff {tail t rest : Text} :
    beforeEnd? tail t = some rest ↔ t = rest ++ tail := by
  simp only [beforeEnd?, Option.map_eq_some_iff, afterStart?_eq_some_iff]
  constructor
  · rintro ⟨u, hu, rfl⟩
    simpa using congrArg List.reverse hu
  · rintro rfl
    exact ⟨rest.reverse, by simp, by simp⟩

/-- **The two sides of the first `c`**, or nothing if the text has none. -/
def splitOnce? (c : Char) : Text → Option (Text × Text)
  | [] => none
  | x :: t => if x = c then some ([], t) else (splitOnce? c t).map fun p => (x :: p.1, p.2)

@[simp] theorem splitOnce?_nil (c : Char) : splitOnce? c [] = none := rfl

/-- Puts a character in front of the first text of a list, which is empty if there is
none yet. -/
def consHead (c : Char) : List Text → List Text
  | [] => [[c]]
  | w :: ws => (c :: w) :: ws

@[simp] theorem consHead_nil (c : Char) : consHead c [] = [[c]] := rfl

@[simp] theorem consHead_cons (c : Char) (w : Text) (ws : List Text) :
    consHead c (w :: ws) = (c :: w) :: ws := rfl

/-- The parts of a text between the characters that `p` picks out, from the first part
on and with the empty ones. There is always at least one. -/
def splitAll (p : Char → Bool) : Text → List Text
  | [] => [[]]
  | c :: t => if p c then [] :: splitAll p t else consHead c (splitAll p t)

/-- The parts of a text between the characters that `p` picks out, the empty ones left
out. -/
def splitWords (p : Char → Bool) (t : Text) : List Text :=
  (splitAll p t).filter (!·.isEmpty)

/-! ### Lines, size and case -/

/-- The number of line breaks of a text. -/
def newlines (t : Text) : Nat := t.count '\n'

@[simp] theorem newlines_nil : newlines [] = 0 := rfl

theorem newlines_append (s t : Text) : newlines (s ++ t) = newlines s + newlines t :=
  List.count_append

/-- The line breaks of a text and nothing else: what stands for a dropped passage, so
that what follows keeps its line. -/
def lineBreaks (t : Text) : Text := t.filter (· == '\n')

/-- The number of bytes of a text in UTF-8. -/
def utf8Size (t : Text) : Nat := t.foldr (fun c n => c.utf8Size + n) 0

/-- The ASCII capitals of a text in lower case; all other characters stay. -/
def lowerAscii (t : Text) : Text := t.map Char.toLower

end CssResources
