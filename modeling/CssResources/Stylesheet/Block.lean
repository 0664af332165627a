import CssResources.Diagnostic
import CssResources.Text.Nesting

/-!
# Blocks

The inside of a block ends at the brace that closes it, or at the end of the text.
Braces between quotes do not count, and blocks within the block are passed over
(`CssResources.splitBlock`).

**Rules nested in a block are dropped** (`CssResources.dropNested`): such a rule is what
stands between the last semicolon and the end of its own block. It is reported by the
text in front of its opening brace, and its line breaks stay, so that the declarations
after it keep their lines.
-/

namespace CssResources

/-! ### The end of a block -/

/-- The number of open blocks after one more character. Between quotes no character
opens or closes a block. -/
def blocksAfter (quote : Option Char) (depth : Nat) (c : Char) : Nat :=
  if quote.isSome then depth
  else if c = '{' then depth + 1
  else if c = '}' then depth - 1
  else depth

/-- **Splits a text at the end of the block it begins in**: what is inside, and what
follows the closing brace. Further blocks are open to the depth given, and a quote if
one is given. -/
def splitBlock (depth : Nat) (quote : Option Char) : Text → Text × Text
  | [] => ([], [])
  | c :: t =>
    if quote = none ∧ c = '}' ∧ depth = 0 then ([], t)
    else
      let p := splitBlock (blocksAfter quote depth c) (quoteAfter quote c) t
      (c :: p.1, p.2)

@[simp] theorem splitBlock_nil (depth : Nat) (quote : Option Char) :
    splitBlock depth quote [] = ([], []) := rfl

/-- What follows a block is an end of the text that its inside begins. -/
theorem length_splitBlock_snd_le (depth : Nat) (quote : Option Char) (t : Text) :
    (splitBlock depth quote t).2.length ≤ t.length := by
  induction t generalizing depth quote with
  | nil => simp
  | cons c t ih =>
    rw [splitBlock]
    split
    · simp
    · have := ih (blocksAfter quote depth c) (quoteAfter quote c)
      simp only [List.length_cons]
      omega

/-! ### Nested rules -/

/-- Cuts a text before its first semicolon, or before its first brace outside quotes that
opens a block: what comes first, the quote open at the cut, and the text from there. -/
def cutSegment : Option Char → Text → Text × Option Char × Text
  | quote, [] => ([], quote, [])
  | quote, c :: t =>
    if c = ';' ∨ (quote = none ∧ c = '{') then ([], quote, c :: t)
    else
      let p := cutSegment (quoteAfter quote c) t
      (c :: p.1, p.2)

/-- A cut loses nothing. -/
theorem cutSegment_append (quote : Option Char) (t : Text) :
    (cutSegment quote t).1 ++ (cutSegment quote t).2.2 = t := by
  induction t generalizing quote with
  | nil => simp [cutSegment]
  | cons c t ih =>
    rw [cutSegment]
    split
    · rfl
    · simp [ih]

theorem length_cutSegment_le (quote : Option Char) (t : Text) :
    (cutSegment quote t).2.2.length ≤ t.length := by
  have h := congrArg List.length (cutSegment_append quote t)
  rw [List.length_append] at h
  omega

/-- The report of a nested rule whose block opens at a line, by the text in front of the
block. A block without such a text is no rule. -/
def nestedRule? (line : Nat) (lead : Text) : Option Diagnostic :=
  if isAllBlank lead then none
  else some (.unsupportedSelector line (trim lead) "nested rule".toList)

/-- **The inside of a block without the rules nested in it**, and their reports. Every
semicolon ends a segment, also one between quotes; a nested rule takes with it the
segment that it follows. -/
def dropNested (line : Nat) (quote : Option Char) (t : Text) : Text × List Diagnostic :=
  match _h : cutSegment quote t with
  | (lead, _, []) => (lead, [])
  | (lead, quote', c :: rest) =>
    if c = ';' then
      let p := dropNested (line + newlines lead) quote' rest
      (lead ++ ';' :: p.1, p.2)
    else
      let nested := splitBlock 0 none rest
      let p := dropNested (line + newlines lead + newlines nested.1) none nested.2
      (lineBreaks lead ++ lineBreaks nested.1 ++ p.1,
        (nestedRule? (line + newlines lead) lead).toList ++ p.2)
termination_by t.length
decreasing_by
  all_goals
    have h := length_cutSegment_le quote t
    rw [_h, List.length_cons] at h
    first
      | omega
      | exact Nat.lt_of_le_of_lt (length_splitBlock_snd_le 0 none rest) (by omega)

end CssResources
