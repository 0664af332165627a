import CssResources.Stylesheet.Block
import CssResources.Stylesheet.Body
import CssResources.Text.Reading

/-!
# The top level of a stylesheet

Outside every block a stylesheet is a row of fragments: statements, which a semicolon
or the end of the text ends, and heads with a block. Here neither quotes nor parentheses
hide a semicolon or a brace. A closing brace that closes nothing discards the text in
front of it.

A fragment that begins with `@` is an at-rule and is reported; a statement may be a
declaration outside every block; a head with a block is a rule, if it names a selector.
-/

namespace CssResources

/-- **A fragment of the top level**, with its text trimmed, and the line where that text
begins. -/
inductive Fragment where
  /-- A text up to a semicolon, or up to the end of the stylesheet. -/
  | statement (line : Nat) (text : Text)
  /-- A head and the inside of the block after it, with the line where this begins. -/
  | block (line : Nat) (head : Text) (bodyLine : Nat) (body : Text)
  deriving DecidableEq, Repr

/-- A character that ends the text of a fragment. -/
def endsFragment (c : Char) : Bool := c == '{' || c == ';' || c == '}'

/-- The line of the first character of a text that is not blank, if the text begins at a
given line. -/
def lineOf (line : Nat) (t : Text) : Nat := line + newlines (t.takeWhile isBlank)

/-- **The fragments of a text** that begins at a line. -/
def fragments (line : Nat) (t : Text) : List Fragment :=
  let lead := t.takeWhile (!endsFragment ·)
  match _h : t.dropWhile (!endsFragment ·) with
  | [] => [.statement (lineOf line lead) (trim lead)]
  | c :: rest =>
    let next := line + newlines lead
    if c = '{' then
      let p := splitBlock 0 none rest
      .block (lineOf line lead) (trim lead) next p.1 :: fragments (next + newlines p.1) p.2
    else if c = ';' then
      .statement (lineOf line lead) (trim lead) :: fragments next rest
    else fragments next rest
termination_by t.length
decreasing_by
  all_goals
    have h := length_dropWhile_le (!endsFragment ·) t
    rw [_h, List.length_cons] at h
    first
      | exact Nat.lt_of_le_of_lt (length_splitBlock_snd_le 0 none rest) h
      | exact h

/-! ### What fragments mean -/

/-- The text is that of an at-rule. -/
def isAtRule (t : Text) : Bool := t.head? == some '@'

/-- The name of an at-rule: the letters, digits and dashes after its `@`. -/
def atRuleName (t : Text) : Text :=
  (t.dropWhile (· == '@')).takeWhile fun c => c.isAlphanum || c == '-'

namespace Fragment

/-- The rules of a fragment, of which there is one at most. -/
def rules : Fragment → List Rule
  | statement line text =>
    if isAtRule text then []
    else
      match Declaration.ofText? line text with
      | none => []
      | some d => [{ selectors := [], declarations := [d], line }]
  | block line head bodyLine body =>
    if isAtRule head then []
    else
      match selectorsOf head with
      | [] => []
      | selectors =>
        [{ selectors, declarations := declarationsOf bodyLine (dropNested bodyLine none body).1,
           line }]

/-- What is reported of a fragment: that it is an at-rule, else the rules nested in its
block. -/
def diagnostics : Fragment → List Diagnostic
  | statement line text => if isAtRule text then [.unsupportedAtRule line (atRuleName text)] else []
  | block line head bodyLine body =>
    if isAtRule head then [.unsupportedAtRule line (atRuleName head)]
    else (dropNested bodyLine none body).2

end Fragment

end CssResources
