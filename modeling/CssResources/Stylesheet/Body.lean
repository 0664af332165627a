import CssResources.Stylesheet.Basic
import CssResources.Text.Nesting

/-!
# The declarations of a block, and the selectors of a group

The inside of a block is cut at the semicolons that stand outside quotes and
parentheses, and each segment is read as a declaration; what is none is dropped. A
group of selectors is cut in the same way at the commas outside parentheses and square
brackets.
-/

namespace CssResources

/-! ### Declarations -/

/-- The segments of a text between the semicolons outside quotes and parentheses, from
the first on. -/
def bodySegments (depth : Nat) (quote : Option Char) : Text → List Text
  | [] => [[]]
  | c :: t =>
    if c = ';' ∧ depth = 0 ∧ quote = none then [] :: bodySegments 0 none t
    else
      consHead c
        (bodySegments (if quote.isSome then depth else depthAfter depth c) (quoteAfter quote c) t)

@[simp] theorem bodySegments_nil (depth : Nat) (quote : Option Char) :
    bodySegments depth quote [] = [[]] := rfl

/-- The declaration of a segment that begins at a line. It stands at the line of its
first character that is not blank. -/
def segmentDeclaration? (line : Nat) (segment : Text) : Option Declaration :=
  Declaration.ofText? (line + newlines (segment.takeWhile isBlank)) segment

/-- The declarations of segments that follow each other from a line on. -/
def segmentDeclarations (line : Nat) : List Text → List Declaration
  | [] => []
  | s :: ss => (segmentDeclaration? line s).toList ++ segmentDeclarations (line + newlines s) ss

@[simp] theorem segmentDeclarations_nil (line : Nat) : segmentDeclarations line [] = [] := rfl

/-- **The declarations of the inside of a block** that begins at a line. -/
def declarationsOf (line : Nat) (body : Text) : List Declaration :=
  segmentDeclarations line (bodySegments 0 none body)

/-! ### Selectors -/

/-- The number of open parentheses and square brackets after one more character. -/
def bracketsAfter (depth : Nat) (c : Char) : Nat :=
  if c = '(' ∨ c = '[' then depth + 1 else if c = ')' ∨ c = ']' then depth - 1 else depth

/-- The parts of a group between the commas outside parentheses and brackets, from the
first on. -/
def selectorParts (depth : Nat) : Text → List Text
  | [] => [[]]
  | c :: t =>
    if c = ',' ∧ depth = 0 then [] :: selectorParts 0 t
    else consHead c (selectorParts (bracketsAfter depth c) t)

/-- **The selectors of a group**, without the blanks around them; empty ones are left
out. -/
def selectorsOf (head : Text) : List Text :=
  ((selectorParts 0 head).map trim).filter (!·.isEmpty)

@[simp] theorem selectorsOf_nil : selectorsOf [] = [] := rfl

end CssResources
