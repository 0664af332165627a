import CssResources.Text.Basic

/-!
# Comments

A comment runs from `/*` to the next `*/`, or to the end of the text if there is none.
It separates what stands around it like a blank, and the lines after it keep their
numbers: a comment is replaced by its line breaks and one space.

Comments are recognised in the whole text, also between quotes.
-/

namespace CssResources

/-- The text without its comments, where the flag says whether the text begins inside
one. -/
def stripCommentsFrom : Bool → Text → Text
  | false, '/' :: '*' :: t => stripCommentsFrom true t
  | true, '*' :: '/' :: t => ' ' :: stripCommentsFrom false t
  | false, c :: t => c :: stripCommentsFrom false t
  | true, c :: t => if c = '\n' then '\n' :: stripCommentsFrom true t else stripCommentsFrom true t
  | false, [] => []
  | true, [] => [' ']

/-- **The text without its comments**, each replaced by its line breaks and a space. -/
def stripComments (t : Text) : Text := stripCommentsFrom false t

@[simp] theorem stripComments_nil : stripComments [] = [] := rfl

end CssResources
