import CssResources.Stylesheet.Comment
import CssResources.Stylesheet.Fragment

/-!
# Reading a stylesheet

`CssResources.Stylesheet.ofText` reads every text: comments are removed, the rest is cut
into fragments, and the fragments give the rules and the diagnostics in source order.
Nothing is rejected; what cannot be read is dropped or reported.
-/

namespace CssResources

/-- **A stylesheet as read**: its rules in source order, and what was found while
reading. -/
structure Stylesheet where
  /-- The rules in source order. -/
  rules : List Rule
  /-- The findings in source order. -/
  diagnostics : List Diagnostic
  deriving DecidableEq, Repr

namespace Stylesheet

/-- The fragments of a source text, whose first line is line 1. -/
def fragmentsOf (source : Text) : List Fragment := fragments 1 (stripComments source)

/-- **Reads a stylesheet.** -/
def ofText (source : Text) : Stylesheet where
  rules := Rule.mergeLoose ((fragmentsOf source).flatMap Fragment.rules)
  diagnostics := (fragmentsOf source).flatMap Fragment.diagnostics

end Stylesheet

end CssResources
