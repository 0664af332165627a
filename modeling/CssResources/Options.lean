import CssResources.TextMap

/-!
# Options

What a conversion is asked for: which kind of resource to write, and what is given
from outside the stylesheet.
-/

namespace CssResources

/-- **The kind of resource that a conversion writes.** -/
inductive Mode where
  /-- Styles, from the rules of classes and elements. -/
  | styles
  /-- Colors, from the custom properties. -/
  | colors
  deriving DecidableEq, Repr

namespace Mode

/-- The name of a mode. -/
def name : Mode → Text
  | styles => "styles".toList
  | colors => "colors".toList

/-- The mode of a name. -/
def ofName? (name : Text) : Option Mode := [styles, colors].find? (·.name = name)

end Mode

/-- **The options of a conversion.** -/
structure Options where
  /-- The kind of resource. -/
  mode : Mode := .styles
  /-- Details of the conversion are wanted; they change no result. -/
  debug : Bool := false
  /-- What every style's name begins with. -/
  stylePrefix? : Option Text := none
  /-- The custom properties defined before the stylesheet is read. -/
  predefined : TextMap Text := ∅

end CssResources
