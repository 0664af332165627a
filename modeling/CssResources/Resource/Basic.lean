import CssResources.Text.Basic

/-!
# Resources

What a stylesheet is converted into: styles, which are named rows of items, and colors.
An item or a color whose value keeps a reference to a custom property is written inside
a comment.
-/

namespace CssResources

/-- **An item of a style**: a value for an attribute. -/
structure Item where
  /-- The name of the attribute without its package. -/
  attributeName : Text
  /-- The value. -/
  value : Text
  /-- The item is written inside a comment. -/
  commented : Bool := false
  /-- The package of the attribute, if it names one. -/
  package? : Option Text := some "android".toList
  deriving DecidableEq, Repr

namespace Item

/-- The name of the item: its attribute, after the package and a colon. -/
def name (i : Item) : Text :=
  match i.package? with
  | some package => package ++ ':' :: i.attributeName
  | none => i.attributeName

/-- The item in one line: its name, an equals sign, and its value. -/
def summary (i : Item) : Text := i.name ++ '=' :: i.value

end Item

/-- **A style**: a name, and its items in order. -/
structure Style where
  /-- The name of the resource. -/
  name : Text
  /-- The items in order. -/
  items : List Item
  deriving DecidableEq, Repr

/-- **A color**: a name and a literal. -/
structure ColorResource where
  /-- The name of the resource. -/
  name : Text
  /-- The literal. -/
  value : Text
  /-- The color is written inside a comment. -/
  commented : Bool := false
  deriving DecidableEq, Repr

end CssResources
