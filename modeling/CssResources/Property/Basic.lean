import CssResources.Text.Basic

/-!
# Properties

The properties of a stylesheet that have a counterpart in Android. Those with a name for
each side of a box are one family, as the sides all behave alike.
`CssResources.Property.ofName?` finds a property by its name, so every property is found
by the name it has and by no other.
-/

namespace CssResources

/-- A side of a box. -/
inductive Side where
  /-- The top. -/
  | top
  /-- The right. -/
  | right
  /-- The bottom. -/
  | bottom
  /-- The left. -/
  | left
  deriving DecidableEq, Repr

namespace Side

/-- The sides in the order in which a shorthand gives them. -/
def all : List Side := [top, right, bottom, left]

/-- The name of a side. -/
def name : Side → Text
  | top => "top".toList
  | right => "right".toList
  | bottom => "bottom".toList
  | left => "left".toList

/-- The end of the attribute of a side. -/
def attributeSuffix : Side → Text
  | top => "Top".toList
  | right => "Right".toList
  | bottom => "Bottom".toList
  | left => "Left".toList

end Side

/-- The spacing of a box: inside or outside its border. -/
inductive Spacing where
  /-- Inside the border. -/
  | padding
  /-- Outside the border. -/
  | margin
  deriving DecidableEq, Repr

namespace Spacing

/-- The name of a spacing. -/
def name : Spacing → Text
  | padding => "padding".toList
  | margin => "margin".toList

/-- The attribute for all four sides. -/
def attributeName : Spacing → Text
  | padding => "padding".toList
  | margin => "layout_margin".toList

/-- The attribute for one side. -/
def sideAttribute (s : Spacing) (side : Side) : Text := s.attributeName ++ side.attributeSuffix

end Spacing

/-- A size of a box. -/
inductive Extent where
  /-- The width. -/
  | width
  /-- The height. -/
  | height
  deriving DecidableEq, Repr

namespace Extent

/-- The name of a size. -/
def name : Extent → Text
  | width => "width".toList
  | height => "height".toList

/-- The attribute of a size. -/
def attributeName : Extent → Text
  | width => "layout_width".toList
  | height => "layout_height".toList

end Extent

/-- **A property with a counterpart in Android.** -/
inductive Property where
  /-- The color of text. -/
  | color
  /-- The size of text. -/
  | fontSize
  /-- The weight of text. -/
  | fontWeight
  /-- The font of text. -/
  | fontFamily
  /-- The color of the background. -/
  | backgroundColor
  /-- The lines drawn with text. -/
  | textDecoration
  /-- The side that text is aligned to. -/
  | textAlign
  /-- The opacity. -/
  | opacity
  /-- The spacing of all sides of a box. -/
  | shorthand (spacing : Spacing)
  /-- The spacing of one side of a box. -/
  | edge (spacing : Spacing) (side : Side)
  /-- A size of a box. -/
  | extent (extent : Extent)
  deriving DecidableEq, Repr

namespace Property

/-- The name of a property. -/
def name : Property → Text
  | color => "color".toList
  | fontSize => "font-size".toList
  | fontWeight => "font-weight".toList
  | fontFamily => "font-family".toList
  | backgroundColor => "background-color".toList
  | textDecoration => "text-decoration".toList
  | textAlign => "text-align".toList
  | opacity => "opacity".toList
  | shorthand s => s.name
  | edge s side => s.name ++ '-' :: side.name
  | extent e => e.name

/-- All properties. -/
def all : List Property :=
  [color, fontSize, fontWeight, fontFamily, backgroundColor, textDecoration, textAlign, opacity]
    ++ [Spacing.padding, Spacing.margin].map shorthand
    ++ Side.all.map (edge .padding) ++ Side.all.map (edge .margin)
    ++ [Extent.width, Extent.height].map extent

/-- **The property of a name.** -/
def ofName? (name : Text) : Option Property := all.find? (·.name = name)

/-- The property gives the spacing of all sides. -/
def isShorthand : Property → Bool
  | shorthand _ => true
  | _ => false

/-- Every property is listed. -/
theorem mem_all (p : Property) : p ∈ all := by
  cases p with
  | shorthand s => cases s <;> decide
  | edge s side => cases s <;> cases side <;> decide
  | extent e => cases e <;> decide
  | _ => decide

/-- A property found has the name it was looked for by. -/
theorem name_of_ofName? {n : Text} {p : Property} (h : ofName? n = some p) : p.name = n := by
  simpa using List.find?_some h

/-- **A property is found by its name.** -/
theorem ofName?_name (p : Property) : ofName? p.name = some p := by
  cases p with
  | shorthand s => cases s <;> decide
  | edge s side => cases s <;> cases side <;> decide
  | extent e => cases e <;> decide
  | _ => decide

end Property

end CssResources
