import CssResources.Property.Basic
import CssResources.Resource.Basic
import CssResources.Text.Erase
import CssResources.Value.Color
import CssResources.Value.Fraction
import CssResources.Value.Important
import CssResources.Value.Length
import CssResources.Value.Token
import CssResources.Variable.Reference

/-!
# Translating declarations

A property and a value become an item, several items, or none if the attribute cannot
take the value. A value that keeps a reference to a custom property is not converted: it
stands as it is written, and its item is commented, with the dashes of the reference
left out, as a comment cannot hold them.

| property | attribute | value |
|---|---|---|
| `color` | `textColor` | a color literal, or the text in upper case |
| `font-size` | `textSize` | a length in `sp` |
| `font-weight` | `textStyle` | as it is |
| `font-family` | `fontFamily` | as it is |
| `background-color` | `background` | as it is |
| `text-decoration`, `text-align` | `textDecoration`, `gravity` | a word of Android |
| `opacity` | `alpha` | a fraction |
| `padding`, and its sides | `padding`, and its sides | lengths in `sp` |
| `margin`, and its sides | `layout_margin`, and its sides | lengths in `sp` |
| `width`, `height` | `layout_width`, `layout_height` | a length in `dp`, or a weight |
-/

namespace CssResources

/-! ### Translations -/

/-- **The items of a declaration.** -/
inductive Translation where
  /-- The attribute cannot take the value. -/
  | none
  /-- One item. -/
  | single (item : Item)
  /-- Items that belong together. -/
  | multiple (items : List Item)
  deriving DecidableEq, Repr

namespace Translation

/-- The items of a translation. -/
def items : Translation → List Item
  | none => []
  | single i => [i]
  | multiple is => is

/-- The translation with its items changed. -/
def map (f : Item → Item) : Translation → Translation
  | none => none
  | single i => single (f i)
  | multiple is => multiple (is.map f)

/-- The items of a changed translation are the changed items. -/
@[simp] theorem items_map (f : Item → Item) (t : Translation) :
    (t.map f).items = t.items.map f := by
  cases t <;> rfl

/-- One item, if there is a value for it. -/
def ofValue? (attributeName : Text) (value? : Option Text) : Translation :=
  match value? with
  | some value => single { attributeName, value }
  | Option.none => none

end Translation

/-! ### Values -/

/-- The value if it keeps a reference, else what `f` makes of it. -/
def unlessReference (f : Text → Option Text) (value : Text) : Option Text :=
  if hasReference value then some value else f value

/-- The value of a text color: a color function becomes a literal if it can be read, all
else stands in upper case. -/
def textColor (value : Text) : Text :=
  if isColorFunction value then (colorHex? value).getD (uppercase value) else uppercase value

/-- The whole length of a value with its unit. -/
def lengthIn? (unit value : Text) : Option Text := (length? value).map fun n => intText n ++ unit

/-- The unit of lengths that grow with the font. -/
def scaledUnit : Text := "sp".toList

/-- The unit of other lengths. -/
def plainUnit : Text := "dp".toList

/-- The word for a decoration of text. -/
def decoration? (value : Text) : Option Text :=
  let word := lowerAscii (trim value)
  if word = "underline".toList then some "Underline".toList
  else if word = "line-through".toList then some "LineThrough".toList
  else none

/-- The word for an alignment of text. -/
def gravity? (value : Text) : Option Text :=
  let word := lowerAscii (trim value)
  if word = "left".toList ∨ word = "start".toList then some "start".toList
  else if word = "center".toList then some "center".toList
  else if word = "right".toList ∨ word = "end".toList then some "end".toList
  else none

/-! ### Properties -/

/-- The tokens of the four sides in the order of `CssResources.Side.all`, from the two to
four tokens of a shorthand: what is missing is taken from the side opposite. -/
def sideTokens? : List Text → Option (List Text)
  | [vertical, horizontal] => some [vertical, horizontal, vertical, horizontal]
  | [top, horizontal, bottom] => some [top, horizontal, bottom, horizontal]
  | [top, right, bottom, left] => some [top, right, bottom, left]
  | _ => none

/-- The item of one side. -/
def sideItem? (spacing : Spacing) (side : Side) (token : Text) : Option Item :=
  (unlessReference (lengthIn? scaledUnit) token).map fun value =>
    { attributeName := spacing.sideAttribute side, value }

/-- **A shorthand**: one token is for all sides together, two to four give an item for
each side. If one of them has no length there are none. -/
def translateShorthand (spacing : Spacing) (value : Text) : Translation :=
  match tokens value with
  | [token] =>
    .ofValue? spacing.attributeName (unlessReference (lengthIn? scaledUnit) token)
  | ts =>
    match (sideTokens? ts).bind fun sides =>
        (Side.all.zip sides).mapM fun p => sideItem? spacing p.1 p.2 with
    | some items => .multiple items
    | none => .none

/-- **A size**: a percentage is a weight, for which the size itself is zero. -/
def translateExtent (extent : Extent) (value : Text) : Translation :=
  match percentage? value with
  | some percent =>
    .multiple
      [{ attributeName := extent.attributeName, value := "0dp".toList },
       { attributeName := "layout_weight".toList, value := weightText percent }]
  | none => .ofValue? extent.attributeName (unlessReference (lengthIn? plainUnit) value)

namespace Property

/-- **The items of a property with a value.** -/
def translate (p : Property) (value : Text) : Translation :=
  match p with
  | color => .ofValue? "textColor".toList (unlessReference (some ∘ textColor) value)
  | fontSize => .ofValue? "textSize".toList (unlessReference (lengthIn? scaledUnit) value)
  | fontWeight => .ofValue? "textStyle".toList (some value)
  | fontFamily => .ofValue? "fontFamily".toList (some value)
  | backgroundColor => .ofValue? "background".toList (some value)
  | textDecoration => .ofValue? "textDecoration".toList (unlessReference decoration? value)
  | textAlign => .ofValue? "gravity".toList (unlessReference gravity? value)
  | opacity => .ofValue? "alpha".toList (unlessReference opacityText? value)
  | shorthand spacing => translateShorthand spacing value
  | edge spacing side =>
    .ofValue? (spacing.sideAttribute side) (unlessReference (lengthIn? scaledUnit) value)
  | extent e => translateExtent e value

end Property

/-- The text without the pairs of dashes that a comment cannot hold. -/
def eraseDashes (t : Text) : Text := erase "--".toList t

/-- Comments an item out if its value keeps a reference. -/
def markUnresolved (i : Item) : Item :=
  if hasReference i.value then { i with value := eraseDashes i.value, commented := true } else i

/-- **Translates a declaration** of a property name and a value, which may carry markers.
A name without counterpart has no items. -/
def translate (name value : Text) : Translation :=
  match Property.ofName? name with
  | some p => (p.translate (stripImportant value)).map markUnresolved
  | none => .none

end CssResources
