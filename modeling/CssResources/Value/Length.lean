import CssResources.Number.Numeral

/-!
# Lengths and percentages

A resource has whole lengths. A length in `px`, or without a unit, loses its fraction;
one in `rem` or `em` is multiplied by the size of a font and rounded; `auto` is 0.
Percentages are rounded. Whatever else a value may be, it is no length.
-/

namespace CssResources

/-- The font size that `rem` multiplies. -/
def rootFontSize : Nat := 12

/-- The font size that `em` multiplies. -/
def baseFontSize : Nat := 16

/-- A character that the number of a length may begin with. -/
def isNumberStart (c : Char) : Bool := c.isDigit || c == '-' || c == '+' || c == '.'

/-- A finite number in digits, with blanks allowed around it. -/
def finiteNumber? (t : Text) : Option Binary64 :=
  let number := trim t
  if number.head?.any isNumberStart then
    (Binary64.ofText? number).filter Binary64.isFinite
  else none

/-- **The whole length of a value.** The unit `rem` ends in `em`, so it is tried
first. -/
def length? (value : Text) : Option Int :=
  let t := trim value
  if t = "auto".toList then some 0
  else
    match beforeEnd? "px".toList t with
    | some number => (finiteNumber? number).map Binary64.truncate
    | none =>
      match beforeEnd? "rem".toList t with
      | some number => (finiteNumber? number).map fun x => (x.scale rootFontSize 1).round
      | none =>
        match beforeEnd? "em".toList t with
        | some number => (finiteNumber? number).map fun x => (x.scale baseFontSize 1).round
        | none => (finiteNumber? t).map Binary64.truncate

/-- **The whole percentage of a value**, for a value that ends in `%`. -/
def percentage? (value : Text) : Option Int := do
  let number ← beforeEnd? ['%'] (trim value)
  (finiteNumber? number).map Binary64.round

end CssResources
